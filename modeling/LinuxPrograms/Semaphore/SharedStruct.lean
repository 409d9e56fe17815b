import Mathlib.Data.BitVec
import Mathlib.Data.Fintype.Defs
import Mathlib.Data.Int.Cast.Lemmas

/-!
# The shared variables

`shared_struct`, the three integers in shared memory, and three statements `++` or `--` on them,
each a load and a store of its own.

- `Access.step`: a load or a store.
- `Access.step_spec`: if nobody else stores in between, the variables count the stores.
-/

namespace SharedMemory

/-- The members of `shared_struct`. -/
inductive Var
  | var1
  | var2
  | var3
  deriving DecidableEq

instance : Fintype Var where
  elems := {.var1, .var2, .var3}
  complete v := by cases v <;> decide

/-- The place of a variable. -/
def Var.index : Var → ℕ
  | var1 => 0
  | var2 => 1
  | var3 => 2

/-- `shared_struct`, with integers of `w` bits. -/
abbrev SharedStruct (w : ℕ) := Var → BitVec w

/-- The three values. -/
def SharedStruct.of {w : ℕ} (a b c : BitVec w) : SharedStruct w
  | .var1 => a
  | .var2 => b
  | .var3 => c

/-- Before a load in the three statements, or between it and the store. -/
inductive Access (w : ℕ)
  | load (v : Var)
  | store (v : Var) (tmp : BitVec w)
  deriving DecidableEq

namespace Access

variable {w : ℕ}

/-- One load or store of the statements, which add `change` to each variable. There is no next one
behind the last store. -/
def step (change : ℤ) (vars : SharedStruct w) : Access w → Option (Access w) × SharedStruct w
  | load v => (some (store v (vars v)), vars)
  | store v tmp =>
      (match v with
        | .var1 => some (load .var2)
        | .var2 => some (load .var3)
        | .var3 => none,
      Function.update vars v (tmp + change))

/-- Between a load and its store. -/
def pending : Access w → Bool
  | load _ => false
  | store .. => true

/-- The variables stored so far, 1 each. -/
def stored (v : Var) : Access w → ℤ
  | load v' | store v' _ => if v.index < v'.index then 1 else 0

/-- What was loaded is still the value of the variable. -/
def Fresh (vars : SharedStruct w) : Access w → Prop
  | load _ => True
  | store v tmp => tmp = vars v

/-- The variables count the stores. -/
theorem step_spec {change : ℤ} {vars vars' : SharedStruct w} {a : Access w}
    {next : Option (Access w)} (hfresh : a.Fresh vars)
    (hstep : a.step change vars = (next, vars')) :
    (∀ a' ∈ next, a'.Fresh vars') ∧ ∀ v, vars' v = vars v +
      ((change * ((next.elim 1 (stored v)) - a.stored v) : ℤ) : BitVec w) := by
  cases a with
  | load v =>
      obtain ⟨rfl, rfl⟩ := Prod.mk.inj hstep
      refine ⟨fun a' ha' => ?_, fun v' => ?_⟩
      · obtain rfl := Option.mem_some_iff.mp ha'
        rfl
      · simp [stored]
  | store v tmp =>
      obtain rfl : tmp = vars v := hfresh
      obtain ⟨rfl, rfl⟩ := Prod.mk.inj hstep
      refine ⟨?_, fun v' => ?_⟩
      · -- Behind a store comes a load, if anything.
        cases v <;> simp [Fresh]
      · -- The one variable that is stored now counts 1 more.
        rcases eq_or_ne v' v with rfl | hne
        · rw [Function.update_self]
          cases v' <;> simp [stored, Var.index]
        · rw [Function.update_of_ne hne]
          cases v <;> cases v' <;> simp_all [stored, Var.index]

end Access

end SharedMemory
