import LinuxPrograms.Lib.LostUpdates
import Mathlib.Data.Fintype.Basic

/-!
# Counting without a lock

The programs that show what goes wrong when two threads or processes count in one variable and
nothing keeps them apart. Each `++` and `--` is a load and a store of the machine word, and the
others may run in between.

- `RaceCondition`: four threads, of which two increment and two decrement three variables.
- `TwoWorkers`: two threads that increment one variable.
- `ForkedCounters`: parent and child on the variables of a shared memory segment, which is never
  removed: a run begins with what the run before has left.
-/

namespace Threads

open LabelledSystem SharedCounters

/-! ### Four threads on three variables -/

namespace RaceCondition

/-- The global variables. -/
inductive GlobalVar
  | globalVar1
  | globalVar2
  | globalVar3
  deriving DecidableEq

/-- The two thread functions. -/
inductive Routine
  | threadIncrement
  | threadDecrement

/-- They differ in `++` and `--` only. -/
def Routine.change : Routine → ℤ
  | threadIncrement => 1
  | threadDecrement => -1

/-- The thread functions in the order of `ptr`, from which `main` takes one in turn for each
thread. -/
def ptr (i : Fin 4) : Routine := if i.val % 2 ≠ 0 then .threadDecrement else .threadIncrement

/-- The body of the loop in either function. -/
def loopVars : List GlobalVar := [.globalVar1, .globalVar2, .globalVar3]

/-- The threads `main` creates. One that is not created yet has not taken a step. -/
def program : Program (Fin 4) GlobalVar where
  body := loopVars.map .add
  rounds := 65500
  change i := (ptr i).change

theorem loopVars_count (v : GlobalVar) : loopVars.count v = 1 := by
  cases v <;> decide

theorem change_cases (i : Fin 4) : program.change i = 1 ∨ program.change i = -1 := by
  revert i
  decide

theorem card_increments : (Finset.univ.filter fun i => program.change i = 1).card = 2 := by decide

theorem card_decrements : (Finset.univ.filter fun i => program.change i = -1).card = 2 := by decide

/-- What a thread can find in a variable when it has left the loop, and prints, is any number from
−131000 to 131000. -/
theorem found_iff_abs_le (i : Fin 4) (v : GlobalVar) (x : ℤ) :
    Found program (fun _ => 0) v i x ↔ -131000 ≤ x ∧ x ≤ 131000 := by
  rw [found_iff rfl (loopVars_count v) (by decide) change_cases ⟨0, rfl⟩ ⟨1, rfl⟩,
    card_increments, card_decrements]
  norm_num [program]

end RaceCondition

/-! ### Two threads on one variable -/

namespace TwoWorkers

/-- The two thread functions, which do the same. -/
inductive Worker
  | w1
  | w2
  deriving DecidableEq

instance : Fintype Worker where
  elems := {.w1, .w2}
  complete w := by cases w <;> decide

/-- `w1` and `w2` increment `global`, the one variable, ten thousand times each. -/
def program : Program Worker Unit where
  body := [()].map .add
  rounds := 10000
  change _ := 1

/-- The value a thread prints in the end can be any from 1 to 20000, and what is in `global` when
both have ended any from 2 on. -/
theorem found_and_final_iff (x : ℤ) :
    (∀ w, Found program (fun _ => 0) () w x ↔ 1 ≤ x ∧ x ≤ 20000) ∧
      (Final program (fun _ => 0) () x ↔ 2 ≤ x ∧ x ≤ 20000) := by
  have hrounds : 2 ≤ program.rounds := by decide
  have hcard : Fintype.card Worker = 2 := rfl
  constructor
  · intro w
    have hother : ∃ d, w ≠ d := by cases w <;> decide
    obtain ⟨d, hd⟩ := hother
    rw [found_iff_of_increments rfl rfl hrounds (fun _ => rfl) hd, hcard]
    norm_num [program]
  · rw [final_iff_of_increments rfl rfl hrounds (fun _ => rfl) ⟨.w1, .w2, nofun⟩, hcard]
    norm_num [program]

end TwoWorkers

/-! ### Parent and child on a shared memory segment -/

namespace ForkedCounters

/-- The counters of `struct shareMem`. -/
inductive ShareMem
  | var1
  | var2
  deriving DecidableEq

/-- The processes after the `fork`. -/
inductive Process
  | parent
  | child
  deriving DecidableEq

instance : Fintype Process where
  elems := {.parent, .child}
  complete p := by cases p <;> decide

/-- The parent increments and the child decrements both counters; `while(--i)` from 10000 on has
one round less. -/
def program : Program Process ShareMem where
  body := [ShareMem.var1, .var2].map .add
  rounds := 9999
  change
    | .parent => 1
    | .child => -1

/-- The counters in the segment before a run: zero when the segment is created, and then what both
processes have left there when they had ended. -/
inductive Left : ℕ → (ShareMem → ℤ) → Prop
  | created : Left 0 fun _ => 0
  | run {k : ℕ} {vars : ShareMem → ℤ} {tr : List Process} {s : State Process ShareMem}
      (h : Left k vars) (hrun : Run (Step program) (init program vars) tr s)
      (hfin : Finished s) : Left (k + 1) s.vars

/-- A state in the run of the program before which there were `k`. -/
def During (k : ℕ) (s : State Process ShareMem) : Prop :=
  ∃ vars tr, Left k vars ∧ Run (Step program) (init program vars) tr s

theorem vars_count (v : ShareMem) : [ShareMem.var1, .var2].count v = 1 := by
  cases v <;> decide

theorem change_cases (i : Process) : program.change i = 1 ∨ program.change i = -1 := by
  cases i
  · exact .inl rfl
  · exact .inr rfl

theorem card_increments : (Finset.univ.filter fun i => program.change i = 1).card = 1 := by decide

theorem card_decrements : (Finset.univ.filter fun i => program.change i = -1).card = 1 := by decide

/-- A run takes a counter no further than 9999 from where it was. -/
theorem run_range {vars : ShareMem → ℤ} {tr : List Process} {s : State Process ShareMem}
    (h : Run (Step program) (init program vars) tr s) (v : ShareMem) :
    vars v - 9999 ≤ s.vars v ∧ s.vars v ≤ vars v + 9999 := by
  have h := mem_range (v := v) rfl (vars_count v) change_cases h
  rwa [card_increments, card_decrements] at h

/-- But any of these values can come out. -/
theorem run_final (vars : ShareMem → ℤ) (v : ShareMem) {x : ℤ} (hlow : vars v - 9999 ≤ x)
    (hhigh : x ≤ vars v + 9999) : Final program vars v x := by
  rw [final_iff rfl (vars_count v) (by decide) change_cases ⟨.parent, rfl⟩ ⟨.child, rfl⟩,
    card_increments, card_decrements]
  exact ⟨hlow, hhigh⟩

theorem Left.range {k : ℕ} {vars : ShareMem → ℤ} (h : Left k vars) (v : ShareMem) :
    -(9999 * k : ℤ) ≤ vars v ∧ vars v ≤ 9999 * k := by
  induction h with
  | created => simp
  | run _ hrun _ ih =>
      obtain ⟨hlow, hhigh⟩ := run_range hrun v
      push_cast
      constructor <;> linarith [ih.1, ih.2]

theorem Left.exists_eq {k : ℕ} (v : ShareMem) {x : ℤ} (hlow : -(9999 * k : ℤ) ≤ x)
    (hhigh : x ≤ 9999 * k) : ∃ vars, Left k vars ∧ vars v = x := by
  induction k generalizing x with
  | zero =>
      refine ⟨_, .created, ?_⟩
      push_cast at hlow hhigh
      omega
  | succ k ih =>
      -- The run before left the value that is nearest to `x`.
      push_cast at hlow hhigh
      obtain ⟨vars, hleft, hv⟩ := ih (x := max (-(9999 * k)) (min x (9999 * k)))
        (by omega) (by omega)
      obtain ⟨tr, s, hrun, hfin, rfl⟩ := run_final vars v (x := x) (by omega) (by omega)
      exact ⟨s.vars, hleft.run hrun hfin, rfl⟩

/-- As the segment is never removed, the error of one run is carried into the next: what the
parent can print in run `k + 1` is any number with an absolute value up to `9999 * (k + 1)`. As
long as that is an `int`, no counter overflows. -/
theorem printed_iff (k : ℕ) (hk : 9999 * (k + 1) < 2 ^ 31) (v : ShareMem) :
    (∀ s, During k s → -2 ^ 31 ≤ s.vars v ∧ s.vars v < 2 ^ 31) ∧
      ∀ x : ℤ, (∃ s, During k s ∧ s.threads .parent = .ready 0 [] ∧ s.vars v = x) ↔
        -(9999 * (k + 1) : ℤ) ≤ x ∧ x ≤ 9999 * (k + 1) := by
  have hrange : ∀ s, During k s →
      -(9999 * (k + 1) : ℤ) ≤ s.vars v ∧ s.vars v ≤ 9999 * (k + 1) := by
    rintro s ⟨vars, tr, hleft, hrun⟩
    have hvars := hleft.range v
    have hs := run_range hrun v
    omega
  refine ⟨fun s hs => ?_, fun x => ⟨?_, ?_⟩⟩
  · have := hrange s hs
    omega
  · rintro ⟨s, hs, -, rfl⟩
    exact hrange s hs
  · rintro ⟨hlow, hhigh⟩
    obtain ⟨vars, hleft, hv⟩ := Left.exists_eq v (k := k)
      (x := max (-(9999 * k)) (min x (9999 * k))) (by omega) (by omega)
    obtain ⟨tr, s, hrun, hfin, hx⟩ := run_final vars v (x := x) (by omega) (by omega)
    exact ⟨s, ⟨vars, tr, hleft, hrun⟩, hfin .parent, hx⟩

/-- After two runs the parent can print 19998. -/
theorem printed_iff_second_run :
    ∃ s, During 1 s ∧ s.threads .parent = .ready 0 [] ∧ s.vars .var1 = 19998 :=
  ((printed_iff 1 (by norm_num) .var1).2 19998).mpr ⟨by norm_num, by norm_num⟩

end ForkedCounters

end Threads
