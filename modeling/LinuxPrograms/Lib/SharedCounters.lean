import LinuxPrograms.Lib.LabelledSystem
import Mathlib.Algebra.BigOperators.Ring.Finset
import Mathlib.Algebra.Order.BigOperators.Group.Finset
import Mathlib.Algebra.Order.Ring.Int
import Mathlib.Tactic.Linarith
import Mathlib.Tactic.Ring

/-!
# Threads that count in shared variables

Threads that run one loop body over and over, in which each adds its own change to shared
variables. An addition is a load and a store, and the other threads move in between. The body may
lock and unlock a mutex.

- `Program`, `State`, `move`: the threads and a step of one of them.
- `Program.pending`: the stores to a variable a thread has yet to make.
- `bound`: whatever is lost, a variable stays within what the stores so far can have added.
- `length_add_work`: each step uses up one unit of work, so every run ends.
-/

namespace SharedCounters

open LabelledSystem

/-- A statement of the loop body; `add v` is `v++` or `v--`. -/
inductive Statement (V : Type*)
  | lock
  | unlock
  | add (v : V)
  deriving DecidableEq

/-- A thread before a statement, or between the load and the store of one. It has `left` rounds
not begun and `todo` of the round begun. -/
inductive Thread (V : Type*)
  | ready (left : ℕ) (todo : List (Statement V))
  | loaded (left : ℕ) (todo : List (Statement V)) (v : V) (tmp : ℤ)

/-- All threads run `body` as often as `rounds` says, and thread `i` adds `change i`. -/
structure Program (ι V : Type*) where
  body : List (Statement V)
  rounds : ℕ
  change : ι → ℤ

structure State (ι V : Type*) where
  vars : V → ℤ
  /-- The thread that holds the mutex. -/
  owner : Option ι
  threads : ι → Thread V

variable {ι V : Type*}

/-- No thread has begun its first round. -/
def init (P : Program ι V) (vars : V → ℤ) : State ι V :=
  ⟨vars, none, fun _ => .ready P.rounds []⟩

/-- All threads have ended. -/
def Finished (s : State ι V) : Prop := ∀ i, s.threads i = .ready 0 []

section Put

variable [DecidableEq ι]

/-- Thread `i` goes on at `th`. -/
def State.put (s : State ι V) (i : ι) (th : Thread V) : State ι V :=
  { s with threads := Function.update s.threads i th }

@[simp]
theorem State.put_vars (s : State ι V) (i : ι) (th : Thread V) : (s.put i th).vars = s.vars := rfl

@[simp]
theorem State.put_owner (s : State ι V) (i : ι) (th : Thread V) :
    (s.put i th).owner = s.owner := rfl

@[simp]
theorem State.put_threads (s : State ι V) (i : ι) (th : Thread V) :
    (s.put i th).threads = Function.update s.threads i th := rfl

end Put

variable [DecidableEq V]

section Steps

variable [DecidableEq ι]

/-- A step of thread `i`, if it has not ended and is not kept waiting for the mutex. -/
def move (P : Program ι V) (s : State ι V) (i : ι) : Option (State ι V) :=
  match s.threads i with
  | .ready 0 [] => none
  | .ready (left + 1) [] => some (s.put i (.ready left P.body))
  | .ready left (.lock :: todo) =>
      if s.owner = none then some { s.put i (.ready left todo) with owner := some i } else none
  | .ready left (.unlock :: todo) => some { s.put i (.ready left todo) with owner := none }
  | .ready left (.add v :: todo) => some (s.put i (.loaded left todo v (s.vars v)))
  | .loaded left todo v tmp =>
      some { s.put i (.ready left todo) with
        vars := Function.update s.vars v (tmp + P.change i) }

/-- The steps, labelled with the thread that takes them. -/
def Step (P : Program ι V) (s : State ι V) (i : ι) (t : State ι V) : Prop := move P s i = some t

/-- What a step can be. -/
inductive Move (P : Program ι V) (s : State ι V) (i : ι) : State ι V → Prop
  | begin {left : ℕ} (h : s.threads i = .ready (left + 1) []) :
      Move P s i (s.put i (.ready left P.body))
  | lock {left : ℕ} {todo : List (Statement V)} (h : s.threads i = .ready left (.lock :: todo))
      (hfree : s.owner = none) :
      Move P s i { s.put i (.ready left todo) with owner := some i }
  | unlock {left : ℕ} {todo : List (Statement V)}
      (h : s.threads i = .ready left (.unlock :: todo)) :
      Move P s i { s.put i (.ready left todo) with owner := none }
  | load {left : ℕ} {todo : List (Statement V)} {v : V}
      (h : s.threads i = .ready left (.add v :: todo)) :
      Move P s i (s.put i (.loaded left todo v (s.vars v)))
  | store {left : ℕ} {todo : List (Statement V)} {v : V} {tmp : ℤ}
      (h : s.threads i = .loaded left todo v tmp) :
      Move P s i { s.put i (.ready left todo) with
        vars := Function.update s.vars v (tmp + P.change i) }

variable {P : Program ι V} {s t : State ι V} {i j : ι}

theorem step_iff : Step P s i t ↔ Move P s i t := by
  constructor
  · intro h
    unfold Step move at h
    split at h
    · cases h
    next left hth => cases h; exact .begin hth
    next left todo hth =>
      split at h
      next hfree => cases h; exact .lock hth hfree
      · cases h
    next left todo hth => cases h; exact .unlock hth
    next left todo v hth => cases h; exact .load hth
    next left todo v tmp hth => cases h; exact .store hth
  · intro h
    cases h with
    | begin h => simp only [Step, move, h]
    | lock h hfree => simp only [Step, move, h, hfree, if_true]
    | unlock h => simp only [Step, move, h]
    | load h => simp only [Step, move, h]
    | store h => simp only [Step, move, h]

/-- A step leaves the other threads where they are. -/
theorem Move.threads_of_ne (h : Move P s i t) (hne : j ≠ i) : t.threads j = s.threads j := by
  cases h <;> simp [hne]

end Steps

/-! ### The stores to come -/

section Pending

/-- The stores to `v` a thread has yet to make. -/
def Program.pending (P : Program ι V) (v : V) : Thread V → ℕ
  | .ready left todo => left * P.body.count (.add v) + todo.count (.add v)
  | .loaded left todo v' _ =>
      left * P.body.count (.add v) + todo.count (.add v) + if v' = v then 1 else 0

section Due

variable [Fintype ι]

/-- The stores to `v` to come, each counted with the weight of its thread. -/
def Program.due (P : Program ι V) (w : ι → ℤ) (v : V) (s : State ι V) : ℤ :=
  ∑ i, w i * P.pending v (s.threads i)

variable {P : Program ι V} {w : ι → ℤ} {v : V} {s t : State ι V} {i : ι}

theorem due_init (vars : V → ℤ) :
    P.due w v (init P vars) = (∑ i, w i) * (P.rounds * P.body.count (.add v)) := by
  simp [Program.due, init, Program.pending, Finset.sum_mul]

theorem due_finished (h : Finished s) : P.due w v s = 0 := by
  simp [Program.due, h _, Program.pending]

theorem due_nonneg (hw : ∀ i, 0 ≤ w i) : 0 ≤ P.due w v s :=
  Finset.sum_nonneg fun i _ => mul_nonneg (hw i) (Int.natCast_nonneg _)

variable [DecidableEq ι]

/-- A sum over the threads of which one has gone on. -/
theorem sum_update {β : Type*} (g : ι → β → ℤ) (f : ι → β) (i : ι) (b : β) :
    ∑ j, g j (Function.update f i b j) = ∑ j, g j (f j) + (g i b - g i (f i)) := by
  rw [Fintype.sum_eq_add_sum_compl i, Fintype.sum_eq_add_sum_compl i (fun j => g j (f j)),
    Function.update_self]
  have hrest : ∑ j ∈ {i}ᶜ, g j (Function.update f i b j) = ∑ j ∈ {i}ᶜ, g j (f j) := by
    refine Finset.sum_congr rfl fun j hj => ?_
    rw [Function.update_of_ne (by simpa using hj)]
  rw [hrest]
  ring

/-- What is due after thread `i` has gone on. -/
theorem Move.due (h : Move P s i t) : P.due w v t = P.due w v s +
    w i * ((P.pending v (t.threads i) : ℤ) - P.pending v (s.threads i)) := by
  have hput : ∃ th, t.threads = Function.update s.threads i th := by
    cases h <;> exact ⟨_, rfl⟩
  obtain ⟨th, hth⟩ := hput
  rw [Program.due, hth, sum_update (fun j th => w j * (P.pending v th : ℤ)),
    Function.update_self, mul_sub]
  rfl

end Due

variable [DecidableEq ι] {P : Program ι V} {w : ι → ℤ} {s t : State ι V} {i : ι}

/-- A step is a store to `v` of what was loaded, with the change added, or leaves `v` and the
stores to come alone and loads no other value than that in `v`. -/
theorem Move.effect (h : Move P s i t) (v : V) :
    (∃ left todo tmp, s.threads i = .loaded left todo v tmp ∧
      t.threads i = .ready left todo ∧ t.vars v = tmp + P.change i ∧
      P.pending v (s.threads i) = P.pending v (t.threads i) + 1) ∨
    (t.vars v = s.vars v ∧ P.pending v (t.threads i) = P.pending v (s.threads i) ∧
      ∀ left todo tmp, t.threads i = .loaded left todo v tmp →
        tmp = s.vars v ∧ s.threads i = .ready left (.add v :: todo)) := by
  cases h with
  | begin h =>
      refine .inr ⟨rfl, ?_, fun left todo tmp hth => by simp at hth⟩
      rw [h]
      simp [Program.pending]
      ring
  | lock h hfree =>
      refine .inr ⟨rfl, ?_, fun left todo tmp hth => by simp at hth⟩
      rw [h]
      simp [Program.pending]
  | unlock h =>
      refine .inr ⟨rfl, ?_, fun left todo tmp hth => by simp at hth⟩
      rw [h]
      simp [Program.pending]
  | @load left todo v' h =>
      refine .inr ⟨rfl, ?_, fun left todo tmp hth => ?_⟩
      · rw [h]
        rcases eq_or_ne v' v with rfl | hv
        · simp [Program.pending]
          ring
        · simp [Program.pending, hv]
      · simp only [State.put_threads, Function.update_self, Thread.loaded.injEq] at hth
        obtain ⟨rfl, rfl, rfl, rfl⟩ := hth
        exact ⟨rfl, h⟩
  | @store left todo v' tmp h =>
      rcases eq_or_ne v' v with rfl | hne
      · refine .inl ⟨left, todo, tmp, h, by simp, by simp, ?_⟩
        rw [h]
        simp [Program.pending]
      · refine .inr ⟨by simp [hne.symm], ?_, fun left todo tmp hth => by simp at hth⟩
        rw [h]
        simp [Program.pending, hne]

section Below

variable [Fintype ι] {v : V}

/-- A multiple `σ` of `v` and what is due, with the multiple of what was loaded in the place of
`v` as well, is at most `b`. -/
structure Below (P : Program ι V) (w : ι → ℤ) (v : V) (σ b : ℤ) (s : State ι V) : Prop where
  var : σ * s.vars v + P.due w v s ≤ b
  loaded : ∀ i left todo tmp, s.threads i = .loaded left todo v tmp → σ * tmp + P.due w v s ≤ b

/-- A thread adds at most its weight, so its store makes no sum greater. -/
theorem Below.step {σ b : ℤ} (hw : ∀ i, 0 ≤ w i) (hc : ∀ i, σ * P.change i ≤ w i)
    (hs : Below P w v σ b s) (h : Step P s i t) : Below P w v σ b t := by
  have hmove := step_iff.mp h
  rcases hmove.effect v with ⟨left, todo, tmp, hth, hth', hvar, hpend⟩ | ⟨hvar, hpend, hload⟩
  · have htmp := hs.loaded i left todo tmp hth
    have hdue : P.due w v t = P.due w v s - w i := by
      rw [hmove.due, hpend]
      push_cast
      ring
    constructor
    · rw [hvar, hdue, mul_add]
      linarith [hc i]
    · intro j left' todo' tmp' hj
      have hne : j ≠ i := by
        rintro rfl
        rw [hth'] at hj
        cases hj
      rw [hmove.threads_of_ne hne] at hj
      rw [hdue]
      linarith [hs.loaded j left' todo' tmp' hj, hw i]
  · have hdue : P.due w v t = P.due w v s := by
      rw [hmove.due, hpend, sub_self, mul_zero, add_zero]
    constructor
    · rw [hvar, hdue]
      exact hs.var
    · intro j left' todo' tmp' hj
      rw [hdue]
      by_cases hji : j = i
      · subst hji
        obtain ⟨rfl, -⟩ := hload left' todo' tmp' hj
        exact hs.var
      · rw [hmove.threads_of_ne hji] at hj
        exact hs.loaded j left' todo' tmp' hj

/-- However many stores are lost, `σ * v` grows by no more than the weights of all stores. -/
theorem bound {σ : ℤ} {vars : V → ℤ} {tr : List ι} (hw : ∀ i, 0 ≤ w i)
    (hc : ∀ i, σ * P.change i ≤ w i) (h : Run (Step P) (init P vars) tr t) :
    Below P w v σ (σ * vars v + (∑ i, w i) * (P.rounds * P.body.count (.add v))) t := by
  refine h.invariant (Q := fun _ => True) (fun _ _ => trivial) ?_
    fun _ _ _ hs hstep _ => hs.step hw hc hstep
  constructor
  · rw [due_init]
    rfl
  · intro i left todo tmp hi
    cases hi

end Below

end Pending

/-! ### The end of every run -/

section Work

/-- The steps a statement takes. -/
def Statement.cost : Statement V → ℕ
  | lock | unlock => 1
  | add _ => 2

/-- The steps a thread still has to take. -/
def Program.work (P : Program ι V) : Thread V → ℕ
  | .ready left todo => left * ((P.body.map Statement.cost).sum + 1) + (todo.map Statement.cost).sum
  | .loaded left todo _ _ =>
      left * ((P.body.map Statement.cost).sum + 1) + (todo.map Statement.cost).sum + 1

variable [Fintype ι] [DecidableEq ι] {P : Program ι V} {s t : State ι V} {i : ι}

/-- The steps all threads still have to take. -/
def Program.totalWork (P : Program ι V) (s : State ι V) : ℤ := ∑ i, (P.work (s.threads i) : ℤ)

/-- A step is one step less to take. -/
theorem Move.work (h : Move P s i t) : P.totalWork t + 1 = P.totalWork s := by
  have hput : ∀ (u : State ι V) (th : Thread V), u.threads = Function.update s.threads i th →
      P.work (s.threads i) = P.work th + 1 → P.totalWork u + 1 = P.totalWork s := by
    intro u th hu hth
    unfold Program.totalWork
    rw [hu, sum_update (fun _ th => (P.work th : ℤ)), hth]
    push_cast
    ring
  cases h with
  | begin h => exact hput _ _ rfl (by rw [h]; simp [Program.work]; ring)
  | lock h => exact hput _ _ rfl (by rw [h]; simp [Program.work, Statement.cost]; ring)
  | unlock h => exact hput _ _ rfl (by rw [h]; simp [Program.work, Statement.cost]; ring)
  | load h => exact hput _ _ rfl (by rw [h]; simp [Program.work, Statement.cost]; ring)
  | store h => exact hput _ _ rfl (by rw [h]; simp [Program.work])

/-- A run is as long as the work it has done. -/
theorem length_add_work {tr : List ι} (h : Run (Step P) s tr t) :
    (tr.length : ℤ) + P.totalWork t = P.totalWork s := by
  refine h.history (P := fun tr t => (tr.length : ℤ) + P.totalWork t = P.totalWork s)
    (by simp) ?_
  intro tr t l u _ ih hstep
  have hwork := (step_iff.mp hstep).work
  rw [List.length_append, List.length_singleton]
  push_cast
  linarith

end Work

end SharedCounters
