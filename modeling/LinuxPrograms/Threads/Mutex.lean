import LinuxPrograms.Lib.LockedCounters
import LinuxPrograms.Threads.Race

/-!
# Counting under a mutex

The programs in which the increments and decrements of a round are put between
`pthread_mutex_lock` and `pthread_mutex_unlock`.

- `MutexLock`: the four threads of `RaceCondition` on three variables.
- `MutexDemo`: two threads on three variables.
- `ThreadMutex`: two threads on the members of `struct dat`.
-/

namespace Threads

open LabelledSystem SharedCounters

section Balanced

variable {ι V : Type*} [DecidableEq ι] [DecidableEq V] [Fintype ι] {P : Program ι V}
  {vs : List V} {vars : V → ℤ} {tr : List ι} {s : State ι V}

/-- Where increments and decrements make up for each other, a run that cannot go on has come to
the end with the variables as they were in the beginning. -/
theorem balanced (hbody : P.body = locked vs) (hsum : ∑ i, P.change i = 0)
    (h : Run (Step P) (init P vars) tr s) (hstuck : ∀ i, move P s i = none) :
    Finished s ∧ s.vars = vars := by
  obtain ⟨hfin, hvars⟩ := locked_run hbody h hstuck
  refine ⟨hfin, funext fun v => ?_⟩
  rw [hvars v, hsum, zero_mul, add_zero]

/-- While the mutex is free, all variables that are in the round once are equally far from where
they were in the beginning. -/
theorem free_eq (hbody : P.body = locked vs) (h : Run (Step P) (init P vars) tr s)
    (hfree : s.owner = none) {v v' : V} (hv : vs.count v = 1) (hv' : vs.count v' = 1) :
    s.vars v - vars v = s.vars v' - vars v' := by
  obtain ⟨rest, hrest⟩ := (exclusive_of_run hbody h).free hbody hfree
  have h₁ := hrest v
  have h₂ := hrest v'
  rw [hv] at h₁
  rw [hv'] at h₂
  linarith

/-- Two threads are never between lock and unlock at once. -/
theorem inside_unique (hbody : P.body = locked vs) (h : Run (Step P) (init P vars) tr s) {i j : ι}
    (hi : Inside (s.threads i)) (hj : Inside (s.threads j)) : i = j := by
  have hs := exclusive_of_run hbody h
  exact Option.some.inj ((hs.owner_of_inside hi).symm.trans (hs.owner_of_inside hj))

/-- The number of steps of a run that has come to the end. -/
theorem length_of_finished (h : Run (Step P) (init P vars) tr s) (hfin : Finished s) :
    (tr.length : ℤ) = P.totalWork (init P vars) := by
  have hwork := length_add_work h
  have hnone : P.totalWork s = 0 := by simp [Program.totalWork, hfin _, Program.work]
  rwa [hnone, add_zero] at hwork

end Balanced

/-! ### Four threads -/

namespace MutexLock

open RaceCondition

/-- The threads `main` creates, with the mutex around the round. -/
def program : Program (Fin 4) GlobalVar where
  body := locked loopVars
  rounds := 65500
  change i := (ptr i).change

/-- The initial values of the variables. -/
def initial : GlobalVar → ℤ
  | .globalVar1 => 1
  | .globalVar2 => 2
  | .globalVar3 => 3

theorem totalWork_init : program.totalWork (init program initial) = 2358000 := by
  rfl

/-- No run has more than 2358000 steps, and one that cannot go on has just as many. All threads
have then ended, so that `main` has joined them, and it prints 1, 2 and 3. -/
theorem main_prints_initial {tr : List (Fin 4)} {s : State (Fin 4) GlobalVar}
    (h : Run (Step program) (init program initial) tr s) :
    tr.length ≤ 2358000 ∧ ((∀ i, move program s i = none) →
      tr.length = 2358000 ∧ Finished s ∧ s.vars = initial) := by
  constructor
  · have hwork := length_add_work h
    have hnonneg : 0 ≤ program.totalWork s := Finset.sum_nonneg fun _ _ => Int.natCast_nonneg _
    rw [totalWork_init] at hwork
    omega
  · intro hstuck
    obtain ⟨hfin, hvars⟩ := balanced rfl (by decide) h hstuck
    have hlength := length_of_finished h hfin
    rw [totalWork_init] at hlength
    exact ⟨by omega, hfin, hvars⟩

/-- There is such a run. -/
theorem main_prints_initial_run :
    ∃ tr s, Run (Step program) (init program initial) tr s ∧ tr.length = 2358000 ∧
      s.vars = initial := by
  obtain ⟨tr, s, hrun, hfin⟩ := exists_run_finished rfl
    (Run.nil : Run (Step program) (init program initial) [] _)
  obtain ⟨hlength, -, hvars⟩ := (main_prints_initial hrun).2 fun i => by simp [move, hfin i]
  exact ⟨tr, s, hrun, hlength, hvars⟩

/-- Two threads are never in the round at once. When nobody is, the mutex is free and the
variables are 1, 2 and 3 apart from one and the same number. -/
theorem round_exclusive {tr : List (Fin 4)} {s : State (Fin 4) GlobalVar}
    (h : Run (Step program) (init program initial) tr s) :
    (∀ i j, Inside (s.threads i) → Inside (s.threads j) → i = j) ∧
      ((∀ i, ¬ Inside (s.threads i)) → ∃ k, ∀ v, s.vars v = initial v + k) := by
  refine ⟨fun i j hi hj => inside_unique rfl h hi hj, fun hnone => ?_⟩
  have hfree : s.owner = none := by
    by_contra howner
    obtain ⟨i, hi⟩ := Option.ne_none_iff_exists'.mp howner
    exact hnone i ((exclusive_of_run rfl h).inside i hi)
  refine ⟨s.vars .globalVar1 - initial .globalVar1, fun v => ?_⟩
  have heq := free_eq rfl h hfree (loopVars_count v) (loopVars_count .globalVar1)
  linarith

/-- The first thread locks the mutex. -/
theorem round_exclusive_locked :
    ∃ s, Run (Step program) (init program initial) [0, 0] s ∧ Inside (s.threads 0) ∧
      ∀ j, Inside (s.threads j) → (0 : Fin 4) = j := by
  have hbegin : Step program (init program initial) 0 _ := rfl
  have hlock : Step program _ 0 _ := step_iff.mpr (.lock
    (s := (init program initial).put 0 (.ready 65499 (locked loopVars))) rfl rfl)
  have hrun := (Run.single hbegin).snoc hlock
  have hin : Inside (((init program initial).put 0 (.ready 65499 (locked loopVars))).put 0
      (.ready 65499 (loopVars.map .add ++ [.unlock])) |>.threads 0) :=
    ⟨65499, loopVars, .inl rfl⟩
  exact ⟨_, hrun, hin, fun j hj => (round_exclusive hrun).1 0 j hin hj⟩

end MutexLock

/-! ### Two threads -/

namespace MutexDemo

open RaceCondition

/-- `inc_thread` and `dec_thread`. -/
inductive ThreadFn
  | incThread
  | decThread
  deriving DecidableEq

instance : Fintype ThreadFn where
  elems := {.incThread, .decThread}
  complete i := by cases i <;> decide

/-- Both threads of `main`. -/
def program : Program ThreadFn GlobalVar where
  body := locked loopVars
  rounds := 60000
  change
    | .incThread => 1
    | .decThread => -1

/-- The initial values of the variables. -/
def initial : GlobalVar → ℤ
  | .globalVar1 => 5
  | .globalVar2 => 10
  | .globalVar3 => 15

end MutexDemo

namespace ThreadMutex

/-- The members of `struct dat`. -/
inductive Dat
  | var1
  | var2
  deriving DecidableEq

/-- `f1` and `f2`. -/
inductive ThreadFn
  | f1
  | f2
  deriving DecidableEq

instance : Fintype ThreadFn where
  elems := {.f1, .f2}
  complete i := by cases i <;> decide

/-- Both threads of `main`. -/
def program : Program ThreadFn Dat where
  body := locked [.var1, .var2]
  rounds := 60000
  change
    | .f1 => 1
    | .f2 => -1

end ThreadMutex

/-- In either program with two threads, a run that cannot go on has ended both, and `main` prints
the values the variables had in the beginning. -/
theorem two_threads_print_initial :
    (∀ tr s, Run (Step MutexDemo.program) (init MutexDemo.program MutexDemo.initial) tr s →
      (∀ i, move MutexDemo.program s i = none) → Finished s ∧ s.vars = MutexDemo.initial) ∧
    ∀ tr s, Run (Step ThreadMutex.program) (init ThreadMutex.program fun _ => 0) tr s →
      (∀ i, move ThreadMutex.program s i = none) → Finished s ∧ s.vars = fun _ => 0 :=
  ⟨fun _ _ h hstuck => balanced rfl (by decide) h hstuck,
    fun _ _ h hstuck => balanced rfl (by decide) h hstuck⟩

end Threads
