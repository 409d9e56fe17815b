import LinuxPrograms.Lib.LabelledSystem
import Mathlib.Data.Fintype.Defs
import Mathlib.Data.Finset.Insert
import Mathlib.Logic.Function.Basic
import Mathlib.Tactic.SplitIfs

/-!
# Two threads and one condition variable

`main.c` of `two_thread_synchronization`: in each round `foo1` and `foo2` take the mutex, print
their next number, signal the condition variable and wait on it; behind its loop a thread signals
once more. There is no predicate behind a wait: a signal nobody waits for is lost, and a wait that
returns without a signal, as it may, is not noticed.

- `step`, `Reaches`: `main` and the threads in any order, with loops of `n` rounds, and waits that
  may return without a signal.
- `StepOnSignal`: the steps but these.
- `Phase`: what the two threads can be at, once the first of them has locked the mutex.
- `output_alternates`: without spurious wake-ups the numbers come out alternately.
- `run_completes`: without them every run comes to the end.
-/

namespace CondAlternation

open LabelledSystem

/-! ## The program -/

/-- The threads, by their functions. -/
inductive Thread
  | foo1
  | foo2
  deriving DecidableEq, Repr

/-- Where a thread stands: not created; in the round `j` before `pthread_mutex_lock`, `printf`,
`pthread_cond_signal`, `pthread_cond_wait` or `pthread_mutex_unlock`; inside `pthread_cond_wait`,
asleep or signalled and after the mutex; behind its loop, before the last signal; or returned. -/
inductive Pos
  | idle
  | lock (j : ℕ)
  | print (j : ℕ)
  | signal (j : ℕ)
  | wait (j : ℕ)
  | asleep (j : ℕ)
  | woken (j : ℕ)
  | unlock (j : ℕ)
  | last
  | returned
  deriving DecidableEq, Repr

/-- The head of the loop of `n` rounds. -/
def loop (n j : ℕ) : Pos := if j < n then .lock j else .last

theorem loop_ne_idle (n j : ℕ) : loop n j ≠ .idle := by
  rw [loop]
  split_ifs <;> exact nofun

/-- A signal reaches a sleeping thread and no other. -/
def Pos.wake : Pos → Pos
  | asleep j => woken j
  | p => p

namespace Thread

/-- The other thread. -/
def other : Thread → Thread
  | foo1 => foo2
  | foo2 => foo1

/-- `i` in the round `j`: it starts at 1 or 2, and each round adds 2. -/
def number : Thread → ℕ → ℕ
  | foo1, j => 1 + 2 * j
  | foo2, j => 2 + 2 * j

instance : Fintype Thread where
  elems := {foo1, foo2}
  complete i := by cases i <;> decide

@[simp]
theorem other_other (i : Thread) : i.other.other = i := by cases i <;> rfl

@[simp]
theorem other_ne (i : Thread) : i.other ≠ i := by cases i <;> decide

@[simp]
theorem ne_other (i : Thread) : i ≠ i.other := by cases i <;> decide

theorem eq_or_other (i k : Thread) : k = i ∨ k = i.other := by
  revert i k
  decide

end Thread

/-- The calls of `main`. -/
inductive MainCall
  | create (i : Thread)
  | join (i : Thread)
  deriving DecidableEq, Repr

/-- `main`; its `usleep` promises nothing about the order of the threads. -/
def mainCalls : List MainCall := [.create .foo1, .create .foo2, .join .foo2, .join .foo1]

/-- The mutex `lock` with its owner, the threads, and the calls `main` has before it. -/
structure State where
  lock : Option Thread
  pos : Thread → Pos
  main : List MainCall

/-- Before the first `pthread_create`. -/
def State.init : State := ⟨none, fun _ => .idle, mainCalls⟩

/-- The thread `i` goes to `p`. -/
def State.goto (s : State) (i : Thread) (p : Pos) : State :=
  { s with pos := Function.update s.pos i p }

/-- `pthread_cond_signal` by the thread `i`: if the other thread sleeps, it is woken. -/
def State.signal (s : State) (i : Thread) : State := s.goto i.other (s.pos i.other).wake

/-- What a step does. -/
inductive Label
  | locked (i : Thread)
  | printed (i : Thread) (number : ℕ)
  | signalled (i : Thread)
  | waits (i : Thread)
  /-- The wait of the thread is over, with no signal sent. -/
  | spurious (i : Thread)
  | relocked (i : Thread)
  | unlocked (i : Thread)
  | returned (i : Thread)
  | created (i : Thread)
  | joined (i : Thread)
  deriving DecidableEq, Repr

/-- The number a label prints. -/
def Label.output : Label → Option ℕ
  | .printed _ number => some number
  | _ => none

/-- A thread or `main` takes its next step, or a wait ends spuriously. -/
inductive Act
  | run (i : Thread)
  | main
  | spurious (i : Thread)
  deriving DecidableEq, Repr

/-- A step of the thread `i`. -/
def stepThread (n : ℕ) (s : State) (i : Thread) : Option (State × Label) :=
  match s.pos i with
  | .idle => none
  | .lock j =>
      if s.lock = none then some ({ s.goto i (.print j) with lock := some i }, .locked i) else none
  | .print j => some (s.goto i (.signal j), .printed i (i.number j))
  | .signal j => some ((s.goto i (.wait j)).signal i, .signalled i)
  -- `pthread_cond_wait` gives the mutex back as the thread falls asleep.
  | .wait j => some ({ s.goto i (.asleep j) with lock := none }, .waits i)
  | .asleep _ => none
  | .woken j =>
      if s.lock = none then some ({ s.goto i (.unlock j) with lock := some i }, .relocked i)
      else none
  | .unlock j => some ({ s.goto i (loop n (j + 1)) with lock := none }, .unlocked i)
  -- The last signal is sent without the mutex.
  | .last => some ((s.goto i .returned).signal i, .returned i)
  | .returned => none

/-- A step of `main`. -/
def stepMain (n : ℕ) (s : State) : Option (State × Label) :=
  match s.main with
  | .create i :: rest => some ({ s.goto i (loop n 0) with main := rest }, .created i)
  | .join i :: rest =>
      if s.pos i = .returned then some ({ s with main := rest }, .joined i) else none
  | [] => none

/-- A spurious wake-up of the thread `i`: `pthread_cond_wait` may return without a signal. -/
def stepSpurious (s : State) (i : Thread) : Option (State × Label) :=
  match s.pos i with
  | .asleep j => some (s.goto i (.woken j), .spurious i)
  | _ => none

/-- One step, with loops of `n` rounds. -/
def step (n : ℕ) (s : State) : Act → Option (State × Label)
  | .run i => stepThread n s i
  | .main => stepMain n s
  | .spurious i => stepSpurious s i

/-- The labelled step relation. -/
abbrev Step (n : ℕ) : State → Label → State → Prop := StepOf (step n)

/-- The labels `tr` lead from the start to `s`. -/
abbrev Reaches (n : ℕ) (tr : List Label) (s : State) : Prop := Run (Step n) .init tr s

/-- A step that is no spurious wake-up. -/
def StepOnSignal (n : ℕ) (s : State) (l : Label) (t : State) : Prop :=
  Step n s l t ∧ ∀ i, l ≠ .spurious i

/-- A run without spurious wake-ups. -/
theorem run_onSignal {n : ℕ} {tr : List Label} {s : State} (hno : ∀ i, .spurious i ∉ tr)
    (h : Reaches n tr s) : Run (StepOnSignal n) .init tr s := by
  obtain ⟨_, hrun, rfl⟩ : ∃ q, Run (StepOnSignal n) .init tr q ∧ s = q := by
    refine Run.simulates (Q := fun l => ∀ i, l ≠ .spurious i) h ?_ rfl ?_
    · rintro l hl i rfl
      exact hno i hl
    · rintro t _ l u rfl hstep hl
      exact ⟨u, ⟨hstep, hl⟩, rfl⟩
  exact hrun

/-- Both threads have returned, and `main` has joined them. -/
def Done (s : State) : Prop := (∀ i, s.pos i = .returned) ∧ s.main = []

/-- What is printed. -/
def output (tr : List Label) : List ℕ := tr.filterMap Label.output

/-! ## Positions -/

section Goto

variable {s : State} {i : Thread} {p : Pos}

@[simp]
theorem goto_self (s : State) (i : Thread) (p : Pos) : (s.goto i p).pos i = p :=
  Function.update_self ..

@[simp]
theorem goto_other (s : State) (i : Thread) (p : Pos) :
    (s.goto i p).pos i.other = s.pos i.other :=
  Function.update_of_ne i.other_ne ..

@[simp]
theorem goto_of_other (s : State) (i : Thread) (p : Pos) :
    (s.goto i.other p).pos i = s.pos i :=
  Function.update_of_ne i.ne_other ..

@[simp]
theorem goto_lock (s : State) (i : Thread) (p : Pos) : (s.goto i p).lock = s.lock := rfl

@[simp]
theorem goto_main (s : State) (i : Thread) (p : Pos) : (s.goto i p).main = s.main := rfl

@[simp]
theorem signal_self (s : State) (i : Thread) : (s.signal i).pos i = s.pos i :=
  Function.update_of_ne i.ne_other ..

@[simp]
theorem signal_other (s : State) (i : Thread) :
    (s.signal i).pos i.other = (s.pos i.other).wake :=
  Function.update_self ..

theorem signal_of_other (s : State) (i : Thread) :
    (s.signal i.other).pos i = (s.pos i).wake := by
  have hsignal := signal_other s i.other
  rwa [Thread.other_other] at hsignal

@[simp]
theorem signal_lock (s : State) (i : Thread) : (s.signal i).lock = s.lock := rfl

@[simp]
theorem signal_main (s : State) (i : Thread) : (s.signal i).main = s.main := rfl

end Goto

namespace Pos

variable {n j : ℕ}

/-- The numbers the thread has printed in its loop of `n` rounds. -/
def printed (n : ℕ) : Pos → ℕ
  | idle => 0
  | lock j | print j => j
  | signal j | wait j | asleep j | woken j | unlock j => j + 1
  | last | returned => n

/-- The steps before it: six in a round, and one behind the loop. -/
def toGo (n : ℕ) : Pos → ℕ
  | idle => 6 * n + 1
  | lock j => 6 * (n - j) + 1
  | print j => 6 * (n - j)
  | signal j => 6 * (n - j) - 1
  | wait j => 6 * (n - j) - 2
  | asleep j | woken j => 6 * (n - j) - 3
  | unlock j => 6 * (n - j) - 4
  | last => 1
  | returned => 0

/-- The round of the thread is one of the `n`. -/
def Ok (n : ℕ) : Pos → Prop
  | lock j | print j | signal j | wait j | asleep j | woken j | unlock j => j < n
  | idle | last | returned => True

@[simp]
theorem printed_wake (n : ℕ) (p : Pos) : p.wake.printed n = p.printed n := by cases p <;> rfl

@[simp]
theorem toGo_wake (n : ℕ) (p : Pos) : p.wake.toGo n = p.toGo n := by cases p <;> rfl

@[simp]
theorem ok_wake (p : Pos) : p.wake.Ok n ↔ p.Ok n := by cases p <;> rfl

@[simp]
theorem wake_eq_idle_iff (p : Pos) : p.wake = idle ↔ p = idle := by cases p <;> simp [wake]

@[simp]
theorem wake_eq_returned_iff (p : Pos) : p.wake = returned ↔ p = returned := by
  cases p <;> simp [wake]

theorem ok_loop (n j : ℕ) : (loop n j).Ok n := by
  rw [loop]
  split_ifs with h
  · exact h
  · trivial

theorem printed_loop (h : j ≤ n) : (loop n j).printed n = j := by
  rw [loop]
  split_ifs with hlt
  · rfl
  · exact Nat.le_antisymm (Nat.le_of_not_lt hlt) h

theorem toGo_loop (n j : ℕ) : (loop n j).toGo n = 6 * (n - j) + 1 := by
  rw [loop]
  split_ifs with hlt
  · rfl
  · rw [Nat.sub_eq_zero_of_le (Nat.le_of_not_lt hlt)]
    rfl

end Pos

/-! ## Moves -/

/-- What a step makes of the position of its thread, whether it signals the other one, and what it
prints. -/
inductive Move (n : ℕ) (i : Thread) : Pos → Bool → Option ℕ → Pos → Prop
  | lock (j : ℕ) : Move n i (.lock j) false none (.print j)
  | print (j : ℕ) : Move n i (.print j) false (some (i.number j)) (.signal j)
  | signal (j : ℕ) : Move n i (.signal j) true none (.wait j)
  | wait (j : ℕ) : Move n i (.wait j) false none (.asleep j)
  | relock (j : ℕ) : Move n i (.woken j) false none (.unlock j)
  | unlock (j : ℕ) : Move n i (.unlock j) false none (loop n (j + 1))
  | last : Move n i .last true none .returned

namespace Move

variable {n : ℕ} {i : Thread} {p q : Pos} {sig : Bool} {out : Option ℕ}

theorem ok (h : Move n i p sig out q) (hp : p.Ok n) : q.Ok n := by
  cases h with
  | unlock => exact Pos.ok_loop _ _
  | lock | print | signal | wait | relock => exact hp
  | last => trivial

/-- A move is one of the steps to go. -/
theorem toGo_eq (h : Move n i p sig out q) (hp : p.Ok n) : p.toGo n = q.toGo n + 1 := by
  cases h with
  | unlock j =>
      rw [Pos.Ok] at hp
      rw [Pos.toGo_loop]
      simp only [Pos.toGo]
      omega
  | print | signal | wait | relock =>
      rw [Pos.Ok] at hp
      simp only [Pos.toGo]
      omega
  | lock | last => rfl

/-- A thread prints its numbers in order. -/
theorem output_eq (h : Move n i p sig out q) (hp : p.Ok n) :
    (out = none ∧ q.printed n = p.printed n) ∨
      ∃ j, p = .print j ∧ out = some (i.number j) ∧ p.printed n = j ∧ q.printed n = j + 1 := by
  cases h with
  | unlock j => exact .inl ⟨rfl, Pos.printed_loop hp⟩
  | print j => exact .inr ⟨j, rfl, rfl, rfl, rfl⟩
  | lock | signal | wait | relock | last => exact .inl ⟨rfl, rfl⟩

theorem ne_idle (h : Move n i p sig out q) : p ≠ .idle ∧ q ≠ .idle := by
  cases h with
  | unlock j => exact ⟨nofun, loop_ne_idle n (j + 1)⟩
  | lock | print | signal | wait | relock | last => exact ⟨nofun, nofun⟩

theorem ne_returned (h : Move n i p sig out q) : p ≠ .returned := by
  cases h <;> exact nofun

end Move

variable {n : ℕ} {s t : State} {l : Label} {a i : Thread} {tr : List Label}

/-- A step of a thread moves it and may wake the other one. -/
theorem move_of_stepThread (h : stepThread n s i = some (t, l)) :
    ∃ sig, Move n i (s.pos i) sig l.output (t.pos i) ∧
      t.pos i.other = (if sig then (s.pos i.other).wake else s.pos i.other) ∧
      t.main = s.main := by
  unfold stepThread at h
  split at h
  · cases h
  next j hp =>
    split_ifs at h
    cases h
    exact ⟨false, by simpa [hp, Label.output] using .lock j, by simp, rfl⟩
  next j hp =>
    cases h
    exact ⟨false, by simpa [hp, Label.output] using .print j, by simp, rfl⟩
  next j hp =>
    cases h
    exact ⟨true, by simpa [hp, Label.output] using .signal j, by simp, rfl⟩
  next j hp =>
    cases h
    exact ⟨false, by simpa [hp, Label.output] using .wait j, by simp, rfl⟩
  · cases h
  next j hp =>
    split_ifs at h
    cases h
    exact ⟨false, by simpa [hp, Label.output] using .relock j, by simp, rfl⟩
  next j hp =>
    cases h
    exact ⟨false, by simpa [hp, Label.output] using .unlock j, by simp, rfl⟩
  next hp =>
    cases h
    exact ⟨true, by simpa [hp, Label.output] using .last, by simp, rfl⟩
  · cases h

/-- A step that is no spurious wake-up is one of a thread, or `main` creates a thread, or joins one
that has returned. -/
theorem step_cases (h : StepOnSignal n s l t) :
    (∃ i, stepThread n s i = some (t, l)) ∨
    (∃ i rest, s.main = .create i :: rest ∧ l = .created i ∧
      t = { s.goto i (loop n 0) with main := rest }) ∨
    ∃ i rest, s.main = .join i :: rest ∧ l = .joined i ∧ s.pos i = .returned ∧
      t = { s with main := rest } := by
  obtain ⟨⟨act, hact⟩, hno⟩ := h
  cases act with
  | run i => exact .inl ⟨i, hact⟩
  | spurious i =>
      simp only [step, stepSpurious] at hact
      split at hact
      · cases hact
        exact absurd rfl (hno i)
      · cases hact
  | main =>
      rw [step] at hact
      unfold stepMain at hact
      split at hact
      next i rest hmain =>
        cases hact
        exact .inr (.inl ⟨i, rest, hmain, rfl, rfl⟩)
      next i rest hmain =>
        split_ifs at hact with hret
        cases hact
        exact .inr (.inr ⟨i, rest, hmain, rfl, hret, rfl⟩)
      · cases hact

/-! ## What holds of `main` and of each thread -/

/-- `main` has created the threads that are not idle, and the threads it has joined have
returned; the round of each is one of the `n`. -/
structure Ok (n : ℕ) (s : State) : Prop where
  suffix : s.main <:+ mainCalls
  idle : ∀ i, s.pos i = .idle ↔ .create i ∈ s.main
  joined : ∀ i, .join i ∉ s.main → s.pos i = .returned
  round : ∀ i, (s.pos i).Ok n

theorem Ok.step (hs : Ok n s) (h : StepOnSignal n s l t) : Ok n t := by
  rcases step_cases h with ⟨i, hi⟩ | ⟨i, rest, hmain, -, rfl⟩ | ⟨i, rest, hmain, -, hret, rfl⟩
  · obtain ⟨sig, hmove, hother, hmain⟩ := move_of_stepThread hi
    have hwake : ∀ P : Pos → Prop, (∀ p, P p.wake ↔ P p) →
        (P (t.pos i.other) ↔ P (s.pos i.other)) := by
      intro P hP
      rw [hother]
      split_ifs
      · exact hP _
      · exact Iff.rfl
    refine ⟨hmain ▸ hs.suffix, fun k => ?_, fun k hk => ?_, fun k => ?_⟩
    · rw [hmain, ← hs.idle k]
      obtain rfl | rfl := i.eq_or_other k
      · exact ⟨fun h => absurd h hmove.ne_idle.2, fun h => absurd h hmove.ne_idle.1⟩
      · exact hwake (· = .idle) Pos.wake_eq_idle_iff
    · rw [hmain] at hk
      have hret := hs.joined k hk
      obtain rfl | rfl := i.eq_or_other k
      · exact absurd hret hmove.ne_returned
      · exact (hwake (· = .returned) Pos.wake_eq_returned_iff).mpr hret
    · obtain rfl | rfl := i.eq_or_other k
      · exact hmove.ok (hs.round k)
      · exact (hwake (·.Ok n) Pos.ok_wake).mpr (hs.round _)
  · -- `main` creates every thread once.
    have hnodup : (s.main).Nodup := hs.suffix.sublist.nodup (by decide)
    rw [hmain, List.nodup_cons] at hnodup
    have hidle : s.pos i = .idle := (hs.idle i).mpr (by rw [hmain]; exact List.mem_cons_self)
    refine ⟨?_, fun k => ?_, fun k hk => ?_, fun k => ?_⟩
    · have hsuffix := hs.suffix
      rw [hmain] at hsuffix
      exact (List.suffix_cons _ _).trans hsuffix
    · obtain rfl | rfl := i.eq_or_other k
      · show (s.goto k (loop n 0)).pos k = .idle ↔ _
        rw [goto_self]
        exact ⟨fun h => absurd h (loop_ne_idle n 0), fun h => absurd h hnodup.1⟩
      · show (s.goto i (loop n 0)).pos i.other = .idle ↔ _
        rw [goto_other, hs.idle, hmain, List.mem_cons]
        simp
    · have hret := hs.joined k (by rw [hmain]; simpa using hk)
      obtain rfl | rfl := i.eq_or_other k
      · rw [hidle] at hret
        cases hret
      · show (s.goto i (loop n 0)).pos i.other = .returned
        rw [goto_other, hret]
    · obtain rfl | rfl := i.eq_or_other k
      · show ((s.goto k (loop n 0)).pos k).Ok n
        rw [goto_self]
        exact Pos.ok_loop n 0
      · show ((s.goto i (loop n 0)).pos i.other).Ok n
        rw [goto_other]
        exact hs.round _
  · refine ⟨?_, fun k => ?_, fun k hk => ?_, hs.round⟩
    · have hsuffix := hs.suffix
      rw [hmain] at hsuffix
      exact (List.suffix_cons _ _).trans hsuffix
    · show s.pos k = .idle ↔ _
      rw [hs.idle, hmain, List.mem_cons]
      simp
    · by_cases hki : k = i
      · rw [hki]
        exact hret
      · refine hs.joined k ?_
        rw [hmain, List.mem_cons]
        simpa [hki] using hk

theorem Ok.init : Ok n .init :=
  ⟨List.suffix_rfl, fun i => by cases i <;> simp [State.init, mainCalls],
    fun i => by cases i <;> simp [State.init, mainCalls], fun _ => trivial⟩

/-- The steps still to take, with the calls of `main`. -/
def toGo (n : ℕ) (s : State) : ℕ :=
  (s.pos .foo1).toGo n + (s.pos .foo2).toGo n + s.main.length

theorem toGo_eq (i : Thread) :
    toGo n s = (s.pos i).toGo n + (s.pos i.other).toGo n + s.main.length := by
  cases i
  · rfl
  · rw [toGo, Nat.add_comm ((s.pos .foo1).toGo n)]
    rfl

/-- Each step is one of them. -/
theorem Ok.toGo_step (hs : Ok n s) (h : StepOnSignal n s l t) : toGo n s = toGo n t + 1 := by
  rcases step_cases h with ⟨i, hi⟩ | ⟨i, rest, hmain, -, rfl⟩ | ⟨i, rest, hmain, -, -, rfl⟩
  · obtain ⟨sig, hmove, hother, hmain⟩ := move_of_stepThread hi
    have hgo := hmove.toGo_eq (hs.round i)
    have hsame : (t.pos i.other).toGo n = (s.pos i.other).toGo n := by
      rw [hother]
      split_ifs
      · exact Pos.toGo_wake _ _
      · rfl
    rw [toGo_eq i, toGo_eq i, hgo, hsame, hmain]
    omega
  · have hidle : s.pos i = .idle := (hs.idle i).mpr (by rw [hmain]; exact List.mem_cons_self)
    rw [toGo_eq i, toGo_eq i, hmain, hidle]
    show _ = ((s.goto i (loop n 0)).pos i).toGo n + ((s.goto i (loop n 0)).pos i.other).toGo n +
      rest.length + 1
    rw [goto_self, goto_other, Pos.toGo_loop, List.length_cons]
    simp only [Pos.toGo]
    omega
  · rw [toGo_eq i, toGo_eq i, hmain, List.length_cons]
    rfl

/-! ## The turns -/

/-- The thread has not locked the mutex yet. -/
def Fresh (p : Pos) : Prop := p = .idle ∨ p = .lock 0

/-- The rounds of the thread `r`, whose turn it is, and of the other one: the thread `a`, which came
first, is a round ahead when it is its turn. -/
def Turn (n : ℕ) (a r : Thread) (j j' : ℕ) : Prop :=
  j' < n ∧ (r = a ∧ j = j' + 1 ∨ r = a.other ∧ j = j')

/-- What the threads can be at once `a` was the first to lock the mutex. -/
inductive Phase (n : ℕ) (a : Thread) (s : State) : Prop
  | first (ha : s.pos a = .print 0 ∨ s.pos a = .signal 0 ∨ s.pos a = .wait 0)
      (hlock : s.lock = some a) (hb : Fresh (s.pos a.other))
  | second (ha : s.pos a = .asleep 0) (hlock : s.lock = none) (hb : Fresh (s.pos a.other))
  /-- The thread `r` runs, and the other one sleeps. -/
  | turn (r : Thread) (j j' : ℕ) (hj : Turn n a r j j')
      (hr : (s.pos r = loop n j ∧ s.lock = none) ∨
        ((s.pos r = .print j ∨ s.pos r = .signal j) ∧ s.lock = some r))
      (hw : s.pos r.other = .asleep j')
  /-- It has signalled, and still has the mutex. -/
  | handOver (r : Thread) (j j' : ℕ) (hj : Turn n a r j j') (hr : s.pos r = .wait j)
      (hlock : s.lock = some r) (hw : s.pos r.other = .woken j')
  /-- It sleeps, and the other one gets up. -/
  | wakes (r : Thread) (j j' : ℕ) (hj : Turn n a r j j') (hr : s.pos r = .asleep j)
      (hw : (s.pos r.other = .woken j' ∧ s.lock = none) ∨
        (s.pos r.other = .unlock j' ∧ s.lock = some r.other))
  /-- The first one is through, and the other one comes to its end. -/
  | ending (ha : s.pos a = .returned)
      (hw : (s.pos a.other = .woken (n - 1) ∧ s.lock = none) ∨
        (s.pos a.other = .unlock (n - 1) ∧ s.lock = some a.other) ∨
        ((s.pos a.other = .last ∨ s.pos a.other = .returned) ∧ s.lock = none))

namespace Phase

theorem congr (h : Phase n a s) (hpos : t.pos = s.pos) (hlock : t.lock = s.lock) :
    Phase n a t := by
  obtain ⟨lock, pos, main⟩ := t
  obtain ⟨lock', pos', main'⟩ := s
  subst hpos hlock
  cases h with
  | first ha hlock hb => exact .first ha hlock hb
  | second ha hlock hb => exact .second ha hlock hb
  | turn r j j' hj hr hw => exact .turn r j j' hj hr hw
  | handOver r j j' hj hr hlock hw => exact .handOver r j j' hj hr hlock hw
  | wakes r j j' hj hr hw => exact .wakes r j j' hj hr hw
  | ending ha hw => exact .ending ha hw

/-- The turn passes on. -/
theorem pass {r : Thread} {j j' : ℕ} (hj : Turn n a r j j') (hlt : j < n) :
    Turn n a r.other (j' + 1) j := by
  obtain ⟨-, ⟨rfl, rfl⟩ | ⟨rfl, rfl⟩⟩ := hj
  · exact ⟨hlt, .inr ⟨rfl, rfl⟩⟩
  · exact ⟨hlt, .inl ⟨Thread.other_other a, rfl⟩⟩

/-- A thread whose turn it is and whose loop is through was the first, and the other one has begun
its last wait. -/
theorem through {r : Thread} {j j' : ℕ} (hj : Turn n a r j j') (hge : ¬ j < n) :
    r = a ∧ j' = n - 1 := by
  obtain ⟨hlt, ⟨rfl, rfl⟩ | ⟨rfl, rfl⟩⟩ := hj
  · exact ⟨rfl, by omega⟩
  · exact absurd hlt hge

/-- The thread that came first goes through its first round. -/
theorem step_first (ha : s.pos a = .print 0 ∨ s.pos a = .signal 0 ∨ s.pos a = .wait 0)
    (hlock : s.lock = some a) (hb : Fresh (s.pos a.other)) (h : stepThread n s i = some (t, l)) :
    Phase n a t := by
  obtain rfl | rfl := a.eq_or_other i
  · rcases ha with ha | ha | ha <;> simp only [stepThread, ha] at h <;> cases h
    · exact .first (.inr (.inl (goto_self ..))) hlock (by rw [goto_other]; exact hb)
    · refine .first (.inr (.inr ?_)) hlock ?_
      · rw [signal_self, goto_self]
      · rw [signal_other, goto_other]
        rcases hb with hb | hb <;> rw [hb]
        · exact .inl rfl
        · exact .inr rfl
    · exact .second (goto_self ..) rfl (by rw [← goto_other s i (.asleep 0)] at hb; exact hb)
  · -- The other thread finds the mutex locked.
    rcases hb with hb | hb <;> simp only [stepThread, hb, hlock] at h <;> cases h

/-- Then the other one takes the mutex. -/
theorem step_second (hn : 0 < n) (ha : s.pos a = .asleep 0) (hlock : s.lock = none)
    (hb : Fresh (s.pos a.other)) (h : stepThread n s i = some (t, l)) : Phase n a t := by
  obtain rfl | rfl := a.eq_or_other i
  · simp only [stepThread, ha] at h
    cases h
  · rcases hb with hb | hb <;> simp only [stepThread, hb, hlock, if_true] at h <;> cases h
    refine .turn a.other 0 0 ⟨hn, .inr ⟨rfl, rfl⟩⟩ (.inr ⟨.inl (goto_self ..), rfl⟩) ?_
    rw [Thread.other_other]
    exact (goto_of_other s a (.print 0)).trans ha

section Turns

variable {r : Thread} {j j' : ℕ}

/-- The thread whose turn it is prints and signals, or leaves its loop. -/
theorem step_turn (hj : Turn n a r j j')
    (hr : (s.pos r = loop n j ∧ s.lock = none) ∨
      ((s.pos r = .print j ∨ s.pos r = .signal j) ∧ s.lock = some r))
    (hw : s.pos r.other = .asleep j') (h : stepThread n s i = some (t, l)) : Phase n a t := by
  obtain rfl | rfl := r.eq_or_other i
  · rcases hr with ⟨hr, hlock⟩ | ⟨hr | hr, hlock⟩
    · rw [loop] at hr
      split_ifs at hr with hlt
      · simp only [stepThread, hr, hlock, if_true] at h
        cases h
        exact .turn i j j' hj (.inr ⟨.inl (goto_self ..), rfl⟩)
          ((goto_other s i (.print j)).trans hw)
      · -- Behind its loop it wakes the other one for the last time.
        obtain ⟨rfl, rfl⟩ := through hj hlt
        simp only [stepThread, hr] at h
        cases h
        refine .ending ?_ (.inl ⟨?_, hlock⟩)
        · rw [signal_self, goto_self]
        · rw [signal_other, goto_other, hw]
          rfl
    · simp only [stepThread, hr] at h
      cases h
      exact .turn i j j' hj (.inr ⟨.inr (goto_self ..), hlock⟩)
        ((goto_other s i (.signal j)).trans hw)
    · simp only [stepThread, hr] at h
      cases h
      refine .handOver i j j' hj ?_ hlock ?_
      · rw [signal_self, goto_self]
      · rw [signal_other, goto_other, hw]
        rfl
  · simp only [stepThread, hw] at h
    cases h

/-- It gives the mutex back as it falls asleep. -/
theorem step_handOver (hj : Turn n a r j j') (hr : s.pos r = .wait j) (hlock : s.lock = some r)
    (hw : s.pos r.other = .woken j') (h : stepThread n s i = some (t, l)) : Phase n a t := by
  obtain rfl | rfl := r.eq_or_other i
  · simp only [stepThread, hr] at h
    cases h
    exact .wakes i j j' hj (goto_self ..) (.inl ⟨(goto_other s i (.asleep j)).trans hw, rfl⟩)
  · simp only [stepThread, hw, hlock] at h
    cases h

/-- The thread it has woken ends its round, and has the next turn. -/
theorem step_wakes (hlt : j < n) (hj : Turn n a r j j') (hr : s.pos r = .asleep j)
    (hw : (s.pos r.other = .woken j' ∧ s.lock = none) ∨
      (s.pos r.other = .unlock j' ∧ s.lock = some r.other))
    (h : stepThread n s i = some (t, l)) : Phase n a t := by
  obtain rfl | rfl := r.eq_or_other i
  · simp only [stepThread, hr] at h
    cases h
  · rcases hw with ⟨hw, hlock⟩ | ⟨hw, hlock⟩
    · simp only [stepThread, hw, hlock, if_true] at h
      cases h
      exact .wakes r j j' hj ((goto_of_other ..).trans hr) (.inr ⟨goto_self .., rfl⟩)
    · simp only [stepThread, hw] at h
      cases h
      refine .turn r.other (j' + 1) j (pass hj hlt) (.inl ⟨goto_self .., rfl⟩) ?_
      rw [Thread.other_other]
      exact (goto_of_other ..).trans hr

end Turns

/-- Once the first thread is through, the other one ends its last round and returns. -/
theorem step_ending (hn : 0 < n) (ha : s.pos a = .returned)
    (hw : (s.pos a.other = .woken (n - 1) ∧ s.lock = none) ∨
      (s.pos a.other = .unlock (n - 1) ∧ s.lock = some a.other) ∨
      ((s.pos a.other = .last ∨ s.pos a.other = .returned) ∧ s.lock = none))
    (h : stepThread n s i = some (t, l)) : Phase n a t := by
  obtain rfl | rfl := a.eq_or_other i
  · simp only [stepThread, ha] at h
    cases h
  · rcases hw with ⟨hw, hlock⟩ | ⟨hw, hlock⟩ | ⟨hw | hw, hlock⟩
    · simp only [stepThread, hw, hlock, if_true] at h
      cases h
      exact .ending ((goto_of_other ..).trans ha) (.inr (.inl ⟨goto_self .., rfl⟩))
    · have hloop : loop n (n - 1 + 1) = .last := by
        rw [loop, if_neg]
        omega
      simp only [stepThread, hw, hloop] at h
      cases h
      exact .ending ((goto_of_other ..).trans ha) (.inr (.inr ⟨.inl (goto_self ..), rfl⟩))
    · simp only [stepThread, hw] at h
      cases h
      refine .ending ?_ (.inr (.inr ⟨.inr ?_, hlock⟩))
      · rw [signal_of_other, goto_of_other, ha]
        rfl
      · rw [signal_self, goto_self]
    · simp only [stepThread, hw] at h
      cases h

theorem step_thread (hn : 0 < n) (hs : Ok n s) (hp : Phase n a s)
    (h : stepThread n s i = some (t, l)) : Phase n a t := by
  cases hp with
  | first ha hlock hb => exact step_first ha hlock hb h
  | second ha hlock hb => exact step_second hn ha hlock hb h
  | turn r j j' hj hr hw => exact step_turn hj hr hw h
  | handOver r j j' hj hr hlock hw => exact step_handOver hj hr hlock hw h
  | wakes r j j' hj hr hw =>
      have hround := hs.round r
      rw [hr] at hround
      exact step_wakes hround hj hr hw h
  | ending ha hw => exact step_ending hn ha hw h

/-- While `main` still creates a thread, the other one is in its first turn. -/
theorem create (hn : 0 < n) (hp : Phase n a s) (hidle : s.pos i = .idle) (rest : List MainCall) :
    Phase n a { s.goto i (loop n 0) with main := rest } := by
  have hlock0 : loop n 0 = .lock 0 := by rw [loop, if_pos hn]
  have hloop : ∀ {r : Thread} {j : ℕ}, s.pos r = loop n j → s.pos r ≠ .idle := by
    intro r j hr
    rw [hr]
    exact loop_ne_idle n j
  cases hp with
  | first ha hlock hb =>
      obtain rfl | rfl := a.eq_or_other i
      · rw [hidle] at ha
        simp at ha
      · refine .first ?_ hlock (.inr ?_)
        · show (s.goto a.other _).pos a = _ ∨ (s.goto a.other _).pos a = _ ∨ _
          rw [goto_of_other]
          exact ha
        · show (s.goto a.other _).pos a.other = _
          rw [goto_self, hlock0]
  | second ha hlock hb =>
      obtain rfl | rfl := a.eq_or_other i
      · rw [hidle] at ha
        cases ha
      · exact .second ((goto_of_other ..).trans ha) hlock (.inr ((goto_self ..).trans hlock0))
  | turn r j j' hj hr hw =>
      obtain rfl | rfl := r.eq_or_other i
      · rcases hr with ⟨hr, -⟩ | ⟨hr | hr, -⟩
        · exact absurd hidle (hloop hr)
        all_goals
          rw [hidle] at hr
          cases hr
      · rw [hidle] at hw
        cases hw
  | handOver r j j' hj hr hlock hw =>
      obtain rfl | rfl := r.eq_or_other i
      · rw [hidle] at hr
        cases hr
      · rw [hidle] at hw
        cases hw
  | wakes r j j' hj hr hw =>
      obtain rfl | rfl := r.eq_or_other i
      · rw [hidle] at hr
        cases hr
      · rcases hw with ⟨hw, -⟩ | ⟨hw, -⟩ <;> rw [hidle] at hw <;> cases hw
  | ending ha hw =>
      obtain rfl | rfl := a.eq_or_other i
      · rw [hidle] at ha
        cases ha
      · rcases hw with ⟨hw, -⟩ | ⟨hw, -⟩ | ⟨hw | hw, -⟩ <;> rw [hidle] at hw <;> cases hw

theorem step (hn : 0 < n) (hs : Ok n s) (hp : Phase n a s) (h : StepOnSignal n s l t) :
    Phase n a t := by
  rcases step_cases h with ⟨i, hi⟩ | ⟨i, rest, hmain, -, rfl⟩ | ⟨i, rest, -, -, -, rfl⟩
  · exact hp.step_thread hn hs hi
  · exact hp.create hn ((hs.idle i).mpr (by rw [hmain]; exact List.mem_cons_self)) rest
  · exact hp.congr rfl rfl

end Phase

/-- No thread has locked the mutex yet. -/
structure Start (s : State) : Prop where
  lock : s.lock = none
  fresh : ∀ i, Fresh (s.pos i)

/-- The thread that locks the mutex first has the first turn. -/
theorem Start.step (hn : 0 < n) (hstart : Start s) (h : StepOnSignal n s l t) :
    l.output = none ∧ (Start t ∨ ∃ a, Phase n a t) := by
  have hlock0 : loop n 0 = .lock 0 := by rw [loop, if_pos hn]
  rcases step_cases h with ⟨i, hi⟩ | ⟨i, rest, -, rfl, rfl⟩ | ⟨i, rest, -, -, hret, rfl⟩
  · rcases hstart.fresh i with hp | hp <;>
      simp only [stepThread, hp, hstart.lock, if_true] at hi <;> cases hi
    refine ⟨rfl, .inr ⟨i, .first (.inl (goto_self ..)) rfl ?_⟩⟩
    exact (goto_other s i (.print 0)).symm ▸ hstart.fresh i.other
  · refine ⟨rfl, .inl ⟨hstart.lock, fun k => ?_⟩⟩
    obtain rfl | rfl := i.eq_or_other k
    · exact .inr ((goto_self ..).trans hlock0)
    · exact (goto_other s i (loop n 0)).symm ▸ hstart.fresh i.other
  · rcases hstart.fresh i with hp | hp <;> rw [hp] at hret <;> cases hret

/-! ## The output -/

/-- The number that comes out after `k` others if the thread `a` was the first. -/
def expected (a : Thread) (k : ℕ) : ℕ :=
  if k % 2 = 0 then a.number (k / 2) else a.other.number (k / 2)

/-- The numbers both threads have printed. -/
def printed (n : ℕ) (a : Thread) (s : State) : ℕ :=
  (s.pos a).printed n + (s.pos a.other).printed n

/-- A step prints the next number of a thread, or none. -/
theorem Ok.output_step (hs : Ok n s) (h : StepOnSignal n s l t) :
    (l.output = none ∧ ∀ k, (t.pos k).printed n = (s.pos k).printed n) ∨
      ∃ i j, s.pos i = .print j ∧ l.output = some (i.number j) ∧ (s.pos i).printed n = j ∧
        (t.pos i).printed n = j + 1 ∧ (t.pos i.other).printed n = (s.pos i.other).printed n := by
  rcases step_cases h with ⟨i, hi⟩ | ⟨i, rest, hmain, rfl, rfl⟩ | ⟨i, rest, hmain, rfl, -, rfl⟩
  · obtain ⟨sig, hmove, hother, -⟩ := move_of_stepThread hi
    have hsame : (t.pos i.other).printed n = (s.pos i.other).printed n := by
      rw [hother]
      split_ifs
      · exact Pos.printed_wake _ _
      · rfl
    rcases hmove.output_eq (hs.round i) with ⟨hout, heq⟩ | ⟨j, hpos, hout, hj, hj'⟩
    · refine .inl ⟨hout, fun k => ?_⟩
      obtain rfl | rfl := i.eq_or_other k
      · exact heq
      · exact hsame
    · exact .inr ⟨i, j, hpos, hout, hj, hj', hsame⟩
  · have hidle : s.pos i = .idle := (hs.idle i).mpr (by rw [hmain]; exact List.mem_cons_self)
    refine .inl ⟨rfl, fun k => ?_⟩
    obtain rfl | rfl := i.eq_or_other k
    · show ((s.goto k (loop n 0)).pos k).printed n = _
      rw [goto_self, hidle, Pos.printed_loop (Nat.zero_le n)]
      rfl
    · show ((s.goto i (loop n 0)).pos i.other).printed n = _
      rw [goto_other]
  · exact .inl ⟨rfl, fun _ => rfl⟩

/-- A thread that is about to print has printed as many numbers as the other one, or one less if
it came second. -/
theorem Phase.about_to_print {j : ℕ} (hp : Phase n a s) (hi : s.pos i = .print j) :
    (i = a ∧ (s.pos i.other).printed n = j) ∨
      (i = a.other ∧ (s.pos i.other).printed n = j + 1) := by
  cases hp with
  | first ha hlock hb =>
      obtain rfl | rfl := a.eq_or_other i
      · refine .inl ⟨rfl, ?_⟩
        rw [hi] at ha
        obtain rfl : j = 0 := by simpa using ha
        rcases hb with hb | hb <;> rw [hb] <;> rfl
      · rcases hb with hb | hb <;> rw [hi] at hb <;> cases hb
  | second ha hlock hb =>
      obtain rfl | rfl := a.eq_or_other i
      · rw [hi] at ha
        cases ha
      · rcases hb with hb | hb <;> rw [hi] at hb <;> cases hb
  | turn r k k' hj hr hw =>
      obtain rfl | rfl := r.eq_or_other i
      · have hk : j = k := by
          rcases hr with ⟨hr, -⟩ | ⟨hr | hr, -⟩
          · rw [loop] at hr
            split_ifs at hr <;> rw [hi] at hr <;> cases hr
          · rw [hi] at hr
            exact Pos.print.inj hr
          · rw [hi] at hr
            cases hr
        subst hk
        rw [hw]
        obtain ⟨-, ⟨rfl, rfl⟩ | ⟨rfl, rfl⟩⟩ := hj
        · exact .inl ⟨rfl, rfl⟩
        · exact .inr ⟨rfl, rfl⟩
      · rw [hi] at hw
        cases hw
  | handOver r k k' hj hr hlock hw =>
      obtain rfl | rfl := r.eq_or_other i
      · rw [hi] at hr
        cases hr
      · rw [hi] at hw
        cases hw
  | wakes r k k' hj hr hw =>
      obtain rfl | rfl := r.eq_or_other i
      · rw [hi] at hr
        cases hr
      · rcases hw with ⟨hw, -⟩ | ⟨hw, -⟩ <;> rw [hi] at hw <;> cases hw
  | ending ha hw =>
      obtain rfl | rfl := a.eq_or_other i
      · rw [hi] at ha
        cases ha
      · rcases hw with ⟨hw, -⟩ | ⟨hw, -⟩ | ⟨hw | hw, -⟩ <;> rw [hi] at hw <;> cases hw

/-- What holds after every run. -/
structure Invariant (n : ℕ) (tr : List Label) (s : State) : Prop where
  ok : Ok n s
  turns : (Start s ∧ output tr = []) ∨
    ∃ a, Phase n a s ∧ output tr = (List.range (printed n a s)).map (expected a)

theorem output_snoc (tr : List Label) (l : Label) :
    output (tr ++ [l]) = output tr ++ l.output.toList := filterMap_snoc _ _ _

theorem Invariant.step (hn : 0 < n) (hs : Invariant n tr s) (h : StepOnSignal n s l t) :
    Invariant n (tr ++ [l]) t := by
  refine ⟨hs.ok.step h, ?_⟩
  rcases hs.turns with ⟨hstart, hout⟩ | ⟨a, hp, hout⟩
  · obtain ⟨hnone, hstart' | ⟨a, hp⟩⟩ := hstart.step hn h
    · exact .inl ⟨hstart', by rw [output_snoc, hout, hnone]; rfl⟩
    · -- The thread that has locked the mutex has not printed yet.
      refine .inr ⟨a, hp, ?_⟩
      have hzero : ∀ k, (t.pos k).printed n = 0 := by
        rcases hs.ok.output_step h with ⟨-, hsame⟩ | ⟨i, j, -, hsome, -⟩
        · intro k
          rw [hsame]
          rcases hstart.fresh k with hk | hk <;> rw [hk] <;> rfl
        · rw [hnone] at hsome
          cases hsome
      rw [output_snoc, hout, hnone, printed, hzero, hzero]
      rfl
  · refine .inr ⟨a, hp.step hn hs.ok h, ?_⟩
    rcases hs.ok.output_step h with ⟨hnone, hsame⟩ | ⟨i, j, hi, hsome, hbefore, hafter, hother⟩
    · have hcount : printed n a t = printed n a s := by rw [printed, printed, hsame, hsame]
      rw [output_snoc, hout, hnone, hcount]
      exact List.append_nil _
    · rw [output_snoc, hout, hsome, Option.toList_some]
      rcases hp.about_to_print hi with ⟨rfl, hcount⟩ | ⟨rfl, hcount⟩
      · have hk : printed n i s = 2 * j := by rw [printed, hbefore, hcount]; omega
        have hk' : printed n i t = 2 * j + 1 := by rw [printed, hafter, hother, hcount]; omega
        have hnext : expected i (2 * j) = i.number j := by
          rw [expected, if_pos (by omega), Nat.mul_div_cancel_left j (by omega)]
        rw [hk, hk', List.range_succ, List.map_append, List.map_singleton, hnext]
      · rw [Thread.other_other] at hother hcount
        have hk : printed n a s = 2 * j + 1 := by rw [printed, hbefore, hcount]; omega
        have hk' : printed n a t = 2 * j + 1 + 1 := by rw [printed, hafter, hother, hcount]; omega
        have hnext : expected a (2 * j + 1) = a.other.number j := by
          rw [expected, if_neg (by omega)]
          congr 1
          omega
        rw [hk, hk', List.range_succ (n := 2 * j + 1), List.map_append, List.map_singleton, hnext]

/-- The invariant holds after every run without spurious wake-ups. -/
theorem invariant_of_run (hn : 0 < n) (h : Run (StepOnSignal n) .init tr s) : Invariant n tr s := by
  refine Run.history (P := Invariant n) h ?_ fun tr s l t _ hs hstep => hs.step hn hstep
  exact ⟨Ok.init, .inl ⟨⟨rfl, fun _ => .inl rfl⟩, rfl⟩⟩

/-- What two threads print in `n` rounds each if `a` is the first. -/
def sequence (n : ℕ) (a : Thread) : List ℕ := (List.range (2 * n)).map (expected a)

/-- With no round nothing is printed. -/
theorem output_of_no_round (h : Run (StepOnSignal 0) .init tr s) : Ok 0 s ∧ output tr = [] := by
  refine Run.history (P := fun tr s => Ok 0 s ∧ output tr = []) h ⟨Ok.init, rfl⟩ ?_
  rintro tr s l t - ⟨hs, hout⟩ hstep
  refine ⟨hs.step hstep, ?_⟩
  rcases hs.output_step hstep with ⟨hnone, -⟩ | ⟨i, j, hi, -⟩
  · rw [output_snoc, hout, hnone]
    rfl
  · have hround := hs.round i
    rw [hi] at hround
    exact absurd hround (Nat.not_lt_zero j)

/-- Whichever thread is the first, and however the two and `main` run, without spurious wake-ups
they print in turn: what has been printed is a beginning of 1, 2, 3, 4, .. or of 2, 1, 4, 3, .. -/
theorem output_alternates (hno : ∀ i, .spurious i ∉ tr) (h : Reaches n tr s) :
    ∃ a, output tr <+: sequence n a := by
  have hrun := run_onSignal hno h
  rcases Nat.eq_zero_or_pos n with rfl | hn
  · exact ⟨.foo1, (output_of_no_round hrun).2 ▸ List.nil_prefix⟩
  obtain ⟨hok, ⟨-, hout⟩ | ⟨a, -, hout⟩⟩ := invariant_of_run hn hrun
  · exact ⟨.foo1, hout ▸ List.nil_prefix⟩
  · refine ⟨a, ?_⟩
    have hle : printed n a s ≤ 2 * n := by
      have hbound : ∀ k, (s.pos k).printed n ≤ n := by
        intro k
        have hround := hok.round k
        cases hp : s.pos k <;> rw [hp, Pos.Ok] at hround <;> simp only [Pos.printed] <;> omega
      have h₁ := hbound a
      have h₂ := hbound a.other
      rw [printed]
      omega
    obtain ⟨k, hk⟩ := Nat.exists_eq_add_of_le hle
    rw [hout, sequence, hk, List.range_add, List.map_append]
    exact List.prefix_append _ _

/-- A whole run of the program with one round. -/
def oneRound : List Act :=
  [.main, .main] ++ List.replicate 4 (.run .foo1) ++ List.replicate 4 (.run .foo2) ++
    List.replicate 3 (.run .foo1) ++ List.replicate 3 (.run .foo2) ++ [.main, .main]

theorem not_spurious_oneRound (i : Thread) :
    .spurious i ∉ (play (step 1) .init oneRound).2 := by
  cases i <;> decide

/-- In such a run 1 and 2 come out. -/
theorem output_alternates_one :
    output (play (step 1) .init oneRound).2 = [1, 2] ∧
      ∃ a, output (play (step 1) .init oneRound).2 <+: sequence 1 a :=
  ⟨rfl, output_alternates not_spurious_oneRound (run_play (step 1) .init oneRound)⟩

/-- A spurious wake-up sends the first thread around its loop once more: 1 and 3 come out. -/
example : output (play (step 2) .init ([.main] ++ List.replicate 4 (.run .foo1) ++
    [.spurious .foo1] ++ List.replicate 4 (.run .foo1))).2 = [1, 3] := by
  decide

/-! ## The end -/

/-- When `main` cannot go on it has created both threads, and has joined them if both have
returned. -/
theorem Ok.main_stuck (hs : Ok n s) (h : stepMain n s = none) :
    (∀ i, s.pos i ≠ .idle) ∧ ((∀ i, s.pos i = .returned) → s.main = []) := by
  have hcases : s.main = [] ∨ ∃ i rest, s.main = .join i :: rest ∧ s.pos i ≠ .returned := by
    unfold stepMain at h
    split at h
    · cases h
    next i rest hmain =>
      split_ifs at h with hret
      exact .inr ⟨i, rest, hmain, hret⟩
    next hmain => exact .inl hmain
  constructor
  · intro i hidle
    have hmem := (hs.idle i).mp hidle
    rcases hcases with hmain | ⟨k, rest, hmain, -⟩
    · rw [hmain] at hmem
      cases hmem
    · -- Behind the first `join` of `main` there is no `create`.
      have hsuffix := hs.suffix
      rw [hmain] at hmem hsuffix
      simp only [mainCalls, List.suffix_cons_iff, List.suffix_nil, List.cons.injEq, reduceCtorEq,
        false_and, false_or, or_false] at hsuffix
      rcases hsuffix with ⟨-, rfl⟩ | ⟨-, rfl⟩ <;> simp at hmem
  · intro hall
    rcases hcases with hmain | ⟨k, -, -, hret⟩
    · exact hmain
    · exact absurd (hall k) hret

/-- Where no thread can go on, both have returned. -/
theorem Phase.returned_of_stuck (hp : Phase n a s)
    (hidle : ∀ i, s.pos i ≠ .idle) (h : ∀ i, stepThread n s i = none) :
    ∀ i, s.pos i = .returned := by
  have hback : s.pos a = .returned → s.pos a.other = .returned → ∀ i, s.pos i = .returned := by
    intro ha hb i
    obtain rfl | rfl := a.eq_or_other i
    · exact ha
    · exact hb
  cases hp with
  | first ha hlock hb =>
      have hstuck := h a
      rcases ha with ha | ha | ha <;> simp [stepThread, ha] at hstuck
  | second ha hlock hb =>
      have hstuck := h a.other
      rcases hb with hb | hb
      · exact absurd hb (hidle _)
      · simp [stepThread, hb, hlock] at hstuck
  | turn r j j' hj hr hw =>
      have hstuck := h r
      rcases hr with ⟨hr, hlock⟩ | ⟨hr | hr, hlock⟩
      · rw [loop] at hr
        split_ifs at hr <;> simp [stepThread, hr, hlock] at hstuck
      · simp [stepThread, hr] at hstuck
      · simp [stepThread, hr] at hstuck
  | handOver r j j' hj hr hlock hw =>
      have hstuck := h r
      simp [stepThread, hr] at hstuck
  | wakes r j j' hj hr hw =>
      have hstuck := h r.other
      rcases hw with ⟨hw, hlock⟩ | ⟨hw, hlock⟩ <;> simp [stepThread, hw, hlock] at hstuck
  | ending ha hw =>
      have hstuck := h a.other
      rcases hw with ⟨hw, hlock⟩ | ⟨hw, hlock⟩ | ⟨hw | hw, hlock⟩
      · simp [stepThread, hw, hlock] at hstuck
      · simp [stepThread, hw] at hstuck
      · simp [stepThread, hw] at hstuck
      · exact hback ha hw

/-- Where nothing can happen but a spurious wake-up, all is done. -/
theorem done_of_stuck (hs : Invariant n tr s)
    (h : ∀ act, (∀ i, act ≠ .spurious i) → step n s act = none) :
    Done s ∧ ∃ a, output tr = sequence n a := by
  obtain ⟨hidle, hjoined⟩ := hs.ok.main_stuck (h .main nofun)
  rcases hs.turns with ⟨hstart, -⟩ | ⟨a, hp, hout⟩
  · -- A thread that is created can lock the free mutex.
    have hstuck : stepThread n s .foo1 = none := h (.run .foo1) nofun
    rcases hstart.fresh .foo1 with hp | hp
    · exact absurd hp (hidle _)
    · simp [stepThread, hp, hstart.lock] at hstuck
  · have hall := hp.returned_of_stuck hidle fun i => h (.run i) nofun
    refine ⟨⟨hall, hjoined hall⟩, a, ?_⟩
    rw [hout, sequence, printed, hall, hall]
    simp only [Pos.printed, Nat.two_mul]

/-- With no round a thread has only its last signal to send. -/
theorem done_of_stuck_of_no_round (hs : Ok 0 s)
    (h : ∀ act, (∀ i, act ≠ .spurious i) → step 0 s act = none) : Done s := by
  obtain ⟨hidle, hjoined⟩ := hs.main_stuck (h .main nofun)
  have hall : ∀ i, s.pos i = .returned := by
    intro i
    have hround := hs.round i
    have hstuck : stepThread 0 s i = none := h (.run i) nofun
    cases hp : s.pos i with
    | idle => exact absurd hp (hidle i)
    | last => simp [stepThread, hp] at hstuck
    | returned => rfl
    | _ j =>
        rw [hp] at hround
        exact absurd hround (Nat.not_lt_zero j)
  exact ⟨hall, hjoined hall⟩

/-- Without spurious wake-ups the steps taken and those to go are `12 * n + 6`. -/
theorem length_add_toGo (h : Run (StepOnSignal n) .init tr s) :
    Ok n s ∧ tr.length + toGo n s = 12 * n + 6 := by
  refine Run.history (P := fun tr s => Ok n s ∧ tr.length + toGo n s = 12 * n + 6) h
    ⟨Ok.init, ?_⟩ fun tr s l t _ hs hstep => ⟨hs.1.step hstep, ?_⟩
  · simp only [toGo, State.init, mainCalls, Pos.toGo, List.length_cons, List.length_nil]
    omega
  · rw [List.length_append, List.length_singleton]
    have hgo := hs.1.toGo_step hstep
    omega

/-- As long as no wait ends without a signal: no run has more than `12 * n + 6` steps, and one that
cannot go on has just as many; both threads have then returned, `main` has joined them, and all
numbers have come out. No signal that a thread needs is ever lost. -/
theorem run_completes (hno : ∀ i, .spurious i ∉ tr) (h : Reaches n tr s) :
    tr.length ≤ 12 * n + 6 ∧
      ((∀ act, (∀ i, act ≠ .spurious i) → step n s act = none) →
        Done s ∧ tr.length = 12 * n + 6 ∧ ∃ a, output tr = sequence n a) := by
  have hrun := run_onSignal hno h
  obtain ⟨hok, hlength⟩ := length_add_toGo hrun
  refine ⟨by omega, fun hstuck => ?_⟩
  obtain ⟨hdone, hout⟩ : Done s ∧ ∃ a, output tr = sequence n a := by
    rcases Nat.eq_zero_or_pos n with rfl | hn
    · exact ⟨done_of_stuck_of_no_round hok hstuck, .foo1, (output_of_no_round hrun).2⟩
    · exact done_of_stuck (invariant_of_run hn hrun) hstuck
  refine ⟨hdone, ?_, hout⟩
  rw [toGo, hdone.1, hdone.1, hdone.2] at hlength
  simpa only [Pos.toGo, List.length_nil, Nat.add_zero] using hlength

/-- The run with one round has 18 steps. -/
theorem run_completes_one : ∃ tr s, Reaches 1 tr s ∧ tr.length = 18 ∧ Done s := by
  have hrun := run_play (step 1) .init oneRound
  have hstuck : ∀ act, (∀ i, act ≠ .spurious i) →
      step 1 (play (step 1) .init oneRound).1 act = none := by
    intro act hact
    match act with
    | .run .foo1 => rfl
    | .run .foo2 => rfl
    | .main => rfl
    | .spurious i => exact absurd rfl (hact i)
  obtain ⟨hdone, hlength, -⟩ := (run_completes not_spurious_oneRound hrun).2 hstuck
  exact ⟨_, _, hrun, hlength, hdone⟩

/-- If the first thread is woken spuriously and leaves before the second one waits, nobody is left
to wake the second one. -/
example :
    let s := (play (step 1) .init ([.main, .main] ++ List.replicate 4 (.run .foo1) ++
      [.spurious .foo1] ++ List.replicate 3 (.run .foo1) ++ List.replicate 4 (.run .foo2))).1
    s.pos .foo1 = .returned ∧ s.pos .foo2 = .asleep 0 := by
  decide

end CondAlternation
