import LinuxPrograms.Lib.LabelledSystem
import Mathlib.Logic.Function.Basic
import Mathlib.Data.Finset.Insert
import Mathlib.Data.Fintype.Defs

/-!
# Three threads and three condition variables

`main.cpp` of `three_thread_synchronization`: in each round `t1`, `t2` and `t3` take the mutex,
signal the condition variable of the next thread and wait on their own; behind its loop a thread
signals all three. There is no predicate behind a wait, so that a signal nobody waits for is lost.

The `printf` lines and the counter they print are left out; the `usleep` calls of `main` promise
nothing about the order of the threads.

- `step`, `Reaches`: `main` and the threads in any order, with loops of `n` rounds.
- `Move`, `run_cases`: what a step of a thread does, stated once for the invariants.
- `Pos.signals`, `Pos.begun`, `Pos.woke`: how many signals of its loop a thread has sent, and how
  many of its waits have begun and ended.
-/

namespace CondRotation

open LabelledSystem

/-! ## The program -/

/-- `cond1`, `cond2` and `cond3`. -/
inductive Cond
  | cond1
  | cond2
  | cond3
  deriving DecidableEq, Repr

/-- What a thread function signals and waits on in a round. -/
structure ThreadFn where
  signals : Cond
  waits : Cond
  deriving DecidableEq

/-- The threads. -/
inductive Thread
  | t1
  | t2
  | t3
  deriving DecidableEq, Repr

/-- `t1`, `t2` and `t3`. -/
def Thread.fn : Thread → ThreadFn
  | t1 => ⟨.cond2, .cond1⟩
  | t2 => ⟨.cond3, .cond2⟩
  | t3 => ⟨.cond1, .cond3⟩

/-- The signals behind the loop; the three functions send them in one order. -/
def lastSignals : List Cond := [.cond1, .cond2, .cond3]

/-- Where a thread stands: not created; in the round `j` before `pthread_mutex_lock`,
`pthread_cond_signal`, `pthread_cond_wait` or `pthread_mutex_unlock`; inside `pthread_cond_wait`,
asleep or signalled and after the mutex; behind its loop, with the signals `todo` left; or
returned. -/
inductive Pos
  | idle
  | lock (j : ℕ)
  | signal (j : ℕ)
  | wait (j : ℕ)
  | asleep (j : ℕ)
  | woken (j : ℕ)
  | unlock (j : ℕ)
  | last (todo : List Cond)
  | returned
  deriving DecidableEq, Repr

/-- The head of the loop of `n` rounds. -/
def loop (n j : ℕ) : Pos := if j < n then .lock j else .last lastSignals

/-- A signal reaches a sleeping thread and no other. -/
def Pos.wake : Pos → Pos
  | asleep j => woken j
  | p => p

/-- The calls of `main`. -/
inductive MainCall
  | create (i : Thread)
  | join (i : Thread)
  deriving DecidableEq, Repr

/-- `main`. -/
def mainCalls : List MainCall :=
  [.create .t1, .create .t2, .create .t3, .join .t3, .join .t2, .join .t1]

/-- The mutex `lock` with its owner, the threads, and the calls `main` has before it. -/
structure State where
  lock : Option Thread
  pos : Thread → Pos
  main : List MainCall

/-- Before the first `pthread_create`. -/
def State.init : State := ⟨none, fun _ => .idle, mainCalls⟩

/-- `pthread_cond_signal`: it wakes a thread that sleeps on `c`, or is lost. Only one thread ever
waits on each of the three. -/
def State.signal (s : State) (c : Cond) : State :=
  { s with pos := fun i => if i.fn.waits = c then (s.pos i).wake else s.pos i }

/-- The thread `i` goes to `p`. -/
def State.goto (s : State) (i : Thread) (p : Pos) : State :=
  { s with pos := Function.update s.pos i p }

/-- What a step does. -/
inductive Label
  | locked (i : Thread)
  | signalled (i : Thread)
  | waits (i : Thread)
  | relocked (i : Thread)
  | unlocked (i : Thread)
  | lastSignal (i : Thread) (c : Cond)
  | returned (i : Thread)
  | created (i : Thread)
  | joined (i : Thread)
  deriving DecidableEq, Repr

/-- A thread or `main` takes its next step. -/
inductive Act
  | run (i : Thread)
  | main
  deriving DecidableEq, Repr

/-- A step of the thread `i`. -/
def stepThread (n : ℕ) (s : State) (i : Thread) : Option (State × Label) :=
  match s.pos i with
  | .idle => none
  | .lock j =>
      if s.lock = none then some ({ s.goto i (.signal j) with lock := some i }, .locked i) else none
  | .signal j => some ((s.goto i (.wait j)).signal i.fn.signals, .signalled i)
  -- `pthread_cond_wait` gives the mutex back as the thread falls asleep.
  | .wait j => some ({ s.goto i (.asleep j) with lock := none }, .waits i)
  | .asleep _ => none
  | .woken j =>
      if s.lock = none then some ({ s.goto i (.unlock j) with lock := some i }, .relocked i)
      else none
  | .unlock j => some ({ s.goto i (loop n (j + 1)) with lock := none }, .unlocked i)
  -- The last signals are sent without the mutex.
  | .last (c :: todo) => some ((s.goto i (.last todo)).signal c, .lastSignal i c)
  | .last [] => some (s.goto i .returned, .returned i)
  | .returned => none

/-- A step of `main`. -/
def stepMain (n : ℕ) (s : State) : Option (State × Label) :=
  match s.main with
  | .create i :: rest => some ({ s.goto i (loop n 0) with main := rest }, .created i)
  | .join i :: rest =>
      if s.pos i = .returned then some ({ s with main := rest }, .joined i) else none
  | [] => none

/-- One step, with loops of `n` rounds. -/
def step (n : ℕ) (s : State) : Act → Option (State × Label)
  | .run i => stepThread n s i
  | .main => stepMain n s

/-- The labelled step relation. -/
abbrev Step (n : ℕ) : State → Label → State → Prop := StepOf (step n)

/-- The labels `tr` lead from the start to `s`. -/
abbrev Reaches (n : ℕ) (tr : List Label) (s : State) : Prop := Run (Step n) .init tr s

/-- Every thread has completed its rounds and returned, and `main` has joined them. -/
def Done (s : State) : Prop := (∀ i, s.pos i = .returned) ∧ s.main = []

/-! ## The ring -/

namespace Thread

/-- The thread whose condition variable this one signals. -/
def next : Thread → Thread
  | t1 => t2
  | t2 => t3
  | t3 => t1

/-- The thread that signals the condition variable of this one. -/
def prev : Thread → Thread
  | t1 => t3
  | t2 => t1
  | t3 => t2

instance : Fintype Thread where
  elems := {t1, t2, t3}
  complete i := by cases i <;> decide

@[simp]
theorem next_prev (i : Thread) : i.prev.next = i := by cases i <;> rfl

@[simp]
theorem prev_prev (i : Thread) : i.prev.prev = i.next := by cases i <;> rfl

@[simp]
theorem next_next (i : Thread) : i.next.next = i.prev := by cases i <;> rfl

@[simp]
theorem prev_next (i : Thread) : i.next.prev = i := by cases i <;> rfl

theorem next_ne (i : Thread) : i.next ≠ i := by cases i <;> decide

theorem prev_ne (i : Thread) : i.prev ≠ i := by cases i <;> decide

/-- The three threads, seen from one of them. -/
theorem eq_or (i j : Thread) : j = i ∨ j = i.next ∨ j = i.prev := by
  revert i j
  decide

/-- Of any two of the threads there is a third. -/
theorem exists_ne (i j : Thread) : ∃ k, k ≠ i ∧ k ≠ j := by
  revert i j
  decide

theorem fn_signals (i : Thread) : i.fn.signals = i.next.fn.waits := by cases i <;> rfl

/-- Every condition variable has one thread that waits on it. -/
@[simp]
theorem waits_inj {i j : Thread} : i.fn.waits = j.fn.waits ↔ i = j := by
  revert i j
  decide

end Thread

/-! ## Counts -/

namespace Pos

variable {n j : ℕ} {c d : Cond} {p q : Pos}

/-- The thread holds the mutex. -/
def Holds : Pos → Prop
  | signal _ | wait _ | unlock _ => True
  | _ => False

/-- The thread has left its loop. -/
def Left : Pos → Prop
  | last _ | returned => True
  | _ => False

/-- The signals the thread has sent in its loop of `n` rounds. -/
def signals (n : ℕ) : Pos → ℕ
  | idle => 0
  | lock j | signal j => j
  | wait j | asleep j | woken j | unlock j => j + 1
  | last _ | returned => n

/-- The waits it has begun. -/
def begun (n : ℕ) : Pos → ℕ
  | idle => 0
  | lock j | signal j | wait j => j
  | asleep j | woken j | unlock j => j + 1
  | last _ | returned => n

/-- The waits a signal has ended. -/
def woke (n : ℕ) : Pos → ℕ
  | idle => 0
  | lock j | signal j | wait j | asleep j => j
  | woken j | unlock j => j + 1
  | last _ | returned => n

/-- The last signals it has sent on `c`. -/
def finals (c : Cond) : Pos → ℕ
  | last todo => if c ∈ todo then 0 else 1
  | returned => 1
  | _ => 0

/-- The steps before it: five in a round, four behind the loop, and its creation. -/
def toGo (n : ℕ) : Pos → ℕ
  | idle => 5 * n + 5
  | lock j => 5 * (n - j) + 4
  | signal j => 5 * (n - j) + 3
  | wait j => 5 * (n - j) + 2
  | asleep j | woken j => 5 * (n - j) + 1
  | unlock j => 5 * (n - j)
  | last todo => todo.length + 1
  | returned => 0

/-- What holds of the position of a thread in a loop of `n` rounds. -/
def Ok (n : ℕ) : Pos → Prop
  | lock j | signal j | wait j | asleep j | woken j | unlock j => j < n
  | last todo => todo <:+ lastSignals
  | _ => True

@[simp]
theorem signals_wake (n : ℕ) (p : Pos) : p.wake.signals n = p.signals n := by cases p <;> rfl

@[simp]
theorem begun_wake (n : ℕ) (p : Pos) : p.wake.begun n = p.begun n := by cases p <;> rfl

/-- A signal ends the wait that has begun, if there is one. -/
@[simp]
theorem woke_wake (n : ℕ) (p : Pos) : p.wake.woke n = p.begun n := by cases p <;> rfl

@[simp]
theorem finals_wake (c : Cond) (p : Pos) : p.wake.finals c = p.finals c := by cases p <;> rfl

@[simp]
theorem toGo_wake (n : ℕ) (p : Pos) : p.wake.toGo n = p.toGo n := by cases p <;> rfl

@[simp]
theorem left_wake (p : Pos) : p.wake.Left ↔ p.Left := by cases p <;> rfl

@[simp]
theorem holds_wake (p : Pos) : p.wake.Holds ↔ p.Holds := by cases p <;> rfl

@[simp]
theorem ok_wake (p : Pos) : p.wake.Ok n ↔ p.Ok n := by cases p <;> rfl

theorem wake_ne_asleep (p : Pos) (j : ℕ) : p.wake ≠ asleep j := by cases p <;> exact nofun

theorem woke_le_begun (n : ℕ) (p : Pos) : p.woke n ≤ p.begun n := by
  cases p <;> simp [woke, begun]

theorem begun_le_woke_succ (n : ℕ) (p : Pos) : p.begun n ≤ p.woke n + 1 := by
  cases p <;> simp [woke, begun]

/-- A thread without the mutex has begun a wait for every signal it has sent. -/
theorem begun_of_not_holds (h : ¬ p.Holds) : p.begun n = p.signals n := by
  cases p <;> simp [Holds] at h <;> rfl

/-- Behind its loop a thread has been through all its waits. -/
theorem woke_of_left (h : p.Left) : p.woke n = n := by
  cases p <;> simp [Left] at h <;> rfl

theorem left_of_finals (h : 0 < p.finals c) : p.Left := by
  cases p <;> simp [finals] at h <;> trivial

theorem finals_le_one (c : Cond) (p : Pos) : p.finals c ≤ 1 := by
  cases p <;> simp [finals]
  split_ifs <;> omega

end Pos

/-! ## Moves -/

/-- What a step makes of the position of the thread `i`, and the condition variable it signals. -/
inductive Move (n : ℕ) (i : Thread) : Pos → Option Cond → Pos → Prop
  | create : Move n i .idle none (loop n 0)
  | lock (j : ℕ) : Move n i (.lock j) none (.signal j)
  | signal (j : ℕ) : Move n i (.signal j) (some i.fn.signals) (.wait j)
  | wait (j : ℕ) : Move n i (.wait j) none (.asleep j)
  | relock (j : ℕ) : Move n i (.woken j) none (.unlock j)
  | unlock (j : ℕ) : Move n i (.unlock j) none (loop n (j + 1))
  | last (c : Cond) (todo : List Cond) : Move n i (.last (c :: todo)) (some c) (.last todo)
  | finish : Move n i (.last []) none .returned

namespace Move

variable {n : ℕ} {i : Thread} {p q : Pos} {sig : Option Cond} {c : Cond}

theorem ok (h : Move n i p sig q) (hp : p.Ok n) : q.Ok n := by
  cases h with
  | create | unlock =>
      rw [loop]
      split_ifs with hlt
      · exact hlt
      · exact List.suffix_rfl
  | last c todo => exact (List.suffix_cons c todo).trans hp
  | finish => trivial
  | lock | signal | wait | relock => exact hp

theorem signals_le (h : Move n i p sig q) (hp : p.Ok n) : p.signals n ≤ q.signals n := by
  cases h with
  | create => exact Nat.zero_le _
  | unlock j =>
      rw [loop]
      split_ifs
      · exact Nat.le_refl _
      · exact hp
  | lock | signal | wait | relock | last | finish => simp [Pos.signals]

theorem begun_le (h : Move n i p sig q) (hp : p.Ok n) : p.begun n ≤ q.begun n := by
  cases h with
  | create => exact Nat.zero_le _
  | unlock j =>
      rw [loop]
      split_ifs
      · exact Nat.le_refl _
      · exact hp
  | lock | signal | wait | relock | last | finish => simp [Pos.begun]

/-- A thread does not end its own wait. -/
theorem woke_eq (h : Move n i p sig q) (hp : p.Ok n) : q.woke n = p.woke n := by
  cases h with
  | create =>
      rw [loop]
      split_ifs with hlt
      · rfl
      · exact Nat.le_zero.mp (Nat.le_of_not_lt hlt)
  | unlock j =>
      rw [loop]
      split_ifs with hlt
      · rfl
      · exact Nat.le_antisymm (Nat.le_of_not_lt hlt) hp
  | lock | signal | wait | relock | last | finish => rfl

/-- A move is one of the steps to go. -/
theorem toGo_lt (h : Move n i p sig q) (hp : p.Ok n) : q.toGo n < p.toGo n := by
  cases h with
  | create =>
      rw [loop]
      split_ifs <;> simp [Pos.toGo, lastSignals]
  | unlock j =>
      -- Back to the head of the loop, with a round less to go.
      rw [Pos.Ok] at hp
      rw [loop]
      split_ifs <;> simp [Pos.toGo, lastSignals] <;> omega
  | lock | signal | wait | relock | last | finish => simp [Pos.toGo]

theorem left (h : Move n i p sig q) (hp : p.Left) : q.Left := by
  cases h with
  | last | finish => trivial
  | create | lock | signal | wait | relock | unlock => exact hp.elim

theorem finals_le (h : Move n i p sig q) (c : Cond) : p.finals c ≤ q.finals c := by
  cases h with
  | last d todo =>
      rw [Pos.finals, Pos.finals]
      split_ifs with hin hin'
      · exact Nat.le_refl _
      · exact Nat.zero_le _
      · exact absurd (List.mem_cons_of_mem d ‹_›) hin
      · exact Nat.le_refl _
  | create | lock | signal | wait | relock | unlock => exact Nat.zero_le _
  | finish => simp [Pos.finals]

/-- A last signal on `c` that is new is the one just sent. -/
theorem of_finals_lt (h : Move n i p sig q) (hlt : p.finals c < q.finals c) :
    sig = some c ∧ p.Left := by
  cases h with
  | last d todo =>
      refine ⟨?_, trivial⟩
      -- A signal on another condition variable leaves those to be sent on `c` as they are.
      by_contra hne
      have hiff : c ∈ d :: todo ↔ c ∈ todo := by
        rw [List.mem_cons, or_iff_right]
        rintro rfl
        exact hne rfl
      simp [Pos.finals, hiff] at hlt
  | create | unlock =>
      rw [loop] at hlt
      split_ifs at hlt
      · exact absurd hlt (Nat.lt_irrefl _)
      · cases c <;> simp [Pos.finals, lastSignals] at hlt
  | lock | signal | wait | relock => exact absurd hlt (Nat.lt_irrefl _)
  | finish => simp [Pos.finals] at hlt

/-- A signal is one of the loop, to the next thread, or one of those behind it. -/
theorem of_signal (h : Move n i p (some c) q) (hp : p.Ok n) :
    c = i.next.fn.waits ∧ q.signals n = p.signals n + 1 ∧ (∃ j, q = .wait j) ∨
      p.finals c = 0 ∧ q.finals c = 1 ∧ p.Left := by
  cases h with
  | signal j => exact .inl ⟨i.fn_signals, rfl, j, rfl⟩
  | last c todo =>
      -- Each of the three is signalled once.
      refine .inr ⟨by simp [Pos.finals], ?_, trivial⟩
      have hnodup : (c :: todo).Nodup := List.Nodup.sublist hp.sublist (by decide)
      rw [Pos.finals, if_neg (List.nodup_cons.mp hnodup).1]

/-- A thread that leaves its loop has been through its waits, and holds the mutex unless the loop
has no rounds. -/
theorem of_left (h : Move n i p sig q) (hok : p.Ok n) (hp : ¬ p.Left) (hq : q.Left) :
    p.woke n = n ∧ (p.Holds ∨ n = 0) := by
  rw [← h.woke_eq hok, Pos.woke_of_left hq]
  refine ⟨rfl, ?_⟩
  cases h with
  | create =>
      rw [loop] at hq
      split_ifs at hq with hlt
      · exact hq.elim
      · exact .inr (Nat.le_zero.mp (Nat.le_of_not_lt hlt))
  | unlock => exact .inl trivial
  | last | finish => exact absurd trivial hp
  | lock | signal | wait | relock => exact hq.elim

/-- A thread that falls asleep was about to wait. -/
theorem of_asleep {j : ℕ} (h : Move n i p sig (.asleep j)) : p = .wait j := by
  generalize hq : Pos.asleep j = q at h
  -- No other move leads there.
  cases h with
  | wait => rw [Pos.asleep.inj hq]
  | create | unlock =>
      rw [loop] at hq
      split_ifs at hq
  | lock | signal | relock | last | finish => cases hq

/-- A thread about to wait has just signalled the next one. -/
theorem of_wait {j : ℕ} (h : Move n i p sig (.wait j)) : sig = some i.next.fn.waits := by
  generalize hq : Pos.wait j = q at h
  cases h with
  | signal => rw [i.fn_signals]
  | create | unlock =>
      rw [loop] at hq
      split_ifs at hq
  | lock | wait | relock | last | finish => cases hq

theorem ne_idle (h : Move n i p sig q) : q ≠ .idle := by
  cases h with
  | create | unlock =>
      rw [loop]
      split_ifs <;> exact nofun
  | lock | signal | wait | relock | last | finish => exact nofun

end Move

/-- From `s` to `u` the thread `i` has moved, and the thread that slept on the condition variable
it signalled is awake. -/
structure Moves (n : ℕ) (s u : State) (i : Thread) (sig : Option Cond) : Prop where
  self : Move n i (s.pos i) sig (u.pos i)
  other : ∀ j, j ≠ i →
    u.pos j = if sig = some j.fn.waits then (s.pos j).wake else s.pos j

section Moves

variable {n : ℕ} {s u : State} {i j k : Thread} {p : Pos} {c : Cond} {sig : Option Cond} {l : Label}

/-- A move that signals nobody. -/
theorem moves_goto (h : Move n i (s.pos i) none p) (hu : u.pos = (s.goto i p).pos) :
    Moves n s u i none := by
  constructor
  · rw [hu]
    simpa [State.goto] using h
  · intro j hj
    rw [hu]
    simp [State.goto, hj]

/-- A move that signals the condition variable `c`. -/
theorem moves_signal (h : Move n i (s.pos i) (some c) p) (hp : p.wake = p) :
    Moves n s ((s.goto i p).signal c) i (some c) := by
  constructor
  · simpa [State.signal, State.goto, hp] using h
  · intro j hj
    simp [State.signal, State.goto, hj, eq_comm]

/-- How the mutex goes with a move of the thread `i`: it takes the mutex, gives it back, or leaves
it as it is. -/
def LockMoves (s u : State) (i : Thread) : Prop :=
  s.lock = none ∧ u.lock = some i ∧ (u.pos i).Holds ∨
    (s.pos i).Holds ∧ u.lock = none ∧ ¬ (u.pos i).Holds ∨
    u.lock = s.lock ∧ ((u.pos i).Holds ↔ (s.pos i).Holds)

theorem loop_not_holds (n j : ℕ) : ¬ (loop n j).Holds := by
  rw [loop]
  split_ifs <;> exact id

/-- What a step of a thread does. -/
theorem stepThread_cases (h : stepThread n s i = some (u, l)) :
    ∃ sig, Moves n s u i sig ∧ LockMoves s u i ∧ u.main = s.main ∧
      ∀ k c, l = .lastSignal k c ↔ k = i ∧ sig = some c ∧ (s.pos i).Left := by
  rw [stepThread] at h
  split at h
  · cases h
  next j hpos =>
    split_ifs at h with hlock
    obtain ⟨rfl, rfl⟩ := Prod.mk.inj (Option.some.inj h)
    refine ⟨none, moves_goto (hpos ▸ .lock j) rfl, .inl ⟨hlock, rfl, ?_⟩, rfl, by simp⟩
    simp [State.goto, Pos.Holds]
  next j hpos =>
    obtain ⟨rfl, rfl⟩ := Prod.mk.inj (Option.some.inj h)
    refine ⟨_, moves_signal (hpos ▸ .signal j) rfl, .inr (.inr ⟨rfl, ?_⟩), rfl, ?_⟩
    · simp [State.signal, State.goto, Pos.wake, Pos.Holds, hpos]
    · simp [hpos, Pos.Left]
  next j hpos =>
    obtain ⟨rfl, rfl⟩ := Prod.mk.inj (Option.some.inj h)
    refine ⟨none, moves_goto (hpos ▸ .wait j) rfl, .inr (.inl ⟨?_, rfl, ?_⟩), rfl, by simp⟩
    · rw [hpos]
      trivial
    · simp [State.goto, Pos.Holds]
  · cases h
  next j hpos =>
    split_ifs at h with hlock
    obtain ⟨rfl, rfl⟩ := Prod.mk.inj (Option.some.inj h)
    refine ⟨none, moves_goto (hpos ▸ .relock j) rfl, .inl ⟨hlock, rfl, ?_⟩, rfl, by simp⟩
    simp [State.goto, Pos.Holds]
  next j hpos =>
    obtain ⟨rfl, rfl⟩ := Prod.mk.inj (Option.some.inj h)
    refine ⟨none, moves_goto (hpos ▸ .unlock j) rfl, .inr (.inl ⟨?_, rfl, ?_⟩), rfl, by simp⟩
    · rw [hpos]
      trivial
    · simpa [State.goto] using loop_not_holds n (j + 1)
  next c todo hpos =>
    obtain ⟨rfl, rfl⟩ := Prod.mk.inj (Option.some.inj h)
    refine ⟨_, moves_signal (hpos ▸ .last c todo) rfl, .inr (.inr ⟨rfl, ?_⟩), rfl, ?_⟩
    · simp [State.signal, State.goto, Pos.wake, Pos.Holds, hpos]
    · simp [hpos, Pos.Left, eq_comm]
  next hpos =>
    obtain ⟨rfl, rfl⟩ := Prod.mk.inj (Option.some.inj h)
    refine ⟨none, moves_goto (hpos ▸ .finish) rfl, .inr (.inr ⟨rfl, ?_⟩), rfl, by simp⟩
    simp [State.goto, Pos.Holds, hpos]
  · cases h

end Moves

/-! ## What a move does to the counts -/

namespace Moves

variable {n : ℕ} {s u : State} {i j : Thread} {c : Cond} {sig : Option Cond}

/-- The positions of the other threads, up to a thread that is awake now. -/
theorem other_cases (h : Moves n s u i sig) (hj : j ≠ i) :
    u.pos j = s.pos j ∨ sig = some j.fn.waits ∧ u.pos j = (s.pos j).wake := by
  have hpos := h.other j hj
  split_ifs at hpos with hsig
  · exact .inr ⟨hsig, hpos⟩
  · exact .inl hpos

theorem ok (h : Moves n s u i sig) (hok : ∀ j, (s.pos j).Ok n) (j : Thread) : (u.pos j).Ok n := by
  rcases eq_or_ne j i with rfl | hj
  · exact h.self.ok (hok j)
  · rcases h.other_cases hj with hpos | ⟨-, hpos⟩ <;> rw [hpos]
    · exact hok j
    · exact (Pos.ok_wake _).mpr (hok j)

theorem signals_le (h : Moves n s u i sig) (hok : ∀ j, (s.pos j).Ok n) (j : Thread) :
    (s.pos j).signals n ≤ (u.pos j).signals n := by
  rcases eq_or_ne j i with rfl | hj
  · exact h.self.signals_le (hok j)
  · rcases h.other_cases hj with hpos | ⟨-, hpos⟩ <;> simp [hpos]

theorem begun_le (h : Moves n s u i sig) (hok : ∀ j, (s.pos j).Ok n) (j : Thread) :
    (s.pos j).begun n ≤ (u.pos j).begun n := by
  rcases eq_or_ne j i with rfl | hj
  · exact h.self.begun_le (hok j)
  · rcases h.other_cases hj with hpos | ⟨-, hpos⟩ <;> simp [hpos]

theorem finals_le (h : Moves n s u i sig) (c : Cond) (j : Thread) :
    (s.pos j).finals c ≤ (u.pos j).finals c := by
  rcases eq_or_ne j i with rfl | hj
  · exact h.self.finals_le c
  · rcases h.other_cases hj with hpos | ⟨-, hpos⟩ <;> simp [hpos]

theorem left (h : Moves n s u i sig) (hleft : (s.pos j).Left) : (u.pos j).Left := by
  rcases eq_or_ne j i with rfl | hj
  · exact h.self.left hleft
  · rcases h.other_cases hj with hpos | ⟨-, hpos⟩ <;> simpa [hpos] using hleft

/-- Only the thread that moves leaves its loop. -/
theorem of_left (h : Moves n s u i sig) (hleft : (u.pos j).Left) : (s.pos j).Left ∨ j = i := by
  rcases eq_or_ne j i with rfl | hj
  · exact .inr rfl
  · left
    rcases h.other_cases hj with hpos | ⟨-, hpos⟩ <;> simpa [hpos] using hleft

/-- Only the thread that moves sends a signal. -/
theorem of_finals_lt (h : Moves n s u i sig) (hlt : (s.pos j).finals c < (u.pos j).finals c) :
    j = i ∧ sig = some c ∧ (s.pos i).Left := by
  rcases eq_or_ne j i with rfl | hj
  · exact ⟨rfl, h.self.of_finals_lt hlt⟩
  · rcases h.other_cases hj with hpos | ⟨-, hpos⟩ <;> simp [hpos] at hlt

/-- A thread that is not signalled stays in its wait. -/
theorem woke_eq (h : Moves n s u i sig) (hok : ∀ j, (s.pos j).Ok n)
    (hj : j = i ∨ sig ≠ some j.fn.waits) : (u.pos j).woke n = (s.pos j).woke n := by
  rcases eq_or_ne j i with rfl | hne
  · exact h.self.woke_eq (hok j)
  · rw [h.other j hne, if_neg (hj.resolve_left hne)]

/-- The wait of a thread that is signalled ends, if it has begun. -/
theorem woke_of_signal (h : Moves n s u i sig) (hj : j ≠ i) (hsig : sig = some j.fn.waits) :
    (u.pos j).woke n = (s.pos j).begun n := by
  rw [h.other j hj, if_pos hsig, Pos.woke_wake]

theorem woke_le (h : Moves n s u i sig) (hok : ∀ j, (s.pos j).Ok n) (j : Thread) :
    (s.pos j).woke n ≤ (u.pos j).woke n := by
  by_cases hj : j = i ∨ sig ≠ some j.fn.waits
  · exact (h.woke_eq hok hj).ge
  · obtain ⟨hne, hsig⟩ := not_or.mp hj
    rw [h.woke_of_signal hne (not_not.mp hsig)]
    exact Pos.woke_le_begun n _

end Moves

end CondRotation
