import LinuxPrograms.Lib.LabelledSystem
import LinuxPrograms.Lib.Permits
import LinuxPrograms.Semaphore.Object
import LinuxPrograms.Semaphore.SharedStruct
import Mathlib.Tactic.Linarith

/-!
# Two children with two threads each

`main` of `semaphore_linux.cpp`, which creates two children, and `inc_thread` and `dec_thread`,
which each child runs while it holds the semaphore. The threads of one child share its mutex.

- `step`, `Reaches`: the parent, the children and their threads, for any number of iterations.
- `Inv`: who is in which section, the permits of semaphore and mutexes, and what the variables
  count.
- `no_lost_update`: no two accesses overlap, and at the end everything is as it was at the start.
-/

namespace TwoChildren

open LabelledSystem Permits SemaphoreLinux SharedMemory SysVSem

variable {w : ℕ}

/-! ## The threads -/

/-- Where a thread stands: not there, before or behind the mutex in the iteration `i`, at an access
in it, or returned. -/
inductive ThreadPos (w : ℕ)
  | absent
  | lock (i : ℕ)
  | access (i : ℕ) (a : Access w)
  | unlock (i : ℕ)
  | finished
  deriving DecidableEq

/-- The head of the loop of `k` iterations. -/
def loop (k i : ℕ) : ThreadPos w := if i < k then .lock i else .finished

/-- A step of a thread function that adds `change` to the variables, with the mutex and the
variables after it. -/
def threadFn (change : ℤ) (k : ℕ) (locked : Bool) (vars : SharedStruct w) :
    ThreadPos w → Option (ThreadPos w × Bool × SharedStruct w)
  | .absent => none
  | .lock i => if locked then none else some (.access i (.load .var1), true, vars)
  | .access i a =>
      let (next, vars') := a.step change vars
      some (next.elim (.unlock i) (.access i), locked, vars')
  | .unlock i => some (loop k (i + 1), false, vars)
  | .finished => none

/-- `inc_thread`. -/
def incThread (k : ℕ) (locked : Bool) (vars : SharedStruct w) (pos : ThreadPos w) :
    Option (ThreadPos w × Bool × SharedStruct w) := threadFn 1 k locked vars pos

/-- `dec_thread`. -/
def decThread (k : ℕ) (locked : Bool) (vars : SharedStruct w) (pos : ThreadPos w) :
    Option (ThreadPos w × Bool × SharedStruct w) := threadFn (-1) k locked vars pos

/-- The two threads of a child. -/
inductive Role
  | inc
  | dec
  deriving DecidableEq

instance : Fintype Role where
  elems := {.inc, .dec}
  complete r := by cases r <;> decide

/-- What a thread adds. -/
def Role.change : Role → ℤ
  | inc => 1
  | dec => -1

/-- The function of a thread. -/
def Role.fn (k : ℕ) (locked : Bool) (vars : SharedStruct w) (pos : ThreadPos w) :
    Role → Option (ThreadPos w × Bool × SharedStruct w)
  | inc => incThread k locked vars pos
  | dec => decThread k locked vars pos

/-! ## The children -/

/-- `EXIT_SUCCESS` and `EXIT_FAILURE`. -/
inductive ExitStatus
  | success
  | failure
  deriving DecidableEq

/-- Where a child stands: before its `fork`, before one of its calls, or behind its `exit`, where
it becomes `reaped` when the parent has waited for it. -/
inductive ChildPos
  | unborn
  | semLock
  | createInc
  | createDec
  | joinInc
  | joinDec
  | semUnlock
  | exit (status : ExitStatus)
  | exited (status : ExitStatus)
  | reaped (status : ExitStatus)
  deriving DecidableEq

/-- A child with its mutex and threads. -/
structure Child (w : ℕ) where
  pos : ChildPos
  locked : Bool
  thread : Role → ThreadPos w

/-- A child without threads and with a free mutex. -/
def Child.at (pos : ChildPos) : Child w := ⟨pos, false, fun _ => .absent⟩

/-- A step of the child `c` in its part of `main`. `created` says whether `pthread_create` succeeds,
where it is called. -/
def childStep (o : Semaphore) (k : ℕ) (c : Fin 2) (created : Bool) (sems : Sems (Fin 2))
    (x : Child w) : Option (Sems (Fin 2) × Child w) :=
  match x.pos with
  | .unborn => none
  | .semLock => (semLock sems o c).map fun sems' => (sems', { x with pos := .createInc })
  | .createInc =>
      if created then
        let thread := Function.update x.thread .inc (loop k 0)
        some (sems, { x with pos := .createDec, thread })
      else some (sems, { x with pos := .exit .failure })
  | .createDec =>
      if created then
        let thread := Function.update x.thread .dec (loop k 0)
        some (sems, { x with pos := .joinInc, thread })
      else some (sems, { x with pos := .exit .failure })
  | .joinInc =>
      if x.thread .inc = .finished then some (sems, { x with pos := .joinDec }) else none
  | .joinDec =>
      if x.thread .dec = .finished then some (sems, { x with pos := .semUnlock }) else none
  | .semUnlock => (semUnlock sems o c).map fun sems' => (sems', { x with pos := .exit .success })
  -- The threads there are end with the process, wherever they are.
  | .exit status => some (SysVSem.exit sems c, .at (.exited status))
  | .exited _ => none
  | .reaped _ => none

/-! ## The program -/

/-- Where the parent stands. -/
inductive ParentPos
  | fork1
  | fork2
  | wait1
  | wait2
  | print
  | semDestroy
  | finished
  deriving DecidableEq

/-- The semaphores of the kernel, the variables in shared memory and the processes. -/
structure State (w : ℕ) where
  sems : Sems (Fin 2)
  vars : SharedStruct w
  parent : ParentPos
  child : Fin 2 → Child w

/-- Behind the constructor of the semaphore and the assignments to the variables. -/
def State.init (sems : Sems (Fin 2)) (vars : SharedStruct w) : State w :=
  ⟨sems, vars, .fork1, fun _ => .at .unborn⟩

/-- What a step shows: the variables the parent prints. -/
inductive Label (w : ℕ)
  | printed (vars : SharedStruct w)
  | silent
  deriving DecidableEq

/-- A step of the parent, which takes the child `c` if it waits, of a child or of a thread. `ok`
says whether a `fork` or `pthread_create` succeeds. -/
inductive Act
  | parent (ok : Bool) (c : Option (Fin 2))
  | child (c : Fin 2) (ok : Bool)
  | thread (c : Fin 2) (r : Role)
  deriving DecidableEq

/-- `fork`. A failed one is taken for a child created. -/
def State.fork (s : State w) (c : Fin 2) (ok : Bool) (next : ParentPos) : State w :=
  { s with
    parent := next
    child := if ok then Function.update s.child c (.at .semLock) else s.child }

/-- There is no child left to wait for. -/
def ChildPos.over : ChildPos → Bool
  | unborn | reaped _ => true
  | _ => false

/-- `wait` for the child `c`, or for none if there is none left. -/
def State.wait (s : State w) (c : Option (Fin 2)) (next : ParentPos) : Option (State w) :=
  match c with
  | some c =>
      match (s.child c).pos with
      | .exited status =>
          some { s with
            parent := next
            child := Function.update s.child c { s.child c with pos := .reaped status } }
      | _ => none
  | none => if ∀ c, (s.child c).pos.over then some { s with parent := next } else none

/-- A step of the parent. -/
def parentStep (o : Semaphore) (ok : Bool) (c : Option (Fin 2)) (s : State w) :
    Option (State w × Label w) :=
  match s.parent with
  | .fork1 => some (s.fork 0 ok .fork2, .silent)
  | .fork2 => some (s.fork 1 ok .wait1, .silent)
  | .wait1 => (s.wait c .wait2).map fun s' => (s', .silent)
  | .wait2 => (s.wait c .print).map fun s' => (s', .silent)
  | .print => some ({ s with parent := .semDestroy }, .printed s.vars)
  | .semDestroy => some ({ s with parent := .finished, sems := semDestroy s.sems o }, .silent)
  | .finished => none

/-- One step, with the semaphore `o` and `k` iterations. -/
def step (o : Semaphore) (k : ℕ) (s : State w) : Act → Option (State w × Label w)
  | .parent ok c => parentStep o ok c s
  | .child c ok =>
      (childStep o k c ok s.sems (s.child c)).map fun (sems', x) =>
        ({ s with sems := sems', child := Function.update s.child c x }, .silent)
  | .thread c r =>
      let x := s.child c
      (r.fn k x.locked s.vars (x.thread r)).map fun (pos', locked', vars') =>
        let x' := { x with locked := locked', thread := Function.update x.thread r pos' }
        ({ s with vars := vars', child := Function.update s.child c x' }, .silent)

/-- `main` constructs the semaphore, with the sets `sems` in the kernel and `room` for a new one,
gives the variables the values `vars` and goes on with the labels `tr` to `s`. -/
abbrev Reaches (k : ℕ) (room : Bool) (sems : Sems (Fin 2)) (vars : SharedStruct w)
    (tr : List (Label w)) (s : State w) : Prop :=
  Run (StepOf (step (Semaphore.new sems room).2 k)) (.init (Semaphore.new sems room).1 vars) tr s

/-- A thread is between a load and the matching store. -/
def ThreadPos.pending : ThreadPos w → Bool
  | access _ a => a.pending
  | _ => false

/-- The status of a child that has exited. -/
def ChildPos.exitStatus : ChildPos → Option ExitStatus
  | exited status | reaped status => some status
  | _ => none

/-! ## Threads and their mutex -/

section Threads

variable {k : ℕ} {vars vars' : SharedStruct w} {p p' : ThreadPos w} {locked locked' : Bool}

namespace ThreadPos

/-- The thread holds the mutex. -/
def holds : ThreadPos w → Bool
  | access .. | unlock _ => true
  | _ => false

/-- The stores of a thread to a variable. -/
def stored (k : ℕ) (v : Var) : ThreadPos w → ℤ
  | absent => 0
  | lock i => i
  | access i a => i + a.stored v
  | unlock i => i + 1
  | finished => k

/-- The iteration is one of the loop, and what was loaded is still there. -/
def Valid (k : ℕ) (vars : SharedStruct w) : ThreadPos w → Prop
  | lock i | unlock i => i < k
  | access i a => i < k ∧ a.Fresh vars
  | _ => True

/-- A thread outside the mutex has loaded nothing. -/
theorem Valid.of_not_holds (h : p.Valid k vars) (hout : p.holds = false) : p.Valid k vars' := by
  cases p with
  | access i a => cases hout
  | _ => exact h

theorem holds_of_pending (h : p.pending = true) : p.holds = true := by
  cases p with
  | access i a => rfl
  | _ => cases h

end ThreadPos

theorem holds_loop (k i : ℕ) : (loop k i : ThreadPos w).holds = false := by
  rw [loop]
  split_ifs <;> rfl

theorem valid_loop (k i : ℕ) : (loop k i : ThreadPos w).Valid k vars := by
  rw [loop]
  split_ifs with hi
  · exact hi
  · trivial

/-- At the head of the loop all stores of the iterations before are done. -/
theorem stored_loop {i : ℕ} (hi : i ≤ k) (v : Var) : (loop k i : ThreadPos w).stored k v = i := by
  rw [loop]
  split_ifs with hlt
  · rfl
  · have heq : i = k := by omega
    rw [heq]
    rfl

/-- What a step of a thread does. -/
structure ThreadMove (change : ℤ) (k : ℕ) (p p' : ThreadPos w) (locked locked' : Bool)
    (vars vars' : SharedStruct w) : Prop where
  valid : p'.Valid k vars'
  counts : ∀ v, vars' v =
    vars v + ((change * (p'.stored k v - p.stored k v) : ℤ) : BitVec w)
  outside : p.holds = false → vars' = vars
  mutex : locked.toNat + p'.holds.toNat = locked'.toNat + p.holds.toNat
  started : p ≠ .absent ∧ p ≠ .finished

/-- A step of a thread that holds the mutex only while it is locked. -/
theorem threadFn_move {change : ℤ} (hvalid : p.Valid k vars)
    (hheld : p.holds = true → locked = true)
    (h : threadFn change k locked vars p = some (p', locked', vars')) :
    ThreadMove change k p p' locked locked' vars vars' := by
  have hstarted : p ≠ .absent ∧ p ≠ .finished := by
    constructor
    all_goals
      rintro rfl
      cases h
  cases p with
  | absent => cases h
  | finished => cases h
  | lock i =>
      rw [threadFn] at h
      split_ifs at h with hlocked
      obtain ⟨rfl, rfl, rfl⟩ := by simpa using h
      have hfree : locked = false := by simpa using hlocked
      exact ⟨⟨hvalid, trivial⟩, fun v => by simp [ThreadPos.stored, Access.stored, Var.index],
        fun _ => rfl, by rw [hfree]; rfl, hstarted⟩
  | access i a =>
      rw [threadFn] at h
      generalize hacc : a.step change vars = r at h
      obtain ⟨next, vars₁⟩ := r
      obtain ⟨rfl, rfl, rfl⟩ := by simpa using h
      obtain ⟨hfresh, hcount⟩ := Access.step_spec hvalid.2 hacc
      refine ⟨?_, fun v => ?_, fun hout => ?_, ?_, hstarted⟩
      · cases next with
        | none => exact hvalid.1
        | some a' => exact ⟨hvalid.1, hfresh a' rfl⟩
      · rw [hcount v]
        cases next <;> simp [ThreadPos.stored]
      · cases hout
      · cases next <;> rfl
  | unlock i =>
      obtain ⟨rfl, rfl, rfl⟩ := by simpa [threadFn] using h
      have hlocked := hheld rfl
      refine ⟨valid_loop k _, fun v => ?_, fun _ => rfl, ?_, hstarted⟩
      · rw [stored_loop hvalid]
        simp [ThreadPos.stored]
      · rw [hlocked, holds_loop]
        rfl

/-- Both thread functions. -/
theorem fn_eq (r : Role) : r.fn k locked vars p = threadFn r.change k locked vars p := by
  cases r <;> rfl

end Threads

/-! ## Children and the semaphore -/

/-- The child is between its `sem_lock` and its `sem_unlock`, or about to exit without it. -/
def ChildPos.inSection : ChildPos → Bool
  | createInc | createDec | joinInc | joinDec | semUnlock | exit .failure => true
  | _ => false

/-- The child has exited before its threads were done. -/
def ChildPos.failed : ChildPos → Bool
  | exited .failure | reaped .failure => true
  | _ => false

namespace Child

/-- What a child has added to a variable. -/
def net (k : ℕ) (x : Child w) (v : Var) : ℤ := ∑ r, r.change * (x.thread r).stored k v

/-- The threads there are where the child stands. -/
def ThreadsAt (x : Child w) : Prop :=
  match x.pos with
  | .createDec => x.thread .dec = .absent
  | .joinInc | .exit .failure => True
  | .joinDec => x.thread .inc = .finished
  | .semUnlock | .exit .success => ∀ r, x.thread r = .finished
  | _ => ∀ r, x.thread r = .absent

/-- The mutex counts the threads inside, and the threads fit the child. -/
structure Ok (k : ℕ) (vars : SharedStruct w) (x : Child w) : Prop where
  mutex : x.locked.toNat = holders fun r => (x.thread r).holds
  valid : ∀ r, (x.thread r).Valid k vars
  threads : x.ThreadsAt

variable {k : ℕ} {vars vars' : SharedStruct w} {x x' : Child w} {r : Role}

/-- Outside its section a child has no threads, or they are done. -/
theorem ThreadsAt.outside (h : x.ThreadsAt) (hout : x.pos.inSection = false) :
    (∀ r, x.thread r = .absent) ∨ ∀ r, x.thread r = .finished := by
  obtain ⟨pos, locked, thread⟩ := x
  cases pos with
  | exit status =>
      cases status with
      | success => exact .inr h
      | failure => cases hout
  | unborn | semLock | exited | reaped => exact .inl h
  | _ => cases hout

/-- Only in its section a child has threads that hold the mutex. -/
theorem Ok.inSection_of_holds (h : x.Ok k vars) (hr : (x.thread r).holds = true) :
    x.pos.inSection = true := by
  by_contra hout
  rcases h.threads.outside (by simpa using hout) with hthread | hthread
  all_goals
    rw [hthread] at hr
    cases hr

/-- Outside its section a child goes by no values of the variables. -/
theorem Ok.of_not_inSection (h : x.Ok k vars) (hout : x.pos.inSection = false) :
    x.Ok k vars' := by
  refine ⟨h.mutex, fun r => (h.valid r).of_not_holds ?_, h.threads⟩
  by_contra hholds
  rw [h.inSection_of_holds (by simpa using hholds)] at hout
  cases hout

/-- Without threads a child is in order. -/
theorem ok_at {pos : ChildPos} (hpos : (Child.at pos : Child w).ThreadsAt) :
    (Child.at pos).Ok k vars :=
  ⟨(holders_eq_zero_iff.mpr fun _ => rfl).symm, fun _ => trivial, hpos⟩

/-- Threads all of which are in one place have added nothing. -/
theorem net_eq_zero {p : ThreadPos w} (h : ∀ r, x.thread r = p) (v : Var) : x.net k v = 0 := by
  simp only [net, h]
  show ∑ r ∈ {Role.inc, Role.dec}, r.change * p.stored k v = 0
  simp [Role.change]

/-- A thread holds the mutex only while it is locked. -/
theorem Ok.locked_of_holds (h : x.Ok k vars) (hr : (x.thread r).holds = true) :
    x.locked = true := by
  have hcount : 1 ≤ holders fun r => (x.thread r).holds := one_le_holders hr
  rw [← h.mutex] at hcount
  cases hlocked : x.locked with
  | true => rfl
  | false =>
      rw [hlocked] at hcount
      cases hcount

/-- Only one thread of a child holds the mutex. -/
theorem Ok.exclusive {q : Role} (h : x.Ok k vars) (hr : (x.thread r).holds = true)
    (hq : (x.thread q).holds = true) : r = q := by
  have hbound : holders (fun r => (x.thread r).holds) ≤ 1 := h.mutex ▸ Bool.toNat_le x.locked
  exact eq_of_holders_le_one hbound hr hq

/-- A thread on its way does not change which threads are not there, or done. -/
theorem ThreadsAt.thread {p' : ThreadPos w} {locked' : Bool} (h : x.ThreadsAt)
    (hstarted : x.thread r ≠ .absent ∧ x.thread r ≠ .finished) :
    ThreadsAt ⟨x.pos, locked', Function.update x.thread r p'⟩ := by
  have hkeep : ∀ {r₀ q}, x.thread r₀ = q → (q = .absent ∨ q = .finished) →
      Function.update x.thread r p' r₀ = q := by
    rintro r₀ q rfl hq
    apply Function.update_of_ne
    rintro rfl
    exact hq.elim hstarted.1 hstarted.2
  obtain ⟨pos, locked, thread⟩ := x
  cases pos with
  | createDec => exact hkeep h (.inl rfl)
  | joinInc => trivial
  | joinDec => exact hkeep h (.inr rfl)
  | semUnlock => exact fun r₀ => hkeep (h r₀) (.inr rfl)
  | exit status =>
      cases status with
      | success => exact fun r₀ => hkeep (h r₀) (.inr rfl)
      | failure => trivial
  | _ => exact fun r₀ => hkeep (h r₀) (.inl rfl)

/-- A step of a thread keeps its child in order and adds to the variables what the child's threads
have added more. -/
theorem Ok.thread {p' : ThreadPos w} {locked' : Bool} (h : x.Ok k vars)
    (hstep : r.fn k x.locked vars (x.thread r) = some (p', locked', vars')) :
    let x' : Child w := ⟨x.pos, locked', Function.update x.thread r p'⟩
    x'.Ok k vars' ∧ x.pos.inSection = true ∧
      ∀ v, vars' v = vars v + ((x'.net k v - x.net k v : ℤ) : BitVec w) := by
  rw [fn_eq] at hstep
  have hmove := threadFn_move (h.valid r) h.locked_of_holds hstep
  refine ⟨⟨?_, fun r' => ?_, h.threads.thread hmove.started⟩, ?_, fun v => ?_⟩
  · -- The mutex counts one thread more or less, as the threads do.
    have hcount := sum_update_add (fun _ q => (ThreadPos.holds q).toNat) x.thread r p'
    have hmutex := h.mutex
    have hlocked := hmove.mutex
    rw [holders] at hmutex
    show locked'.toNat = ∑ r', (Function.update x.thread r p' r').holds.toNat
    omega
  · show (Function.update x.thread r p' r').Valid k vars'
    rcases eq_or_ne r' r with rfl | hne
    · rw [Function.update_self]
      exact hmove.valid
    rw [Function.update_of_ne hne]
    cases hholds : (x.thread r).holds with
    | false =>
        rw [hmove.outside hholds]
        exact h.valid r'
    | true =>
        -- The thread that steps holds the mutex, so the other has loaded nothing.
        apply (h.valid r').of_not_holds
        by_contra hother
        exact hne (h.exclusive (by simpa using hother) hholds)
  · by_contra hout
    rcases h.threads.outside (by simpa using hout) with hthread | hthread
    · exact hmove.started.1 (hthread r)
    · exact hmove.started.2 (hthread r)
  · have hcount := sum_update_add (fun r q => r.change * ThreadPos.stored k v q) x.thread r p'
    rw [hmove.counts v]
    congr 2
    simp only [net]
    linarith

/-- A thread that is created keeps its child in order and has added nothing yet. -/
theorem Ok.create (h : x.Ok k vars) (pos : ChildPos) (habsent : x.thread r = .absent)
    (hthreads : ThreadsAt ⟨pos, x.locked, Function.update x.thread r (loop k 0)⟩) :
    let x' : Child w := ⟨pos, x.locked, Function.update x.thread r (loop k 0)⟩
    x'.Ok k vars ∧ ∀ v, x'.net k v = x.net k v := by
  refine ⟨⟨?_, fun r' => ?_, hthreads⟩, fun v => ?_⟩
  · have hcount := sum_update_add (fun _ q => (ThreadPos.holds q).toNat) x.thread r (loop k 0)
    rw [habsent, holds_loop] at hcount
    exact h.mutex.trans hcount.symm
  · show (Function.update x.thread r (loop k 0) r').Valid k vars
    rcases eq_or_ne r' r with rfl | hne
    · rw [Function.update_self]
      exact valid_loop k 0
    · rw [Function.update_of_ne hne]
      exact h.valid r'
  · have hcount :=
      sum_update_add (fun r q => r.change * ThreadPos.stored k v q) x.thread r (loop k 0)
    rw [habsent, stored_loop (Nat.zero_le k)] at hcount
    exact add_right_cancel hcount

end Child

section Locks

variable {o : Semaphore} {id : ℕ} {sems sems' : Sems (Fin 2)} {hold : Fin 2 → Bool} {c : Fin 2}

/-- `sem_lock` takes the permit. -/
theorem guards_semLock (ho : o.semId = some id) (h : Guards sems id 0 1 hold) (hc : hold c = false)
    (hlock : semLock sems o c = some sems') :
    Guards sems' id 0 1 (Function.update hold c true) := by
  rw [semLock, semaphoreOp, ho] at hlock
  cases hop : semopUndo sems c id 0 (-1) with
  | returns sems₁ =>
      simp only [hop, Option.some.injEq] at hlock
      obtain rfl := hlock
      exact (h.wait hc hop).2
  | fails => exact absurd hop (h.wait_ne_fails (by decide))
  | blocks =>
      simp only [hop] at hlock
      cases hlock

/-- `sem_unlock` gives it back. -/
theorem guards_semUnlock (ho : o.semId = some id) (h : Guards sems id 0 1 hold) (hc : hold c = true)
    (hunlock : semUnlock sems o c = some sems') :
    Guards sems' id 0 1 (Function.update hold c false) := by
  obtain ⟨sems₁, hop, hguards⟩ := h.signal (by decide) hc
  simp only [semUnlock, semaphoreOp, ho, hop, Option.some.injEq] at hunlock
  obtain rfl := hunlock
  exact hguards

/-- What a step of a child does to it. -/
structure ChildMove (k : ℕ) (vars : SharedStruct w) (x x' : Child w) : Prop where
  ok : x'.Ok k vars
  net : x'.pos.failed = false → ∀ v, x'.net k v = x.net k v
  alive : x.pos.over = false ∧ x'.pos.over = false
  lasting : x.pos.failed = false

/-- A step of a child, with the semaphore after it. -/
theorem childStep_move {k : ℕ} {vars : SharedStruct w} {x x' : Child w} {created : Bool}
    (ho : o.semId = some id) (h : x.Ok k vars) (hguards : Guards sems id 0 1 hold)
    (hc : hold c = x.pos.inSection)
    (hstep : childStep o k c created sems x = some (sems', x')) :
    ChildMove k vars x x' ∧ Guards sems' id 0 1 (Function.update hold c x'.pos.inSection) := by
  obtain ⟨pos, locked, thread⟩ := x
  -- In its section the child goes on holding the permit.
  have hsame : ∀ {b}, pos.inSection = b → Guards sems id 0 1 (Function.update hold c b) :=
    fun hb => hguards.update_same (hc.trans hb)
  cases pos <;> simp only [childStep] at hstep
  case unborn => cases hstep
  case semLock =>
    obtain ⟨sems₁, hlock, heq⟩ := Option.map_eq_some_iff.mp hstep
    obtain ⟨rfl, rfl⟩ := Prod.mk.inj heq
    exact ⟨⟨⟨h.mutex, h.valid, h.threads⟩, fun _ _ => rfl, ⟨rfl, rfl⟩, rfl⟩,
      guards_semLock ho hguards hc hlock⟩
  case createInc =>
    have habsent : ∀ r, thread r = .absent := h.threads
    split_ifs at hstep with hcreated
    all_goals obtain ⟨rfl, rfl⟩ := Prod.mk.inj (Option.some.inj hstep)
    · have hdec : Function.update thread .inc (loop k 0) .dec = .absent := by
        rw [Function.update_of_ne (by decide)]
        exact habsent .dec
      obtain ⟨hok, hnet⟩ := h.create .createDec (habsent .inc) hdec
      exact ⟨⟨hok, fun _ => hnet, ⟨rfl, rfl⟩, rfl⟩, hsame rfl⟩
    · exact ⟨⟨⟨h.mutex, h.valid, trivial⟩, fun _ _ => rfl, ⟨rfl, rfl⟩, rfl⟩, hsame rfl⟩
  case createDec =>
    have habsent : thread .dec = .absent := h.threads
    split_ifs at hstep with hcreated
    all_goals obtain ⟨rfl, rfl⟩ := Prod.mk.inj (Option.some.inj hstep)
    · obtain ⟨hok, hnet⟩ := h.create .joinInc habsent trivial
      exact ⟨⟨hok, fun _ => hnet, ⟨rfl, rfl⟩, rfl⟩, hsame rfl⟩
    · exact ⟨⟨⟨h.mutex, h.valid, trivial⟩, fun _ _ => rfl, ⟨rfl, rfl⟩, rfl⟩, hsame rfl⟩
  case joinInc =>
    split_ifs at hstep with hfin
    obtain ⟨rfl, rfl⟩ := Prod.mk.inj (Option.some.inj hstep)
    exact ⟨⟨⟨h.mutex, h.valid, hfin⟩, fun _ _ => rfl, ⟨rfl, rfl⟩, rfl⟩, hsame rfl⟩
  case joinDec =>
    have hinc : thread .inc = .finished := h.threads
    split_ifs at hstep with hfin
    obtain ⟨rfl, rfl⟩ := Prod.mk.inj (Option.some.inj hstep)
    have hall : ∀ r, thread r = .finished := by
      rintro ⟨⟩
      · exact hinc
      · exact hfin
    exact ⟨⟨⟨h.mutex, h.valid, hall⟩, fun _ _ => rfl, ⟨rfl, rfl⟩, rfl⟩, hsame rfl⟩
  case semUnlock =>
    obtain ⟨sems₁, hunlock, heq⟩ := Option.map_eq_some_iff.mp hstep
    obtain ⟨rfl, rfl⟩ := Prod.mk.inj heq
    exact ⟨⟨⟨h.mutex, h.valid, h.threads⟩, fun _ _ => rfl, ⟨rfl, rfl⟩, rfl⟩,
      guards_semUnlock ho hguards hc hunlock⟩
  case exit status =>
    obtain ⟨rfl, rfl⟩ := Prod.mk.inj (Option.some.inj hstep)
    refine ⟨⟨Child.ok_at fun _ => rfl, fun hlasting v => ?_, ⟨rfl, rfl⟩, rfl⟩,
      hguards.exit (by decide)⟩
    cases status with
    | success =>
        -- What the two threads have added all in all is nothing.
        have hfin : ∀ r, thread r = .finished := h.threads
        exact (Child.net_eq_zero (fun _ => rfl) v).trans (Child.net_eq_zero hfin v).symm
    | failure => cases hlasting
  case exited status => cases hstep
  case reaped status => cases hstep

/-- A child that is not there, or waited for, does not step. -/
theorem childStep_over {k : ℕ} {x : Child w} {created : Bool} (hover : x.pos.over = true) :
    childStep o k c created sems x = none := by
  obtain ⟨pos, locked, thread⟩ := x
  cases pos with
  | unborn | reaped => rfl
  | _ => cases hover

end Locks

/-! ## The invariant -/

/-- The children there still are for the parent to wait for. -/
def Waited (pos : Fin 2 → ChildPos) : ParentPos → Prop
  | .fork1 => ∀ c, pos c = .unborn
  | .fork2 => pos 1 = .unborn
  | .wait1 => True
  | .wait2 => ∀ c d, (pos c).over = false → (pos d).over = false → c = d
  | _ => ∀ c, (pos c).over = true

/-- Where the children stand. -/
def State.pos (s : State w) (c : Fin 2) : ChildPos := (s.child c).pos

/-- The children that hold the semaphore. -/
def State.sections (s : State w) (c : Fin 2) : Bool := (s.pos c).inSection

/-- The children are in order, the semaphore is theirs until the parent removes it, and the
variables count what the children added, unless one failed. -/
structure Inv (k id : ℕ) (init : SharedStruct w) (s : State w) : Prop where
  children : ∀ c, (s.child c).Ok k s.vars
  guards : s.parent ≠ .finished → Guards s.sems id 0 1 s.sections
  waited : Waited s.pos s.parent
  vars : (∀ c, (s.pos c).failed = false) → ∀ v,
    s.vars v = init v + ((∑ c, (s.child c).net k v : ℤ) : BitVec w)

section Invariant

variable {k id : ℕ} {init : SharedStruct w} {s u : State w} {o : Semaphore} {c : Fin 2}

/-- A child at work does not change what the parent waits for. -/
theorem Waited.update {pos : Fin 2 → ChildPos} {p : ChildPos} {parent : ParentPos}
    (h : Waited pos parent) (hc : (pos c).over = false) (hp : p.over = false) :
    Waited (Function.update pos c p) parent := by
  have hover : ∀ d, (Function.update pos c p d).over = (pos d).over := by
    intro d
    rcases eq_or_ne d c with rfl | hne
    · rw [Function.update_self, hp, hc]
    · rw [Function.update_of_ne hne]
  cases parent with
  | fork1 =>
      rw [h c] at hc
      cases hc
  | fork2 =>
      have hne : 1 ≠ c := by
        rintro rfl
        have hunborn : pos 1 = .unborn := h
        rw [hunborn] at hc
        cases hc
      exact (Function.update_of_ne hne ..).trans h
  | wait1 => trivial
  | wait2 => exact fun d d' hd hd' => h d d' (hover d ▸ hd) (hover d' ▸ hd')
  | _ => exact fun d => (hover d).trans (h d)

/-- A child changes, and what it has added does not. -/
theorem Inv.setChild {x : Child w} {sems : Sems (Fin 2)} {parent : ParentPos}
    (h : Inv k id init s) (hok : x.Ok k s.vars)
    (hnet : x.pos.failed = false →
      (s.pos c).failed = false ∧ ∀ v, x.net k v = (s.child c).net k v)
    (hguards : parent ≠ .finished →
      Guards sems id 0 1 (Function.update s.sections c x.pos.inSection))
    (hwaited : Waited (Function.update s.pos c x.pos) parent) :
    Inv k id init ⟨sems, s.vars, parent, Function.update s.child c x⟩ := by
  let u : State w := ⟨sems, s.vars, parent, Function.update s.child c x⟩
  have hpos : u.pos = Function.update s.pos c x.pos :=
    funext fun d => Function.apply_update (fun _ => Child.pos) s.child c x d
  have hsections : u.sections = Function.update s.sections c x.pos.inSection := by
    funext d
    rw [State.sections, hpos]
    exact Function.apply_update (fun _ => ChildPos.inSection) s.pos c x.pos d
  refine ⟨fun d => ?_, fun hfin => hsections ▸ hguards hfin, hpos ▸ hwaited, fun hall v => ?_⟩
  · show (Function.update s.child c x d).Ok k s.vars
    rcases eq_or_ne d c with rfl | hne
    · rwa [Function.update_self]
    · rw [Function.update_of_ne hne]
      exact h.children d
  · change ∀ d, (u.pos d).failed = false at hall
    simp only [hpos] at hall
    obtain ⟨hc, hsame⟩ := hnet (by simpa using hall c)
    -- If no child has failed now, none had before.
    have hold : ∀ d, (s.pos d).failed = false := by
      intro d
      rcases eq_or_ne d c with rfl | hne
      · exact hc
      · simpa [Function.update_of_ne hne] using hall d
    have hsum := sum_update_add (fun _ x => Child.net k x v) s.child c x
    rw [hsame v] at hsum
    exact (h.vars hold v).trans (by rw [add_right_cancel hsum])

/-- While there is a child to wait for, the parent has not removed the semaphore. -/
theorem Inv.guards_of_not_over (h : Inv k id init s) (hc : (s.pos c).over = false) :
    Guards s.sems id 0 1 s.sections := by
  apply h.guards
  intro hfin
  have hwaited := h.waited
  rw [hfin] at hwaited
  exact absurd (hwaited c) (by rw [hc]; exact nofun)

/-- A step of a child. -/
theorem Inv.childStep {x : Child w} {sems : Sems (Fin 2)} {created : Bool} (ho : o.semId = some id)
    (h : Inv k id init s)
    (hstep : childStep o k c created s.sems (s.child c) = some (sems, x)) :
    Inv k id init { s with sems, child := Function.update s.child c x } := by
  have halive : (s.pos c).over = false := by
    cases hover : (s.pos c).over with
    | false => rfl
    | true =>
        rw [childStep_over hover] at hstep
        cases hstep
  obtain ⟨hmove, hguards⟩ :=
    childStep_move ho (h.children c) (h.guards_of_not_over halive) rfl hstep
  exact h.setChild hmove.ok (fun hx => ⟨hmove.lasting, hmove.net hx⟩) (fun _ => hguards)
    (h.waited.update halive hmove.alive.2)

/-- A child in its section is one to wait for. -/
theorem ChildPos.over_of_inSection {p : ChildPos} (h : p.inSection = true) : p.over = false := by
  cases p with
  | unborn | reaped => cases h
  | _ => rfl

/-- A step of a thread. -/
theorem Inv.threadStep {r : Role} {p : ThreadPos w} {locked : Bool} {vars : SharedStruct w}
    (h : Inv k id init s)
    (hstep : r.fn k (s.child c).locked s.vars ((s.child c).thread r) = some (p, locked, vars)) :
    Inv k id init { s with
      vars
      child := Function.update s.child c
        { s.child c with locked, thread := Function.update (s.child c).thread r p } } := by
  obtain ⟨hok, hin, hcount⟩ := (h.children c).thread hstep
  have hguards := h.guards_of_not_over (ChildPos.over_of_inSection hin)
  generalize hx : ({ s.child c with locked, thread := Function.update (s.child c).thread r p } :
    Child w) = x at *
  let u : State w := { s with vars, child := Function.update s.child c x }
  have hpos : u.pos = s.pos := by
    have hsame : x.pos = s.pos c := by rw [← hx]; rfl
    funext d
    exact (Function.apply_update (fun _ => Child.pos) s.child c x d).trans
      (congrFun (hsame ▸ Function.update_eq_self c s.pos) d)
  have hsections : u.sections = s.sections := by
    funext d
    rw [State.sections, hpos, State.sections]
  refine ⟨fun d => ?_, fun hfin => hsections ▸ h.guards hfin, hpos ▸ h.waited, fun hall v => ?_⟩
  · show (Function.update s.child c x d).Ok k vars
    rcases eq_or_ne d c with rfl | hne
    · rwa [Function.update_self]
    · rw [Function.update_of_ne hne]
      -- The other child is outside its section.
      apply (h.children d).of_not_inSection
      by_contra hd
      exact hne (hguards.exclusive le_rfl (Bool.eq_true_of_not_eq_false hd) hin)
  · have hsum := sum_update_add (fun _ x => Child.net k x v) s.child c x
    show vars v = init v + ((∑ d, (Function.update s.child c x d).net k v : ℤ) : BitVec w)
    rw [hcount v, h.vars (hpos ▸ hall) v, add_assoc, ← Int.cast_add]
    congr 2
    linarith

/-- A `fork`, which the parent makes for a child that is not there yet. -/
theorem Inv.fork {ok : Bool} {next : ParentPos} (h : Inv k id init s)
    (hfin : s.parent ≠ .finished) (hc : s.pos c = .unborn) (hwaited : Waited s.pos next)
    (hborn : Waited (Function.update s.pos c .semLock) next) :
    Inv k id init (s.fork c ok next) := by
  cases ok with
  | false => exact ⟨h.children, fun _ => h.guards hfin, hwaited, h.vars⟩
  | true =>
      have habsent : ∀ r, (s.child c).thread r = .absent := by
        have hthreads := (h.children c).threads
        rw [Child.ThreadsAt, show (s.child c).pos = .unborn from hc] at hthreads
        exact hthreads
      refine h.setChild (Child.ok_at fun _ => rfl) (fun _ => ⟨by rw [hc]; rfl, fun v => ?_⟩)
        (fun _ => ?_) hborn
      · exact (Child.net_eq_zero (fun _ => rfl) v).trans (Child.net_eq_zero habsent v).symm
      · have hout : s.sections c = false := by rw [State.sections, hc]; rfl
        exact (h.guards hfin).update_same hout

/-- A `wait`, behind which there is one child less to wait for. -/
theorem Inv.wait {c : Option (Fin 2)} {next : ParentPos} (h : Inv k id init s)
    (hfin : s.parent ≠ .finished) (hwait : s.wait c next = some u)
    (hnone : (∀ d, (s.pos d).over = true) → Waited s.pos next)
    (hone : ∀ c status, s.pos c = .exited status →
      Waited (Function.update s.pos c (.reaped status)) next) :
    Inv k id init u := by
  cases c with
  | none =>
      rw [State.wait] at hwait
      split_ifs at hwait with hover
      obtain rfl := Option.some.inj hwait
      exact ⟨h.children, fun _ => h.guards hfin, hnone hover, h.vars⟩
  | some c =>
      rw [State.wait] at hwait
      split at hwait
      next status hpos =>
        obtain rfl := Option.some.inj hwait
        have hok := h.children c
        have habsent : ∀ r, (s.child c).thread r = .absent := by
          have hthreads := hok.threads
          rwa [Child.ThreadsAt, hpos] at hthreads
        refine h.setChild ⟨hok.mutex, hok.valid, habsent⟩ (fun hx => ⟨?_, fun _ => rfl⟩)
          (fun _ => ?_) (hone c status hpos)
        · rw [State.pos, hpos]
          cases status with
          | success => rfl
          | failure => cases hx
        · have hout : s.sections c = false := by rw [State.sections, State.pos, hpos]; rfl
          exact (h.guards hfin).update_same hout
      · cases hwait

/-- A step of the parent. -/
theorem Inv.parentStep {ok : Bool} {c : Option (Fin 2)} {l : Label w} (h : Inv k id init s)
    (hstep : parentStep o ok c s = some (u, l)) : Inv k id init u := by
  have hwaited := h.waited
  rw [TwoChildren.parentStep] at hstep
  split at hstep
  next hparent =>
    obtain ⟨rfl, -⟩ := Prod.mk.inj (Option.some.inj hstep)
    rw [hparent] at hwaited
    exact h.fork (by rw [hparent]; exact nofun) (hwaited 0) (hwaited 1)
      ((Function.update_of_ne (by decide) ..).trans (hwaited 1))
  next hparent =>
    obtain ⟨rfl, -⟩ := Prod.mk.inj (Option.some.inj hstep)
    rw [hparent] at hwaited
    exact h.fork (by rw [hparent]; exact nofun) hwaited trivial trivial
  next hparent =>
    obtain ⟨u', hwait, heq⟩ := Option.map_eq_some_iff.mp hstep
    obtain ⟨rfl, -⟩ := Prod.mk.inj heq
    refine h.wait (by rw [hparent]; exact nofun) hwait (fun hover d d' hd => ?_) ?_
    · rw [hover d] at hd
      cases hd
    · -- One of two children has been waited for.
      intro c status _ d d' hd hd'
      have hne : ∀ {e}, (Function.update s.pos c (.reaped status) e).over = false → e ≠ c := by
        rintro e he rfl
        rw [Function.update_self] at he
        cases he
      have hd := hne hd
      have hd' := hne hd'
      omega
  next hparent =>
    obtain ⟨u', hwait, heq⟩ := Option.map_eq_some_iff.mp hstep
    obtain ⟨rfl, -⟩ := Prod.mk.inj heq
    rw [hparent] at hwaited
    refine h.wait (by rw [hparent]; exact nofun) hwait (fun hover => hover) ?_
    intro c status hc d
    rcases eq_or_ne d c with rfl | hne
    · rw [Function.update_self]
      rfl
    · rw [Function.update_of_ne hne]
      by_contra hd
      exact hne (hwaited d c (Bool.eq_false_of_not_eq_true hd) (by rw [hc]; rfl))
  next hparent =>
    obtain ⟨rfl, -⟩ := Prod.mk.inj (Option.some.inj hstep)
    rw [hparent] at hwaited
    exact ⟨h.children, fun _ => h.guards (by rw [hparent]; exact nofun), hwaited, h.vars⟩
  next hparent =>
    obtain ⟨rfl, -⟩ := Prod.mk.inj (Option.some.inj hstep)
    rw [hparent] at hwaited
    exact ⟨h.children, fun hfin => absurd rfl hfin, hwaited, h.vars⟩
  · cases hstep

/-- Every step keeps the invariant. -/
theorem Inv.step {l : Label w} (ho : o.semId = some id) (h : Inv k id init s)
    (hstep : StepOf (step o k) s l u) : Inv k id init u := by
  obtain ⟨a, hstep⟩ := hstep
  cases a with
  | parent ok c => exact h.parentStep hstep
  | child c ok =>
      obtain ⟨⟨sems, x⟩, hchild, heq⟩ := Option.map_eq_some_iff.mp hstep
      obtain ⟨rfl, -⟩ := Prod.mk.inj heq
      exact h.childStep ho hchild
  | thread c r =>
      obtain ⟨⟨p, locked, vars⟩, hthread, heq⟩ := Option.map_eq_some_iff.mp hstep
      obtain ⟨rfl, -⟩ := Prod.mk.inj heq
      exact h.threadStep hthread

/-- Two threads that hold a mutex are one and the same: the semaphore excludes the other child, and
the mutex the other thread. -/
theorem Inv.exclusive {d : Fin 2} {r q : Role} (h : Inv k id init s)
    (hr : ((s.child c).thread r).holds = true) (hq : ((s.child d).thread q).holds = true) :
    c = d ∧ r = q := by
  have hc := (h.children c).inSection_of_holds hr
  have hd := (h.children d).inSection_of_holds hq
  obtain rfl := (h.guards_of_not_over (ChildPos.over_of_inSection hc)).exclusive le_rfl hc hd
  exact ⟨rfl, (h.children c).exclusive hr hq⟩

/-- When the children have exited, the permit is back. -/
theorem Inv.getval_of_exited (h : Inv k id init s)
    (hexit : ∀ c, (s.child c).pos.exitStatus ≠ none) (hfin : s.parent ≠ .finished) :
    getval s.sems id 0 = some 1 := by
  have hnone : holders s.sections = 0 := by
    apply holders_eq_zero_iff.mpr
    intro c
    have hc := hexit c
    rw [State.sections, State.pos]
    cases hpos : (s.child c).pos with
    | exited | reaped => rfl
    | _ =>
        rw [hpos] at hc
        exact absurd rfl hc
  rw [(h.guards hfin).getval, hnone]

/-- A child that has exited has no threads. -/
theorem absent_of_exited {x : Child w} (h : x.ThreadsAt) (hexit : x.pos.exitStatus ≠ none)
    (r : Role) : x.thread r = .absent := by
  obtain ⟨pos, locked, thread⟩ := x
  cases pos with
  | exited | reaped => exact h r
  | _ => exact absurd rfl hexit

/-- When they have exited with `EXIT_SUCCESS`, they have added nothing. -/
theorem Inv.vars_of_exited (h : Inv k id init s)
    (hexit : ∀ c, (s.child c).pos.exitStatus = some .success) : s.vars = init := by
  have hlasting : ∀ c, (s.pos c).failed = false := by
    intro c
    have hc := hexit c
    rw [State.pos]
    cases hpos : (s.child c).pos with
    | exited status | reaped status =>
        rw [hpos] at hc
        obtain rfl := Option.some.inj hc
        rfl
    | _ => rfl
  have hnet : ∀ c v, (s.child c).net k v = 0 := by
    intro c v
    have hexited : (s.child c).pos.exitStatus ≠ none := by
      rw [hexit c]
      exact Option.some_ne_none _
    exact Child.net_eq_zero (absent_of_exited (h.children c).threads hexited) v
  funext v
  rw [h.vars hlasting v, Finset.sum_congr rfl fun c _ => hnet c v, Finset.sum_const_zero,
    Int.cast_zero, add_zero]

end Invariant

/-! ## Runs -/

section Runs

variable {k id : ℕ} {room : Bool} {sems : Sems (Fin 2)} {init : SharedStruct w}
  {tr : List (Label w)} {s : State w}

/-- The constructor sets the semaphore to 1. -/
theorem guards_new (hsem : (Semaphore.new sems room).2.semId = some id) :
    Guards (Semaphore.new sems room).1 id 0 1 fun _ => false := by
  simp only [Semaphore.new, semCreate] at hsem ⊢
  obtain ⟨sem, hsem₀⟩ := exists_semAt (findKey_semget (by decide) (Prod.ext rfl hsem))
  rw [setSemaVal, hsem, Option.bind_some]
  have hset : setval (semget sems room 3333 1).1 id 0 1 =
      some (putSem (semget sems room 3333 1).1 id 0 (.ofVal 1)) := by
    rw [setval, hsem₀]
    rfl
  rw [hset]
  exact guards_of_setval hset fun _ => rfl

/-- The invariant holds in every state. -/
theorem inv_of_reaches (hsem : (Semaphore.new sems room).2.semId = some id)
    (h : Reaches k room sems init tr s) : Inv k id init s := by
  refine h.history (P := fun _ s => Inv k id init s) ?_ fun _ s l u _ hinv hstep =>
    hinv.step hsem hstep
  refine ⟨fun _ => Child.ok_at fun _ => rfl, fun _ => guards_new hsem, fun _ => rfl, fun _ v => ?_⟩
  have hnet : ∀ c, ((State.init (Semaphore.new sems room).1 init).child c).net k v = 0 :=
    fun _ => Child.net_eq_zero (fun _ => rfl) v
  rw [Finset.sum_congr rfl fun c _ => hnet c, Finset.sum_const_zero, Int.cast_zero, add_zero]
  rfl

/-- Two processes with two threads each, for any number of iterations, any values of the variables
and any order of steps: no two threads are between a load and the matching store, and when both
children have exited the semaphore is 1 again, until the parent removes it, and each variable has
its initial value, if no `pthread_create` failed. -/
theorem no_lost_update (hsem : (Semaphore.new sems room).2.semId ≠ none)
    (h : Reaches k room sems init tr s) :
    (∀ c r d q, ((s.child c).thread r).pending = true → ((s.child d).thread q).pending = true →
      c = d ∧ r = q) ∧
    ((∀ c, (s.child c).pos.exitStatus ≠ none) → s.parent ≠ .finished →
      getSemaVal s.sems (Semaphore.new sems room).2 = 1) ∧
    ((∀ c, (s.child c).pos.exitStatus = some .success) → s.vars = init) := by
  obtain ⟨id, hid⟩ := Option.ne_none_iff_exists'.mp hsem
  have hinv := inv_of_reaches hid h
  refine ⟨fun c r d q hr hq => ?_, fun hexit hfin => ?_, hinv.vars_of_exited⟩
  · exact hinv.exclusive (ThreadPos.holds_of_pending hr) (ThreadPos.holds_of_pending hq)
  · simp only [getSemaVal, hid, Option.bind_some, hinv.getval_of_exited hexit hfin]
    rfl

end Runs

/-- One iteration: the second child goes first, and the threads of the first run the other way
round. -/
theorem no_lost_update_one :
    ∃ (tr : List (Label 8)) (s : State 8), Reaches 1 true [] (.of 10 12 14) tr s ∧
      (∀ c, (s.child c).pos.exitStatus = some .success) ∧ s.vars = .of 10 12 14 ∧
      getSemaVal s.sems (Semaphore.new ([] : Sems (Fin 2)) true).2 = 1 := by
  let thread (c : Fin 2) (r : Role) : List Act := .replicate 8 (.thread c r)
  let child (c : Fin 2) (r q : Role) : List Act :=
    .replicate 3 (.child c true) ++ thread c r ++ thread c q ++ .replicate 4 (.child c true)
  obtain ⟨tr, s, hrun, hexit, hparent⟩ : ∃ (tr : List (Label 8)) (s : State 8),
      Reaches 1 true [] (.of 10 12 14) tr s ∧
        (∀ c, (s.child c).pos.exitStatus = some .success) ∧ s.parent = .wait1 :=
    ⟨_, _, run_play _ _ ([.parent true none, .parent true none] ++ child 1 .inc .dec ++
      child 0 .dec .inc), by decide +kernel, by decide +kernel⟩
  obtain ⟨-, hsem, hvars⟩ := no_lost_update (by decide) hrun
  have hexited : ∀ c, (s.child c).pos.exitStatus ≠ none := by
    intro c
    rw [hexit c]
    exact nofun
  exact ⟨tr, s, hrun, hexit, hvars hexit, hsem hexited (by rw [hparent]; exact nofun)⟩

end TwoChildren
