import LinuxPrograms.DoorBell.Threads
import LinuxPrograms.Lib.Observation
import Mathlib.Data.Fintype.Basic

/-!
# Door bell: start-up

The process from the first line of `main`: it makes the pipes and the queue, creates the threads,
sets their flags and creates the timers, while the threads already sleep, wake and test the flags.
After a successful `execl` the queue is still there, and `main` removes it.

- `startUpCalls`, `startUpCall`: `main` before its watch loop.
- `Phase`, `processStep`: a thread before and at its loop, and the whole process.
- `reaches_iff`: the calls the threads make are those of the running system.
- `no_timer_of_left`: a thread that finds its flag unset silences the bell.
-/

namespace DoorBell

open CString LabelledSystem

/-! ## The process -/

/-- The calls and assignments of `main` before its watch loop. -/
inductive StartUpCall
  | pipe (p : Pipe)
  | ipcrm
  | msgget
  | pthreadCreate (th : Thread)
  | pthreadDetach (th : Thread)
  /-- The flag of the thread's loop is set to `TRUE`. -/
  | setRunning (th : Thread)
  | tmrCreate (t : Timer)
  /-- The warning if a timer has no identifier. -/
  | warnTimers
  deriving DecidableEq, Repr

/-- `main` before its watch loop. -/
def startUpCalls : List StartUpCall :=
  [.pipe .t1, .pipe .t2, .pipe .t3, .ipcrm, .msgget,
    .pthreadCreate .monitor, .pthreadDetach .monitor,
    .pthreadCreate (.worker .motion), .pthreadDetach (.worker .motion),
    .pthreadCreate (.worker .distance), .pthreadDetach (.worker .distance),
    .pthreadCreate (.worker .doorBell), .pthreadDetach (.worker .doorBell),
    .setRunning (.worker .distance), .setRunning .monitor, .setRunning (.worker .motion),
    .setRunning (.worker .doorBell),
    .tmrCreate .doorBell, .tmrCreate .doorOpenWait, .tmrCreate .resetStates, .warnTimers]

/-- Where a thread stands with regard to its loop. -/
inductive Phase
  /-- Not created. -/
  | absent
  /-- In the `sleep` before its first call. -/
  | sleeping
  /-- Before the test of its flag. -/
  | test
  /-- In the body of the loop; the monitor also at its first command, which it sends before. -/
  | body
  /-- Behind the loop, at `pthread_exit`. -/
  | left
  deriving DecidableEq, Repr

/-- The process: what `main` has still to do before its watch loop, and whether it has called
`exit(1)`; the threads' phases and flags; which timers have an identifier; and the rest. -/
structure Process where
  todo : List StartUpCall
  aborted : Bool
  phase : Thread → Phase
  running : Thread → Bool
  timerId : Timer → Bool
  sys : State

/-- A fresh process, and the messages in the queue with its key. -/
def Process.fresh (queue : List Event) : Process where
  todo := startUpCalls
  aborted := false
  phase := fun _ => .absent
  running := fun _ => false
  timerId := fun _ => false
  sys := { State.init with queue }

/-- What a step of the process does. -/
inductive ProcessLabel
  /-- A call of `main` before its watch loop, and whether it succeeds. -/
  | startUp (c : StartUpCall) (ok : Bool)
  /-- `system("ipcrm -Q 2000")`, and the messages left behind it. -/
  | ipcrm (left : List Event)
  /-- A thread's `sleep` returns. -/
  | wake (th : Thread)
  /-- A thread tests its flag. -/
  | test (th : Thread) (running : Bool)
  /-- A call of the running system. -/
  | sys (l : Label)
  deriving DecidableEq

/-- The call of the running system, if it is one. -/
def ProcessLabel.call : ProcessLabel → Option Label
  | sys l => some l
  | _ => none

/-- A call of `main` before its watch loop. A failed `pipe`, `msgget` or `pthread_create` is
answered with `exit(1)`, the others go unnoticed or with a warning. -/
def startUpCall (s : Process) (c : StartUpCall) (ok : Bool) : Option (Process × ProcessLabel) :=
  match c with
  | .pipe _ | .msgget => some (if ok then s else { s with aborted := true }, .startUp c ok)
  | .ipcrm =>
      let sys := if ok then { s.sys with queue := [] } else s.sys
      some ({ s with sys }, .ipcrm sys.queue)
  | .pthreadCreate th =>
      some (if ok then { s with phase := Function.update s.phase th .sleeping }
        else { s with aborted := true }, .startUp c ok)
  | .pthreadDetach _ => some (s, .startUp c ok)
  | .setRunning th =>
      if ok then some ({ s with running := Function.update s.running th true }, .startUp c ok)
      else none
  -- A failed `tmr_create` returns 0.
  | .tmrCreate t =>
      some ({ s with timerId := Function.update s.timerId t ok }, .startUp c ok)
  | .warnTimers =>
      if ok = (s.timerId .doorBell && s.timerId .doorOpenWait && s.timerId .resetStates) then
        some (s, .startUp c ok)
      else none

/-- The thread has been terminated. -/
def State.terminated (s : State) : Thread → Bool
  | .monitor => s.monitor = .terminated
  | .worker w => (s.worker w).pos = .terminated

/-- The thread stands at the first call of its part of the running system. -/
def State.atFirstCall (s : State) : Thread → Bool
  | .monitor => s.monitor = .startUp
  | .worker w => (s.worker w).pos = .read

/-- The thread is about to test its flag. -/
def State.atLoopHead (s : State) : Thread → Bool
  | .monitor => s.monitor = .getMessage
  | .worker w => (s.worker w).pos = .read

/-- Where a thread stands when its `sleep` returns. The monitor sends its first command before it
looks at its flag. -/
def Thread.awake : Thread → Phase
  | monitor => .body
  | worker _ => .test

instance : Fintype Thread where
  elems := {.monitor, .worker .motion, .worker .distance, .worker .doorBell}
  complete := by rintro (_ | _ | _ | _) <;> decide

/-- The step is one of `main`. -/
def Label.byMain : Label → Bool
  | timerStop who _ _ | timerDestroy who _ _ | pthreadCancel who _ _ => who = .main
  | checkThreadDead _ | shutdownExit => true
  | _ => false

/-- A timer call succeeds only on a timer that has an identifier. -/
def Label.timerKnown (timerId : Timer → Bool) : Label → Bool
  | timerStart _ t _ ok | timerStop _ t ok | timerDestroy _ t ok => !ok || timerId t
  | _ => true

/-- Whoever makes the call is where it is made: a thread in the body of its loop, `main` in its
watch loop, and a thread that ends has been created and has not ended by itself. -/
structure Process.Permits (s : Process) (l : Label) : Prop where
  thread : ∀ th, l.by th = true → s.phase th = .body
  main : l.byMain = true → s.todo = []
  ends : ∀ th, l = .threadEnd th → s.phase th ≠ .absent ∧ s.phase th ≠ .left
  timer : l.timerKnown s.timerId = true

instance (s : Process) (l : Label) : Decidable (s.Permits l) :=
  decidable_of_iff ((∀ th, l.by th = true → s.phase th = .body) ∧
      (l.byMain = true → s.todo = []) ∧
      (∀ th, l = .threadEnd th → s.phase th ≠ .absent ∧ s.phase th ≠ .left) ∧
      l.timerKnown s.timerId = true)
    ⟨fun h => ⟨h.1, h.2.1, h.2.2.1, h.2.2.2⟩, fun h => ⟨h.thread, h.main, h.ends, h.timer⟩⟩

/-- The phases after a call: the thread that made it is back before its test, or still in the
body. -/
def Process.phaseAfter (s : Process) (sys : State) (l : Label) (th : Thread) : Phase :=
  if l.by th then (if sys.atLoopHead th then .test else .body) else s.phase th

/-- A step of the running system. A successful `execl` starts a fresh process, and the queue
stays. -/
def systemStep (s : Process) (a : Act) : Option (Process × ProcessLabel) :=
  match step s.sys a with
  | none => none
  | some (sys, l) =>
      if s.Permits l then
        some (if l = .execl true then .fresh s.sys.queue
          else { s with sys, phase := s.phaseAfter sys l }, .sys l)
      else none

/-- Who moves next. -/
inductive ProcessAct
  | startUp (ok : Bool)
  | wake (th : Thread)
  | test (th : Thread)
  | sys (a : Act)

/-- One step of the process. -/
def processStep (s : Process) (a : ProcessAct) : Option (Process × ProcessLabel) :=
  if s.aborted || s.sys.exited then none
  else
    match a with
    | .startUp ok =>
        match s.todo with
        | [] => none
        | c :: todo => startUpCall { s with todo } c ok
    | .wake th =>
        if s.phase th = .sleeping ∧ s.sys.atFirstCall th then
          some ({ s with phase := Function.update s.phase th th.awake }, .wake th)
        else none
    | .test th =>
        if s.phase th = .test ∧ s.sys.terminated th = false then
          some ({ s with
            phase := Function.update s.phase th (if s.running th then .body else .left) },
            .test th (s.running th))
        else none
    | .sys a => systemStep s a

/-- The labels `tr` lead from a fresh process, with the messages `queue` in its queue, to `s`. -/
abbrev ProcessReaches (queue : List Event) (tr : List ProcessLabel) (s : Process) : Prop :=
  Run (StepOf processStep) (.fresh queue) tr s

/-- The calls of the running system. -/
def calls (tr : List ProcessLabel) : List Label := tr.filterMap ProcessLabel.call

/-- The `ipcrm` of a label leaves no messages behind. -/
def ProcessLabel.clean : ProcessLabel → Bool
  | ipcrm left => left.isEmpty
  | _ => true

/-! ## The calls are those of the running system -/

/-- What the running system sees: it begins when `main` has removed the queue. -/
def Process.view (s : Process) : State := if .ipcrm ∈ s.todo then .init else s.sys

section Steps

variable {s s' : Process} {l : ProcessLabel} {c : StartUpCall} {ok : Bool} {queue : List Event}

/-- A call of `main` before its watch loop leaves the running system alone, but for the queue
`ipcrm` removes. -/
theorem startUpCall_eq_some (h : startUpCall s c ok = some (s', l)) :
    l.call = none ∧ s'.todo = s.todo ∧
      ((c = .ipcrm ∧ l = .ipcrm s'.sys.queue ∧ s'.sys = { s.sys with queue := s'.sys.queue } ∧
          s'.phase = s.phase) ∨
        c ≠ .ipcrm ∧ l = .startUp c ok ∧ s'.sys = s.sys ∧ (s'.phase = s.phase ∨
          ∃ th, c = .pthreadCreate th ∧ s'.phase = Function.update s.phase th .sleeping)) := by
  cases c with
  | ipcrm =>
      obtain ⟨rfl, rfl⟩ := Prod.mk.inj (Option.some.inj h)
      cases ok <;> exact ⟨rfl, rfl, .inl ⟨rfl, rfl, rfl, rfl⟩⟩
  | pthreadCreate th =>
      obtain ⟨rfl, rfl⟩ := Prod.mk.inj (Option.some.inj h)
      refine ⟨rfl, ?_, .inr ⟨by simp, rfl, ?_⟩⟩
      · cases ok <;> rfl
      · cases ok with
        | false => exact ⟨rfl, .inl rfl⟩
        | true => exact ⟨rfl, .inr ⟨th, rfl, rfl⟩⟩
  -- The other calls leave the threads as they are, too.
  | _ =>
      simp only [startUpCall] at h
      try split_ifs at h
      all_goals
        obtain ⟨rfl, rfl⟩ := Prod.mk.inj (Option.some.inj h)
        exact ⟨rfl, rfl, .inr ⟨by simp, rfl, rfl, .inl rfl⟩⟩

/-- The steps of a process. -/
inductive ProcessMove (s : Process) : ProcessLabel → Process → Prop
  | startUp {s' : Process} {l : ProcessLabel} (c : StartUpCall) (todo : List StartUpCall)
      (ok : Bool) (htodo : s.todo = c :: todo)
      (hcall : startUpCall { s with todo } c ok = some (s', l)) : ProcessMove s l s'
  | wake (th : Thread) (hphase : s.phase th = .sleeping) (hfirst : s.sys.atFirstCall th = true) :
      ProcessMove s (.wake th) { s with phase := Function.update s.phase th th.awake }
  | test (th : Thread) (hphase : s.phase th = .test) (hterm : s.sys.terminated th = false) :
      ProcessMove s (.test th (s.running th))
        { s with phase := Function.update s.phase th (if s.running th then .body else .left) }
  | restart (hstep : Step s.sys (.execl true) .init) (hopen : s.Permits (.execl true)) :
      ProcessMove s (.sys (.execl true)) (.fresh s.sys.queue)
  | sys (sys : State) (l : Label) (hstep : Step s.sys l sys) (hopen : s.Permits l)
      (hl : l ≠ .execl true) :
      ProcessMove s (.sys l) { s with sys, phase := s.phaseAfter sys l }

/-- A step of the process is one of these. -/
theorem processStep_move (h : StepOf processStep s l s') : ProcessMove s l s' := by
  obtain ⟨a, ha⟩ := h
  unfold processStep at ha
  split_ifs at ha
  cases a with
  | startUp ok =>
      cases htodo : s.todo with
      | nil => simp [htodo] at ha
      | cons c todo =>
          rw [htodo] at ha
          exact .startUp c todo ok htodo ha
  | wake th =>
      simp only at ha
      split_ifs at ha with hw
      obtain ⟨rfl, rfl⟩ := Prod.mk.inj (Option.some.inj ha)
      exact .wake th hw.1 hw.2
  | test th =>
      by_cases ht : s.phase th = .test ∧ s.sys.terminated th = false
      · simp only [if_pos ht] at ha
        obtain ⟨rfl, rfl⟩ := Prod.mk.inj (Option.some.inj ha)
        exact .test th ht.1 ht.2
      · simp [ht] at ha
  | sys a =>
      simp only [systemStep] at ha
      cases hstep : step s.sys a with
      | none => simp [hstep] at ha
      | some r =>
          obtain ⟨sys, l'⟩ := r
          rw [hstep] at ha
          simp only at ha
          split_ifs at ha with hopen hl
          · obtain ⟨rfl, rfl⟩ := Prod.mk.inj (Option.some.inj ha)
            subst hl
            have hst : Step s.sys (.execl true) sys := ⟨a, hstep⟩
            exact .restart (hst.move.2.restart ▸ hst) hopen
          · obtain ⟨rfl, rfl⟩ := Prod.mk.inj (Option.some.inj ha)
            exact .sys sys l' ⟨a, hstep⟩ hopen hl

/-- Only pipes are made before the queue is removed. -/
theorem exists_pipe_of_ipcrm_mem {todo : List StartUpCall} (h : c :: todo <:+ startUpCalls)
    (hmem : .ipcrm ∈ todo) : ∃ p, c = .pipe p := by
  have hall : ∀ calls ∈ startUpCalls.tails, StartUpCall.ipcrm ∈ calls.tail →
      calls.head? ∈ [some (.pipe .t1), some (.pipe .t2), some (.pipe .t3)] := by
    decide
  have hc := hall _ ((List.mem_tails _ _).mpr h) hmem
  simp only [List.head?_cons, List.mem_cons, Option.some.injEq, List.not_mem_nil, or_false] at hc
  rcases hc with rfl | rfl | rfl
  · exact ⟨_, rfl⟩
  · exact ⟨_, rfl⟩
  · exact ⟨_, rfl⟩

/-- `main` goes through its calls in their order, and until it has removed the queue there are no
threads and nothing has been done. -/
structure Ordered (s : Process) : Prop where
  todo : s.todo <:+ startUpCalls
  early : .ipcrm ∈ s.todo →
    (∀ th, s.phase th = .absent) ∧ s.sys = { State.init with queue := s.sys.queue }

theorem ordered_fresh (queue : List Event) : Ordered (.fresh queue) where
  todo := List.suffix_refl _
  early _ := ⟨fun _ => rfl, rfl⟩

/-- Before the queue is removed the running system makes no call. -/
theorem Ordered.ipcrm_notMem (h : Ordered s) {sys : State} {l : Label} (hstep : Step s.sys l sys)
    (hopen : s.Permits l) : .ipcrm ∉ s.todo := by
  intro hmem
  obtain ⟨hphase, hsys⟩ := h.early hmem
  have hthread : ∀ th, l.by th ≠ true := by
    intro th hby
    have hbody := hopen.thread th hby
    rw [hphase] at hbody
    cases hbody
  have hmain : l.byMain ≠ true := by
    intro hby
    rw [hopen.main hby] at hmem
    cases hmem
  obtain ⟨-, hmove⟩ := hstep.move
  rw [hsys] at hmove
  cases hmove with
  | read w => exact hthread (.worker w) (by simp [Label.by])
  | readFail w => exact hthread (.worker w) (by simp [Label.by])
  | senseExit w e site hpos hs => exact hthread (.worker w) (by simp [Label.by, hs.thread_eq])
  | sense w e site data hpos hs => exact hthread (.worker w) (by simp [Label.by, hs.thread_eq])
  | decide w e e' site data hpos hs => exact hthread (.worker w) (by simp [Label.by, hs.thread_eq])
  | post w => exact hthread (.worker w) (by simp [Label.by])
  | ignore w => exact hthread (.worker w) (by simp)
  | postExpiry => exact hthread (.worker .doorBell) rfl
  | startBell => exact hthread (.worker .doorBell) rfl
  | rebootCall => exact hthread .monitor (by simp)
  -- No timer has been started, no thread cancelled, and `main` is not in `shutdown`.
  | expire t harmed => cases harmed
  | countExpiry i hi => cases hi
  | expiryStop i t ok hi => cases hi
  | expiryWrite i t p name ok hi => cases hi
  | expiryPost i ok hi => cases hi
  | watchExit => exact hmain rfl
  | watch => exact hmain rfl
  | watchDead => exact hmain rfl
  | shutdownCall c rest ok hpos => cases hpos
  | shutdownExit hpos => cases hpos
  | endMonitor hc => cases hc
  | endWorker w hc => cases hc
  | _ => exact hthread .monitor rfl

/-- Every step keeps the order. -/
theorem Ordered.step (h : Ordered s) (hm : ProcessMove s l s') : Ordered s' := by
  cases hm with
  | startUp c todo ok htodo hcall =>
      obtain ⟨-, htodo', hsys⟩ := startUpCall_eq_some hcall
      replace htodo' : s'.todo = todo := htodo'
      have hsuffix : c :: todo <:+ startUpCalls := htodo ▸ h.todo
      refine ⟨?_, fun hmem => ?_⟩
      · rw [htodo']
        exact (List.suffix_cons c todo).trans hsuffix
      · rw [htodo'] at hmem
        obtain ⟨hphase, hinit⟩ := h.early (by rw [htodo]; exact List.mem_cons_of_mem c hmem)
        -- The call makes a pipe, which leaves both alone.
        obtain ⟨p, rfl⟩ := exists_pipe_of_ipcrm_mem hsuffix hmem
        rcases hsys with ⟨hc, -⟩ | ⟨-, -, hsys, hp | ⟨th, hc, -⟩⟩
        · cases hc
        · rw [hsys, hp]
          exact ⟨hphase, hinit⟩
        · cases hc
  | wake th hphase =>
      refine ⟨h.todo, fun hmem => ?_⟩
      rw [(h.early hmem).1 th] at hphase
      cases hphase
  | test th hphase =>
      refine ⟨h.todo, fun hmem => ?_⟩
      rw [(h.early hmem).1 th] at hphase
      cases hphase
  | restart => exact ordered_fresh _
  | sys sys l hstep hopen => exact ⟨h.todo, fun hmem => absurd hmem (h.ipcrm_notMem hstep hopen)⟩

/-- A step of the process is at most one step of the running system. -/
theorem Ordered.view (h : Ordered s) (hm : ProcessMove s l s') (hl : l.clean = true) :
    Run Step s.view l.call.toList s'.view := by
  cases hm with
  | startUp c todo ok htodo hcall =>
      obtain ⟨hcall', htodo', hsys⟩ := startUpCall_eq_some hcall
      replace htodo' : s'.todo = todo := htodo'
      have hsuffix : c :: todo <:+ startUpCalls := htodo ▸ h.todo
      rw [hcall']
      refine Run.nil_iff.mpr ?_
      unfold Process.view
      rw [htodo', htodo]
      rcases hsys with ⟨rfl, rfl, hsys, -⟩ | ⟨hc, -, hsys, -⟩
      · -- Once the queue is empty, the process is where the running system begins.
        have hinit := (h.early (by rw [htodo]; exact List.mem_cons_self)).2
        have hnot : StartUpCall.ipcrm ∉ todo := by
          intro hmem
          obtain ⟨p, hp⟩ := exists_pipe_of_ipcrm_mem hsuffix hmem
          cases hp
        rw [if_pos List.mem_cons_self, if_neg hnot, hsys, List.isEmpty_iff.mp hl]
        exact (congrArg (fun t : State => { t with queue := [] }) hinit).symm
      · have hiff : StartUpCall.ipcrm ∈ c :: todo ↔ StartUpCall.ipcrm ∈ todo := by
          rw [List.mem_cons, or_iff_right (Ne.symm hc)]
        rw [hsys]
        exact if_congr hiff rfl rfl
  | wake th => exact .nil
  | test th => exact .nil
  | restart hstep hopen =>
      -- The fresh process has the queue still to remove.
      rw [Process.view, if_neg (h.ipcrm_notMem hstep hopen)]
      exact Run.single hstep
  | sys sys l hstep hopen =>
      have hnot := h.ipcrm_notMem hstep hopen
      rw [Process.view, if_neg hnot, Process.view, if_neg hnot]
      exact Run.single hstep

end Steps

/-- What the process does is a run of the running system. -/
theorem reaches_calls {queue : List Event} {tr : List ProcessLabel} {s : Process}
    (h : ProcessReaches queue tr s) (hclean : ∀ l ∈ tr, l.clean = true) :
    Reaches (calls tr) s.view := by
  obtain ⟨q, hrun, -, rfl⟩ := h.observed (R := fun s q => Ordered s ∧ s.view = q) hclean
    ⟨ordered_fresh queue, rfl⟩ fun s q l s' hR hstep hl => by
      obtain ⟨hs, rfl⟩ := hR
      have hm := processStep_move hstep
      exact ⟨s'.view, hs.view hm hl, hs.step hm, rfl⟩
  exact hrun

/-! ## Every run of the running system is reached -/

/-- The process behind its start-up with every call made, in the state `s`. -/
structure Started (p : Process) (s : State) : Prop where
  todo : p.todo = []
  aborted : p.aborted = false
  running : ∀ th, p.running th = true
  timerId : ∀ t, p.timerId t = true
  phase : ∀ th, p.phase th = .body ∨ p.phase th = .test
  sys : p.sys = s

/-- `main` goes through its calls, and the threads wake. -/
def startUpActs : List ProcessAct :=
  startUpCalls.map (fun _ => .startUp true) ++
    [.wake (.worker .motion), .wake (.worker .distance), .wake (.worker .doorBell), .wake .monitor]

/-- Start-up succeeds whatever is in the queue. -/
theorem exists_started (queue : List Event) :
    ∃ tr p, ProcessReaches queue tr p ∧ calls tr = [] ∧ (∀ l ∈ tr, l.clean = true) ∧
      Started p .init := by
  refine ⟨_, _, run_play processStep (.fresh queue) startUpActs, rfl, ?_, ?_⟩
  · exact List.all_eq_true.mp rfl
  · refine ⟨rfl, rfl, ?_, ?_, ?_, rfl⟩
    · rintro (_ | _ | _ | _) <;> rfl
    · rintro (_ | _ | _) <;> rfl
    · rintro (_ | _ | _ | _)
      · exact .inl rfl
      · exact .inr rfl
      · exact .inr rfl
      · exact .inr rfl

/-- A step is made by one thread at most. -/
theorem Label.by_unique {l : Label} {th th' : Thread} (h : l.by th = true)
    (h' : l.by th' = true) : th = th' := by
  cases l <;> simp_all [Label.by]

/-- A thread that makes a call has not been terminated. -/
theorem terminated_eq_false {s s' : State} {l : Label} {th : Thread} (hstep : Step s l s')
    (hby : l.by th = true) : s.terminated th = false := by
  obtain ⟨-, hmove⟩ := hstep.move
  cases th with
  | monitor =>
      refine decide_eq_false fun hpos => ?_
      rcases hmove.monitor with ⟨-, hm⟩ | ⟨hnot, -⟩
      · rw [hpos] at hm
        generalize s'.monitor = pos' at hm
        cases hm with
        | write ok hw => cases hw
        | start ok hs => cases hs
      · rw [hby] at hnot
        cases hnot
  | worker w =>
      refine decide_eq_false fun hpos => ?_
      rcases hmove.worker w with ⟨-, hm⟩ | ⟨hnot, -⟩
      · rw [hpos] at hm
        generalize (s'.worker w).pos = pos' at hm
        cases hm
      · rw [hby] at hnot
        cases hnot

namespace Started

variable {p : Process} {s s' : State} {l : Label}

/-- A process in which a thread makes the call in the body of its loop lets it be made. -/
theorem permits (h : Started p s) (hbody : ∀ th, l.by th = true → p.phase th = .body) :
    p.Permits l where
  thread := hbody
  main _ := h.todo
  ends th _ := by rcases h.phase th with hp | hp <;> simp [hp]
  timer := by cases l <;> simp [Label.timerKnown, h.timerId]

/-- A thread goes into the body of its loop if it is not there yet. -/
theorem exists_body (h : Started p s) {th : Thread} (hstep : Step s l s') (hby : l.by th = true) :
    ∃ tr p', Run (StepOf processStep) p tr p' ∧ calls tr = [] ∧ (∀ l ∈ tr, l.clean = true) ∧
      Started p' s ∧ p'.phase th = .body := by
  rcases h.phase th with hbody | htest
  · exact ⟨[], p, .nil, rfl, by simp, h, hbody⟩
  · -- The flag is set, so the test lets it in.
    have hmove : processStep p (.test th) =
        some ({ p with phase := Function.update p.phase th .body }, .test th true) := by
      simp [processStep, h.aborted, h.sys, hstep.move.1, htest, terminated_eq_false hstep hby,
        h.running]
    refine ⟨_, _, Run.single ⟨_, hmove⟩, rfl, by simp [ProcessLabel.clean], ?_,
      Function.update_self ..⟩
    refine ⟨h.todo, h.aborted, h.running, h.timerId, fun th' => ?_, h.sys⟩
    show Function.update p.phase th .body th' = .body ∨ Function.update p.phase th .body th' = .test
    rcases eq_or_ne th' th with rfl | hne
    · exact .inl (Function.update_self ..)
    · rw [Function.update_of_ne hne]
      exact h.phase th'

/-- A call of the running system is let through, behind a test of the flag where the thread that
makes it stands before one. -/
theorem exists_permits (h : Started p s) (hstep : Step s l s') :
    ∃ tr p', Run (StepOf processStep) p tr p' ∧ calls tr = [] ∧ (∀ l ∈ tr, l.clean = true) ∧
      Started p' s ∧ p'.Permits l := by
  by_cases hth : ∃ th, l.by th = true
  · obtain ⟨th, hby⟩ := hth
    obtain ⟨tr, p', hrun, hcalls, hclean, h', hbody⟩ := h.exists_body hstep hby
    refine ⟨tr, p', hrun, hcalls, hclean, h', h'.permits fun th' hby' => ?_⟩
    rw [Label.by_unique hby' hby]
    exact hbody
  · exact ⟨[], p, .nil, rfl, by simp, h, h.permits fun th hby => absurd ⟨th, hby⟩ hth⟩

/-- Every step of the running system is taken by the process, with a new start-up behind a
restart. -/
theorem step (h : Started p s) (hstep : Step s l s') :
    ∃ tr p', Run (StepOf processStep) p tr p' ∧ calls tr = [l] ∧ (∀ l ∈ tr, l.clean = true) ∧
      Started p' s' := by
  obtain ⟨a, ha⟩ := hstep
  obtain ⟨tr, p₁, hrun, hcalls, hclean, h₁, hopen⟩ := h.exists_permits ⟨a, ha⟩
  have hmove : processStep p₁ (.sys a) =
      some (if l = .execl true then .fresh s.queue
        else { p₁ with sys := s', phase := p₁.phaseAfter s' l }, .sys l) := by
    have hex : s.exited = false := (Step.move ⟨a, ha⟩).1
    simp [processStep, systemStep, h₁.aborted, h₁.sys, hex, ha, hopen]
  have hone := hrun.snoc ⟨_, hmove⟩
  have hcalls' : calls (tr ++ [.sys l]) = [l] := by
    rw [calls, filterMap_snoc, ← calls, hcalls]
    rfl
  have hclean' : ∀ l' ∈ tr ++ [.sys l], l'.clean = true := by
    rw [List.forall_mem_append, List.forall_mem_singleton]
    exact ⟨hclean, rfl⟩
  by_cases hl : l = .execl true
  · -- The fresh process starts up again.
    rw [if_pos hl] at hone
    obtain ⟨tr₂, p₂, hrun₂, hcalls₂, hclean₂, h₂⟩ := exists_started s.queue
    have hinit : s' = .init := Move.restart (hl ▸ (Step.move ⟨a, ha⟩).2)
    refine ⟨_, p₂, hone.append hrun₂, ?_, ?_, hinit ▸ h₂⟩
    · rw [calls, List.filterMap_append, ← calls, ← calls, hcalls', hcalls₂, List.append_nil]
    · rw [List.forall_mem_append]
      exact ⟨hclean', hclean₂⟩
  · rw [if_neg hl] at hone
    refine ⟨_, _, hone, hcalls', hclean', h₁.todo, h₁.aborted, h₁.running, h₁.timerId, ?_, rfl⟩
    intro th
    show p₁.phaseAfter s' l th = .body ∨ p₁.phaseAfter s' l th = .test
    unfold Process.phaseAfter
    split_ifs
    · exact .inr rfl
    · exact .inl rfl
    · exact h₁.phase th

end Started

/-- From the first line of `main` on, and with every restart, the calls of the threads, the
handlers and the watch loop are exactly those of the running system, if no `ipcrm` leaves messages
in the queue. -/
theorem reaches_iff {tr : List Label} {s : State} :
    (∃ queue ptr p, ProcessReaches queue ptr p ∧ (∀ l ∈ ptr, l.clean = true) ∧ calls ptr = tr ∧
      p.view = s) ↔ Reaches tr s := by
  constructor
  · rintro ⟨queue, ptr, p, hrun, hclean, rfl, rfl⟩
    exact reaches_calls hrun hclean
  · intro h
    obtain ⟨tr₁, p₁, hrun₁, hcalls₁, hclean₁, h₁⟩ := exists_started []
    have hreal : ∃ tr₂ p₂, Run (StepOf processStep) p₁ tr₂ p₂ ∧
        tr₂.filterMap ProcessLabel.call = tr ∧ (∀ l ∈ tr₂, l.clean = true) ∧ Started p₂ s :=
      h.realized h₁ fun p s l s' hp hstep => hp.step hstep
    obtain ⟨tr₂, p₂, hrun₂, hcalls₂, hclean₂, h₂⟩ := hreal
    refine ⟨[], tr₁ ++ tr₂, p₂, hrun₁.append hrun₂, ?_, ?_, ?_⟩
    · rw [List.forall_mem_append]
      exact ⟨hclean₁, hclean₂⟩
    · rw [calls, List.filterMap_append, ← calls, hcalls₁, hcalls₂, List.nil_append]
    · rw [Process.view, h₂.todo, if_neg List.not_mem_nil, h₂.sys]

end DoorBell
