import LinuxPrograms.DoorBell.Data
import LinuxPrograms.Lib.LabelledSystem
import Mathlib.Logic.Function.Basic

/-!
# Door bell: the running system

The process after start-up: `main` in its watch loop, the four threads, the three timers with
their expiry handlers, three pipes and the message queue. Every function below takes one thread
(or handler) from one kernel call to the next; what the kernel and the sensor files answer is
the argument `Outcome`, and the call made is recorded as a `Label`. A thread whose call blocks,
or that does not stand at a call with such an outcome, has no step.

- `monitorThread`, `motionDetectorThread`, `distanceCalculatorThread`, `doorBellThread`,
  `doorBellExpiry`, `doorOpenWaitExpiry`, `resetStatesTimerExpiry`, `mainLoop`: the code.
- `step`: any one of them moves, a timer fires, or a cancelled thread terminates.
- `Step`, `Reaches`: the labelled step relation and its runs from start-up.
-/

namespace DoorBell

open CString LabelledSystem

/-! ## State -/

/-- `pipe_t1`, `pipe_t2`, `pipe_t3`. -/
inductive Pipe
  | t1
  | t2
  | t3
  deriving DecidableEq, Repr

/-- The three timers. -/
inductive Timer
  | doorBell
  | doorOpenWait
  | resetStates
  deriving DecidableEq, Repr

/-- The threads that read commands from a pipe. -/
inductive Worker
  | motion
  | distance
  | doorBell
  deriving DecidableEq, Repr

/-- The entries of `thread_list`. -/
inductive Thread
  | monitor
  | worker (w : Worker)
  deriving DecidableEq, Repr

/-- Who makes a call: a thread of `thread_list`, the expiry handler of a timer, or `main`. -/
inductive Actor
  | thread (th : Thread)
  | expiry (t : Timer)
  | main
  deriving DecidableEq, Repr

/-- The four calls of `get_value`: in the scan loop, for `CALC_DISTANCE`, after a ring, and in
the poll of the open door. -/
inductive Site
  | motion
  | distance
  | door
  | poll
  deriving DecidableEq, Repr

/-- The thread the call is in. -/
def Site.thread : Site → Thread
  | motion => .worker .motion
  | distance => .worker .distance
  | door | poll => .monitor

/-- The pipe a worker reads. -/
def Worker.pipe : Worker → Pipe
  | motion => .t1
  | distance => .t2
  | doorBell => .t3

/-- Where a worker stands: at its read, in its `switch` on `str_enum(msg_buff)`, at the post of
an event, or cancelled. -/
inductive WorkerPos
  | read
  | switch (e : Event)
  | post (e : Event)
  | terminated
  deriving DecidableEq, Repr

/-- One of the calls by which `process_reboot` and `shutdown` take the process down. -/
inductive TeardownCall
  | timerStop (t : Timer)
  | timerDestroy (t : Timer)
  | pthreadCancel (th : Thread)
  deriving DecidableEq, Repr

/-- Where the monitor stands. Inside a `case` of its `switch` only the positions behind a first
call of that case are named. -/
inductive MonitorPos
  | startUp
  | getMessage
  | switch (e : Event)
  | pollDoor
  | startWait
  | postScan
  | reboot (todo : List TeardownCall)
  | terminated
  deriving DecidableEq, Repr

/-- Where an expiry handler stands: before the increment, the `timer_stop` or the post. -/
inductive ExpiryPos
  | count
  | stop
  | post
  deriving DecidableEq, Repr

/-- Where `main` stands: in its watch loop or inside `shutdown`. -/
inductive MainPos
  | watching
  | shutdown (todo : List TeardownCall)
  deriving DecidableEq, Repr

/-- A worker thread: its position, its `msg_buff`, and whether `pthread_cancel` was called on
it. -/
structure WorkerThread where
  pos : WorkerPos
  msgBuff : CBuffer maxMessageSize
  cancelled : Bool

/-- The process and its kernel objects. -/
structure State where
  pipe : Pipe → List UInt8
  queue : List Event
  timer : Timer → TimerState
  /-- The expiry handlers that have been started and not yet posted. -/
  handlers : List (Timer × ExpiryPos)
  monitor : MonitorPos
  monitorCancelled : Bool
  worker : Worker → WorkerThread
  /-- `door_wait_expiry_count`. -/
  doorWaitExpiryCount : ℤ
  main : MainPos
  exited : Bool

/-- After start-up: pipes and queue empty, timers created and not started, every thread before
its first call, the statics zero. -/
def State.init : State where
  pipe := fun _ => []
  queue := []
  timer := fun _ => .unarmed
  handlers := []
  monitor := .startUp
  monitorCancelled := false
  worker := fun _ => { pos := .read, msgBuff := .zero _, cancelled := false }
  doorWaitExpiryCount := 0
  main := .watching
  exited := false

/-! ## Labels -/

/-- The call a step makes, with its outcome. -/
inductive Label
  /-- `write` of `msg_buff` by `post_event`. -/
  | write (who : Actor) (p : Pipe) (msgBuff : CBuffer maxMessageSize) (ok : Bool)
  /-- A successful `read`, with the buffer after it. -/
  | read (w : Worker) (msgBuff : CBuffer maxMessageSize)
  /-- A failed `read`, with the buffer the thread goes on with. -/
  | readFail (w : Worker) (msgBuff : CBuffer maxMessageSize)
  | msgsnd (who : Actor) (e : Event) (ok : Bool)
  | msgrcv (e : Event)
  | msgrcvFail
  | timerStart (who : Actor) (t : Timer) (delaySec : ℕ) (ok : Bool)
  | timerStop (who : Actor) (t : Timer) (ok : Bool)
  | timerDestroy (who : Actor) (t : Timer) (ok : Bool)
  | pthreadCancel (who : Actor) (th : Thread) (ok : Bool)
  /-- `get_value`; `none` when it calls `exit`. -/
  | getValue (site : Site) (data : Option ReadData)
  /-- `process_reboot` is entered. -/
  | processReboot
  | execl (ok : Bool)
  /-- The timer expires and its handler is started. -/
  | expire (t : Timer)
  /-- `door_wait_expiry_count++`. -/
  | countExpiry
  /-- The 'Invalid Event' branch of a thread's `switch`. -/
  | invalidEvent (th : Thread)
  /-- The empty `case 2` of the distance thread. -/
  | emptyCase
  /-- One round of `check_thread_dead`; `none` when it cannot open its file. -/
  | checkThreadDead (psCmdOutput : Option (List UInt8))
  /-- The `exit(0)` of `shutdown`. -/
  | shutdownExit
  /-- A cancelled thread terminates. -/
  | threadEnd (th : Thread)
  deriving DecidableEq

/-- What the environment answers: a kernel call succeeds or not, a sensor file is found, the
`ps` listing is found, or nothing was asked. -/
inductive Outcome
  | ret (ok : Bool)
  | file (f : SensorFile)
  | listing (psCmdOutput : Option (List UInt8))
  | go

namespace State

/-! ## Calls on the state -/

/-- The pipe `p` with new contents. -/
def setPipe (s : State) (p : Pipe) (fifo : List UInt8) : State :=
  { s with pipe := Function.update s.pipe p fifo }

/-- The timer `t` in a new state. -/
def setTimer (s : State) (t : Timer) (timer : TimerState) : State :=
  { s with timer := Function.update s.timer t timer }

/-- The worker `w` at a new position. -/
def setWorkerPos (s : State) (w : Worker) (pos : WorkerPos) : State :=
  { s with worker := Function.update s.worker w { s.worker w with pos } }

/-- The worker `w` with a new buffer. -/
def setMsgBuff (s : State) (w : Worker) (msgBuff : CBuffer maxMessageSize) : State :=
  { s with worker := Function.update s.worker w { s.worker w with msgBuff } }

/-- `exit`. -/
def exit (s : State) : State := { s with exited := true }

/-- `post_event` by `who`. -/
def postEvent (s : State) (who : Actor) (p : Pipe) (msgBuff : CBuffer maxMessageSize)
    (ok : Bool) : State × Label :=
  (s.setPipe p (DoorBell.postEvent (s.pipe p) msgBuff ok).1, .write who p msgBuff ok)

/-- `post_messageToQ` by `who`. -/
def postMessageToQ (s : State) (who : Actor) (e : Event) (ok : Bool) : State × Label :=
  ({ s with queue := (DoorBell.postMessageToQ s.queue e ok).1 }, .msgsnd who e ok)

/-- The read at the top of a worker's loop, into the buffer `msgBuff`, and the choice of its
`switch`. The status is only printed. -/
def readEvent (s : State) (w : Worker) (msgBuff : CBuffer maxMessageSize) (ok : Bool) :
    Option (State × Label) :=
  (DoorBell.readEvent (s.pipe w.pipe) msgBuff ok).map fun (fifo, buff, _) =>
    (((s.setPipe w.pipe fifo).setMsgBuff w buff).setWorkerPos w
        (.switch (strEnum (some buff.bytes))),
      if ok then .read w buff else .readFail w buff)

/-- `timer_start` by `who`. -/
def timerStart (s : State) (who : Actor) (t : Timer) (delaySec : ℕ) (ok : Bool) :
    Option (State × Label) :=
  (DoorBell.timerStart (s.timer t) ok).map fun (timer, _) =>
    (s.setTimer t timer, .timerStart who t delaySec ok)

/-- `timer_stop` by `who`. -/
def timerStop (s : State) (who : Actor) (t : Timer) (ok : Bool) : Option (State × Label) :=
  (DoorBell.timerStop (s.timer t) ok).map fun (timer, _) =>
    (s.setTimer t timer, .timerStop who t ok)

/-- `timer_destroy` by `who`. -/
def timerDestroy (s : State) (who : Actor) (t : Timer) (ok : Bool) : Option (State × Label) :=
  (DoorBell.timerDestroy (s.timer t) ok).map fun (timer, _) =>
    (s.setTimer t timer, .timerDestroy who t ok)

/-- `pthread_cancel` by `who`: on success the thread is marked, and ends at one of its next
calls (`threadEnd`). -/
def pthreadCancel (s : State) (who : Actor) (th : Thread) (ok : Bool) : State × Label :=
  (match th with
    | .monitor => { s with monitorCancelled := s.monitorCancelled || ok }
    | .worker w =>
        { s with
          worker := Function.update s.worker w
            { s.worker w with cancelled := (s.worker w).cancelled || ok } },
    .pthreadCancel who th ok)

/-- One call of a teardown list. -/
def teardown (s : State) (who : Actor) (c : TeardownCall) (ok : Bool) :
    Option (State × Label) :=
  match c with
  | .timerStop t => s.timerStop who t ok
  | .timerDestroy t => s.timerDestroy who t ok
  | .pthreadCancel th => some (s.pthreadCancel who th ok)

end State

/-! ## The worker threads -/

/-- `motion_detector_thread`. The buffer is not cleared between two reads; the scan loop stays
in its `case` until a reading decides. -/
def motionDetectorThread (s : State) (o : Outcome) : Option (State × Label) :=
  match (s.worker .motion).pos, o with
  | .read, .ret ok => s.readEvent .motion (s.worker .motion).msgBuff ok
  -- The `while(TRUE)` of the scan: only an event posted leaves it.
  | .switch .motionScanOn, .file f =>
      match getValue f with
      | none => some (s.exit, .getValue .motion none)
      | some data =>
          match motionEvent data with
          | none => some (s, .getValue .motion (some data))
          | some e => some (s.setWorkerPos .motion (.post e), .getValue .motion (some data))
  | .switch e, .go =>
      if e = .motionScanOn then none
      else some (s.setWorkerPos .motion .read, .invalidEvent (.worker .motion))
  | .post e, .ret ok =>
      some ((s.setWorkerPos .motion .read).postMessageToQ (.thread (.worker .motion)) e ok)
  | _, _ => none

/-- `distance_calculator_thread`. The buffer is cleared before each read. -/
def distanceCalculatorThread (s : State) (o : Outcome) : Option (State × Label) :=
  match (s.worker .distance).pos, o with
  | .read, .ret ok => s.readEvent .distance (.zero _) ok
  | .switch .calcDistance, .file f =>
      match getValue f with
      | none => some (s.exit, .getValue .distance none)
      | some data =>
          some (s.setWorkerPos .distance (.post (distanceEvent data)),
            .getValue .distance (some data))
  | .switch e, .go =>
      if e = .calcDistance then none
      -- `case /*Event*/2` is that of `MOTION_SCAN_ON`.
      else if e.value = 2 then some (s.setWorkerPos .distance .read, .emptyCase)
      else some (s.setWorkerPos .distance .read, .invalidEvent (.worker .distance))
  | .post e, .ret ok =>
      some ((s.setWorkerPos .distance .read).postMessageToQ (.thread (.worker .distance)) e ok)
  | _, _ => none

/-- `door_bell_thread`. The buffer is not cleared between two reads. -/
def doorBellThread (s : State) (o : Outcome) : Option (State × Label) :=
  match (s.worker .doorBell).pos, o with
  | .read, .ret ok => s.readEvent .doorBell (s.worker .doorBell).msgBuff ok
  | .switch .ringBell, .ret ok =>
      (s.setWorkerPos .doorBell .read).timerStart (.thread (.worker .doorBell)) .doorBell 3 ok
  | .switch .ringBellExpiry, .ret ok =>
      some ((s.setWorkerPos .doorBell .read).postMessageToQ (.thread (.worker .doorBell))
        .ringBellExpiry ok)
  | .switch e, .go =>
      if e = .ringBell ∨ e = .ringBellExpiry then none
      else some (s.setWorkerPos .doorBell .read, .invalidEvent (.worker .doorBell))
  | _, _ => none

/-! ## The monitor -/

/-- The calls of `process_reboot` before `execl`. -/
def processRebootCalls : List TeardownCall :=
  [.timerStop .resetStates, .timerStop .doorOpenWait, .timerStop .doorBell,
    .timerDestroy .resetStates, .timerDestroy .doorOpenWait, .timerDestroy .doorBell,
    .pthreadCancel (.worker .motion), .pthreadCancel (.worker .distance),
    .pthreadCancel (.worker .doorBell)]

/-- `process_reboot` with the calls `todo` left. A successful `execl` starts the process anew. A
failed one returns -1, for which the code has no branch: it returns to the monitor's loop. -/
def processReboot (s : State) (todo : List TeardownCall) (ok : Bool) : Option (State × Label) :=
  match todo with
  | c :: rest => { s with monitor := .reboot rest }.teardown (.thread .monitor) c ok
  | [] =>
      if ok then some (.init, .execl true)
      -- `-1 != execl(..)` is the only test, and a failed call does return -1.
      else if -1 ≠ kernelRet ok then some (s.exit, .execl false)
      else some ({ s with monitor := .getMessage }, .execl false)

/-- One `case` of the monitor's `switch`, up to its first call. -/
def monitorCase (s : State) (e : Event) (o : Outcome) : Option (State × Label) :=
  let done := { s with monitor := .getMessage }
  match e, o with
  | .motionDetected, .ret ok =>
      some (done.postEvent (.thread .monitor) .t2 (message "CALC_DISTANCE") ok)
  | .validDistance, .ret ok =>
      some (done.postEvent (.thread .monitor) .t3 (message "RING_BELL") ok)
  | .invalidDistance, .ret ok =>
      some (done.postEvent (.thread .monitor) .t1 (message "MOTION_SCAN_ON") ok)
  | .ringBellExpiry, .file f =>
      match getValue f with
      | none => some (s.exit, .getValue .door none)
      | some data =>
          -- The status is not looked at, and there is no `else` for a third value.
          some (if data.value = doorOpen then { s with monitor := .pollDoor }
            else if data.value = doorClosed then { s with monitor := .startWait }
            else done, .getValue .door (some data))
  | .ecuNotWorking, .go => some ({ s with monitor := .reboot processRebootCalls }, .processReboot)
  | .doorWaitExpiry, .ret ok =>
      some (done.postEvent (.thread .monitor) .t3 (message "RING_BELL") ok)
  | .doorWaitRetryEnd, .ret ok =>
      done.timerStart (.thread .monitor) .resetStates (10 * 60) ok
  -- The `default` branch.
  | .invalid, .go | .calcDistance, .go | .motionScanOn, .go | .ringBell, .go =>
      some (done, .invalidEvent .monitor)
  | _, _ => none

/-- `monitor_thread`. -/
def monitorThread (s : State) (o : Outcome) : Option (State × Label) :=
  let done := { s with monitor := .getMessage }
  match s.monitor, o with
  | .startUp, .ret ok =>
      some (done.postEvent (.thread .monitor) .t1 (message "MOTION_SCAN_ON") ok)
  | .getMessage, .ret ok =>
      -- After a failure the thread goes on to the `switch` all the same.
      (getMessageFromQ s.queue ok).map fun (queue, e, _) =>
        ({ s with queue, monitor := .switch e }, if ok then .msgrcv e else .msgrcvFail)
  | .switch e, o => monitorCase s e o
  | .pollDoor, .file f =>
      match getValue f with
      | none => some (s.exit, .getValue .poll none)
      | some data =>
          -- The loop ends on any value but `DOOR_OPEN`.
          some (if data.value = doorOpen then s else { s with monitor := .postScan },
            .getValue .poll (some data))
  | .startWait, .ret ok => done.timerStart (.thread .monitor) .doorOpenWait 30 ok
  | .postScan, .ret ok =>
      some (done.postEvent (.thread .monitor) .t1 (message "MOTION_SCAN_ON") ok)
  | .reboot todo, .ret ok => processReboot s todo ok
  | _, _ => none

/-! ## Timers and their handlers -/

/-- Where the handler of a timer starts. -/
def expiryStart : Timer → ExpiryPos
  | .doorOpenWait => .count
  | _ => .stop

/-- The timer fires: it is one-shot, and its handler starts in a thread of its own. -/
def timerExpire (s : State) (t : Timer) : Option (State × Label) :=
  if s.timer t = .armed then
    some ({ s.setTimer t .unarmed with handlers := s.handlers ++ [(t, expiryStart t)] }, .expire t)
  else none

/-- A handler that stops its timer and then writes the message `name` to the pipe `p`. -/
def stopThenPost (s : State) (i : ℕ) (t : Timer) (p : Pipe) (name : String) (pos : ExpiryPos)
    (o : Outcome) : Option (State × Label) :=
  match pos, o with
  | .stop, .ret ok =>
      { s with handlers := s.handlers.set i (t, .post) }.timerStop (.expiry t) t ok
  | .post, .ret ok =>
      some ({ s with handlers := s.handlers.eraseIdx i }.postEvent (.expiry t) p (message name) ok)
  | _, _ => none

/-- `door_bell_expiry`, the handler at place `i`. -/
def doorBellExpiry (s : State) (i : ℕ) (pos : ExpiryPos) (o : Outcome) :
    Option (State × Label) :=
  stopThenPost s i .doorBell .t3 "RING_BELL_EXPIRY" pos o

/-- `reset_states_timer_expiry`, the handler at place `i`. -/
def resetStatesTimerExpiry (s : State) (i : ℕ) (pos : ExpiryPos) (o : Outcome) :
    Option (State × Label) :=
  stopThenPost s i .resetStates .t1 "MOTION_SCAN_ON" pos o

/-- The event `door_open_wait_expiry` posts at a count. -/
def retryEvent (doorWaitExpiryCount : ℤ) : Event :=
  if 3 ≤ doorWaitExpiryCount then .doorWaitRetryEnd else .doorWaitExpiry

/-- `door_open_wait_expiry`, the handler at place `i`. -/
def doorOpenWaitExpiry (s : State) (i : ℕ) (pos : ExpiryPos) (o : Outcome) :
    Option (State × Label) :=
  match pos, o with
  -- The count is never set back.
  | .count, .go =>
      some ({ s with
        handlers := s.handlers.set i (.doorOpenWait, .stop)
        doorWaitExpiryCount := s.doorWaitExpiryCount + 1 }, .countExpiry)
  | .stop, .ret ok =>
      { s with handlers := s.handlers.set i (.doorOpenWait, .post) }.timerStop
        (.expiry .doorOpenWait) .doorOpenWait ok
  | .post, .ret ok =>
      some ({ s with handlers := s.handlers.eraseIdx i }.postMessageToQ (.expiry .doorOpenWait)
        (retryEvent s.doorWaitExpiryCount) ok)
  | _, _ => none

/-- The handler at place `i` moves. -/
def expiryHandler (s : State) (i : ℕ) (o : Outcome) : Option (State × Label) :=
  match s.handlers[i]? with
  | none => none
  | some (.doorBell, pos) => doorBellExpiry s i pos o
  | some (.doorOpenWait, pos) => doorOpenWaitExpiry s i pos o
  | some (.resetStates, pos) => resetStatesTimerExpiry s i pos o

/-! ## `main` and the whole process -/

/-- The calls of `shutdown` before `exit(0)`. -/
def shutdownCalls : List TeardownCall :=
  [.timerStop .resetStates, .timerStop .doorOpenWait, .timerStop .doorBell,
    .timerDestroy .resetStates, .timerDestroy .doorOpenWait, .timerDestroy .doorBell,
    .pthreadCancel .monitor, .pthreadCancel (.worker .motion),
    .pthreadCancel (.worker .distance), .pthreadCancel (.worker .doorBell),
    .timerStop .resetStates, .timerStop .doorOpenWait, .timerStop .doorBell,
    .timerDestroy .resetStates, .timerDestroy .doorOpenWait, .timerDestroy .doorBell]

/-- `main` after start-up: it watches the threads and shuts down when one is found dead. -/
def mainLoop (s : State) (o : Outcome) : Option (State × Label) :=
  match s.main, o with
  | .watching, .listing none => some (s.exit, .checkThreadDead none)
  | .watching, .listing (some out) =>
      -- `FAIL` means that no thread was found dead.
      some (if checkThreadDead out = .fail then s else { s with main := .shutdown shutdownCalls },
        .checkThreadDead (some out))
  | .shutdown (c :: rest), .ret ok => { s with main := .shutdown rest }.teardown .main c ok
  | .shutdown [], .go => some (s.exit, .shutdownExit)
  | _, _ => none

/-- A thread on which `pthread_cancel` was called terminates. -/
def threadEnd (s : State) (th : Thread) : Option (State × Label) :=
  match th with
  | .monitor =>
      if s.monitorCancelled ∧ s.monitor ≠ .terminated then
        some ({ s with monitor := .terminated }, .threadEnd .monitor)
      else none
  | .worker w =>
      if (s.worker w).cancelled ∧ (s.worker w).pos ≠ .terminated then
        some (s.setWorkerPos w .terminated, .threadEnd (.worker w))
      else none

/-- Who moves next, with the outcome of the call it makes. -/
inductive Act
  | run (th : Thread) (o : Outcome)
  | expire (t : Timer)
  | handler (i : ℕ) (o : Outcome)
  | main (o : Outcome)
  | threadEnd (th : Thread)

/-- One step of the process. -/
def step (s : State) (a : Act) : Option (State × Label) :=
  if s.exited then none
  else
    match a with
    -- A cancelled thread may still run on until it ends.
    | .run .monitor o => monitorThread s o
    | .run (.worker .motion) o => motionDetectorThread s o
    | .run (.worker .distance) o => distanceCalculatorThread s o
    | .run (.worker .doorBell) o => doorBellThread s o
    | .expire t => timerExpire s t
    | .handler i o => expiryHandler s i o
    | .main o => mainLoop s o
    | .threadEnd th => threadEnd s th

/-- The labelled step relation. -/
def Step : State → Label → State → Prop := StepOf step

/-- The labels `tr` lead from start-up to `s`. -/
def Reaches (tr : List Label) (s : State) : Prop := Run Step .init tr s

/-- The receive call of a label succeeds, if it makes one. -/
def Label.receives : Label → Bool
  | readFail _ _ | msgrcvFail => false
  | _ => true

end DoorBell
