import LinuxPrograms.DoorBell.Simulation

/-!
# Door bell: one activity in flight

`State.inFlight` counts everything that keeps the door bell going. While every receive succeeds
the count is that of the activity's place, one or, after a failed call, none
(`Shape.inFlight_eq`), so no run ever has two of them (`one_activity`).
-/

namespace DoorBell

open CString LabelledSystem FrameStream

/-- A worker that is scanning, or holds a command it has not answered. -/
def WorkerPos.busy (w : Worker) : WorkerPos → Bool
  | switch e => w.handles e
  | post _ => true
  | _ => false

/-- A monitor that holds its start-up command, or a message it has not answered. -/
def MonitorPos.busy : MonitorPos → Bool
  | switch e => monitorHandles e
  | getMessage | terminated => false
  | _ => true

/-- The number of armed timers. -/
def State.armedTimers (s : State) : ℕ :=
  [Timer.doorBell, .doorOpenWait, .resetStates].countP fun t => s.timer t = .armed

/-- Frames in the pipes, messages in the queue, armed timers, handlers that have not posted,
busy workers and a busy monitor. -/
def State.inFlight (s : State) : ℕ :=
  (frameCount maxMessageSize (s.pipe .t1) + frameCount maxMessageSize (s.pipe .t2) +
    frameCount maxMessageSize (s.pipe .t3)) + s.queue.length + s.armedTimers + s.handlers.length +
  (((s.worker .motion).pos.busy .motion).toNat + ((s.worker .distance).pos.busy .distance).toNat +
    ((s.worker .doorBell).pos.busy .doorBell).toNat) + s.monitor.busy.toNat

/-- The frames a place puts into a pipe. -/
private theorem frameCount_pipe (pl : Place) (p : Pipe) :
    frameCount maxMessageSize (pl.pipe p) =
      match pl with
      | .inPipe c => if c.pipe = p then 1 else 0
      | _ => 0 := by
  cases pl with
  | inPipe c =>
      by_cases hc : c.pipe = p
      · simp [Place.pipe, hc, frameCount, maxMessageSize]
      · simp [Place.pipe, hc, frameCount, maxMessageSize]
  | _ => simp [Place.pipe, frameCount, maxMessageSize]

namespace Shape

variable {s : State} {q : Activity}

private theorem busy_worker (h : Shape s q) (w : Worker) :
    (s.worker w).pos.busy w = (q.place.workerPos w).busy w := by
  rcases h.worker w with hw | ⟨hw, hq⟩
  · rw [hw]
  · rw [hw, hq]
    rfl

private theorem busy_monitor (h : Shape s q) : s.monitor.busy = q.place.monitorPos.busy := by
  rcases h.monitor with hm | ⟨hm, hq⟩
  · rw [hm]
  · rw [hm, hq]
    rfl

/-- What is in flight is the activity, unless it is lost. -/
theorem inFlight_eq (h : Shape s q) : s.inFlight = if q.place = .lost then 0 else 1 := by
  unfold State.inFlight State.armedTimers
  -- Every part of the state is what the place says, and each place fills one part.
  rw [h.queue, h.handlers, h.busy_monitor, h.busy_worker, h.busy_worker, h.busy_worker]
  simp only [h.pipe, h.timer, frameCount_pipe]
  cases q.place with
  | inPipe c => cases c <;> rfl
  | holds c => cases c <;> rfl
  | posting w m => cases w <;> rfl
  | armed t => cases t <;> rfl
  | monitor m => cases m <;> rfl
  | _ => rfl

/-- The timer whose handler is at work is not armed. -/
theorem timer_of_expired {t : Timer} {pos : ExpiryPos} (h : Shape s q)
    (hq : q.place = .expired t pos) : s.timer t ≠ .armed := by
  intro ht
  rw [h.timer, hq] at ht
  cases ht

end Shape

/-- At most one activity is in flight, hence at most one timer armed, and a handler that stops
its timer does not find it started again. -/
theorem one_activity {tr : List Label} {s : State} (h : Reaches tr s)
    (hrecv : ∀ l ∈ tr, l.receives = true) :
    s.inFlight ≤ 1 ∧ s.armedTimers ≤ 1 ∧
      ∀ t ok s', Step s (.timerStop (.expiry t) t ok) s' → s.timer t ≠ .armed := by
  obtain ⟨q, -, hshape⟩ := h.advances hrecv
  have hone : s.inFlight ≤ 1 := by
    rw [hshape.inFlight_eq]
    split <;> decide
  refine ⟨hone, ?_, fun t ok s' hstep => ?_⟩
  · -- Armed timers are among what is in flight.
    unfold State.inFlight at hone
    omega
  · obtain ⟨-, hmove⟩ := hstep.move
    generalize hl : Label.timerStop (.expiry t) t ok = l at hmove
    cases hmove with
    | expiryStop i t' ok' hi hok =>
        -- The handler at its stop is all there is, so that its timer is not armed.
        obtain ⟨-, rfl, -⟩ := Label.timerStop.inj hl
        rw [hshape.handlers] at hi
        exact hshape.timer_of_expired (Place.eq_expired hi).2
    | rebootCall c => cases c <;> cases hl
    | shutdownCall c => cases c <;> cases hl
    | ignore w e => rcases ignoreLabel_eq w e with h | h <;> cases hl.trans h
    | _ => cases hl

/-! ## Schedules

Actions that take the process through the parts of a visit with every call succeeding, for the
runs on fixed inputs below and in the later modules.
-/

namespace Schedule

/-- A sensor file with the digits `value` and `status`. -/
def sensor (value status : UInt8) : Outcome :=
  .file { content := some [48 + value, 10, 48 + status], fseek := true, fclose := true }

/-- A call of the thread `th` that succeeds. -/
def call (th : Thread) : Act := .run th (.ret true)

/-- The monitor's start-up command. -/
def startUp : List Act := [call .monitor]

/-- The motion thread sees somebody, and the monitor answers. -/
def motion : List Act :=
  [call (.worker .motion), .run (.worker .motion) (sensor 1 0), call (.worker .motion),
    call .monitor, call .monitor]

/-- The distance thread finds a valid distance, and the monitor answers with `RING_BELL`. -/
def distance : List Act :=
  [call (.worker .distance), .run (.worker .distance) (sensor 5 0), call (.worker .distance),
    call .monitor, call .monitor]

/-- The bell rings; at the end the monitor is about to read the door. -/
def ring : List Act :=
  [call (.worker .doorBell), call (.worker .doorBell), .expire .doorBell, .handler 0 (.ret true),
    .handler 0 (.ret true), call (.worker .doorBell), call (.worker .doorBell), call .monitor]

/-- The door is closed, and the wait for it ends. -/
def waitClosed : List Act :=
  [.run .monitor (sensor 1 0), call .monitor, .expire .doorOpenWait, .handler 0 .go,
    .handler 0 (.ret true), .handler 0 (.ret true), call .monitor]

/-- The motion ECU fails, and the monitor reboots the process. -/
def reboot : List Act :=
  [call (.worker .motion), .run (.worker .motion) (sensor 0 1), call (.worker .motion),
    call .monitor, .run .monitor .go] ++ List.replicate 10 (call .monitor)

end Schedule

section Examples

open Schedule

/-- While the bell's handler is about to stop its timer, the handler is all there is. -/
theorem one_activity_ringing :
    ∃ tr s, Reaches tr s ∧ s.handlers = [(.doorBell, .stop)] ∧ s.inFlight ≤ 1 ∧
      s.armedTimers ≤ 1 ∧
        ∀ t ok s', Step s (.timerStop (.expiry t) t ok) s' → s.timer t ≠ .armed := by
  refine ⟨_, _, run_play step .init (startUp ++ motion ++ distance ++ ring.take 3), ?_,
    one_activity (run_play step .init _) ?_⟩
  · decide +kernel
  · decide +kernel

end Examples

end DoorBell
