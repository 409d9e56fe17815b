import LinuxPrograms.DoorBell.Moves

/-!
# Door bell: the one activity

What the door bell does, told without threads: at any time one activity is somewhere in the
process - a command in a pipe, a worker at work on it, a message in the queue, the monitor at
work on it, a timer running, a handler about to answer - and each step moves it on, or loses it
when a call fails.

- `Command`, `Message`: what the pipes and the queue are meant to carry.
- `Place`, `Activity`: where the activity is, and `door_wait_expiry_count`.
- `Advance`: the sequential program.
- `Place.pipe`, `Place.queue`, `Place.worker`, …: the state of the process a place stands for.
-/

namespace DoorBell

open CString LabelledSystem

/-! ## Commands and messages -/

/-- The commands sent over the pipes. -/
inductive Command
  | motionScanOn
  | calcDistance
  | ringBell
  | ringBellExpiry
  deriving DecidableEq, Repr

namespace Command

/-- The text of the command. -/
def name : Command → String
  | motionScanOn => "MOTION_SCAN_ON"
  | calcDistance => "CALC_DISTANCE"
  | ringBell => "RING_BELL"
  | ringBellExpiry => "RING_BELL_EXPIRY"

/-- The event the command names. -/
def event : Command → Event
  | motionScanOn => .motionScanOn
  | calcDistance => .calcDistance
  | ringBell => .ringBell
  | ringBellExpiry => .ringBellExpiry

/-- The worker the command is for. -/
def reader : Command → Worker
  | motionScanOn => .motion
  | calcDistance => .distance
  | ringBell => .doorBell
  | ringBellExpiry => .doorBell

/-- The pipe the command travels on. -/
def pipe (c : Command) : Pipe := c.reader.pipe

/-- The 20 bytes of the command. -/
def frame (c : Command) : CBuffer maxMessageSize := message c.name

/-- A reader finds in its buffer the event the writer named. -/
@[simp]
theorem strEnum_frame (c : Command) : strEnum (some c.frame.bytes) = c.event := by
  cases c <;> decide

@[simp]
theorem length_frame (c : Command) : c.frame.bytes.length = maxMessageSize := c.frame.length_eq

theorem event_injective : Function.Injective event := by
  intro c c' h
  cases c <;> cases c' <;> first | rfl | exact Event.noConfusion h

@[simp]
theorem handles_event (c : Command) : c.reader.handles c.event = true := by
  cases c <;> rfl

end Command

/-- A worker's buffer without a command in it names no event. -/
@[simp]
theorem strEnum_zero : strEnum (some (CBuffer.zero maxMessageSize).bytes) = .invalid := by
  decide

/-- The messages sent to the monitor. -/
inductive Message
  | motionDetected
  | invalidDistance
  | validDistance
  | ringBellExpiry
  | ecuNotWorking
  | doorWaitExpiry
  | doorWaitRetryEnd
  deriving DecidableEq, Repr

namespace Message

/-- The event a message carries. -/
def event : Message → Event
  | motionDetected => .motionDetected
  | invalidDistance => .invalidDistance
  | validDistance => .validDistance
  | ringBellExpiry => .ringBellExpiry
  | ecuNotWorking => .ecuNotWorking
  | doorWaitExpiry => .doorWaitExpiry
  | doorWaitRetryEnd => .doorWaitRetryEnd

theorem event_injective : Function.Injective event := by
  intro m m' h
  cases m <;> cases m' <;> first | rfl | exact Event.noConfusion h

@[simp]
theorem monitorHandles_event (m : Message) : monitorHandles m.event = true := by
  cases m <;> rfl

/-- The message `door_open_wait_expiry` posts at a count. -/
def retry (count : ℤ) : Message := if 3 ≤ count then doorWaitRetryEnd else doorWaitExpiry

@[simp]
theorem event_retry (count : ℤ) : (retry count).event = retryEvent count := by
  unfold retry retryEvent
  split <;> rfl

end Message

/-- A worker answers a reading with a message. -/
theorem exists_message_of_answer {w : Worker} {data : ReadData} {e : Event}
    (h : answer w data = some e) : ∃ m : Message, m.event = e := by
  cases w with
  | motion =>
      simp only [answer, motionEvent] at h
      split_ifs at h
      · exact ⟨.ecuNotWorking, Option.some.inj h⟩
      · exact ⟨.motionDetected, Option.some.inj h⟩
  | distance =>
      obtain rfl := Option.some.inj h
      unfold distanceEvent
      split_ifs
      · exact ⟨.validDistance, rfl⟩
      · exact ⟨.invalidDistance, rfl⟩
      · exact ⟨.ecuNotWorking, rfl⟩
  | doorBell => cases h

/-- The scan loop answers a reading with `ECU_NOT_WORKING` or `MOTION_DETECTED`. -/
theorem Message.of_motion {data : ReadData} {m : Message} (h : answer .motion data = some m.event) :
    m = ecuNotWorking ∨ m = motionDetected := by
  simp only [answer, motionEvent] at h
  split_ifs at h
  · exact .inl (Message.event_injective (Option.some.inj h).symm)
  · exact .inr (Message.event_injective (Option.some.inj h).symm)

/-- The distance thread answers a reading with a verdict on the distance or
`ECU_NOT_WORKING`. -/
theorem Message.of_distance {data : ReadData} {m : Message}
    (h : answer .distance data = some m.event) :
    m = validDistance ∨ m = invalidDistance ∨ m = ecuNotWorking := by
  have hm : distanceEvent data = m.event := Option.some.inj h
  unfold distanceEvent at hm
  split_ifs at hm
  · exact .inl (Message.event_injective hm.symm)
  · exact .inr (.inl (Message.event_injective hm.symm))
  · exact .inr (.inr (Message.event_injective hm.symm))

/-! ## Places -/

/-- Where the one activity is. -/
inductive Place
  /-- The monitor before its start-up command. -/
  | startUp
  /-- A command in its pipe. -/
  | inPipe (c : Command)
  /-- A worker has taken the command. -/
  | holds (c : Command)
  /-- A worker is about to post a message. -/
  | posting (w : Worker) (m : Message)
  /-- A message in the queue. -/
  | queued (m : Message)
  /-- The monitor has taken the message. -/
  | monitor (m : Message)
  | pollDoor
  | startWait
  | postScan
  | reboot (todo : List TeardownCall)
  /-- A timer is running. -/
  | armed (t : Timer)
  /-- The handler of a timer is running. -/
  | expired (t : Timer) (pos : ExpiryPos)
  /-- A failed call has ended the activity. -/
  | lost
  deriving DecidableEq

/-- The one activity, and the count of expired waits. -/
structure Activity where
  place : Place
  count : ℤ

/-- After start-up. -/
def Activity.init : Activity := { place := .startUp, count := 0 }

namespace Place

/-- The contents of the pipes. -/
def pipe : Place → Pipe → List UInt8
  | inPipe c, p => if c.pipe = p then c.frame.bytes else []
  | _, _ => []

/-- The contents of the queue. -/
def queue : Place → List Event
  | queued m => [m.event]
  | _ => []

/-- The handlers at work. -/
def handlers : Place → List (Timer × ExpiryPos)
  | expired t pos => [(t, pos)]
  | _ => []

/-- The position of the monitor. -/
def monitorPos : Place → MonitorPos
  | startUp => .startUp
  | monitor m => .switch m.event
  | pollDoor => .pollDoor
  | startWait => .startWait
  | postScan => .postScan
  | reboot todo => .reboot todo
  | _ => .getMessage

/-- The positions of the workers. -/
def workerPos : Place → Worker → WorkerPos
  | holds c, w => if c.reader = w then .switch c.event else .read
  | posting w' m, w => if w' = w then .post m.event else .read
  | _, _ => .read

variable {pl : Place} {p : Pipe} {w : Worker} {e : Event} {t : Timer}

/-- A pipe that holds something holds one command. -/
theorem eq_inPipe (h : pl.pipe p ≠ []) : ∃ c : Command, pl = inPipe c ∧ c.pipe = p := by
  cases pl with
  | inPipe c =>
      by_cases hc : c.pipe = p
      · exact ⟨c, rfl, hc⟩
      · simp [pipe, hc] at h
  | _ => simp [pipe] at h

/-- A queue that holds something holds one message. -/
theorem eq_queued {rest : List Event} (h : pl.queue = e :: rest) :
    ∃ m : Message, pl = queued m ∧ m.event = e ∧ rest = [] := by
  cases pl with
  | queued m =>
      obtain ⟨he, hrest⟩ := List.cons_eq_cons.mp h
      exact ⟨m, rfl, he, hrest.symm⟩
  | _ => simp [queue] at h

/-- A handler at work is the only one. -/
theorem eq_expired {i : ℕ} {pos : ExpiryPos} (h : pl.handlers[i]? = some (t, pos)) :
    i = 0 ∧ pl = expired t pos := by
  cases pl with
  | expired t' pos' =>
      cases i with
      | zero =>
          obtain ⟨rfl, rfl⟩ : t' = t ∧ pos' = pos := by simpa [handlers] using h
          exact ⟨rfl, rfl⟩
      | succ i => simp [handlers] at h
  | _ => simp [handlers] at h

/-- A worker inside its `switch` holds a command. -/
theorem eq_holds (h : pl.workerPos w = .switch e) :
    ∃ c : Command, pl = holds c ∧ c.reader = w ∧ c.event = e := by
  cases pl with
  | holds c =>
      by_cases hc : c.reader = w
      · exact ⟨c, rfl, hc, by simpa [workerPos, hc] using h⟩
      · simp [workerPos, hc] at h
  | posting w' m => simp only [workerPos] at h; split_ifs at h
  | _ => simp [workerPos] at h

/-- A worker about to post has a message. -/
theorem eq_posting (h : pl.workerPos w = .post e) :
    ∃ m : Message, pl = posting w m ∧ m.event = e := by
  cases pl with
  | posting w' m =>
      by_cases hw : w' = w
      · subst hw
        exact ⟨m, rfl, by simpa [workerPos] using h⟩
      · simp [workerPos, hw] at h
  | holds c => simp only [workerPos] at h; split_ifs at h
  | _ => simp [workerPos] at h

/-- A monitor inside its `switch` has a message. -/
theorem eq_monitor (h : pl.monitorPos = .switch e) :
    ∃ m : Message, pl = monitor m ∧ m.event = e := by
  cases pl with
  | monitor m => exact ⟨m, rfl, by simpa [monitorPos] using h⟩
  | _ => simp [monitorPos] at h

/-- The same, for a known message. -/
theorem eq_monitor_of (m : Message) (h : pl.monitorPos = .switch m.event) : pl = monitor m := by
  obtain ⟨m', rfl, hm⟩ := eq_monitor h
  -- Two messages never carry one event.
  rw [Message.event_injective hm]

theorem eq_startUp (h : pl.monitorPos = .startUp) : pl = startUp := by
  cases pl <;> simp_all [monitorPos]

theorem eq_pollDoor (h : pl.monitorPos = .pollDoor) : pl = pollDoor := by
  cases pl <;> simp_all [monitorPos]

theorem eq_startWait (h : pl.monitorPos = .startWait) : pl = startWait := by
  cases pl <;> simp_all [monitorPos]

theorem eq_postScan (h : pl.monitorPos = .postScan) : pl = postScan := by
  cases pl <;> simp_all [monitorPos]

theorem eq_reboot {todo : List TeardownCall} (h : pl.monitorPos = .reboot todo) :
    pl = reboot todo := by
  cases pl <;> simp_all [monitorPos]

end Place

/-! ## The sequential program -/

/-- At this place `who` sends the command. -/
inductive Sends : Place → Actor → Command → Prop
  | startUp : Sends .startUp (.thread .monitor) .motionScanOn
  | motionDetected : Sends (.monitor .motionDetected) (.thread .monitor) .calcDistance
  | validDistance : Sends (.monitor .validDistance) (.thread .monitor) .ringBell
  | invalidDistance : Sends (.monitor .invalidDistance) (.thread .monitor) .motionScanOn
  | doorWaitExpiry : Sends (.monitor .doorWaitExpiry) (.thread .monitor) .ringBell
  | postScan : Sends .postScan (.thread .monitor) .motionScanOn
  | doorBellExpiry : Sends (.expired .doorBell .post) (.expiry .doorBell) .ringBellExpiry
  | resetStatesExpiry : Sends (.expired .resetStates .post) (.expiry .resetStates) .motionScanOn

/-- At this place and count `who` posts the message. -/
inductive Posts : Place → ℤ → Actor → Message → Prop
  | posting (w : Worker) (m : Message) (n : ℤ) : Posts (.posting w m) n (.thread (.worker w)) m
  | ringBellExpiry (n : ℤ) :
      Posts (.holds .ringBellExpiry) n (.thread (.worker .doorBell)) .ringBellExpiry
  | doorOpenWaitExpiry (n : ℤ) :
      Posts (.expired .doorOpenWait .post) n (.expiry .doorOpenWait) (.retry n)

/-- At this place `who` starts the timer for that many seconds. -/
inductive Starts : Place → Actor → Timer → ℕ → Prop
  | ringBell : Starts (.holds .ringBell) (.thread (.worker .doorBell)) .doorBell 3
  | startWait : Starts .startWait (.thread .monitor) .doorOpenWait 30
  | doorWaitRetryEnd : Starts (.monitor .doorWaitRetryEnd) (.thread .monitor) .resetStates 600

/-- Where the door reading after a ring leads. -/
def doorPlace (data : ReadData) : Place :=
  if data.value = doorOpen then .pollDoor
  else if data.value = doorClosed then .startWait
  -- Neither branch is taken: the monitor waits for a message nobody will send.
  else .lost

/-- Where a poll of the open door leads. -/
def pollPlace (data : ReadData) : Place :=
  if data.value = doorOpen then .pollDoor else .postScan

/-- A step of `main`, or the end of a cancelled thread: not a step of the activity. -/
def Label.outside : Label → Bool
  | checkThreadDead _ | shutdownExit | threadEnd _ => true
  | timerStop .main _ _ | timerDestroy .main _ _ | pthreadCancel .main _ _ => true
  | _ => false

/-- What a step from outside leaves of the activity. -/
def Place.disturb (pl : Place) : Label → Place
  | .timerStop .main t true => if pl = armed t then lost else pl
  | .timerDestroy .main t true => if pl = armed t then lost else pl
  | .threadEnd .monitor => if pl.monitorPos = .getMessage then pl else lost
  | .threadEnd (.worker w) => if pl.workerPos w = .read then pl else lost
  | _ => pl

/-- One step of the activity. -/
inductive Advance : Activity → Label → Activity → Prop
  -- A failed call loses the activity: nothing is sent, posted or started in its place.
  | send {pl : Place} {n : ℤ} {who : Actor} {c : Command} (ok : Bool) (h : Sends pl who c) :
      Advance ⟨pl, n⟩ (.write who c.pipe c.frame ok) ⟨if ok then .inPipe c else .lost, n⟩
  | read (c : Command) (n : ℤ) :
      Advance ⟨.inPipe c, n⟩ (.read c.reader c.frame) ⟨.holds c, n⟩
  | senseExit {c : Command} {n : ℤ} {site : Site} (h : Senses c.reader c.event site) :
      Advance ⟨.holds c, n⟩ (.getValue site none) ⟨.holds c, n⟩
  | sense {c : Command} {n : ℤ} {site : Site} {data : ReadData}
      (h : Senses c.reader c.event site) (hans : answer c.reader data = none) :
      Advance ⟨.holds c, n⟩ (.getValue site (some data)) ⟨.holds c, n⟩
  | decide {c : Command} {n : ℤ} {site : Site} {data : ReadData} {m : Message}
      (h : Senses c.reader c.event site) (hans : answer c.reader data = some m.event) :
      Advance ⟨.holds c, n⟩ (.getValue site (some data)) ⟨.posting c.reader m, n⟩
  | post {pl : Place} {n : ℤ} {who : Actor} {m : Message} (ok : Bool) (h : Posts pl n who m) :
      Advance ⟨pl, n⟩ (.msgsnd who m.event ok) ⟨if ok then .queued m else .lost, n⟩
  | start {pl : Place} {n : ℤ} {who : Actor} {t : Timer} {delaySec : ℕ} (ok : Bool)
      (h : Starts pl who t delaySec) :
      Advance ⟨pl, n⟩ (.timerStart who t delaySec ok) ⟨if ok then .armed t else .lost, n⟩
  | take (m : Message) (n : ℤ) : Advance ⟨.queued m, n⟩ (.msgrcv m.event) ⟨.monitor m, n⟩
  | doorExit (n : ℤ) :
      Advance ⟨.monitor .ringBellExpiry, n⟩ (.getValue .door none) ⟨.monitor .ringBellExpiry, n⟩
  | pollExit (n : ℤ) : Advance ⟨.pollDoor, n⟩ (.getValue .poll none) ⟨.pollDoor, n⟩
  | door (data : ReadData) (n : ℤ) :
      Advance ⟨.monitor .ringBellExpiry, n⟩ (.getValue .door (some data)) ⟨doorPlace data, n⟩
  | poll (data : ReadData) (n : ℤ) :
      Advance ⟨.pollDoor, n⟩ (.getValue .poll (some data)) ⟨pollPlace data, n⟩
  | processReboot (n : ℤ) :
      Advance ⟨.monitor .ecuNotWorking, n⟩ .processReboot ⟨.reboot processRebootCalls, n⟩
  | rebootCall (c : TeardownCall) (rest : List TeardownCall) (n : ℤ) (ok : Bool) :
      Advance ⟨.reboot (c :: rest), n⟩ (teardownLabel (.thread .monitor) ok c) ⟨.reboot rest, n⟩
  | execl (n : ℤ) : Advance ⟨.reboot [], n⟩ (.execl true) .init
  | execlFail (n : ℤ) : Advance ⟨.reboot [], n⟩ (.execl false) ⟨.lost, n⟩
  | expire (t : Timer) (n : ℤ) :
      Advance ⟨.armed t, n⟩ (.expire t) ⟨.expired t (expiryStart t), n⟩
  | countExpiry (n : ℤ) :
      Advance ⟨.expired .doorOpenWait .count, n⟩ .countExpiry
        ⟨.expired .doorOpenWait .stop, n + 1⟩
  | stop (t : Timer) (n : ℤ) (ok : Bool) :
      Advance ⟨.expired t .stop, n⟩ (.timerStop (.expiry t) t ok) ⟨.expired t .post, n⟩
  -- Steps of `main` and the ends of cancelled threads may take the activity away.
  | outside {q : Activity} {l : Label} (h : l.outside = true) :
      Advance q l ⟨q.place.disturb l, q.count⟩

/-! ## What a label says of the step -/

/-- A worker's sensor is not the door's. -/
theorem Senses.ne_door {w : Worker} {e : Event} {site : Site} (h : Senses w e site) :
    site ≠ .door := by
  cases h <;> nofun

/-- The door is read by the monitor on `RING_BELL_EXPIRY`. -/
theorem Advance.eq_of_door {q q' : Activity} {data : ReadData}
    (h : Advance q (.getValue .door (some data)) q') :
    q.place = .monitor .ringBellExpiry ∧ q' = ⟨doorPlace data, q.count⟩ := by
  generalize hl : Label.getValue .door (some data) = l at h
  cases h with
  | door data' n =>
      obtain rfl : data = data' := by simpa using hl
      exact ⟨rfl, rfl⟩
  -- A worker reads another file.
  | sense h hans =>
      obtain ⟨rfl, -⟩ := Label.getValue.inj hl
      exact absurd rfl h.ne_door
  | decide h hans =>
      obtain ⟨rfl, -⟩ := Label.getValue.inj hl
      exact absurd rfl h.ne_door
  | rebootCall c => cases c <;> cases hl
  | outside h => cases hl; cases h
  | _ => cases hl

end DoorBell
