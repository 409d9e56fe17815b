import LinuxPrograms.DoorBell.System

/-!
# Door bell: what one step can do

`Move s l s'` lists the steps of the process once, guards included, with the workers' common
steps stated for all three of them. `Step.move` reads the list off the code; every invariant
of the system is proved from it.

- `Move`: one constructor for each kind of step.
- `Step.move`: a step of the process is a move.
-/

namespace DoorBell

open CString LabelledSystem

/-! ## Names for the branches -/

/-- The buffer a worker hands to its read: the distance thread clears its own first. -/
def State.readBuff (s : State) : Worker → CBuffer maxMessageSize
  | .distance => .zero _
  | w => (s.worker w).msgBuff

/-- The `case` in which a worker reads its sensor. -/
inductive Senses : Worker → Event → Site → Prop
  | motion : Senses .motion .motionScanOn .motion
  | distance : Senses .distance .calcDistance .distance

/-- The event a worker posts for a reading, if the reading decides. -/
def answer : Worker → ReadData → Option Event
  | .motion, data => motionEvent data
  | .distance, data => some (distanceEvent data)
  | .doorBell, _ => none

/-- The events a worker's `switch` acts on. -/
def Worker.handles : Worker → Event → Bool
  | motion, .motionScanOn | distance, .calcDistance => true
  | doorBell, .ringBell | doorBell, .ringBellExpiry => true
  | _, _ => false

/-- The events the monitor's `switch` acts on. -/
def monitorHandles : Event → Bool
  | .motionDetected | .validDistance | .invalidDistance | .ringBellExpiry | .ecuNotWorking
  | .doorWaitExpiry | .doorWaitRetryEnd => true
  | _ => false

/-- The label of a worker's step for an event it does not act on. -/
def ignoreLabel (w : Worker) (e : Event) : Label :=
  if w = .distance ∧ e.value = 2 then .emptyCase else .invalidEvent (.worker w)

theorem ignoreLabel_eq (w : Worker) (e : Event) :
    ignoreLabel w e = .emptyCase ∨ ignoreLabel w e = .invalidEvent (.worker w) := by
  rw [ignoreLabel]
  split_ifs
  · exact .inl rfl
  · exact .inr rfl

/-- At this position the monitor writes the message `name` to the pipe `p`. -/
inductive MonitorWrites : MonitorPos → Pipe → String → Prop
  | startUp : MonitorWrites .startUp .t1 "MOTION_SCAN_ON"
  | motionDetected : MonitorWrites (.switch .motionDetected) .t2 "CALC_DISTANCE"
  | validDistance : MonitorWrites (.switch .validDistance) .t3 "RING_BELL"
  | invalidDistance : MonitorWrites (.switch .invalidDistance) .t1 "MOTION_SCAN_ON"
  | doorWaitExpiry : MonitorWrites (.switch .doorWaitExpiry) .t3 "RING_BELL"
  | postScan : MonitorWrites .postScan .t1 "MOTION_SCAN_ON"

/-- At this position the monitor starts the timer `t` for `delaySec` seconds. -/
inductive MonitorStarts : MonitorPos → Timer → ℕ → Prop
  | startWait : MonitorStarts .startWait .doorOpenWait 30
  | doorWaitRetryEnd : MonitorStarts (.switch .doorWaitRetryEnd) .resetStates 600

/-- Where the monitor goes on after the door reading that follows a ring. -/
def afterDoor (data : ReadData) : MonitorPos :=
  if data.value = doorOpen then .pollDoor
  else if data.value = doorClosed then .startWait
  else .getMessage

/-- Where the monitor goes on after a poll of the open door. -/
def afterPoll (data : ReadData) : MonitorPos :=
  if data.value = doorOpen then .pollDoor else .postScan

/-- The message a handler writes after it stopped its timer, and the pipe. -/
inductive ExpiryWrites : Timer → Pipe → String → Prop
  | doorBell : ExpiryWrites .doorBell .t3 "RING_BELL_EXPIRY"
  | resetStates : ExpiryWrites .resetStates .t1 "MOTION_SCAN_ON"

namespace State

/-- The state after a timer call that aims at `target`. -/
def afterTimer (s : State) (t : Timer) (target : TimerState) (ok : Bool) : State :=
  if ok then s.setTimer t target else s

/-- The state after one call of a teardown list. -/
def afterTeardown (s : State) (c : TeardownCall) (ok : Bool) : State :=
  match c with
  | .timerStop t => s.afterTimer t .unarmed ok
  | .timerDestroy t => s.afterTimer t .deleted ok
  | .pthreadCancel th => (s.pthreadCancel .main th ok).1

end State

/-- The label of one call of a teardown list. -/
def teardownLabel (who : Actor) (ok : Bool) : TeardownCall → Label
  | .timerStop t => .timerStop who t ok
  | .timerDestroy t => .timerDestroy who t ok
  | .pthreadCancel th => .pthreadCancel who th ok

/-- The timer, if any, on which a teardown call needs the kernel to know the timer. -/
def TeardownCall.timer? : TeardownCall → Option Timer
  | timerStop t | timerDestroy t => some t
  | pthreadCancel _ => none

/-! ## The moves -/

/-- The steps of the process. -/
inductive Move (s : State) : Label → State → Prop
  -- The workers.
  | read (w : Worker) (buff : CBuffer maxMessageSize)
      (hpos : (s.worker w).pos = .read) (hne : s.pipe w.pipe ≠ [])
      (hbuff : buff = (s.readBuff w).store ((s.pipe w.pipe).take maxMessageSize)) :
      Move s (.read w buff)
        (((s.setPipe w.pipe ((s.pipe w.pipe).drop maxMessageSize)).setMsgBuff w buff).setWorkerPos
          w (.switch (strEnum (some buff.bytes))))
  | readFail (w : Worker) (hpos : (s.worker w).pos = .read) :
      Move s (.readFail w (s.readBuff w))
        ((s.setMsgBuff w (s.readBuff w)).setWorkerPos w
          (.switch (strEnum (some (s.readBuff w).bytes))))
  | senseExit (w : Worker) (e : Event) (site : Site) (hpos : (s.worker w).pos = .switch e)
      (hs : Senses w e site) : Move s (.getValue site none) s.exit
  | sense (w : Worker) (e : Event) (site : Site) (data : ReadData)
      (hpos : (s.worker w).pos = .switch e) (hs : Senses w e site)
      (hans : answer w data = none) : Move s (.getValue site (some data)) s
  | decide (w : Worker) (e e' : Event) (site : Site) (data : ReadData)
      (hpos : (s.worker w).pos = .switch e) (hs : Senses w e site)
      (hans : answer w data = some e') :
      Move s (.getValue site (some data)) (s.setWorkerPos w (.post e'))
  | post (w : Worker) (e : Event) (ok : Bool) (hpos : (s.worker w).pos = .post e) :
      Move s (.msgsnd (.thread (.worker w)) e ok)
        ((s.setWorkerPos w .read).postMessageToQ (.thread (.worker w)) e ok).1
  | postExpiry (ok : Bool) (hpos : (s.worker .doorBell).pos = .switch .ringBellExpiry) :
      Move s (.msgsnd (.thread (.worker .doorBell)) .ringBellExpiry ok)
        ((s.setWorkerPos .doorBell .read).postMessageToQ (.thread (.worker .doorBell))
          .ringBellExpiry ok).1
  | startBell (ok : Bool) (hpos : (s.worker .doorBell).pos = .switch .ringBell)
      (hok : ok = true → s.timer .doorBell ≠ .deleted) :
      Move s (.timerStart (.thread (.worker .doorBell)) .doorBell 3 ok)
        ((s.setWorkerPos .doorBell .read).afterTimer .doorBell .armed ok)
  | ignore (w : Worker) (e : Event) (hpos : (s.worker w).pos = .switch e)
      (hh : w.handles e = false) : Move s (ignoreLabel w e) (s.setWorkerPos w .read)
  -- The monitor.
  | monitorWrite (p : Pipe) (name : String) (ok : Bool) (hpos : MonitorWrites s.monitor p name) :
      Move s (.write (.thread .monitor) p (message name) ok)
        ({ s with monitor := .getMessage }.postEvent (.thread .monitor) p (message name) ok).1
  | monitorStart (t : Timer) (delaySec : ℕ) (ok : Bool)
      (hpos : MonitorStarts s.monitor t delaySec) (hok : ok = true → s.timer t ≠ .deleted) :
      Move s (.timerStart (.thread .monitor) t delaySec ok)
        ({ s with monitor := .getMessage }.afterTimer t .armed ok)
  | msgrcv (e : Event) (rest : List Event) (hpos : s.monitor = .getMessage)
      (hqueue : s.queue = e :: rest) :
      Move s (.msgrcv e) { s with queue := rest, monitor := .switch e }
  | msgrcvFail (hpos : s.monitor = .getMessage) :
      Move s .msgrcvFail { s with monitor := .switch clearedEvent }
  | doorExit (hpos : s.monitor = .switch .ringBellExpiry) : Move s (.getValue .door none) s.exit
  | pollExit (hpos : s.monitor = .pollDoor) : Move s (.getValue .poll none) s.exit
  | door (data : ReadData) (hpos : s.monitor = .switch .ringBellExpiry) :
      Move s (.getValue .door (some data)) { s with monitor := afterDoor data }
  | poll (data : ReadData) (hpos : s.monitor = .pollDoor) :
      Move s (.getValue .poll (some data)) { s with monitor := afterPoll data }
  | monitorIgnore (e : Event) (hpos : s.monitor = .switch e) (hh : monitorHandles e = false) :
      Move s (.invalidEvent .monitor) { s with monitor := .getMessage }
  | processReboot (hpos : s.monitor = .switch .ecuNotWorking) :
      Move s .processReboot { s with monitor := .reboot processRebootCalls }
  | rebootCall (c : TeardownCall) (rest : List TeardownCall) (ok : Bool)
      (hpos : s.monitor = .reboot (c :: rest))
      (hok : ok = true → ∀ t ∈ c.timer?, s.timer t ≠ .deleted) :
      Move s (teardownLabel (.thread .monitor) ok c)
        ({ s with monitor := .reboot rest }.afterTeardown c ok)
  | execl (hpos : s.monitor = .reboot []) : Move s (.execl true) .init
  | execlFail (hpos : s.monitor = .reboot []) :
      Move s (.execl false) { s with monitor := .getMessage }
  -- The timers and their handlers.
  | expire (t : Timer) (harmed : s.timer t = .armed) :
      Move s (.expire t)
        { s.setTimer t .unarmed with handlers := s.handlers ++ [(t, expiryStart t)] }
  | countExpiry (i : ℕ) (hi : s.handlers[i]? = some (.doorOpenWait, .count)) :
      Move s .countExpiry
        { s with
          handlers := s.handlers.set i (.doorOpenWait, .stop)
          doorWaitExpiryCount := s.doorWaitExpiryCount + 1 }
  | expiryStop (i : ℕ) (t : Timer) (ok : Bool) (hi : s.handlers[i]? = some (t, .stop))
      (hok : ok = true → s.timer t ≠ .deleted) :
      Move s (.timerStop (.expiry t) t ok)
        ({ s with handlers := s.handlers.set i (t, .post) }.afterTimer t .unarmed ok)
  | expiryWrite (i : ℕ) (t : Timer) (p : Pipe) (name : String) (ok : Bool)
      (hi : s.handlers[i]? = some (t, .post)) (hw : ExpiryWrites t p name) :
      Move s (.write (.expiry t) p (message name) ok)
        ({ s with handlers := s.handlers.eraseIdx i }.postEvent (.expiry t) p (message name) ok).1
  | expiryPost (i : ℕ) (ok : Bool) (hi : s.handlers[i]? = some (.doorOpenWait, .post)) :
      Move s (.msgsnd (.expiry .doorOpenWait) (retryEvent s.doorWaitExpiryCount) ok)
        ({ s with handlers := s.handlers.eraseIdx i }.postMessageToQ (.expiry .doorOpenWait)
          (retryEvent s.doorWaitExpiryCount) ok).1
  -- `main`, and the threads it cancels.
  | watchExit (hmain : s.main = .watching) : Move s (.checkThreadDead none) s.exit
  | watch (out : List UInt8) (hmain : s.main = .watching) (halive : checkThreadDead out = .fail) :
      Move s (.checkThreadDead (some out)) s
  | watchDead (out : List UInt8) (hmain : s.main = .watching)
      (hdead : checkThreadDead out = .success) :
      Move s (.checkThreadDead (some out)) { s with main := .shutdown shutdownCalls }
  | shutdownCall (c : TeardownCall) (rest : List TeardownCall) (ok : Bool)
      (hmain : s.main = .shutdown (c :: rest))
      (hok : ok = true → ∀ t ∈ c.timer?, s.timer t ≠ .deleted) :
      Move s (teardownLabel .main ok c) ({ s with main := .shutdown rest }.afterTeardown c ok)
  | shutdownExit (hmain : s.main = .shutdown []) : Move s .shutdownExit s.exit
  | endMonitor (hc : s.monitorCancelled = true) (hpos : s.monitor ≠ .terminated) :
      Move s (.threadEnd .monitor) { s with monitor := .terminated }
  | endWorker (w : Worker) (hc : (s.worker w).cancelled = true)
      (hpos : (s.worker w).pos ≠ .terminated) :
      Move s (.threadEnd (.worker w)) (s.setWorkerPos w .terminated)

/-! ## Reading the moves off the code -/

namespace State

variable {s s' : State} {l : Label} {ok : Bool}

@[simp]
theorem setPipe_self (s : State) (p : Pipe) : s.setPipe p (s.pipe p) = s := by
  simp [setPipe]

@[simp]
theorem setTimer_self (s : State) (t : Timer) : s.setTimer t (s.timer t) = s := by
  simp [setTimer]

/-- A timer call that is possible leaves the timer in the state it aims at, or alone. -/
private theorem timerCall_eq_some {target : TimerState} {t : Timer} {r : TimerState × Status}
    (h : timerCall target (s.timer t) ok = some r) :
    (ok = true → s.timer t ≠ .deleted) ∧ s.setTimer t r.1 = s.afterTimer t target ok := by
  cases ok with
  | false =>
      obtain rfl : (s.timer t, Status.fail) = r := by simpa [timerCall] using h
      exact ⟨by simp, by simp [afterTimer]⟩
  | true =>
      by_cases hdel : s.timer t = .deleted
      · simp [timerCall, hdel] at h
      · obtain rfl : (target, Status.success) = r := by simpa [timerCall, hdel] using h
        exact ⟨fun _ => hdel, by simp [afterTimer]⟩

theorem timerStart_eq_some {who : Actor} {t : Timer} {delaySec : ℕ}
    (h : s.timerStart who t delaySec ok = some (s', l)) :
    (ok = true → s.timer t ≠ .deleted) ∧ s' = s.afterTimer t .armed ok ∧
      l = .timerStart who t delaySec ok := by
  obtain ⟨r, hr, hpair⟩ := Option.map_eq_some_iff.mp h
  obtain ⟨rfl, rfl⟩ := Prod.ext_iff.mp hpair
  exact ⟨(timerCall_eq_some hr).1, (timerCall_eq_some hr).2, rfl⟩

theorem timerStop_eq_some {who : Actor} {t : Timer} (h : s.timerStop who t ok = some (s', l)) :
    (ok = true → s.timer t ≠ .deleted) ∧ s' = s.afterTimer t .unarmed ok ∧
      l = .timerStop who t ok := by
  obtain ⟨r, hr, hpair⟩ := Option.map_eq_some_iff.mp h
  obtain ⟨rfl, rfl⟩ := Prod.ext_iff.mp hpair
  exact ⟨(timerCall_eq_some hr).1, (timerCall_eq_some hr).2, rfl⟩

theorem teardown_eq_some {who : Actor} {c : TeardownCall}
    (h : s.teardown who c ok = some (s', l)) :
    (ok = true → ∀ t ∈ c.timer?, s.timer t ≠ .deleted) ∧ s' = s.afterTeardown c ok ∧
      l = teardownLabel who ok c := by
  cases c with
  | timerStop t =>
      obtain ⟨hok, rfl, rfl⟩ := timerStop_eq_some h
      exact ⟨fun ht t' ht' => by obtain rfl := Option.mem_some.mp ht'; exact hok ht, rfl, rfl⟩
  | timerDestroy t =>
      obtain ⟨r, hr, hpair⟩ := Option.map_eq_some_iff.mp h
      obtain ⟨rfl, rfl⟩ := Prod.ext_iff.mp hpair
      refine ⟨fun ht t' ht' => ?_, (timerCall_eq_some hr).2, rfl⟩
      obtain rfl := Option.mem_some.mp ht'
      exact (timerCall_eq_some hr).1 ht
  | pthreadCancel th =>
      obtain ⟨rfl, rfl⟩ := Prod.ext_iff.mp (Option.some.inj h)
      refine ⟨fun _ t' ht' => ?_, ?_, rfl⟩
      · exact absurd ht' (Option.not_mem_none t')
      · cases th <;> rfl

/-- The read of a worker, successful or not. -/
theorem readEvent_move {w : Worker} (hpos : (s.worker w).pos = .read)
    (h : s.readEvent w (s.readBuff w) ok = some (s', l)) : Move s l s' := by
  obtain ⟨⟨fifo, buff, status⟩, hr, hpair⟩ := Option.map_eq_some_iff.mp h
  obtain ⟨rfl, rfl⟩ := Prod.ext_iff.mp hpair
  cases ok with
  | false =>
      simp only [DoorBell.readEvent, Bool.false_eq_true, ↓reduceIte, Option.some.injEq,
        Prod.mk.injEq] at hr
      obtain ⟨rfl, rfl, -⟩ := hr
      -- The pipe is set to what it already holds.
      simpa using Move.readFail w hpos
  | true =>
      by_cases hne : s.pipe w.pipe = []
      · simp [DoorBell.readEvent, hne] at hr
      · simp only [DoorBell.readEvent, hne, ↓reduceIte, Option.some.injEq, Prod.mk.injEq] at hr
        obtain ⟨rfl, hbuff, -⟩ := hr
        exact Move.read w buff hpos hne hbuff.symm

end State

section Threads

variable {s s' : State} {l : Label} {o : Outcome}

theorem motionDetectorThread_move (h : motionDetectorThread s o = some (s', l)) :
    Move s l s' := by
  unfold motionDetectorThread at h
  split at h
  case h_1 hpos => exact State.readEvent_move hpos h
  case h_2 f hpos =>
      cases hget : getValue f with
      | none =>
          obtain ⟨rfl, rfl⟩ : s.exit = s' ∧ _ = l := by simpa [hget] using h
          exact Move.senseExit .motion .motionScanOn .motion hpos .motion
      | some data =>
          cases hans : motionEvent data with
          | none =>
              obtain ⟨rfl, rfl⟩ : s = s' ∧ _ = l := by simpa [hget, hans] using h
              exact Move.sense .motion .motionScanOn .motion data hpos .motion hans
          | some e =>
              obtain ⟨rfl, rfl⟩ : _ = s' ∧ _ = l := by simpa [hget, hans] using h
              exact Move.decide .motion .motionScanOn e .motion data hpos .motion hans
  case h_3 e hpos =>
      by_cases he : e = .motionScanOn
      · simp [he] at h
      · obtain ⟨rfl, rfl⟩ : _ = s' ∧ _ = l := by simpa [he] using h
        refine Move.ignore .motion e hpos ?_
        cases e <;> simp_all [Worker.handles]
  case h_4 e ok hpos =>
      obtain ⟨rfl, rfl⟩ := Prod.ext_iff.mp (Option.some.inj h)
      exact Move.post .motion e ok hpos
  case h_5 => cases h

theorem distanceCalculatorThread_move (h : distanceCalculatorThread s o = some (s', l)) :
    Move s l s' := by
  unfold distanceCalculatorThread at h
  split at h
  case h_1 hpos => exact State.readEvent_move hpos h
  case h_2 f hpos =>
      cases hget : getValue f with
      | none =>
          obtain ⟨rfl, rfl⟩ : s.exit = s' ∧ _ = l := by simpa [hget] using h
          exact Move.senseExit .distance .calcDistance .distance hpos .distance
      | some data =>
          obtain ⟨rfl, rfl⟩ : _ = s' ∧ _ = l := by simpa [hget] using h
          exact Move.decide .distance .calcDistance _ .distance data hpos .distance rfl
  case h_3 e hpos =>
      by_cases he : e = .calcDistance
      · simp [he] at h
      · -- The empty `case 2` and the `default` branch both go back to the read.
        have hh : Worker.distance.handles e = false := by cases e <;> simp_all [Worker.handles]
        have hmove := Move.ignore .distance e hpos hh
        by_cases h2 : e.value = 2
        · obtain ⟨rfl, rfl⟩ : _ = s' ∧ _ = l := by simpa [he, h2] using h
          simpa [ignoreLabel, h2] using hmove
        · obtain ⟨rfl, rfl⟩ : _ = s' ∧ _ = l := by simpa [he, h2] using h
          simpa [ignoreLabel, h2] using hmove
  case h_4 e ok hpos =>
      obtain ⟨rfl, rfl⟩ := Prod.ext_iff.mp (Option.some.inj h)
      exact Move.post .distance e ok hpos
  case h_5 => cases h

theorem doorBellThread_move (h : doorBellThread s o = some (s', l)) : Move s l s' := by
  unfold doorBellThread at h
  split at h
  case h_1 hpos => exact State.readEvent_move hpos h
  case h_2 ok hpos =>
      obtain ⟨hok, rfl, rfl⟩ := State.timerStart_eq_some h
      exact Move.startBell ok hpos hok
  case h_3 ok hpos =>
      obtain ⟨rfl, rfl⟩ := Prod.ext_iff.mp (Option.some.inj h)
      exact Move.postExpiry ok hpos
  case h_4 e hpos =>
      by_cases he : e = .ringBell ∨ e = .ringBellExpiry
      · simp [he] at h
      · obtain ⟨rfl, rfl⟩ : _ = s' ∧ _ = l := by simpa [he] using h
        refine Move.ignore .doorBell e hpos ?_
        cases e <;> simp_all [Worker.handles]
  case h_5 => cases h

theorem processReboot_move {todo : List TeardownCall} {ok : Bool}
    (hpos : s.monitor = .reboot todo) (h : processReboot s todo ok = some (s', l)) :
    Move s l s' := by
  cases todo with
  | cons c rest =>
      obtain ⟨hok, rfl, rfl⟩ := State.teardown_eq_some h
      exact Move.rebootCall c rest ok hpos hok
  | nil =>
      cases ok with
      | true =>
          obtain ⟨rfl, rfl⟩ : _ = s' ∧ _ = l := by simpa [processReboot] using h
          exact Move.execl hpos
      | false =>
          obtain ⟨rfl, rfl⟩ : _ = s' ∧ _ = l := by simpa [processReboot, kernelRet] using h
          exact Move.execlFail hpos

theorem monitorCase_move {e : Event} (hpos : s.monitor = .switch e)
    (h : monitorCase s e o = some (s', l)) : Move s l s' := by
  unfold monitorCase at h
  split at h
  case h_1 ok =>
      obtain ⟨rfl, rfl⟩ := Prod.ext_iff.mp (Option.some.inj h)
      exact Move.monitorWrite .t2 _ ok (hpos ▸ .motionDetected)
  case h_2 ok =>
      obtain ⟨rfl, rfl⟩ := Prod.ext_iff.mp (Option.some.inj h)
      exact Move.monitorWrite .t3 _ ok (hpos ▸ .validDistance)
  case h_3 ok =>
      obtain ⟨rfl, rfl⟩ := Prod.ext_iff.mp (Option.some.inj h)
      exact Move.monitorWrite .t1 _ ok (hpos ▸ .invalidDistance)
  case h_4 f =>
      cases hget : getValue f with
      | none =>
          obtain ⟨rfl, rfl⟩ : s.exit = s' ∧ _ = l := by simpa [hget] using h
          exact Move.doorExit hpos
      | some data =>
          obtain ⟨hs', rfl⟩ : _ = s' ∧ _ = l := by simpa [hget] using h
          have hmove := Move.door data hpos
          rw [show s' = { s with monitor := afterDoor data } by
            rw [← hs', afterDoor]; split_ifs <;> rfl]
          exact hmove
  case h_5 =>
      obtain ⟨rfl, rfl⟩ : _ = s' ∧ _ = l := by simpa using h
      exact Move.processReboot hpos
  case h_6 ok =>
      obtain ⟨rfl, rfl⟩ := Prod.ext_iff.mp (Option.some.inj h)
      exact Move.monitorWrite .t3 _ ok (hpos ▸ .doorWaitExpiry)
  case h_7 ok =>
      obtain ⟨hok, rfl, rfl⟩ := State.timerStart_eq_some h
      exact Move.monitorStart .resetStates 600 ok (hpos ▸ .doorWaitRetryEnd) hok
  case h_12 => cases h
  -- The four events of the default branch.
  all_goals
    obtain ⟨rfl, rfl⟩ : _ = s' ∧ _ = l := by simpa using h
    exact Move.monitorIgnore _ hpos rfl

theorem monitorThread_move (h : monitorThread s o = some (s', l)) : Move s l s' := by
  unfold monitorThread at h
  split at h
  case h_1 ok hpos =>
      obtain ⟨rfl, rfl⟩ := Prod.ext_iff.mp (Option.some.inj h)
      exact Move.monitorWrite .t1 _ ok (hpos ▸ .startUp)
  case h_2 ok hpos =>
      obtain ⟨⟨queue, e, status⟩, hr, hpair⟩ := Option.map_eq_some_iff.mp h
      obtain ⟨rfl, rfl⟩ := Prod.ext_iff.mp hpair
      cases ok with
      | false =>
          obtain ⟨rfl, rfl, -⟩ : s.queue = queue ∧ clearedEvent = e ∧ _ = status := by
            simpa [getMessageFromQ] using hr
          exact Move.msgrcvFail hpos
      | true =>
          cases hq : s.queue with
          | nil => simp [getMessageFromQ, hq] at hr
          | cons e' rest =>
              obtain ⟨rfl, rfl, -⟩ : rest = queue ∧ e' = e ∧ _ = status := by
                simpa [getMessageFromQ, hq] using hr
              exact Move.msgrcv e' rest hpos hq
  case h_3 e hpos => exact monitorCase_move hpos h
  case h_4 f hpos =>
      cases hget : getValue f with
      | none =>
          obtain ⟨rfl, rfl⟩ : s.exit = s' ∧ _ = l := by simpa [hget] using h
          exact Move.pollExit hpos
      | some data =>
          obtain ⟨hs', rfl⟩ : _ = s' ∧ _ = l := by simpa [hget] using h
          have hmove := Move.poll data hpos
          rw [show s' = { s with monitor := afterPoll data } by
            rw [← hs', afterPoll]
            split_ifs
            · rw [← hpos]
            · rfl]
          exact hmove
  case h_5 ok hpos =>
      obtain ⟨hok, rfl, rfl⟩ := State.timerStart_eq_some h
      exact Move.monitorStart .doorOpenWait 30 ok (hpos ▸ .startWait) hok
  case h_6 ok hpos =>
      obtain ⟨rfl, rfl⟩ := Prod.ext_iff.mp (Option.some.inj h)
      exact Move.monitorWrite .t1 _ ok (hpos ▸ .postScan)
  case h_7 todo ok hpos => exact processReboot_move hpos h
  case h_8 => cases h

theorem stopThenPost_move {i : ℕ} {t : Timer} {p : Pipe} {name : String} {pos : ExpiryPos}
    (hi : s.handlers[i]? = some (t, pos)) (hw : ExpiryWrites t p name)
    (h : stopThenPost s i t p name pos o = some (s', l)) : Move s l s' := by
  unfold stopThenPost at h
  split at h
  case h_1 ok =>
      obtain ⟨hok, rfl, rfl⟩ := State.timerStop_eq_some h
      exact Move.expiryStop i t ok hi hok
  case h_2 ok =>
      obtain ⟨rfl, rfl⟩ := Prod.ext_iff.mp (Option.some.inj h)
      exact Move.expiryWrite i t p name ok hi hw
  case h_3 => cases h

theorem doorOpenWaitExpiry_move {i : ℕ} {pos : ExpiryPos}
    (hi : s.handlers[i]? = some (.doorOpenWait, pos))
    (h : doorOpenWaitExpiry s i pos o = some (s', l)) : Move s l s' := by
  unfold doorOpenWaitExpiry at h
  split at h
  case h_1 =>
      obtain ⟨rfl, rfl⟩ : _ = s' ∧ _ = l := by simpa using h
      exact Move.countExpiry i hi
  case h_2 ok =>
      obtain ⟨hok, rfl, rfl⟩ := State.timerStop_eq_some h
      exact Move.expiryStop i .doorOpenWait ok hi hok
  case h_3 ok =>
      obtain ⟨rfl, rfl⟩ := Prod.ext_iff.mp (Option.some.inj h)
      exact Move.expiryPost i ok hi
  case h_4 => cases h

theorem expiryHandler_move {i : ℕ} (h : expiryHandler s i o = some (s', l)) : Move s l s' := by
  unfold expiryHandler at h
  split at h
  case h_1 => cases h
  case h_2 pos hi => exact stopThenPost_move hi .doorBell h
  case h_3 pos hi => exact doorOpenWaitExpiry_move hi h
  case h_4 pos hi => exact stopThenPost_move hi .resetStates h

theorem timerExpire_move {t : Timer} (h : timerExpire s t = some (s', l)) : Move s l s' := by
  by_cases harmed : s.timer t = .armed
  · obtain ⟨rfl, rfl⟩ : _ = s' ∧ _ = l := by simpa [timerExpire, harmed] using h
    exact Move.expire t harmed
  · simp [timerExpire, harmed] at h

theorem mainLoop_move (h : mainLoop s o = some (s', l)) : Move s l s' := by
  unfold mainLoop at h
  split at h
  case h_1 hmain =>
      obtain ⟨rfl, rfl⟩ : s.exit = s' ∧ _ = l := by simpa using h
      exact Move.watchExit hmain
  case h_2 out hmain =>
      cases hv : checkThreadDead out with
      | fail =>
          obtain ⟨rfl, rfl⟩ : s = s' ∧ _ = l := by simpa [hv] using h
          exact Move.watch out hmain hv
      | success =>
          obtain ⟨rfl, rfl⟩ : _ = s' ∧ _ = l := by simpa [hv] using h
          exact Move.watchDead out hmain hv
  case h_3 c rest ok hmain =>
      obtain ⟨hok, rfl, rfl⟩ := State.teardown_eq_some h
      exact Move.shutdownCall c rest ok hmain hok
  case h_4 hmain =>
      obtain ⟨rfl, rfl⟩ : s.exit = s' ∧ _ = l := by simpa using h
      exact Move.shutdownExit hmain
  case h_5 => cases h

theorem threadEnd_move {th : Thread} (h : threadEnd s th = some (s', l)) : Move s l s' := by
  cases th with
  | monitor =>
      by_cases hc : s.monitorCancelled = true ∧ s.monitor ≠ .terminated
      · rw [threadEnd, if_pos hc] at h
        obtain ⟨rfl, rfl⟩ := Prod.ext_iff.mp (Option.some.inj h)
        exact Move.endMonitor hc.1 hc.2
      · simp [threadEnd, hc] at h
  | worker w =>
      by_cases hc : (s.worker w).cancelled = true ∧ (s.worker w).pos ≠ .terminated
      · rw [threadEnd, if_pos hc] at h
        obtain ⟨rfl, rfl⟩ := Prod.ext_iff.mp (Option.some.inj h)
        exact Move.endWorker w hc.1 hc.2
      · simp [threadEnd, hc] at h

end Threads

/-- A step of the process is one of the moves, made before the process has exited. -/
theorem Step.move {s s' : State} {l : Label} (h : Step s l s') :
    s.exited = false ∧ Move s l s' := by
  obtain ⟨a, ha⟩ := h
  cases hex : s.exited with
  | true => simp [step, hex] at ha
  | false =>
      refine ⟨rfl, ?_⟩
      simp only [step, hex, Bool.false_eq_true, ↓reduceIte] at ha
      cases a with
      | run th o =>
          cases th with
          | monitor => exact monitorThread_move ha
          | worker w =>
              cases w with
              | motion => exact motionDetectorThread_move ha
              | distance => exact distanceCalculatorThread_move ha
              | doorBell => exact doorBellThread_move ha
      | expire t => exact timerExpire_move ha
      | handler i o => exact expiryHandler_move ha
      | main o => exact mainLoop_move ha
      | threadEnd th => exact threadEnd_move ha

/-! ## What a label says of the step -/

section Labels

variable {s s' : State} {l : Label}

/-- A successful `execl` starts the process anew. -/
theorem Move.restart (h : Move s (.execl true) s') : s' = .init := by
  generalize hl : Label.execl true = l at h
  -- No other move carries this label; a teardown call's label is known once the call is.
  cases h with
  | execl => rfl
  | rebootCall c => cases c <;> cases hl
  | shutdownCall c => cases c <;> cases hl
  | ignore w e => rcases ignoreLabel_eq w e with h | h <;> cases hl.trans h
  | _ => cases hl

/-- At start-up, and after a restart, the process is in its first state. -/
theorem Reaches.eq_init {tr : List Label} (h : Reaches tr s)
    (htr : tr = [] ∨ ∃ tr', tr = tr' ++ [.execl true]) : s = .init := by
  rcases htr with rfl | ⟨tr', rfl⟩
  · exact (Run.nil_iff.mp h).symm
  · obtain ⟨t, -, hstep⟩ := Run.snoc_iff.mp h
    exact hstep.move.2.restart

end Labels

end DoorBell
