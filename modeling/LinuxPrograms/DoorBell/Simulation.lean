import LinuxPrograms.DoorBell.Sequential
import LinuxPrograms.Lib.FrameStream

/-!
# Door bell: the process simulates the one activity

While every receive succeeds, the whole state of the process is the state its activity's place
stands for (`Shape`), and every step is a step of the activity (`Shape.advance`). So the labels
of a run are those of a run of the sequential program (`Reaches.advances`), and what is in
flight is counted off the place (`Shape.inFlight_eq`).
-/

namespace DoorBell

open CString LabelledSystem

/-! ## The state a place stands for -/

/-- The state of the process is that of the place; a thread or timer away from the activity may
also be gone. -/
structure Shape (s : State) (q : Activity) : Prop where
  pipe : ∀ p, s.pipe p = q.place.pipe p
  queue : s.queue = q.place.queue
  timer : ∀ t, s.timer t = .armed ↔ q.place = .armed t
  handlers : s.handlers = q.place.handlers
  monitor : s.monitor = q.place.monitorPos ∨
    s.monitor = .terminated ∧ q.place.monitorPos = .getMessage
  worker : ∀ w, (s.worker w).pos = q.place.workerPos w ∨
    (s.worker w).pos = .terminated ∧ q.place.workerPos w = .read
  count : s.doorWaitExpiryCount = q.count

theorem shape_init : Shape .init .init where
  pipe _ := rfl
  queue := rfl
  timer t := by simp [State.init, Activity.init]
  handlers := rfl
  monitor := .inl rfl
  worker _ := .inl rfl
  count := rfl

namespace Shape

variable {s s' : State} {q : Activity} {pl : Place} {n : ℤ} {l : Label}

/-- The position of a monitor that has not terminated is that of the place. -/
theorem monitorPos_eq {pos : MonitorPos} (h : Shape s q) (hpos : s.monitor = pos)
    (hne : pos ≠ .terminated) : q.place.monitorPos = pos := by
  rcases h.monitor with hm | ⟨hm, -⟩
  · exact hm.symm.trans hpos
  · exact absurd (hpos.symm.trans hm) hne

/-- The position of a worker that has not terminated is that of the place. -/
theorem workerPos_eq {w : Worker} {pos : WorkerPos} (h : Shape s q)
    (hpos : (s.worker w).pos = pos) (hne : pos ≠ .terminated) : q.place.workerPos w = pos := by
  rcases h.worker w with hw | ⟨hw, -⟩
  · exact hw.symm.trans hpos
  · exact absurd (hpos.symm.trans hw) hne

end Shape

/-! ## Moving the activity -/

/-- The monitor has the activity, or nobody. -/
def Place.InMonitor : Place → Prop
  | inPipe _ | holds _ | posting _ _ | queued _ | armed _ | expired _ _ => False
  | _ => True

/-- The worker has the activity, or nobody. -/
def Place.InWorker (w : Worker) : Place → Prop
  | holds c => c.reader = w
  | posting w' _ => w' = w
  | lost => True
  | _ => False

section Moving

attribute [local simp] State.setPipe State.setTimer State.setWorkerPos State.setMsgBuff
  State.postEvent State.postMessageToQ State.afterTimer DoorBell.postEvent
  DoorBell.postMessageToQ Function.update_apply Place.pipe Place.queue Place.handlers
  Place.monitorPos Place.workerPos

namespace Shape

variable {s s' : State} {q : Activity} {pl : Place} {n : ℤ} {l : Label} {w : Worker}

/-- Away from the monitor, a place of the monitor says that nothing is going on. -/
private theorem inMonitor_rest (hpl : pl.InMonitor) :
    (∀ p, pl.pipe p = []) ∧ pl.queue = [] ∧ (∀ t, pl ≠ .armed t) ∧ pl.handlers = [] ∧
      ∀ w, pl.workerPos w = .read := by
  cases pl <;> simp_all [Place.InMonitor]

/-- Away from the worker, a place of the worker says that nothing is going on. -/
private theorem inWorker_rest (hpl : pl.InWorker w) :
    (∀ p, pl.pipe p = []) ∧ pl.queue = [] ∧ (∀ t, pl ≠ .armed t) ∧ pl.handlers = [] ∧
      pl.monitorPos = .getMessage ∧ ∀ w', w' ≠ w → pl.workerPos w' = .read := by
  cases pl <;> simp_all [Place.InWorker, Ne.symm]

/-- The activity moves inside the monitor. -/
theorem moveMonitor (h : Shape s ⟨pl, n⟩) (hpl : pl.InMonitor) (pl' : Place)
    (hpl' : pl'.InMonitor) :
    Shape { s with monitor := pl'.monitorPos } ⟨pl', n⟩ := by
  obtain ⟨hpipe, hqueue, htimer, hhandlers, -, hworker, hcount⟩ := h
  obtain ⟨h1, h2, h3, h4, h5⟩ := inMonitor_rest hpl
  obtain ⟨h1', h2', h3', h4', h5'⟩ := inMonitor_rest hpl'
  refine ⟨fun p => ?_, ?_, fun t => ?_, ?_, .inl rfl, fun w => ?_, hcount⟩
  · simpa only [h1, h1'] using hpipe p
  · simpa only [h2, h2'] using hqueue
  · simpa [h3, h3'] using htimer t
  · simpa only [h4, h4'] using hhandlers
  · simpa only [h5, h5'] using hworker w

/-- The activity moves inside a worker. -/
theorem moveWorker (h : Shape s ⟨pl, n⟩) (hpl : pl.InWorker w) (pl' : Place)
    (hpl' : pl'.InWorker w) :
    Shape (s.setWorkerPos w (pl'.workerPos w)) ⟨pl', n⟩ := by
  obtain ⟨hpipe, hqueue, htimer, hhandlers, hmonitor, hworker, hcount⟩ := h
  obtain ⟨h1, h2, h3, h4, h5, h6⟩ := inWorker_rest hpl
  obtain ⟨h1', h2', h3', h4', h5', h6'⟩ := inWorker_rest hpl'
  refine ⟨fun p => ?_, ?_, fun t => ?_, ?_, ?_, fun w' => ?_, hcount⟩
  · simpa only [h1, h1', State.setWorkerPos] using hpipe p
  · simpa only [h2, h2', State.setWorkerPos] using hqueue
  · simpa [h3, h3'] using htimer t
  · simpa only [h4, h4', State.setWorkerPos] using hhandlers
  · simpa only [h5, h5', State.setWorkerPos] using hmonitor
  · by_cases hw : w' = w
    · exact .inl (by simp [hw])
    · simpa only [State.setWorkerPos, Function.update_of_ne hw, h6 w' hw, h6' w' hw]
        using hworker w'

/-- A worker takes the command out of its pipe. -/
theorem takeCommand {c : Command} (h : Shape s ⟨.inPipe c, n⟩) (buff : CBuffer maxMessageSize) :
    Shape (((s.setPipe c.pipe ((s.pipe c.pipe).drop maxMessageSize)).setMsgBuff
      c.reader buff).setWorkerPos c.reader (.switch c.event)) ⟨.holds c, n⟩ := by
  obtain ⟨hpipe, hqueue, htimer, hhandlers, hmonitor, hworker, hcount⟩ := h
  refine ⟨fun p => ?_, by simpa using hqueue, by simpa using htimer, by simpa using hhandlers,
    by simpa using hmonitor, fun w => ?_, hcount⟩
  · -- The frame was all the pipe held; the other pipes are empty before and after.
    by_cases hp : p = c.pipe
    · simp [hp, hpipe]
    · simp [hp, hpipe, Ne.symm hp]
  · by_cases hw : w = c.reader
    · simp [hw]
    · simpa [hw, Ne.symm hw] using hworker w

/-- The monitor takes the message out of the queue. -/
theorem takeMessage {m : Message} (h : Shape s ⟨.queued m, n⟩) :
    Shape { s with queue := [], monitor := .switch m.event } ⟨.monitor m, n⟩ := by
  obtain ⟨hpipe, -, htimer, hhandlers, -, hworker, hcount⟩ := h
  exact ⟨by simpa using hpipe, rfl, by simpa using htimer, by simpa using hhandlers, .inl rfl,
    by simpa using hworker, hcount⟩

/-- With no activity about, a write starts one in the pipe. -/
theorem send (h : Shape s ⟨.lost, n⟩) (who : Actor) (c : Command) (ok : Bool) :
    Shape (s.postEvent who c.pipe c.frame ok).1 ⟨if ok then .inPipe c else .lost, n⟩ := by
  cases ok with
  | false => simpa using h
  | true =>
      obtain ⟨hpipe, hqueue, htimer, hhandlers, hmonitor, hworker, hcount⟩ := h
      refine ⟨fun p => ?_, by simpa using hqueue, by simpa using htimer,
        by simpa using hhandlers, by simpa using hmonitor, by simpa using hworker, hcount⟩
      by_cases hp : p = c.pipe
      · simp [hp, hpipe]
      · simp [hp, hpipe, Ne.symm hp]

/-- With no activity about, a post starts one in the queue. -/
theorem post (h : Shape s ⟨.lost, n⟩) (who : Actor) (m : Message) (ok : Bool) :
    Shape (s.postMessageToQ who m.event ok).1 ⟨if ok then .queued m else .lost, n⟩ := by
  cases ok with
  | false => simpa using h
  | true =>
      obtain ⟨hpipe, hqueue, htimer, hhandlers, hmonitor, hworker, hcount⟩ := h
      exact ⟨by simpa using hpipe, by simpa using hqueue, by simpa using htimer,
        by simpa using hhandlers, by simpa using hmonitor, by simpa using hworker, hcount⟩

/-- With no activity about, a timer started is the only one. -/
theorem start (h : Shape s ⟨.lost, n⟩) (t : Timer) (ok : Bool) :
    Shape (s.afterTimer t .armed ok) ⟨if ok then .armed t else .lost, n⟩ := by
  cases ok with
  | false => simpa using h
  | true =>
      obtain ⟨hpipe, hqueue, htimer, hhandlers, hmonitor, hworker, hcount⟩ := h
      refine ⟨by simpa using hpipe, by simpa using hqueue, fun t' => ?_,
        by simpa using hhandlers, by simpa using hmonitor, by simpa using hworker, hcount⟩
      by_cases ht : t' = t
      · simp [ht]
      · simpa [ht, Ne.symm ht] using htimer t'

/-- The timer fires. -/
theorem expire {t : Timer} (h : Shape s ⟨.armed t, n⟩) (pos : ExpiryPos) :
    Shape { s.setTimer t .unarmed with handlers := s.handlers ++ [(t, pos)] }
      ⟨.expired t pos, n⟩ := by
  obtain ⟨hpipe, hqueue, htimer, hhandlers, hmonitor, hworker, hcount⟩ := h
  refine ⟨by simpa using hpipe, by simpa using hqueue, fun t' => ?_, by simp [hhandlers],
    by simpa using hmonitor, by simpa using hworker, hcount⟩
  by_cases ht : t' = t
  · simp [ht]
  · simpa [ht, Ne.symm ht] using htimer t'

/-- A handler goes on to its next call, with the count it leaves. -/
theorem moveHandler {t : Timer} {pos : ExpiryPos} (h : Shape s ⟨.expired t pos, n⟩)
    (pos' : ExpiryPos) (n' : ℤ) :
    Shape { s with handlers := s.handlers.set 0 (t, pos'), doorWaitExpiryCount := n' }
      ⟨.expired t pos', n'⟩ := by
  obtain ⟨hpipe, hqueue, htimer, hhandlers, hmonitor, hworker, -⟩ := h
  exact ⟨by simpa using hpipe, by simpa using hqueue, by simpa using htimer, by simp [hhandlers],
    by simpa using hmonitor, by simpa using hworker, rfl⟩

/-- A handler makes its last call. -/
theorem endHandler {t : Timer} {pos : ExpiryPos} (h : Shape s ⟨.expired t pos, n⟩) :
    Shape { s with handlers := s.handlers.eraseIdx 0 } ⟨.lost, n⟩ := by
  obtain ⟨hpipe, hqueue, htimer, hhandlers, hmonitor, hworker, hcount⟩ := h
  exact ⟨by simpa using hpipe, by simpa using hqueue, by simpa using htimer, by simp [hhandlers],
    by simpa using hmonitor, by simpa using hworker, hcount⟩

/-- A timer call that does not arm loses the activity exactly if it was that timer. -/
theorem disarm (h : Shape s q) (t : Timer) (target : TimerState) (htarget : target ≠ .armed)
    (ok : Bool) :
    Shape (s.afterTimer t target ok)
      ⟨if ok = true ∧ q.place = .armed t then .lost else q.place, q.count⟩ := by
  cases ok with
  | false => simpa using h
  | true =>
      obtain ⟨hpipe, hqueue, htimer, hhandlers, hmonitor, hworker, hcount⟩ := h
      by_cases hq : q.place = .armed t
      -- The activity was waiting on this timer.
      · simp only [hq] at hpipe hqueue hhandlers hmonitor hworker htimer
        refine ⟨by simpa [hq] using hpipe, by simpa [hq] using hqueue, fun t' => ?_,
          by simpa [hq] using hhandlers, by simpa [hq] using hmonitor,
          by simpa [hq] using hworker, hcount⟩
        by_cases ht : t' = t
        · simp [ht, htarget, hq]
        · simpa [ht, Ne.symm ht, hq] using htimer t'
      -- It was elsewhere, and this timer was not armed in the first place.
      · refine ⟨by simpa [hq] using hpipe, by simpa [hq] using hqueue, fun t' => ?_,
          by simpa [hq] using hhandlers, by simpa [hq] using hmonitor,
          by simpa [hq] using hworker, hcount⟩
        by_cases ht : t' = t
        · simp [ht, htarget, hq]
        · simpa [ht, hq] using htimer t'

/-- `exit` leaves the components a place speaks of. -/
theorem exit (h : Shape s q) : Shape s.exit q :=
  ⟨h.pipe, h.queue, h.timer, h.handlers, h.monitor, h.worker, h.count⟩

/-- `pthread_cancel` alone moves nothing. -/
theorem pthreadCancel (h : Shape s q) (who : Actor) (th : Thread) (ok : Bool) :
    Shape (s.pthreadCancel who th ok).1 q := by
  cases th with
  | monitor => exact ⟨h.pipe, h.queue, h.timer, h.handlers, h.monitor, h.worker, h.count⟩
  | worker w =>
      refine ⟨h.pipe, h.queue, h.timer, h.handlers, h.monitor, fun w' => ?_, h.count⟩
      by_cases hw : w' = w
      · subst hw
        simpa [State.pthreadCancel] using h.worker w'
      · simpa [State.pthreadCancel, hw] using h.worker w'

end Shape

end Moving

/-! ## The simulation -/

theorem Worker.pipe_injective : Function.Injective Worker.pipe := by
  intro w w' h
  cases w <;> cases w' <;> first | rfl | exact Pipe.noConfusion h

namespace Shape

variable {s s' : State} {q : Activity} {pl : Place} {n : ℤ} {l : Label} {w : Worker} {e : Event}

/-- A worker's successful read. -/
private theorem advance_read (h : Shape s ⟨pl, n⟩) (hne : s.pipe w.pipe ≠ []) :
    ∃ c : Command, pl = .inPipe c ∧ c.reader = w ∧
      (s.readBuff w).store ((s.pipe w.pipe).take maxMessageSize) = c.frame := by
  -- What is in the pipe is the frame of the activity's command, whole.
  have hpipe := h.pipe w.pipe
  obtain ⟨c, rfl, hc⟩ := Place.eq_inPipe (hpipe ▸ hne)
  have hframe : s.pipe w.pipe = c.frame.bytes := by
    rw [hpipe, ← hc]
    exact if_pos rfl
  refine ⟨c, rfl, Worker.pipe_injective hc, ?_⟩
  rw [hframe, List.take_of_length_le c.length_frame.le, CBuffer.store_of_length_eq _ c.length_frame]

/-- A worker that reads its sensor holds the command to do so. -/
private theorem eq_holds_of_senses {site : Site} (h : Shape s ⟨pl, n⟩)
    (hpos : (s.worker w).pos = .switch e) (hs : Senses w e site) :
    ∃ c : Command, pl = .holds c ∧ c.reader = w ∧ Senses c.reader c.event site := by
  obtain ⟨c, rfl, hw, he⟩ := Place.eq_holds (h.workerPos_eq hpos nofun)
  exact ⟨c, rfl, hw, by rw [hw, he]; exact hs⟩

/-- The write of the monitor is a command of the activity. -/
private theorem sends_of_monitorWrites {p : Pipe} {name : String} (h : Shape s ⟨pl, n⟩)
    (hw : MonitorWrites s.monitor p name) :
    ∃ c : Command, c.pipe = p ∧ c.name = name ∧ Sends pl (.thread .monitor) c ∧
      pl.InMonitor := by
  generalize hpos : s.monitor = pos at hw
  have hplace := h.monitorPos_eq hpos
  cases hw with
  | startUp =>
      obtain rfl := Place.eq_startUp (hplace nofun)
      exact ⟨.motionScanOn, rfl, rfl, .startUp, trivial⟩
  | postScan =>
      obtain rfl := Place.eq_postScan (hplace nofun)
      exact ⟨.motionScanOn, rfl, rfl, .postScan, trivial⟩
  | motionDetected =>
      obtain rfl := Place.eq_monitor_of .motionDetected (hplace nofun)
      exact ⟨.calcDistance, rfl, rfl, .motionDetected, trivial⟩
  | validDistance =>
      obtain rfl := Place.eq_monitor_of .validDistance (hplace nofun)
      exact ⟨.ringBell, rfl, rfl, .validDistance, trivial⟩
  | invalidDistance =>
      obtain rfl := Place.eq_monitor_of .invalidDistance (hplace nofun)
      exact ⟨.motionScanOn, rfl, rfl, .invalidDistance, trivial⟩
  | doorWaitExpiry =>
      obtain rfl := Place.eq_monitor_of .doorWaitExpiry (hplace nofun)
      exact ⟨.ringBell, rfl, rfl, .doorWaitExpiry, trivial⟩

/-- The timer the monitor starts is started by the activity. -/
private theorem starts_of_monitorStarts {t : Timer} {delaySec : ℕ} (h : Shape s ⟨pl, n⟩)
    (hs : MonitorStarts s.monitor t delaySec) :
    Starts pl (.thread .monitor) t delaySec ∧ pl.InMonitor := by
  generalize hpos : s.monitor = pos at hs
  have hplace := h.monitorPos_eq hpos
  cases hs with
  | startWait =>
      obtain rfl := Place.eq_startWait (hplace nofun)
      exact ⟨.startWait, trivial⟩
  | doorWaitRetryEnd =>
      obtain rfl := Place.eq_monitor_of .doorWaitRetryEnd (hplace nofun)
      exact ⟨.doorWaitRetryEnd, trivial⟩

/-- The write of a handler is a command of the activity. -/
private theorem sends_of_expiryWrites {t : Timer} {p : Pipe} {name : String}
    (hw : ExpiryWrites t p name) :
    ∃ c : Command, c.pipe = p ∧ c.name = name ∧ Sends (.expired t .post) (.expiry t) c := by
  cases hw with
  | doorBell => exact ⟨.ringBellExpiry, rfl, rfl, .doorBellExpiry⟩
  | resetStates => exact ⟨.motionScanOn, rfl, rfl, .resetStatesExpiry⟩

/-- A call of `main`'s `shutdown` is a step from outside. -/
private theorem advance_shutdownCall (h : Shape s q) (c : TeardownCall) (ok : Bool) :
    ∃ q', Advance q (teardownLabel .main ok c) q' ∧ Shape (s.afterTeardown c ok) q' := by
  refine ⟨_, .outside (by cases c <;> rfl), ?_⟩
  cases c with
  | timerStop t =>
      have hdisarm := h.disarm t .unarmed nofun ok
      cases ok
      · exact h
      · simpa [State.afterTeardown, teardownLabel, Place.disturb] using hdisarm
  | timerDestroy t =>
      have hdisarm := h.disarm t .deleted nofun ok
      cases ok
      · exact h
      · simpa [State.afterTeardown, teardownLabel, Place.disturb] using hdisarm
  | pthreadCancel th => exact h.pthreadCancel .main th ok

/-- The end of the monitor takes the activity with it if the monitor has it. -/
private theorem endMonitor (h : Shape s q) :
    Shape { s with monitor := .terminated }
      ⟨q.place.disturb (.threadEnd .monitor), q.count⟩ := by
  obtain ⟨pl, n⟩ := q
  by_cases hpl : pl.monitorPos = .getMessage
  · simp only [Place.disturb, hpl, ↓reduceIte]
    exact ⟨h.pipe, h.queue, h.timer, h.handlers, .inr ⟨rfl, hpl⟩, h.worker, h.count⟩
  · -- The monitor was at work on it.
    simp only [Place.disturb, hpl, ↓reduceIte]
    have hin : pl.InMonitor := by cases pl <;> simp_all [Place.InMonitor, Place.monitorPos]
    have hlost := h.moveMonitor hin .lost trivial
    exact ⟨hlost.pipe, hlost.queue, hlost.timer, hlost.handlers, .inr ⟨rfl, rfl⟩, hlost.worker,
      hlost.count⟩

/-- The end of a worker takes the activity with it if the worker has it. -/
private theorem endWorker (h : Shape s q) :
    Shape (s.setWorkerPos w .terminated)
      ⟨q.place.disturb (.threadEnd (.worker w)), q.count⟩ := by
  obtain ⟨pl, n⟩ := q
  by_cases hpl : pl.workerPos w = .read
  · simp only [Place.disturb, hpl, ↓reduceIte]
    refine ⟨h.pipe, h.queue, h.timer, h.handlers, h.monitor, fun w' => ?_, h.count⟩
    by_cases hw : w' = w
    · subst hw
      exact .inr ⟨by simp [State.setWorkerPos], hpl⟩
    · simpa [State.setWorkerPos, hw] using h.worker w'
  · -- The worker was at work on it.
    simp only [Place.disturb, hpl, ↓reduceIte]
    have hin : pl.InWorker w := by
      cases pl <;> simp_all [Place.InWorker, Place.workerPos]
    have hlost := h.moveWorker hin .lost trivial
    refine ⟨hlost.pipe, hlost.queue, hlost.timer, hlost.handlers, hlost.monitor, fun w' => ?_,
      hlost.count⟩
    by_cases hw : w' = w
    · subst hw
      exact .inr ⟨by simp [State.setWorkerPos], rfl⟩
    · simpa [State.setWorkerPos, hw] using hlost.worker w'

/-- One step of the process is one step of the activity. -/
theorem advance (h : Shape s q) (hm : Move s l s') (hl : l.receives = true) :
    ∃ q', Advance q l q' ∧ Shape s' q' := by
  obtain ⟨pl, n⟩ := q
  cases hm with
  -- Each case finds the place from the position of whoever moves, then the step from the place.
  | read w buff hpos hne hbuff =>
      obtain ⟨c, rfl, rfl, hframe⟩ := h.advance_read hne
      obtain rfl := hbuff.trans hframe
      rw [c.strEnum_frame]
      exact ⟨_, .read c n, h.takeCommand _⟩
  | readFail => cases hl
  | senseExit w e site hpos hs =>
      obtain ⟨c, rfl, rfl, hs'⟩ := h.eq_holds_of_senses hpos hs
      exact ⟨_, .senseExit hs', h.exit⟩
  | sense w e site data hpos hs hans =>
      obtain ⟨c, rfl, rfl, hs'⟩ := h.eq_holds_of_senses hpos hs
      exact ⟨_, .sense hs' hans, h⟩
  | decide w e e' site data hpos hs hans =>
      obtain ⟨c, rfl, rfl, hs'⟩ := h.eq_holds_of_senses hpos hs
      obtain ⟨m, rfl⟩ := exists_message_of_answer hans
      refine ⟨_, .decide hs' hans, ?_⟩
      have hmove := h.moveWorker (w := c.reader) rfl (.posting c.reader m) rfl
      simpa [Place.workerPos] using hmove
  | post w e ok hpos =>
      obtain ⟨m, rfl, rfl⟩ := Place.eq_posting (h.workerPos_eq hpos nofun)
      -- The worker lets go of the activity, and the post, if it succeeds, starts it in the queue.
      have hlost := h.moveWorker (w := w) rfl .lost trivial
      exact ⟨_, .post ok (.posting w m n), hlost.post _ m ok⟩
  | postExpiry ok hpos =>
      obtain ⟨c, rfl, hr, he⟩ := Place.eq_holds (h.workerPos_eq hpos nofun)
      obtain rfl : c = .ringBellExpiry := Command.event_injective he
      have hlost := h.moveWorker hr .lost trivial
      exact ⟨_, .post ok (.ringBellExpiry n), hlost.post _ .ringBellExpiry ok⟩
  | startBell ok hpos hok =>
      obtain ⟨c, rfl, hr, he⟩ := Place.eq_holds (h.workerPos_eq hpos nofun)
      obtain rfl : c = .ringBell := Command.event_injective he
      have hlost := h.moveWorker hr .lost trivial
      exact ⟨_, .start ok .ringBell, hlost.start .doorBell ok⟩
  | ignore w e hpos hh =>
      -- A worker that holds a command holds one of its own.
      obtain ⟨c, rfl, rfl, rfl⟩ := Place.eq_holds (h.workerPos_eq hpos nofun)
      rw [c.handles_event] at hh
      cases hh
  | monitorWrite p name ok hpos =>
      obtain ⟨c, rfl, rfl, hsends, hin⟩ := h.sends_of_monitorWrites hpos
      have hlost := h.moveMonitor hin .lost trivial
      exact ⟨_, .send ok hsends, hlost.send _ c ok⟩
  | monitorStart t delaySec ok hpos hok =>
      obtain ⟨hstarts, hin⟩ := h.starts_of_monitorStarts hpos
      have hlost := h.moveMonitor hin .lost trivial
      exact ⟨_, .start ok hstarts, hlost.start t ok⟩
  | msgrcv e rest hpos hqueue =>
      obtain ⟨m, rfl, rfl, rfl⟩ := Place.eq_queued (h.queue.symm.trans hqueue)
      exact ⟨_, .take m n, h.takeMessage⟩
  | msgrcvFail => cases hl
  | doorExit hpos =>
      obtain rfl := Place.eq_monitor_of .ringBellExpiry (h.monitorPos_eq hpos nofun)
      exact ⟨_, .doorExit n, h.exit⟩
  | pollExit hpos =>
      obtain rfl := Place.eq_pollDoor (h.monitorPos_eq hpos nofun)
      exact ⟨_, .pollExit n, h.exit⟩
  | door data hpos =>
      obtain rfl := Place.eq_monitor_of .ringBellExpiry (h.monitorPos_eq hpos nofun)
      refine ⟨_, .door data n, ?_⟩
      have hpos' : afterDoor data = (doorPlace data).monitorPos := by
        unfold afterDoor doorPlace
        split_ifs <;> rfl
      rw [hpos']
      refine h.moveMonitor trivial _ ?_
      unfold doorPlace
      split_ifs <;> trivial
  | poll data hpos =>
      obtain rfl := Place.eq_pollDoor (h.monitorPos_eq hpos nofun)
      refine ⟨_, .poll data n, ?_⟩
      have hpos' : afterPoll data = (pollPlace data).monitorPos := by
        unfold afterPoll pollPlace
        split_ifs <;> rfl
      rw [hpos']
      refine h.moveMonitor trivial _ ?_
      unfold pollPlace
      split_ifs <;> trivial
  | monitorIgnore e hpos hh =>
      -- Nor does a message reach the `default` branch.
      obtain ⟨m, rfl, rfl⟩ := Place.eq_monitor (h.monitorPos_eq hpos nofun)
      rw [m.monitorHandles_event] at hh
      cases hh
  | processReboot hpos =>
      obtain rfl := Place.eq_monitor_of .ecuNotWorking (h.monitorPos_eq hpos nofun)
      exact ⟨_, .processReboot n, h.moveMonitor trivial (.reboot _) trivial⟩
  | rebootCall c rest ok hpos hok =>
      obtain rfl := Place.eq_reboot (h.monitorPos_eq hpos nofun)
      refine ⟨_, .rebootCall c rest n ok, ?_⟩
      have hmove := h.moveMonitor trivial (.reboot rest) trivial
      cases c with
      | timerStop t =>
          simpa [State.afterTeardown, Place.monitorPos] using hmove.disarm t .unarmed nofun ok
      | timerDestroy t =>
          simpa [State.afterTeardown, Place.monitorPos] using hmove.disarm t .deleted nofun ok
      | pthreadCancel th => exact hmove.pthreadCancel .main th ok
  | execl hpos =>
      obtain rfl := Place.eq_reboot (h.monitorPos_eq hpos nofun)
      exact ⟨_, .execl n, shape_init⟩
  | execlFail hpos =>
      obtain rfl := Place.eq_reboot (h.monitorPos_eq hpos nofun)
      exact ⟨_, .execlFail n, h.moveMonitor trivial .lost trivial⟩
  | expire t harmed =>
      obtain rfl := (h.timer t).mp harmed
      exact ⟨_, .expire t n, h.expire (expiryStart t)⟩
  | countExpiry i hi =>
      -- The handler at work is the only one.
      rw [h.handlers] at hi
      obtain ⟨rfl, rfl⟩ := Place.eq_expired hi
      refine ⟨_, .countExpiry n, ?_⟩
      rw [h.count]
      exact h.moveHandler .stop (n + 1)
  | expiryStop i t ok hi hok =>
      rw [h.handlers] at hi
      obtain ⟨rfl, rfl⟩ := Place.eq_expired hi
      refine ⟨_, .stop t n ok, ?_⟩
      have hmove := h.moveHandler .post n
      have hcount : n = s.doorWaitExpiryCount := h.count.symm
      subst hcount
      simpa using hmove.disarm t .unarmed nofun ok
  | expiryWrite i t p name ok hi hw =>
      rw [h.handlers] at hi
      obtain ⟨rfl, rfl⟩ := Place.eq_expired hi
      obtain ⟨c, rfl, rfl, hsends⟩ := sends_of_expiryWrites hw
      exact ⟨_, .send ok hsends, h.endHandler.send _ c ok⟩
  | expiryPost i ok hi =>
      rw [h.handlers] at hi
      obtain ⟨rfl, rfl⟩ := Place.eq_expired hi
      have hcount : n = s.doorWaitExpiryCount := h.count.symm
      subst hcount
      rw [← Message.event_retry]
      exact ⟨_, .post ok (.doorOpenWaitExpiry _), h.endHandler.post _ (.retry _) ok⟩
  | watchExit hmain => exact ⟨_, .outside rfl, h.exit⟩
  | watch out hmain halive => exact ⟨_, .outside rfl, h⟩
  | watchDead out hmain hdead =>
      exact ⟨_, .outside rfl, h.pipe, h.queue, h.timer, h.handlers, h.monitor, h.worker, h.count⟩
  | shutdownCall c rest ok hmain hok =>
      have hmain' : Shape { s with main := .shutdown rest } ⟨pl, n⟩ :=
        ⟨h.pipe, h.queue, h.timer, h.handlers, h.monitor, h.worker, h.count⟩
      exact hmain'.advance_shutdownCall c ok
  | shutdownExit hmain => exact ⟨_, .outside rfl, h.exit⟩
  | endMonitor hc hpos => exact ⟨_, .outside rfl, h.endMonitor⟩
  | endWorker w hc hpos => exact ⟨_, .outside rfl, h.endWorker⟩

end Shape

/-- A run in which every receive succeeds is a run of the activity, label for label. -/
theorem Reaches.advances {tr : List Label} {s : State} (h : Reaches tr s)
    (hrecv : ∀ l ∈ tr, l.receives = true) : ∃ q, Run Advance .init tr q ∧ Shape s q :=
  Run.simulates h hrecv shape_init fun _ _ _ _ hshape hstep hl => hshape.advance hstep.move.2 hl

end DoorBell
