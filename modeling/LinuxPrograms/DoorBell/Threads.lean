import LinuxPrograms.DoorBell.OneActivity

/-!
# Door bell: one thread at a time

The steps of the process as one thread of it sees them: its own, listed by `WorkerMove` and
`MonitorMove`, and those of the others, which leave it where it is.

- `Label.by`: the thread that makes a step.
- `Move.worker`, `Move.monitor`: a step of the process seen from a worker, or from the monitor.
-/

namespace DoorBell

open CString LabelledSystem

/-- The step is a call, or another step of its own code, of the thread. -/
def Label.by (th : Thread) : Label → Bool
  | write who _ _ _ | msgsnd who _ _ | timerStart who _ _ _ => who = .thread th
  | timerStop who _ _ | timerDestroy who _ _ | pthreadCancel who _ _ => who = .thread th
  | read w _ | readFail w _ => th = .worker w
  | msgrcv _ | msgrcvFail | processReboot | execl _ => th = .monitor
  | getValue site _ => site.thread = th
  | invalidEvent th' => th' = th
  | emptyCase => th = .worker .distance
  | _ => false

/-- The steps of a worker, from position to position. -/
inductive WorkerMove (w : Worker) : WorkerPos → Label → WorkerPos → Prop
  | read (buff : CBuffer maxMessageSize) :
      WorkerMove w .read (.read w buff) (.switch (strEnum (some buff.bytes)))
  | readFail (buff : CBuffer maxMessageSize) :
      WorkerMove w .read (.readFail w buff) (.switch (strEnum (some buff.bytes)))
  | senseExit {e : Event} {site : Site} (hs : Senses w e site) :
      WorkerMove w (.switch e) (.getValue site none) (.switch e)
  | sense {e : Event} {site : Site} {data : ReadData} (hs : Senses w e site)
      (hans : answer w data = none) :
      WorkerMove w (.switch e) (.getValue site (some data)) (.switch e)
  | decide {e e' : Event} {site : Site} {data : ReadData} (hs : Senses w e site)
      (hans : answer w data = some e') :
      WorkerMove w (.switch e) (.getValue site (some data)) (.post e')
  | post (e : Event) (ok : Bool) :
      WorkerMove w (.post e) (.msgsnd (.thread (.worker w)) e ok) .read
  | postExpiry (ok : Bool) (hw : w = .doorBell) :
      WorkerMove w (.switch .ringBellExpiry) (.msgsnd (.thread (.worker w)) .ringBellExpiry ok)
        .read
  | startBell (ok : Bool) (hw : w = .doorBell) :
      WorkerMove w (.switch .ringBell) (.timerStart (.thread (.worker w)) .doorBell 3 ok) .read
  | ignore (e : Event) (hh : w.handles e = false) :
      WorkerMove w (.switch e) (ignoreLabel w e) .read

/-- The steps of the monitor, from position to position. -/
inductive MonitorMove : MonitorPos → Label → MonitorPos → Prop
  | write {pos : MonitorPos} {p : Pipe} {name : String} (ok : Bool) (h : MonitorWrites pos p name) :
      MonitorMove pos (.write (.thread .monitor) p (message name) ok) .getMessage
  | start {pos : MonitorPos} {t : Timer} {delaySec : ℕ} (ok : Bool)
      (h : MonitorStarts pos t delaySec) :
      MonitorMove pos (.timerStart (.thread .monitor) t delaySec ok) .getMessage
  | msgrcv (e : Event) : MonitorMove .getMessage (.msgrcv e) (.switch e)
  | msgrcvFail : MonitorMove .getMessage .msgrcvFail (.switch clearedEvent)
  | doorExit :
      MonitorMove (.switch .ringBellExpiry) (.getValue .door none) (.switch .ringBellExpiry)
  | pollExit : MonitorMove .pollDoor (.getValue .poll none) .pollDoor
  | door (data : ReadData) :
      MonitorMove (.switch .ringBellExpiry) (.getValue .door (some data)) (afterDoor data)
  | poll (data : ReadData) : MonitorMove .pollDoor (.getValue .poll (some data)) (afterPoll data)
  | ignore (e : Event) (hh : monitorHandles e = false) :
      MonitorMove (.switch e) (.invalidEvent .monitor) .getMessage
  | processReboot :
      MonitorMove (.switch .ecuNotWorking) .processReboot (.reboot processRebootCalls)
  | rebootCall (c : TeardownCall) (rest : List TeardownCall) (ok : Bool) :
      MonitorMove (.reboot (c :: rest)) (teardownLabel (.thread .monitor) ok c) (.reboot rest)
  | execl : MonitorMove (.reboot []) (.execl true) .startUp
  | execlFail : MonitorMove (.reboot []) (.execl false) .getMessage

section Frame

variable (s : State) (w w' : Worker)

@[simp]
theorem State.pos_setWorkerPos (pos : WorkerPos) :
    ((s.setWorkerPos w' pos).worker w).pos = if w = w' then pos else (s.worker w).pos := by
  by_cases hw : w = w'
  · subst hw
    simp [State.setWorkerPos]
  · simp [State.setWorkerPos, hw]

@[simp]
theorem State.pos_setMsgBuff (b : CBuffer maxMessageSize) :
    ((s.setMsgBuff w' b).worker w).pos = (s.worker w).pos := by
  by_cases hw : w = w'
  · subst hw
    simp [State.setMsgBuff]
  · simp [State.setMsgBuff, hw]

@[simp]
theorem State.pos_afterTimer (t : Timer) (target : TimerState) (ok : Bool) :
    ((s.afterTimer t target ok).worker w).pos = (s.worker w).pos := by
  cases ok <;> rfl

@[simp]
theorem State.pos_afterTeardown (c : TeardownCall) (ok : Bool) :
    ((s.afterTeardown c ok).worker w).pos = (s.worker w).pos := by
  cases c with
  | timerStop t => simp [State.afterTeardown]
  | timerDestroy t => simp [State.afterTeardown]
  | pthreadCancel th =>
      cases th with
      | monitor => rfl
      | worker w' =>
          by_cases hw : w = w'
          · subst hw
            simp [State.afterTeardown, State.pthreadCancel]
          · simp [State.afterTeardown, State.pthreadCancel, hw]

@[simp]
theorem State.monitor_afterTimer (t : Timer) (target : TimerState) (ok : Bool) :
    (s.afterTimer t target ok).monitor = s.monitor := by
  cases ok <;> rfl

@[simp]
theorem State.monitor_afterTeardown (c : TeardownCall) (ok : Bool) :
    (s.afterTeardown c ok).monitor = s.monitor := by
  cases c with
  | timerStop t => simp [State.afterTeardown]
  | timerDestroy t => simp [State.afterTeardown]
  | pthreadCancel th => cases th <;> rfl

end Frame

section Projections

variable {s s' : State} {l : Label}

@[simp]
theorem by_teardownLabel (th : Thread) (who : Actor) (ok : Bool) (c : TeardownCall) :
    (teardownLabel who ok c).by th = decide (who = .thread th) := by
  cases c <;> rfl

@[simp]
theorem by_ignoreLabel (th : Thread) (w : Worker) (e : Event) :
    (ignoreLabel w e).by th = decide (th = .worker w) := by
  unfold ignoreLabel
  split
  · next h => rw [h.1]; rfl
  · simp [Label.by, eq_comm]

/-- A worker's sensor is read in its thread. -/
theorem Senses.thread_eq {w : Worker} {e : Event} {site : Site} (h : Senses w e site) :
    site.thread = .worker w := by
  cases h <;> rfl

/-- How a step looks from the worker `w`: it is one of its own, or leaves it where it is, or ends
it. -/
def SeenFrom (w : Worker) (s : State) (l : Label) (s' : State) : Prop :=
  (l.by (.worker w) = true ∧ WorkerMove w (s.worker w).pos l (s'.worker w).pos) ∨
    (l.by (.worker w) = false ∧ ((s'.worker w).pos = (s.worker w).pos ∨
      (l = .threadEnd (.worker w) ∧ (s'.worker w).pos = .terminated) ∨ l = .execl true))

/-- A step of the worker `w₀` from its position `pos` to `pos'`, seen from any worker. -/
private theorem seenFrom_of_worker {w w₀ : Worker} {pos pos' : WorkerPos}
    (hpos : (s.worker w₀).pos = pos) (hmove : WorkerMove w₀ pos l pos')
    (hby : l.by (.worker w) = decide (w = w₀))
    (hs' : (s'.worker w).pos = if w = w₀ then pos' else (s.worker w).pos) : SeenFrom w s l s' := by
  by_cases hw : w = w₀
  · subst hw
    refine .inl ⟨by simp [hby], ?_⟩
    rw [hs', if_pos rfl, hpos]
    exact hmove
  · refine .inr ⟨by simp [hby, hw], .inl ?_⟩
    rw [hs', if_neg hw]

/-- A step of somebody else leaves the worker where it is. -/
private theorem seenFrom_of_other {w : Worker} (hby : l.by (.worker w) = false)
    (hs' : (s'.worker w).pos = (s.worker w).pos) : SeenFrom w s l s' :=
  .inr ⟨hby, .inl hs'⟩

/-- A worker's reading is made in its thread. -/
private theorem by_getValue {w₀ : Worker} {e : Event} {site : Site} (hs : Senses w₀ e site)
    (w : Worker) (data : Option ReadData) :
    (Label.getValue site data).by (.worker w) = decide (w = w₀) := by
  simp [Label.by, hs.thread_eq, eq_comm]

/-- A worker that stays where it is. -/
private theorem pos_eq_ite {w₀ : Worker} {pos : WorkerPos} (hpos : (s.worker w₀).pos = pos)
    (w : Worker) : (s.worker w).pos = if w = w₀ then pos else (s.worker w).pos := by
  split_ifs with hw
  · rw [hw, hpos]
  · rfl

/-- Every step is seen from a worker as one of its own or one of somebody else. -/
theorem Move.worker (h : Move s l s') (w : Worker) : SeenFrom w s l s' := by
  cases h with
  | read w₀ buff hpos =>
      exact seenFrom_of_worker hpos (.read buff) (by simp [Label.by]) (by simp; rfl)
  | readFail w₀ hpos =>
      exact seenFrom_of_worker hpos (.readFail _) (by simp [Label.by]) (by simp)
  | senseExit w₀ e site hpos hs =>
      exact seenFrom_of_worker hpos (.senseExit hs) (by_getValue hs w none) (pos_eq_ite hpos w)
  | sense w₀ e site data hpos hs hans =>
      exact seenFrom_of_worker hpos (.sense hs hans) (by_getValue hs w (some data))
        (pos_eq_ite hpos w)
  | decide w₀ e e' site data hpos hs hans =>
      exact seenFrom_of_worker hpos (.decide hs hans) (by_getValue hs w (some data)) (by simp)
  | post w₀ e ok hpos =>
      exact seenFrom_of_worker hpos (.post e ok) (by simp [Label.by, eq_comm])
        (State.pos_setWorkerPos s w w₀ .read)
  | postExpiry ok hpos =>
      exact seenFrom_of_worker hpos (.postExpiry ok rfl) (by simp [Label.by, eq_comm])
        (State.pos_setWorkerPos s w .doorBell .read)
  | startBell ok hpos =>
      exact seenFrom_of_worker hpos (.startBell ok rfl) (by simp [Label.by, eq_comm]) (by simp)
  | ignore w₀ e hpos hh =>
      exact seenFrom_of_worker hpos (.ignore e hh) (by simp) (by simp)
  -- From here on it is the monitor, a handler, `main` or the kernel that moves.
  | monitorStart => exact seenFrom_of_other rfl (by simp)
  | rebootCall => exact seenFrom_of_other (by simp) (by simp)
  | expiryStop => exact seenFrom_of_other rfl (by simp)
  | shutdownCall => exact seenFrom_of_other (by simp) (by simp)
  | execl => exact .inr ⟨rfl, .inr (.inr rfl)⟩
  | endWorker w₀ =>
      by_cases hw : w = w₀
      · subst hw
        exact .inr ⟨rfl, .inr (.inl ⟨rfl, by simp⟩)⟩
      · exact seenFrom_of_other rfl (by simp [hw])
  | _ => exact seenFrom_of_other rfl rfl

/-- How a step looks from the monitor: it is one of its own, or leaves it where it is, or ends
it. -/
def SeenFromMonitor (s : State) (l : Label) (s' : State) : Prop :=
  (l.by .monitor = true ∧ MonitorMove s.monitor l s'.monitor) ∨
    (l.by .monitor = false ∧ (s'.monitor = s.monitor ∨ s'.monitor = .terminated))

/-- A step of the monitor from its position `pos`. -/
private theorem seenFromMonitor_of_own {pos : MonitorPos} (hpos : s.monitor = pos)
    (hmove : MonitorMove pos l s'.monitor) (hby : l.by .monitor = true) :
    SeenFromMonitor s l s' := by
  refine .inl ⟨hby, ?_⟩
  rw [hpos]
  exact hmove

/-- Every step is one of the monitor's own, or leaves it where it is, or ends it. -/
theorem Move.monitor (h : Move s l s') : SeenFromMonitor s l s' := by
  cases h with
  | monitorWrite p name ok hpos => exact .inl ⟨rfl, .write ok hpos⟩
  | monitorStart t delaySec ok hpos =>
      refine .inl ⟨by simp [Label.by], ?_⟩
      rw [State.monitor_afterTimer]
      exact .start ok hpos
  | msgrcv e rest hpos => exact seenFromMonitor_of_own hpos (.msgrcv e) rfl
  | msgrcvFail hpos => exact seenFromMonitor_of_own hpos .msgrcvFail rfl
  | doorExit hpos =>
      exact seenFromMonitor_of_own hpos (by rw [State.exit, hpos]; exact .doorExit) rfl
  | pollExit hpos =>
      exact seenFromMonitor_of_own hpos (by rw [State.exit, hpos]; exact .pollExit) rfl
  | door data hpos => exact seenFromMonitor_of_own hpos (.door data) rfl
  | poll data hpos => exact seenFromMonitor_of_own hpos (.poll data) rfl
  | monitorIgnore e hpos hh => exact seenFromMonitor_of_own hpos (.ignore e hh) rfl
  | processReboot hpos => exact seenFromMonitor_of_own hpos .processReboot rfl
  | rebootCall c rest ok hpos =>
      refine seenFromMonitor_of_own hpos ?_ (by simp)
      rw [State.monitor_afterTeardown]
      exact .rebootCall c rest ok
  | execl hpos => exact seenFromMonitor_of_own hpos .execl rfl
  | execlFail hpos => exact seenFromMonitor_of_own hpos .execlFail rfl
  -- From here on it is a worker, a handler, `main` or the kernel that moves.
  | senseExit w e site hpos hs => exact .inr ⟨by simp [Label.by, hs.thread_eq], .inl rfl⟩
  | sense w e site data hpos hs => exact .inr ⟨by simp [Label.by, hs.thread_eq], .inl rfl⟩
  | decide w e e' site data hpos hs => exact .inr ⟨by simp [Label.by, hs.thread_eq], .inl rfl⟩
  | startBell => exact .inr ⟨rfl, .inl (by simp; rfl)⟩
  | ignore => exact .inr ⟨by simp, .inl rfl⟩
  | expiryStop => exact .inr ⟨rfl, .inl (by simp)⟩
  | shutdownCall => exact .inr ⟨by simp, .inl (by simp)⟩
  | endMonitor => exact .inr ⟨rfl, .inr rfl⟩
  | _ => exact .inr ⟨rfl, .inl rfl⟩

end Projections

end DoorBell
