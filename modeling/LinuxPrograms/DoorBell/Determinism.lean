import LinuxPrograms.DoorBell.Steady

/-!
# Door bell: independence of the schedule

With every call succeeding, where the activity is decides the next step, up to what a sensor
reading returns (`Activity.next`). So two runs that get the same readings do the same, however
the threads and handlers are interleaved (`schedule_independent`).
-/

namespace DoorBell

open CString LabelledSystem

/-- What a step puts into a pipe or the queue, takes from the queue, or starts. -/
inductive Traffic
  | command (p : Pipe) (msgBuff : CBuffer maxMessageSize)
  | posted (e : Event)
  | taken (e : Event)
  | started (t : Timer) (delaySec : ℕ)
  deriving DecidableEq

/-- The traffic of a step. -/
def Label.traffic : Label → Option Traffic
  | write _ p msgBuff true => some (.command p msgBuff)
  | msgsnd _ e true => some (.posted e)
  | msgrcv e => some (.taken e)
  | timerStart _ t delaySec true => some (.started t delaySec)
  | _ => none

/-- What a call of `get_value` returns. -/
def Label.reading : Label → Option ReadData
  | getValue _ data => data
  | _ => none

/-- The step is a `get_value` that exits. -/
def Label.exits : Label → Bool
  | getValue _ none => true
  | _ => false

/-- The step is made inside the process, and the process goes on. -/
def Label.inner (l : Label) : Bool := !l.outside && !l.exits

/-- The message that carries an event. -/
def Message.ofEvent : Event → Option Message
  | .motionDetected => some motionDetected
  | .invalidDistance => some invalidDistance
  | .validDistance => some validDistance
  | .ringBellExpiry => some ringBellExpiry
  | .ecuNotWorking => some ecuNotWorking
  | .doorWaitExpiry => some doorWaitExpiry
  | .doorWaitRetryEnd => some doorWaitRetryEnd
  | _ => none

@[simp]
theorem Message.ofEvent_event (m : Message) : ofEvent m.event = some m := by
  cases m <;> rfl

/-! ## The sequential program as a function -/

/-- At this place a sensor is read. -/
def Place.reads : Place → Bool
  -- The scan loop, the distance thread, and the monitor after a ring and while the door is open.
  | holds .motionScanOn | holds .calcDistance | monitor .ringBellExpiry | pollDoor => true
  | _ => false

/-- A command is sent. -/
def Activity.send (q : Activity) (who : Actor) (c : Command) : Label × Activity :=
  (.write who c.pipe c.frame true, ⟨.inPipe c, q.count⟩)

/-- A message is posted. -/
def Activity.post (q : Activity) (who : Actor) (m : Message) : Label × Activity :=
  (.msgsnd who m.event true, ⟨.queued m, q.count⟩)

/-- A timer is started. -/
def Activity.start (q : Activity) (who : Actor) (t : Timer) (delaySec : ℕ) : Label × Activity :=
  (.timerStart who t delaySec true, ⟨.armed t, q.count⟩)

/-- A worker reads its sensor. -/
def Activity.sense (q : Activity) (w : Worker) (site : Site) (data : ReadData) : Label × Activity :=
  (.getValue site (some data),
    match (answer w data).bind Message.ofEvent with
    | some m => ⟨.posting w m, q.count⟩
    | none => q)

/-- The next step when every call succeeds, `data` being what a reading returns. -/
def Activity.next (q : Activity) (data : ReadData) : Option (Label × Activity) :=
  match q.place with
  | .startUp | .postScan | .monitor .invalidDistance => q.send (.thread .monitor) .motionScanOn
  | .monitor .motionDetected => q.send (.thread .monitor) .calcDistance
  | .monitor .validDistance | .monitor .doorWaitExpiry => q.send (.thread .monitor) .ringBell
  | .expired .doorBell .post => q.send (.expiry .doorBell) .ringBellExpiry
  | .expired .resetStates .post => q.send (.expiry .resetStates) .motionScanOn
  | .inPipe c => some (.read c.reader c.frame, ⟨.holds c, q.count⟩)
  -- A worker at its `switch`: two commands have it read its sensor, two concern the bell.
  | .holds .motionScanOn => q.sense .motion .motion data
  | .holds .calcDistance => q.sense .distance .distance data
  | .holds .ringBell => q.start (.thread (.worker .doorBell)) .doorBell 3
  | .holds .ringBellExpiry => q.post (.thread (.worker .doorBell)) .ringBellExpiry
  | .posting w m => q.post (.thread (.worker w)) m
  | .queued m => some (.msgrcv m.event, ⟨.monitor m, q.count⟩)
  | .monitor .ringBellExpiry => some (.getValue .door (some data), ⟨doorPlace data, q.count⟩)
  | .pollDoor => some (.getValue .poll (some data), ⟨pollPlace data, q.count⟩)
  | .startWait => q.start (.thread .monitor) .doorOpenWait 30
  | .monitor .doorWaitRetryEnd => q.start (.thread .monitor) .resetStates 600
  | .monitor .ecuNotWorking => some (.processReboot, ⟨.reboot processRebootCalls, q.count⟩)
  | .reboot (c :: rest) => some (teardownLabel (.thread .monitor) true c, ⟨.reboot rest, q.count⟩)
  | .reboot [] => some (.execl true, .init)
  -- The timers and their handlers; only the one of the door wait counts.
  | .armed t => some (.expire t, ⟨.expired t (expiryStart t), q.count⟩)
  | .expired .doorOpenWait .count =>
      some (.countExpiry, ⟨.expired .doorOpenWait .stop, q.count + 1⟩)
  | .expired t .stop => some (.timerStop (.expiry t) t true, ⟨.expired t .post, q.count⟩)
  | .expired .doorOpenWait .post => q.post (.expiry .doorOpenWait) (.retry q.count)
  | .expired _ .count | .lost => none

/-- A step inside the process whose call succeeds. -/
def Inner (q : Activity) (l : Label) (q' : Activity) : Prop :=
  Steady q l q' ∧ l.inner = true

section Next

variable {q q' : Activity} {l : Label}

/-- The commands on which a worker reads its sensor. -/
theorem eq_of_senses {c : Command} {site : Site} (h : Senses c.reader c.event site) :
    (c = .motionScanOn ∧ site = .motion) ∨ (c = .calcDistance ∧ site = .distance) := by
  cases c with
  | motionScanOn => cases h; exact .inl ⟨rfl, rfl⟩
  | calcDistance => cases h; exact .inr ⟨rfl, rfl⟩
  | ringBell => cases h
  | ringBellExpiry => cases h

/-- A worker that reads its sensor goes on as its answer says. -/
private theorem next_of_senses {c : Command} {n : ℤ} {site : Site} {data : ReadData}
    (h : Senses c.reader c.event site) :
    Activity.next ⟨.holds c, n⟩ data = some (Activity.sense ⟨.holds c, n⟩ c.reader site data) := by
  rcases eq_of_senses h with ⟨rfl, rfl⟩ | ⟨rfl, rfl⟩
  · rfl
  · rfl

/-- A steady step inside the process is the next step for what it reads. -/
theorem Inner.next_eq (h : Inner q l q') {data : ReadData}
    (hdata : ∀ d ∈ l.reading, d = data) : q.next data = some (l, q') := by
  obtain ⟨⟨hadv, hl, -⟩, hin⟩ := h
  cases hadv with
  | send ok h =>
      obtain rfl : ok = true := hl
      cases h <;> rfl
  | post ok h =>
      obtain rfl : ok = true := hl
      cases h <;> rfl
  | start ok h =>
      obtain rfl : ok = true := hl
      cases h <;> rfl
  | stop t n ok =>
      obtain rfl : ok = true := hl
      cases t <;> rfl
  | rebootCall c rest n ok =>
      obtain rfl : ok = true := by cases c <;> exact hl
      rfl
  -- A reading: it is the one `next` was given, and the answer to it says where to go on.
  | sense h hans =>
      obtain rfl := hdata _ rfl
      rw [next_of_senses h, Activity.sense, hans]
      rfl
  | decide h hans =>
      obtain rfl := hdata _ rfl
      rw [next_of_senses h, Activity.sense, hans, Option.bind_some, Message.ofEvent_event]
  | door d =>
      obtain rfl := hdata d rfl
      rfl
  | poll d =>
      obtain rfl := hdata d rfl
      rfl
  -- Steps from outside and the exits are not `Inner`.
  | outside h => simp [Label.inner, h] at hin
  | senseExit => simp [Label.inner, Label.exits] at hin
  | doorExit => simp [Label.inner, Label.exits] at hin
  | pollExit => simp [Label.inner, Label.exits] at hin
  | execlFail => cases hl
  | _ => rfl

/-- A steady step inside the process returns a reading exactly at the places where one is due. -/
theorem Inner.reading_isSome (h : Inner q l q') : l.reading.isSome = q.place.reads := by
  obtain ⟨⟨hadv, hl, -⟩, hin⟩ := h
  cases hadv with
  | send ok h => cases h <;> rfl
  | post ok h =>
      cases h with
      | posting w => cases w <;> rfl
      | _ => rfl
  | start ok h => cases h <;> rfl
  | read c => rfl
  | sense h => rcases eq_of_senses h with ⟨rfl, rfl⟩ | ⟨rfl, rfl⟩ <;> rfl
  | decide h => rcases eq_of_senses h with ⟨rfl, rfl⟩ | ⟨rfl, rfl⟩ <;> rfl
  | rebootCall c => cases c <;> rfl
  | outside h => simp [Label.inner, h] at hin
  | senseExit => simp [Label.inner, Label.exits] at hin
  | doorExit => simp [Label.inner, Label.exits] at hin
  | pollExit => simp [Label.inner, Label.exits] at hin
  | _ => rfl

end Next

/-! ## Two runs -/

/-- What a reading returns decides which step inside the process is taken. -/
theorem inner_inputDetermined : InputDetermined Inner Label.reading := by
  intro q l₁ l₂ q₁ q₂ h₁ h₂
  refine ⟨h₁.reading_isSome.trans h₂.reading_isSome.symm, fun hsame => ?_⟩
  -- Both steps are the next step for the reading they share; without one, any will do.
  obtain ⟨data, hdata⟩ : ∃ data, ∀ d ∈ l₁.reading, d = data := by
    cases l₁.reading with
    | none => exact ⟨⟨0, 0⟩, nofun⟩
    | some d => exact ⟨d, fun d' hd' => (Option.mem_some.mp hd').symm⟩
  have hnext : some (l₁, q₁) = some (l₂, q₂) :=
    (h₁.next_eq hdata).symm.trans (h₂.next_eq (hsame ▸ hdata))
  exact Prod.ext_iff.mp (Option.some.inj hnext)

section Projections

variable {l : Label}

private theorem Label.traffic_of_not_inner (h : l.inner = false) : l.traffic = none := by
  cases l <;> simp_all [Label.inner, Label.outside, Label.exits, Label.traffic]

private theorem Label.reading_of_not_inner (h : l.inner = false) : l.reading = none := by
  cases l with
  | getValue site data => cases data <;> simp_all [Label.inner, Label.outside, Label.exits, reading]
  | _ => rfl

/-- A projection that is blind to the other steps does not miss their labels. -/
private theorem filterMap_filter_inner {α : Type} {f : Label → Option α} (tr : List Label)
    (hf : ∀ l : Label, l.inner = false → f l = none) :
    (tr.filter Label.inner).filterMap f = tr.filterMap f := by
  rw [List.filterMap_filter]
  refine List.filterMap_congr fun l _ => ?_
  cases hin : l.inner with
  | true => simp
  | false => simp [hf l hin]

/-- A step that is not made inside the process, or ends it, leaves the activity alone. -/
private theorem Steady.eq_of_not_inner {q q' : Activity} (h : Steady q l q')
    (hin : l.inner = false) : q' = q := by
  cases hout : l.outside with
  | true => exact h.outside hout
  | false =>
      have hexits : l.exits = true := by simpa [Label.inner, hout] using hin
      obtain ⟨hadv, -, -⟩ := h
      -- What is left are the exits; they end the process and leave the place as it is.
      cases hadv with
      | senseExit => rfl
      | doorExit => rfl
      | pollExit => rfl
      | rebootCall c => cases c <;> cases hexits
      | outside h => simp [h] at hout
      | _ => cases hexits

end Projections

/-- Without the other steps, a run in which every call succeeds is a run of the steps inside the
process. -/
theorem Reaches.inner {tr : List Label} {s : State} (h : Reaches tr s)
    (hok : ∀ l ∈ tr, l.succeeds = true) : ∃ q, Run Inner .init (tr.filter Label.inner) q := by
  obtain ⟨q, hrun, -⟩ := h.steady hok
  exact ⟨q, hrun.filter (Q := fun _ => True) (fun _ _ => trivial)
    (fun _ _ _ hstep _ hin => ⟨hstep, hin⟩) fun _ _ _ hstep _ hin => hstep.eq_of_not_inner hin⟩

/-- Two runs with every call succeeding, whose readings are the first ones of one sequence: the
traffic of one is a prefix of the traffic of the other. -/
theorem schedule_independent {tr₁ tr₂ : List Label} {s₁ s₂ : State} {readings : List ReadData}
    (h₁ : Reaches tr₁ s₁) (h₂ : Reaches tr₂ s₂)
    (hok₁ : ∀ l ∈ tr₁, l.succeeds = true) (hok₂ : ∀ l ∈ tr₂, l.succeeds = true)
    (hr₁ : tr₁.filterMap Label.reading <+: readings)
    (hr₂ : tr₂.filterMap Label.reading <+: readings) :
    tr₁.filterMap Label.traffic <+: tr₂.filterMap Label.traffic ∨
      tr₂.filterMap Label.traffic <+: tr₁.filterMap Label.traffic := by
  obtain ⟨q₁, hrun₁⟩ := h₁.inner hok₁
  obtain ⟨q₂, hrun₂⟩ := h₂.inner hok₂
  -- Readings and traffic are those of the steps inside the process, which the readings determine.
  rw [← filterMap_filter_inner tr₁ fun _ => Label.reading_of_not_inner] at hr₁
  rw [← filterMap_filter_inner tr₂ fun _ => Label.reading_of_not_inner] at hr₂
  rw [← filterMap_filter_inner tr₁ fun _ => Label.traffic_of_not_inner,
    ← filterMap_filter_inner tr₂ fun _ => Label.traffic_of_not_inner]
  rcases Run.comparable inner_inputDetermined hrun₁ hrun₂ hr₁ hr₂ with h | h
  · exact .inl (h.filterMap _)
  · exact .inr (h.filterMap _)

section Examples

open Schedule

/-- A round of the watch loop that finds the listing `ps` wrote. -/
def Schedule.watch : Act := .main (.listing (some (text "    PID    SPID TTY          TIME CMD")))

/-- Two runs of one visit: in the second, `main` looks after the threads in between, and the bell
has not been rung yet. -/
theorem schedule_independent_visit :
    ∃ tr₁ tr₂ s₁ s₂, Reaches tr₁ s₁ ∧ Reaches tr₂ s₂ ∧
      tr₁.filterMap Label.reading = [⟨1, 0⟩, ⟨5, 0⟩] ∧
      tr₂.filterMap Label.reading = [⟨1, 0⟩] ∧
      (tr₁.filterMap Label.traffic <+: tr₂.filterMap Label.traffic ∨
        tr₂.filterMap Label.traffic <+: tr₁.filterMap Label.traffic) := by
  have h₁ := run_play step .init (startUp ++ motion ++ distance ++ ring)
  have h₂ := run_play step .init (startUp ++ [watch] ++ motion ++ [watch])
  refine ⟨_, _, _, _, h₁, h₂, ?_, ?_,
    @schedule_independent _ _ _ _ [⟨1, 0⟩, ⟨5, 0⟩] h₁ h₂ ?_ ?_ ?_ ?_⟩
  all_goals decide +kernel

end Examples

end DoorBell
