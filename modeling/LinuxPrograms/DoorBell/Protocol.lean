import LinuxPrograms.DoorBell.OneActivity

/-!
# Door bell: the order of the protocol

What can be seen of a run - the commands written to the pipes, the messages taken from the
queue, the timers started and the readings of the door - is a prefix of a sequence of visits.

- `Rings`, `Visit`, `Visits`: the sequences of a ring, a visit and the life of a process.
- `Cont`: what may follow at a place of the activity; `Advance.cont` reads each step of the
  activity as a step in that language.
- `protocol_order`: between two restarts, every run is a prefix of some `Visits`.
-/

namespace DoorBell

open CString LabelledSystem

/-! ## Visits -/

/-- What is seen of a run. -/
inductive Visible
  | command (p : Pipe) (msgBuff : CBuffer maxMessageSize)
  | taken (e : Event)
  | started (t : Timer) (delaySec : ℕ)
  | door (data : ReadData)
  | poll (data : ReadData)

/-- What is seen of a step. -/
def Label.visible : Label → Option Visible
  | write _ p msgBuff true => some (.command p msgBuff)
  | msgrcv e => some (.taken e)
  | timerStart _ t delaySec true => some (.started t delaySec)
  | getValue .door (some data) => some (.door data)
  | getValue .poll (some data) => some (.poll data)
  | _ => none

/-- The command that starts a visit. -/
def scan : Visible := .command .t1 (message "MOTION_SCAN_ON")

/-- The start of a visit, up to the answer of the distance thread. -/
def approach : List Visible :=
  [scan, .taken .motionDetected, .command .t2 (message "CALC_DISTANCE")]

/-- The command that starts a ring. -/
def bell : Visible := .command .t3 (message "RING_BELL")

/-- The expiry of the bell timer, sent to the door bell thread. -/
def bellExpiry : Visible := .command .t3 (message "RING_BELL_EXPIRY")

/-- A ring, up to the door reading. -/
def ringing : List Visible := [bell, .started .doorBell 3, bellExpiry, .taken .ringBellExpiry]

/-- The end of the last ring of a visit, from the door reading on. -/
inductive Answered : List Visible → Prop
  | opened (data : ReadData) (polls : List ReadData) (data' : ReadData)
      (h : data.value = doorOpen) (hpolls : ∀ d ∈ polls, d.value = doorOpen)
      (h' : data'.value ≠ doorOpen) :
      Answered (.door data :: polls.map .poll ++ [.poll data'])
  | retryEnd (data : ReadData) (h : data.value = doorClosed) :
      Answered [.door data, .started .doorOpenWait 30, .taken .doorWaitRetryEnd,
        .started .resetStates 600]

/-- A door reading that is neither open nor closed, after which nothing follows. -/
inductive Unanswered : List Visible → Prop
  | door (data : ReadData) (ho : data.value ≠ doorOpen) (hc : data.value ≠ doorClosed) :
      Unanswered [.door data]

/-- One or more rings, with a closed door and an expired wait between two of them; the last
ends as `Last` says. -/
inductive Rings (Last : List Visible → Prop) : List Visible → Prop
  | last {x : List Visible} (h : Last x) : Rings Last (ringing ++ x)
  | again (data : ReadData) {x : List Visible} (h : data.value = doorClosed)
      (hx : Rings Last x) :
      Rings Last (ringing ++ .door data :: .started .doorOpenWait 30 :: .taken .doorWaitExpiry :: x)

/-- One visit. -/
inductive Visit : List Visible → Prop
  | invalidDistance : Visit (approach ++ [.taken .invalidDistance])
  | validDistance {x : List Visible} (h : Rings Answered x) :
      Visit (approach ++ .taken .validDistance :: x)

/-- A visit that is not completed: an ECU does not work, and the process restarts, or the door
is read neither open nor closed. -/
inductive CutVisit : List Visible → Prop
  | motion : CutVisit [scan, .taken .ecuNotWorking]
  | distance : CutVisit (approach ++ [.taken .ecuNotWorking])
  | door {x : List Visible} (h : Rings Unanswered x) :
      CutVisit (approach ++ .taken .validDistance :: x)

/-- The life of a process: visits, and at most one cut visit at the end. -/
inductive Visits : List Visible → Prop
  | nil : Visits []
  | visit {x y : List Visible} (h : Visit x) (hy : Visits y) : Visits (x ++ y)
  | cut {x : List Visible} (h : CutVisit x) : Visits x

/-- What may follow once a ring is due: rings that end the visit and then further visits, or
rings that end in an unanswered one. -/
def RingsThen (x : List Visible) : Prop :=
  (∃ r v, x = r ++ v ∧ Rings Answered r ∧ Visits v) ∨ Rings Unanswered x

namespace RingsThen

variable {x : List Visible}

/-- A last ring, and then visits. -/
theorem last {y : List Visible} (hy : Answered y) (hx : Visits x) :
    RingsThen (ringing ++ y ++ x) :=
  .inl ⟨ringing ++ y, x, rfl, .last hy, hx⟩

/-- A ring at a closed door, and then further rings. -/
theorem again {data : ReadData} (h : data.value = doorClosed) (hx : RingsThen x) :
    RingsThen
      (ringing ++ .door data :: .started .doorOpenWait 30 :: .taken .doorWaitExpiry :: x) := by
  rcases hx with ⟨r, v, rfl, hr, hv⟩ | hx
  · refine .inl ⟨_, v, ?_, .again data h hr, hv⟩
    simp
  · exact .inr (.again data h hx)

/-- The rings of a visit complete it. -/
theorem visits (hx : RingsThen x) : Visits (approach ++ .taken .validDistance :: x) := by
  rcases hx with ⟨r, v, rfl, hr, hv⟩ | hx
  · have hvisit := Visits.visit (.validDistance hr) hv
    simpa using hvisit
  · exact .cut (.door hx)

/-- A ring that nobody answers. -/
theorem unanswered : RingsThen (ringing ++ [.door ⟨2, 0⟩]) :=
  .inr (.last (.door _ (by decide) (by decide)))

end RingsThen

/-! ## What may follow at a place -/

/-- What may follow once a door reading was closed. -/
def AfterClosed (x : List Visible) : Prop :=
  ∀ data : ReadData, data.value = doorClosed → RingsThen (ringing ++ .door data :: x)

/-- What may follow while the open door is polled. -/
def AfterOpen (x : List Visible) : Prop :=
  ∀ (data : ReadData) (polls : List ReadData), data.value = doorOpen →
    (∀ d ∈ polls, d.value = doorOpen) → RingsThen (ringing ++ .door data :: polls.map .poll ++ x)

/-- What may be seen from a place of the activity on, up to a restart. -/
def Cont : Place → List Visible → Prop
  -- Between two visits.
  | .startUp | .postScan | .monitor .invalidDistance => Visits
  | .armed .resetStates | .expired .resetStates _ => Visits
  -- From the scan to the answer of the distance thread: what has been seen of the visit stands
  -- before what follows.
  | .inPipe .motionScanOn | .holds .motionScanOn => fun x => Visits (scan :: x)
  | .posting _ .motionDetected | .queued .motionDetected => fun x => Visits (scan :: x)
  | .monitor .motionDetected => fun x => Visits (scan :: .taken .motionDetected :: x)
  | .inPipe .calcDistance | .holds .calcDistance => fun x => Visits (approach ++ x)
  | .posting _ .validDistance | .queued .validDistance => fun x => Visits (approach ++ x)
  | .posting _ .invalidDistance | .queued .invalidDistance => fun x => Visits (approach ++ x)
  -- A failed sensor: its report is taken, and nothing is seen until the restart.
  | .posting _ .ecuNotWorking | .queued .ecuNotWorking => fun x => x = [.taken .ecuNotWorking]
  | .monitor .ecuNotWorking | .reboot _ => fun x => x = []
  -- A ring, from the command to the expiry of the bell timer.
  | .monitor .validDistance | .monitor .doorWaitExpiry => RingsThen
  | .inPipe .ringBell | .holds .ringBell => fun x => RingsThen (bell :: x)
  | .armed .doorBell | .expired .doorBell _ => fun x =>
      RingsThen (bell :: .started .doorBell 3 :: x)
  | .inPipe .ringBellExpiry | .holds .ringBellExpiry => fun x =>
      RingsThen (bell :: .started .doorBell 3 :: bellExpiry :: x)
  | .posting _ .ringBellExpiry | .queued .ringBellExpiry => fun x =>
      RingsThen (bell :: .started .doorBell 3 :: bellExpiry :: x)
  | .monitor .ringBellExpiry => fun x => RingsThen (ringing ++ x)
  -- Behind the door reading of a ring.
  | .pollDoor => AfterOpen
  | .startWait => AfterClosed
  | .armed .doorOpenWait | .expired .doorOpenWait _ => fun x =>
      AfterClosed (.started .doorOpenWait 30 :: x)
  | .posting _ .doorWaitExpiry | .queued .doorWaitExpiry => fun x =>
      AfterClosed (.started .doorOpenWait 30 :: x)
  | .posting _ .doorWaitRetryEnd | .queued .doorWaitRetryEnd => fun x =>
      AfterClosed (.started .doorOpenWait 30 :: x)
  | .monitor .doorWaitRetryEnd => fun x =>
      AfterClosed (.started .doorOpenWait 30 :: .taken .doorWaitRetryEnd :: x)
  | .lost => fun _ => False

/-- An expired wait is answered by another ring or by the reset timer. -/
private theorem afterClosed_doorWaitExpiry {x : List Visible} (hx : RingsThen x) :
    AfterClosed (.started .doorOpenWait 30 :: .taken .doorWaitExpiry :: x) :=
  fun _ h => hx.again h

private theorem afterClosed_doorWaitRetryEnd {x : List Visible} (hx : Visits x) :
    AfterClosed (.started .doorOpenWait 30 :: .taken .doorWaitRetryEnd ::
      .started .resetStates 600 :: x) := by
  intro data h
  have hlast := RingsThen.last (.retryEnd data h) hx
  simpa using hlast

/-- Unless the activity is lost, something may follow. -/
theorem exists_cont {pl : Place} (hpl : pl ≠ .lost) : ∃ x, Cont pl x := by
  -- Wherever a visit is, it can still be cut: by the motion sensor before it is approached, by the
  -- distance sensor, and after a ring by a door that is neither open nor closed.
  have hcut : Visits [scan, .taken .ecuNotWorking] := .cut .motion
  have hcut' : Visits (approach ++ [.taken .ecuNotWorking]) := .cut .distance
  have hreset := afterClosed_doorWaitRetryEnd .nil
  cases pl with
  | startUp => exact ⟨[], .nil⟩
  | postScan => exact ⟨[], .nil⟩
  | reboot todo => exact ⟨[], rfl⟩
  | pollDoor =>
      refine ⟨[.poll ⟨1, 0⟩], fun data polls h hpolls => ?_⟩
      have hlast := RingsThen.last (.opened data polls ⟨1, 0⟩ h hpolls (by decide)) .nil
      simpa using hlast
  | startWait => exact ⟨_, hreset⟩
  | inPipe c | holds c =>
      cases c with
      | motionScanOn => exact ⟨_, hcut⟩
      | calcDistance => exact ⟨_, hcut'⟩
      | ringBell => exact ⟨_, RingsThen.unanswered⟩
      | ringBellExpiry => exact ⟨_, RingsThen.unanswered⟩
  | posting _ m | queued m =>
      cases m with
      | motionDetected => exact ⟨_, hcut⟩
      | validDistance => exact ⟨_, hcut'⟩
      | invalidDistance => exact ⟨_, hcut'⟩
      | ecuNotWorking => exact ⟨_, rfl⟩
      | ringBellExpiry => exact ⟨_, RingsThen.unanswered⟩
      | doorWaitExpiry => exact ⟨_, hreset⟩
      | doorWaitRetryEnd => exact ⟨_, hreset⟩
  | monitor m =>
      cases m with
      | motionDetected => exact ⟨_, hcut'⟩
      | validDistance => exact ⟨_, RingsThen.unanswered⟩
      | invalidDistance => exact ⟨[], .nil⟩
      | ecuNotWorking => exact ⟨[], rfl⟩
      | ringBellExpiry => exact ⟨_, RingsThen.unanswered⟩
      | doorWaitExpiry => exact ⟨_, RingsThen.unanswered⟩
      | doorWaitRetryEnd => exact ⟨_, hreset⟩
  | armed t =>
      cases t with
      | doorBell => exact ⟨_, RingsThen.unanswered⟩
      | doorOpenWait => exact ⟨_, hreset⟩
      | resetStates => exact ⟨[], .nil⟩
  | expired t pos =>
      cases t with
      | doorBell => exact ⟨_, RingsThen.unanswered⟩
      | doorOpenWait => exact ⟨_, hreset⟩
      | resetStates => exact ⟨[], .nil⟩
  | lost => exact absurd rfl hpl

/-! ## Every step is a step in the language -/

section Steps

variable {q q' : Activity} {pl : Place} {n : ℤ} {l : Label} {x : List Visible}

/-- A worker's reading is not seen. -/
private theorem Senses.visible {w : Worker} {e : Event} {site : Site} (h : Senses w e site)
    (data : Option ReadData) : (Label.getValue site data).visible = none := by
  cases h <;> rfl

/-- A step from outside is not seen. -/
private theorem Label.visible_of_outside (h : l.outside = true) : l.visible = none := by
  cases l <;> simp_all [Label.outside, Label.visible]

/-- A step from outside leaves the activity where it is, or ends it. -/
private theorem Place.disturb_eq (pl : Place) (l : Label) :
    pl.disturb l = pl ∨ pl.disturb l = .lost := by
  unfold Place.disturb
  split
  · split_ifs <;> simp
  · split_ifs <;> simp
  · split_ifs <;> simp
  · split_ifs <;> simp
  · simp

/-- A command that is sent may be seen where its sender stands. -/
private theorem Sends.cont {who : Actor} {c : Command} (h : Sends pl who c)
    (hx : Cont (.inPipe c) x) : Cont pl (.command c.pipe c.frame :: x) := by
  cases h <;> exact hx

/-- A message that is posted changes nothing that may follow. -/
private theorem Posts.cont {who : Actor} {m : Message} (h : Posts pl n who m)
    (hx : Cont (.queued m) x) : Cont pl x := by
  cases h with
  | posting w => cases m <;> exact hx
  | ringBellExpiry => exact hx
  | doorOpenWaitExpiry =>
      -- The handler posts one of two messages, which may follow the same things until it is taken.
      unfold Message.retry at hx
      split at hx <;> exact hx

/-- A timer that is started may be seen where it is started. -/
private theorem Starts.cont {who : Actor} {t : Timer} {delaySec : ℕ} (h : Starts pl who t delaySec)
    (hx : Cont (.armed t) x) : Cont pl (.started t delaySec :: x) := by
  cases h with
  | ringBell => exact hx
  | startWait => exact hx
  | doorWaitRetryEnd => exact afterClosed_doorWaitRetryEnd hx

/-- A message that is taken may be seen where it is queued. -/
private theorem cont_take (m : Message) (hx : Cont (.monitor m) x) :
    Cont (.queued m) (.taken m.event :: x) := by
  cases m with
  | motionDetected => exact hx
  | validDistance => exact hx.visits
  | invalidDistance =>
      have hvisit := Visits.visit .invalidDistance hx
      rwa [List.append_assoc] at hvisit
  | ringBellExpiry => exact hx
  | ecuNotWorking => exact congrArg _ hx
  | doorWaitExpiry => exact afterClosed_doorWaitExpiry hx
  | doorWaitRetryEnd => exact hx

/-- A worker's answer to its reading may follow its command. -/
private theorem cont_decide {c : Command} {site : Site} {data : ReadData} {m : Message}
    (hs : Senses c.reader c.event site) (hans : answer c.reader data = some m.event)
    (hx : Cont (.posting c.reader m) x) : Cont (.holds c) x := by
  cases c with
  | motionScanOn =>
      rcases Message.of_motion hans with rfl | rfl
      · obtain rfl := hx
        exact .cut .motion
      · exact hx
  | calcDistance =>
      rcases Message.of_distance hans with rfl | rfl | rfl
      · exact hx
      · exact hx
      · obtain rfl := hx
        exact .cut .distance
  | ringBell => cases hs
  | ringBellExpiry => cases hs

/-- The door reading after a ring. -/
private theorem cont_door (data : ReadData) (hx : Cont (doorPlace data) x) :
    Cont (.monitor .ringBellExpiry) (.door data :: x) := by
  unfold doorPlace at hx
  split_ifs at hx with ho hc
  · exact hx data [] ho (by simp)
  · exact hx data hc
  · exact hx.elim

/-- A poll of the open door. -/
private theorem cont_poll (data : ReadData) (hx : Cont (pollPlace data) x) :
    Cont .pollDoor (.poll data :: x) := by
  intro data₀ polls h₀ hpolls
  unfold pollPlace at hx
  split_ifs at hx with ho
  · -- Still open: one more poll before those to come.
    have hpolls' : ∀ d ∈ polls ++ [data], d.value = doorOpen := by
      simpa [or_imp, forall_and] using ⟨hpolls, ho⟩
    simpa using hx data₀ (polls ++ [data]) h₀ hpolls'
  · -- The poll that ends the ring.
    have hlast := RingsThen.last (.opened data₀ polls data h₀ hpolls ho) hx
    simpa using hlast

/-- What may follow a step may follow, with the step, at the place before it. -/
theorem Advance.cont (h : Advance q l q') (hl : l ≠ .execl true) (hx : Cont q'.place x) :
    Cont q.place (l.visible.toList ++ x) := by
  cases h with
  -- A call that fails loses the activity, and nothing may follow there.
  | send ok h =>
      cases ok with
      | true => exact h.cont hx
      | false => exact hx.elim
  | read c => cases c <;> exact hx
  | senseExit h =>
      rw [h.visible]
      exact hx
  | sense h =>
      rw [h.visible]
      exact hx
  | decide h hans =>
      rw [h.visible]
      exact cont_decide h hans hx
  | post ok h =>
      cases ok with
      | true => exact h.cont hx
      | false => exact hx.elim
  | start ok h =>
      cases ok with
      | true => exact h.cont hx
      | false => exact hx.elim
  | take m => exact cont_take m hx
  | doorExit => exact hx
  | pollExit => exact hx
  | door data => exact cont_door data hx
  | poll data => exact cont_poll data hx
  | processReboot => exact hx
  | rebootCall c => cases c <;> exact hx
  | execl => exact absurd rfl hl
  | execlFail => exact hx.elim
  | expire t => cases t <;> exact hx
  | countExpiry => exact hx
  | stop t => cases t <;> exact hx
  | outside h =>
      rw [Label.visible_of_outside h]
      rcases q.place.disturb_eq l with hd | hd
      · rwa [hd] at hx
      · rw [hd] at hx
        exact hx.elim

/-- Nothing is seen any more once the activity is lost. -/
theorem Advance.lost (h : Advance q l q') (hq : q.place = .lost) :
    q'.place = .lost ∧ l.visible = none := by
  cases h with
  | send ok h => cases h <;> cases hq
  | post ok h => cases h <;> cases hq
  | start ok h => cases h <;> cases hq
  | outside h =>
      refine ⟨?_, Label.visible_of_outside h⟩
      rcases q.place.disturb_eq l with hd | hd
      · exact hd.trans hq
      · exact hd
  | _ => cases hq

/-- What is seen of a step that ends the activity may be all that follows. -/
private theorem Advance.exists_cont_of_lost (h : Advance q l q') (hq : q.place ≠ .lost)
    (hl : l ≠ .execl true) (hq' : q'.place = .lost) :
    ∃ x, Cont q.place (l.visible.toList ++ x) := by
  -- A step with nothing to see leaves what may follow its place.
  have hnone : l.visible = none → ∃ x, Cont q.place (l.visible.toList ++ x) := by
    intro hvis
    rw [hvis]
    exact exists_cont hq
  cases h with
  | send ok h | post ok h | start ok h =>
      cases ok with
      | true => cases hq'
      | false => exact hnone rfl
  -- The reading that loses the activity is seen: the rings end unanswered.
  | door data =>
      refine ⟨[], .inr (.last (.door data ?_ ?_))⟩
      · intro ho
        simp [doorPlace, ho] at hq'
      · intro hc
        simp [doorPlace, hc, doorOpen, doorClosed] at hq'
  | poll data =>
      simp only [pollPlace] at hq'
      split_ifs at hq'
  | execlFail => exact hnone rfl
  | outside h => exact hnone (Label.visible_of_outside h)
  | _ => cases hq'

end Steps

/-! ## Runs -/

/-- What is seen of a run of the activity without a restart is the start of a sequence of
visits, and stays one however the run goes on. -/
private theorem visits_of_run {tr : List Label} {q : Activity} (h : Run Advance .init tr q)
    (hrun : .execl true ∉ tr) :
    (∃ x, Visits (tr.filterMap Label.visible ++ x)) ∧
      ∀ x, Cont q.place x → Visits (tr.filterMap Label.visible ++ x) := by
  refine Run.history (P := fun tr q => .execl true ∉ tr →
    (∃ x, Visits (tr.filterMap Label.visible ++ x)) ∧
      ∀ x, Cont q.place x → Visits (tr.filterMap Label.visible ++ x)) h ?_ ?_ hrun
  · exact fun _ => ⟨⟨[], .nil⟩, fun x hx => hx⟩
  · intro tr q l q' _ ih hstep hnot
    have hl : l ≠ .execl true := by
      rintro rfl
      simp at hnot
    obtain ⟨⟨y, hy⟩, hcont⟩ := ih fun hmem => hnot (List.mem_append_left _ hmem)
    simp only [filterMap_snoc, List.append_assoc]
    refine ⟨?_, fun x hx => hcont _ (hstep.cont hl hx)⟩
    -- Once the activity is lost, what has been seen is completed as it was when it got lost.
    by_cases hq : q.place = .lost
    · rw [(hstep.lost hq).2]
      exact ⟨y, hy⟩
    · by_cases hq' : q'.place = .lost
      · obtain ⟨x, hx⟩ := hstep.exists_cont_of_lost hq hl hq'
        exact ⟨x, hcont _ hx⟩
      · obtain ⟨x, hx⟩ := exists_cont hq'
        exact ⟨x, hcont _ (hstep.cont hl hx)⟩

/-- Between two restarts, what is seen of a run is a prefix of a sequence of visits. -/
theorem protocol_order {pre seg : List Label} {s : State} (h : Reaches (pre ++ seg) s)
    (hrecv : ∀ l ∈ seg, l.receives = true)
    (hpre : pre = [] ∨ ∃ pre', pre = pre' ++ [.execl true]) (hseg : .execl true ∉ seg) :
    ∃ full, Visits full ∧ seg.filterMap Label.visible <+: full := by
  obtain ⟨t, hrun₀, hrun⟩ := Run.split h
  obtain rfl := Reaches.eq_init hrun₀ hpre
  obtain ⟨q, hq, -⟩ := Reaches.advances hrun hrecv
  obtain ⟨⟨x, hx⟩, -⟩ := visits_of_run hq hseg
  exact ⟨_, hx, List.prefix_append _ _⟩

open Schedule in
/-- A visit after a restart, up to the first ring. -/
theorem protocol_order_restarted :
    ∃ pre seg s, Reaches (pre ++ seg) s ∧ .execl true ∈ pre ∧ .msgrcv .ringBellExpiry ∈ seg ∧
      ∃ full, Visits full ∧ seg.filterMap Label.visible <+: full := by
  have hrun := Run.append (run_play step .init (startUp ++ Schedule.reboot))
    (run_play step _ (startUp ++ motion ++ distance ++ Schedule.ring))
  refine ⟨_, _, _, hrun, ?_, ?_, protocol_order hrun ?_
    (.inr (List.getLast?_eq_some_iff.mp ?_)) ?_⟩
  all_goals decide +kernel

end DoorBell
