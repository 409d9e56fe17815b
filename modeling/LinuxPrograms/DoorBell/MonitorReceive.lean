import LinuxPrograms.DoorBell.Threads

/-!
# Door bell: what the monitor acts on

A failed `msgrcv` leaves the cleared event, `MOTION_DETECTED`, on which the monitor then acts. Every
act of the monitor answers a message of its own exactly in the runs in which the monitor makes no
step after a failed receive (`acts_on_messages_iff`).
-/

namespace DoorBell

open CString LabelledSystem

/-- The monitor writes a command, starts a timer or reboots the process. -/
def Label.monitorActs : Label → Bool
  | write (.thread .monitor) _ _ _ | timerStart (.thread .monitor) _ _ _ | processReboot => true
  | _ => false

/-- The monitor does not act and does not receive, and the process does not restart. -/
def Label.quiet : Label → Bool
  | msgrcv _ | msgrcvFail | execl true => false
  | l => !l.monitorActs

/-- The act is the monitor's answer to a message with this event. -/
inductive Answers : Event → Label → Prop
  | motionDetected (ok : Bool) :
      Answers .motionDetected (.write (.thread .monitor) .t2 (message "CALC_DISTANCE") ok)
  | validDistance (ok : Bool) :
      Answers .validDistance (.write (.thread .monitor) .t3 (message "RING_BELL") ok)
  | invalidDistance (ok : Bool) :
      Answers .invalidDistance (.write (.thread .monitor) .t1 (message "MOTION_SCAN_ON") ok)
  | doorOpened (ok : Bool) :
      Answers .ringBellExpiry (.write (.thread .monitor) .t1 (message "MOTION_SCAN_ON") ok)
  | doorClosed (ok : Bool) :
      Answers .ringBellExpiry (.timerStart (.thread .monitor) .doorOpenWait 30 ok)
  | ecuNotWorking : Answers .ecuNotWorking .processReboot
  | doorWaitExpiry (ok : Bool) :
      Answers .doorWaitExpiry (.write (.thread .monitor) .t3 (message "RING_BELL") ok)
  | doorWaitRetryEnd (ok : Bool) :
      Answers .doorWaitRetryEnd (.timerStart (.thread .monitor) .resetStates 600 ok)

/-- The act `l` after the labels `pre` is the start-up command of the process. -/
def StartUp (pre : List Label) (l : Label) : Prop :=
  (∃ ok, l = .write (.thread .monitor) .t1 (message "MOTION_SCAN_ON") ok) ∧
    ((∀ l' ∈ pre, l'.quiet = true) ∨ Since (fun l' => l' = .execl true) (fun l' => l'.quiet) pre)

/-- Every act of the monitor is its start-up command, or answers a message it has taken from the
queue and neither answered before nor followed by another receive. -/
def ActsOnMessages (tr : List Label) : Prop :=
  Throughout (fun pre l => l.monitorActs = true → StartUp pre l ∨
    ∃ e, Since (fun l' => l' = .msgrcv e) (fun l' => l'.quiet) pre ∧ Answers e l) tr

/-- The event of the message the monitor is at work on. -/
def MonitorPos.message : MonitorPos → Option Event
  | switch e => some e
  | pollDoor | startWait | postScan => some .ringBellExpiry
  | _ => none

section Steps

variable {s s' : State} {pos pos' : MonitorPos} {l : Label}

/-- An act is the start-up command or answers the message at hand, and is the last one for it. -/
theorem MonitorMove.acts (h : MonitorMove pos l pos') (hl : l.monitorActs = true) :
    ((pos = .startUp ∧
        ∃ ok, l = .write (.thread .monitor) .t1 (DoorBell.message "MOTION_SCAN_ON") ok) ∨
      ∃ e, pos.message = some e ∧ Answers e l) ∧ pos' ≠ .startUp ∧ pos'.message = none := by
  cases h with
  | write ok h =>
      refine ⟨?_, nofun, rfl⟩
      cases h with
      | startUp => exact .inl ⟨rfl, ok, rfl⟩
      | motionDetected => exact .inr ⟨_, rfl, .motionDetected ok⟩
      | validDistance => exact .inr ⟨_, rfl, .validDistance ok⟩
      | invalidDistance => exact .inr ⟨_, rfl, .invalidDistance ok⟩
      | doorWaitExpiry => exact .inr ⟨_, rfl, .doorWaitExpiry ok⟩
      | postScan => exact .inr ⟨_, rfl, .doorOpened ok⟩
  | start ok h =>
      refine ⟨?_, nofun, rfl⟩
      cases h with
      | startWait => exact .inr ⟨_, rfl, .doorClosed ok⟩
      | doorWaitRetryEnd => exact .inr ⟨_, rfl, .doorWaitRetryEnd ok⟩
  | processReboot => exact ⟨.inr ⟨_, rfl, .ecuNotWorking⟩, nofun, rfl⟩
  | rebootCall c => cases c <;> cases hl
  | _ => cases hl

/-- A quiet step of the monitor stays with the message at hand or leaves it. -/
theorem MonitorMove.quiet (h : MonitorMove pos l pos') (hl : l.quiet = true) :
    pos' ≠ .startUp ∧ (pos'.message = pos.message ∨ pos'.message = none) := by
  cases h with
  -- The door is read between the message and the answer.
  | doorExit => exact ⟨nofun, .inl rfl⟩
  | pollExit => exact ⟨nofun, .inl rfl⟩
  | door data =>
      unfold afterDoor
      split_ifs
      · exact ⟨nofun, .inl rfl⟩
      · exact ⟨nofun, .inl rfl⟩
      · exact ⟨nofun, .inr rfl⟩
  | poll data =>
      unfold afterPoll
      split_ifs
      · exact ⟨nofun, .inl rfl⟩
      · exact ⟨nofun, .inl rfl⟩
  | ignore => exact ⟨nofun, .inr rfl⟩
  | rebootCall => exact ⟨nofun, .inr rfl⟩
  | execlFail => exact ⟨nofun, .inr rfl⟩
  | _ => cases hl

/-- A failed receive leaves the cleared event, `MOTION_DETECTED`. -/
theorem MonitorMove.of_msgrcvFail (h : MonitorMove pos .msgrcvFail pos') :
    pos' = .switch .motionDetected := by
  generalize hl : Label.msgrcvFail = l at h
  cases h with
  | msgrcvFail => rfl
  | rebootCall c => cases c <;> cases hl
  | _ => cases hl

/-- At `MOTION_DETECTED` the monitor's one step is to have the distance taken. -/
theorem MonitorMove.of_motionDetected (h : MonitorMove pos l pos')
    (hpos : pos = .switch .motionDetected ∨ pos = .terminated) :
    ∃ ok, l = .write (.thread .monitor) .t2 (DoorBell.message "CALC_DISTANCE") ok := by
  rcases hpos with rfl | rfl
  · cases h with
    | write ok hw => cases hw; exact ⟨ok, rfl⟩
    | start ok hs => cases hs
    | ignore e hh => cases hh
  · cases h with
    | write ok hw => cases hw
    | start ok hs => cases hs

/-- A failed receive leaves the pipes, the timers and the queue as they were. -/
theorem Move.frame_msgrcvFail (h : Move s .msgrcvFail s') :
    s'.pipe = s.pipe ∧ s'.timer = s.timer ∧ s'.queue = s.queue := by
  generalize hl : Label.msgrcvFail = l at h
  cases h with
  | msgrcvFail => exact ⟨rfl, rfl, rfl⟩
  | rebootCall c => cases c <;> cases hl
  | shutdownCall c => cases c <;> cases hl
  | ignore w e => rcases ignoreLabel_eq w e with h | h <;> cases hl.trans h
  | _ => cases hl

end Steps

/-! ## Runs -/

/-- What the labels so far say of the message the monitor is at work on: it is the last thing the
monitor has received or done. -/
structure AtWork (tr : List Label) (s : State) : Prop where
  startUp : s.monitor = .startUp →
    (∀ l ∈ tr, l.quiet = true) ∨ Since (fun l => l = .execl true) (fun l => l.quiet) tr
  message : ∀ e, s.monitor.message = some e → Since (fun l => l = .msgrcv e) (fun l => l.quiet) tr

namespace AtWork

variable {tr : List Label} {s s' : State} {l : Label}

theorem init : AtWork [] .init := ⟨fun _ => .inl nofun, nofun⟩

/-- A monitor with nothing at hand. -/
theorem of_none (hs : s.monitor ≠ .startUp) (hm : s.monitor.message = none) : AtWork tr s :=
  ⟨fun h => absurd h hs, fun e he => by rw [hm] at he; cases he⟩

/-- A quiet step that keeps the message at hand. -/
theorem snoc (h : AtWork tr s) (hl : l.quiet = true)
    (hs : s'.monitor = .startUp → s.monitor = .startUp)
    (hm : s'.monitor.message = s.monitor.message) : AtWork (tr ++ [l]) s' := by
  refine ⟨fun hs' => ?_, fun e he => ?_⟩
  · rcases h.startUp (hs hs') with hall | hsince
    · refine .inl ?_
      rw [List.forall_mem_append, List.forall_mem_singleton]
      exact ⟨hall, hl⟩
    · exact .inr (hsince.snoc hl)
  · rw [hm] at he
    exact (h.message e he).snoc hl

/-- A step of somebody else is quiet. -/
private theorem quiet_of_not_by (h : l.by .monitor = false) : l.quiet = true := by
  cases l with
  | write who => simp_all [Label.by, Label.quiet, Label.monitorActs]
  | timerStart who => simp_all [Label.by, Label.quiet, Label.monitorActs]
  | msgrcv => cases h
  | msgrcvFail => cases h
  | processReboot => cases h
  | execl ok => cases h
  | _ => rfl

/-- A quiet step is no act. -/
private theorem monitorActs_of_quiet (h : l.quiet = true) : l.monitorActs = false := by
  cases l <;> simp_all [Label.quiet, Label.monitorActs]

/-- A step of the monitor, other than a failed receive. -/
private theorem monitorMove (h : AtWork tr s) (hm : MonitorMove s.monitor l s'.monitor)
    (hl : l ≠ .msgrcvFail) :
    (l.monitorActs = true → StartUp tr l ∨
      ∃ e, Since (fun l' => l' = .msgrcv e) (fun l' => l'.quiet) tr ∧ Answers e l) ∧
      AtWork (tr ++ [l]) s' := by
  cases hacts : l.monitorActs with
  | true =>
      -- An act is the last for its message, so that nothing is at hand after it.
      obtain ⟨hact, hs', hm'⟩ := hm.acts hacts
      refine ⟨fun _ => ?_, of_none hs' hm'⟩
      rcases hact with ⟨hstart, hcmd⟩ | ⟨e, he, hans⟩
      · exact .inl ⟨hcmd, h.startUp hstart⟩
      · exact .inr ⟨e, h.message e he, hans⟩
  | false =>
      refine ⟨nofun, ?_⟩
      cases hquiet : l.quiet with
      | true =>
          obtain ⟨hs', hmsg⟩ := hm.quiet hquiet
          rcases hmsg with hmsg | hmsg
          · exact h.snoc hquiet (fun hs => absurd hs hs') hmsg
          · exact of_none hs' hmsg
      | false =>
          -- Neither an act nor quiet: a receive or a restart.
          generalize s.monitor = pos, hpos' : s'.monitor = pos' at hm
          cases hm with
          | msgrcv e =>
              refine ⟨fun hs => (by rw [hpos'] at hs; cases hs), fun e' he' => ?_⟩
              rw [hpos'] at he'
              obtain rfl : e = e' := Option.some.inj he'
              exact Since.self tr rfl
          | execl =>
              refine ⟨fun _ => .inr (Since.self tr rfl), fun e he => ?_⟩
              rw [hpos'] at he
              cases he
          | msgrcvFail => exact absurd rfl hl
          | rebootCall c => cases c <;> cases hquiet
          | write => cases hacts
          | start => cases hacts
          | processReboot => cases hacts
          | _ => cases hquiet

/-- One step, other than a failed receive. -/
theorem step (h : AtWork tr s) (hm : Move s l s') (hl : l ≠ .msgrcvFail) :
    (l.monitorActs = true → StartUp tr l ∨
      ∃ e, Since (fun l' => l' = .msgrcv e) (fun l' => l'.quiet) tr ∧ Answers e l) ∧
      AtWork (tr ++ [l]) s' := by
  rcases hm.monitor with ⟨-, hmove⟩ | ⟨hby, hpos⟩
  · exact h.monitorMove hmove hl
  · have hquiet := quiet_of_not_by hby
    refine ⟨fun hacts => ?_, ?_⟩
    · rw [monitorActs_of_quiet hquiet] at hacts
      cases hacts
    · rcases hpos with hpos | hpos
      · exact h.snoc hquiet (fun hs => hpos ▸ hs) (by rw [hpos])
      · exact of_none (by rw [hpos]; nofun) (by rw [hpos]; rfl)

end AtWork

/-- A `msgrcv` has failed, and the monitor has made no step since. -/
def ReceiveFailed (tr : List Label) : Prop :=
  Since (fun l => l = .msgrcvFail) (fun l => l.by .monitor = false) tr

/-- Behind a failed receive the monitor is at `MOTION_DETECTED`, or has ended. -/
theorem monitor_of_receiveFailed {tr : List Label} {s : State} (h : Reaches tr s)
    (hfail : ReceiveFailed tr) : s.monitor = .switch .motionDetected ∨ s.monitor = .terminated := by
  refine Run.since (P := fun s => s.monitor = .switch .motionDetected ∨ s.monitor = .terminated)
    h hfail ?_ ?_
  · rintro t l u hstep rfl
    rcases hstep.move.2.monitor with ⟨-, hmove⟩ | ⟨hby, -⟩
    · exact .inl hmove.of_msgrcvFail
    · cases hby
  · intro t l u ht hstep hl
    rcases hstep.move.2.monitor with ⟨hby, -⟩ | ⟨-, hpos | hpos⟩
    · rw [hl] at hby
      cases hby
    · rwa [hpos]
    · exact .inr hpos

/-- Every act of the monitor is its start-up command or the answer to a message of its own, if and
only if no step of the monitor follows a failed `msgrcv`. The failed call itself leaves the pipes,
the timers and the queue as they are. -/
theorem acts_on_messages_iff {tr : List Label} {s : State} (h : Reaches tr s) :
    (ActsOnMessages tr ↔ Throughout (fun pre l => ReceiveFailed pre → l.by .monitor = false) tr) ∧
      ∀ t t', Step t .msgrcvFail t' →
        t'.pipe = t.pipe ∧ t'.timer = t.timer ∧ t'.queue = t.queue := by
  refine ⟨⟨fun hacts pre l post htr hfail => ?_, fun hnone => ?_⟩,
    fun t t' hstep => hstep.move.2.frame_msgrcvFail⟩
  · -- The step that follows answers `MOTION_DETECTED`, which was not received.
    subst htr
    obtain ⟨t₀, t, hpre, hstep, -⟩ := Run.step_at h
    rcases hstep.move.2.monitor with ⟨-, hmove⟩ | ⟨hby, -⟩
    · obtain ⟨ok, rfl⟩ := hmove.of_motionDetected (monitor_of_receiveFailed hpre hfail)
      -- It is no start-up command, and since the failed receive nothing has been taken.
      rcases hacts pre _ post rfl rfl with ⟨⟨ok', hscan⟩, -⟩ | ⟨e, hsince, -⟩
      · cases hscan
      · obtain ⟨a, l₀, b, rfl, rfl, hb⟩ := hfail
        rcases hsince.exists_mem_of_not_quiet nofun with hmsg | ⟨l', hl', rfl⟩
        · cases hmsg
        · cases hb _ hl'
    · exact hby
  · refine (Run.throughout (J := fun tr s => AtWork tr s ∨ ReceiveFailed tr) h hnone
      (.inl AtWork.init) ?_).1
    rintro tr s l s' (hwork | hfail) hstep hl
    · by_cases hfail : l = .msgrcvFail
      · refine ⟨fun hacts => ?_, .inr (Since.self tr hfail)⟩
        rw [hfail] at hacts
        cases hacts
      · obtain ⟨hact, hwork'⟩ := hwork.step hstep.move.2 hfail
        exact ⟨hact, .inl hwork'⟩
    · -- From a failed receive on, only others make steps.
      have hby := hl hfail
      refine ⟨fun hacts => ?_, .inr (hfail.snoc hby)⟩
      rw [AtWork.monitorActs_of_quiet (AtWork.quiet_of_not_by hby)] at hacts
      cases hacts

section Examples

open Schedule

/-- The `msgrcv` at the start fails, and the monitor has the distance taken although nobody has
been detected. -/
theorem not_acts_on_messages : ¬ ∀ tr s, Reaches tr s → ActsOnMessages tr := by
  intro hevery
  have hrun := run_play step .init
    (startUp ++ [.run .monitor (.ret false), call .monitor])
  have htr : (play step .init (startUp ++ [.run .monitor (.ret false), call .monitor])).2 =
      [.write (.thread .monitor) .t1 (message "MOTION_SCAN_ON") true, .msgrcvFail] ++
        [.write (.thread .monitor) .t2 (message "CALC_DISTANCE") true] := by
    decide +kernel
  rcases hevery _ _ hrun _ _ [] htr rfl with ⟨⟨ok, hcmd⟩, -⟩ | ⟨e, ⟨a, l, b, hpre, hl, -⟩, -⟩
  · cases hcmd
  · have hmem : l ∈ a ++ l :: b := by simp
    rw [← hpre, hl] at hmem
    simp at hmem

/-- A run that meets the condition: the monitor is not heard of after its failed receive. -/
theorem acts_on_messages_iff_failed :
    ∃ tr s, Reaches tr s ∧ .msgrcvFail ∈ tr ∧
      (ActsOnMessages tr ↔
        Throughout (fun pre l => ReceiveFailed pre → l.by .monitor = false) tr) ∧
      ∀ t t', Step t .msgrcvFail t' →
        t'.pipe = t.pipe ∧ t'.timer = t.timer ∧ t'.queue = t.queue := by
  have hrun := run_play step .init (startUp ++ motion ++ distance ++ [.run .monitor (.ret false)])
  refine ⟨_, _, hrun, ?_, acts_on_messages_iff hrun⟩
  decide +kernel

end Examples

end DoorBell
