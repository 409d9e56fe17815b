import LinuxPrograms.DoorBell.DeadThread
import LinuxPrograms.DoorBell.OneActivity

/-!
# Door bell: runs in which every call succeeds

As long as every call succeeds `main` finds its threads alive, so nothing from outside touches
the activity: it is never lost except by a door reading that is neither open nor closed.

- `Label.succeeds`: the call of a label succeeds.
- `Healthy`: `main` watches, and threads are cancelled only by a reboot under way.
- `Steady`: a step of the activity whose call succeeds, or a step from outside that leaves the
  activity alone.
- `Reaches.steady`: a run in which every call succeeds is a run of such steps.
-/

namespace DoorBell

open CString LabelledSystem

/-- The call of a label succeeds, if it makes one. A successful `ps` writes its listing, whose
header names the column `PID`. A `get_value` that exits is not ruled out: a sensor file that is
too short makes it exit with no call failing. -/
def Label.succeeds : Label → Bool
  | write _ _ _ ok | msgsnd _ _ ok | timerStart _ _ _ ok | timerStop _ _ ok => ok
  | timerDestroy _ _ ok | pthreadCancel _ _ ok | execl ok => ok
  | readFail _ _ | msgrcvFail | checkThreadDead none => false
  | checkThreadDead (some psCmdOutput) => strstr psCmdOutput (text "PID")
  | _ => true

/-- What the door reading after a ring returns. -/
def Label.doorReading : Label → Option ReadData
  | getValue .door data => data
  | _ => none

theorem Label.doorReading_eq_some_iff {l : Label} {data : ReadData} :
    l.doorReading = some data ↔ l = getValue .door (some data) := by
  constructor
  · intro h
    unfold doorReading at h
    split at h
    · rw [h]
    · cases h
  · rintro rfl
    rfl

/-- The door readings of a trace. -/
theorem mem_doorReadings_iff {tr : List Label} {data : ReadData} :
    data ∈ tr.filterMap Label.doorReading ↔ .getValue .door (some data) ∈ tr := by
  simp [List.mem_filterMap, Label.doorReading_eq_some_iff]

theorem Label.receives_of_succeeds {l : Label} (h : l.succeeds = true) : l.receives = true := by
  cases l with
  | readFail => cases h
  | msgrcvFail => cases h
  | _ => rfl

/-- In a listing with its header no thread is found dead. -/
theorem checkThreadDead_of_header {out : List UInt8} (h : strstr out (text "PID") = true) :
    checkThreadDead out = .fail := by
  cases hdead : checkThreadDead out with
  | fail => rfl
  | success =>
      exact absurd ((checkThreadDead_eq_success_iff out).mp hdead) (not_fragment_of_header h)

/-- `pthread_cancel` was called on the thread. -/
def State.cancelled (s : State) : Thread → Bool
  | .monitor => s.monitorCancelled
  | .worker w => (s.worker w).cancelled

section Frame

variable {s s' : State} {l : Label}

@[simp]
theorem State.main_afterTimer (s : State) (t : Timer) (target : TimerState) (ok : Bool) :
    (s.afterTimer t target ok).main = s.main := by
  cases ok <;> rfl

@[simp]
theorem State.main_afterTeardown (s : State) (c : TeardownCall) (ok : Bool) :
    (s.afterTeardown c ok).main = s.main := by
  cases c with
  | timerStop t => simp [State.afterTeardown]
  | timerDestroy t => simp [State.afterTeardown]
  | pthreadCancel th => cases th <;> rfl

@[simp]
theorem State.cancelled_setPipe (s : State) (p : Pipe) (fifo : List UInt8) :
    (s.setPipe p fifo).cancelled = s.cancelled := rfl

@[simp]
theorem State.cancelled_postMessageToQ (s : State) (who : Actor) (e : Event) (ok : Bool) :
    (s.postMessageToQ who e ok).1.cancelled = s.cancelled := rfl

@[simp]
theorem State.cancelled_afterTimer (s : State) (t : Timer) (target : TimerState) (ok : Bool) :
    (s.afterTimer t target ok).cancelled = s.cancelled := by
  cases ok <;> rfl

@[simp]
theorem State.cancelled_setWorkerPos (s : State) (w : Worker) (pos : WorkerPos) :
    (s.setWorkerPos w pos).cancelled = s.cancelled := by
  ext th
  cases th with
  | monitor => rfl
  | worker w' =>
      by_cases hw : w' = w
      · subst hw
        simp [State.cancelled, State.setWorkerPos]
      · simp [State.cancelled, State.setWorkerPos, hw]

@[simp]
theorem State.cancelled_setMsgBuff (s : State) (w : Worker) (b : CBuffer maxMessageSize) :
    (s.setMsgBuff w b).cancelled = s.cancelled := by
  ext th
  cases th with
  | monitor => rfl
  | worker w' =>
      by_cases hw : w' = w
      · subst hw
        simp [State.cancelled, State.setMsgBuff]
      · simp [State.cancelled, State.setMsgBuff, hw]

/-- A teardown call cancels at most the thread it names. -/
theorem State.cancelled_afterTeardown {c : TeardownCall} {ok : Bool} {th : Thread}
    (h : (s.afterTeardown c ok).cancelled th = true) :
    s.cancelled th = true ∨ c = .pthreadCancel th := by
  cases c with
  | timerStop t => exact .inl (by simpa [State.afterTeardown] using h)
  | timerDestroy t => exact .inl (by simpa [State.afterTeardown] using h)
  | pthreadCancel th' =>
      by_cases hth : th' = th
      · exact .inr (by rw [hth])
      · -- Another thread is cancelled, which this one's flag does not show.
        refine .inl ?_
        cases th' with
        | monitor =>
            cases th with
            | monitor => exact absurd rfl hth
            | worker w => exact h
        | worker w' =>
            cases th with
            | monitor => exact h
            | worker w =>
                have hw : w ≠ w' := fun hw => hth (by rw [hw])
                simpa [State.afterTeardown, State.pthreadCancel, State.cancelled, hw] using h

/-- `main` stays in its watch loop while every call succeeds. -/
theorem Move.watching (h : Move s l s') (hl : l.succeeds = true) (hm : s.main = .watching) :
    s'.main = .watching := by
  cases h with
  -- The way into `shutdown`, which the listing of a successful `ps` does not open.
  | watchDead out _ hdead =>
      rw [checkThreadDead_of_header hl] at hdead
      cases hdead
  | shutdownCall c rest ok hmain => rw [hm] at hmain; cases hmain
  | startBell =>
      rw [State.main_afterTimer]
      exact hm
  | monitorStart => simpa using hm
  | rebootCall => simpa using hm
  | expiryStop => simpa using hm
  | execl => rfl
  | _ => exact hm

/-- A thread is cancelled only by a teardown call that names it, of the monitor or of `main`
inside `shutdown`. -/
theorem Move.cancelled {th : Thread} (h : Move s l s') (hc : s'.cancelled th = true) :
    s.cancelled th = true ∨
      (∃ rest, s.monitor = .reboot (.pthreadCancel th :: rest)) ∨ s.main ≠ .watching := by
  cases h with
  | rebootCall c rest ok hpos =>
      rcases State.cancelled_afterTeardown hc with hold | rfl
      · exact .inl hold
      · exact .inr (.inl ⟨rest, hpos⟩)
  | shutdownCall c rest ok hmain => exact .inr (.inr (by rw [hmain]; nofun))
  -- The new process has cancelled nobody; the other calls leave the flags as they are.
  | execl => cases th <;> cases hc
  | read => exact .inl (by simpa using hc)
  | readFail => exact .inl (by simpa using hc)
  | decide => exact .inl (by simpa using hc)
  | startBell => exact .inl (by simpa using hc)
  | ignore => exact .inl (by simpa using hc)
  | monitorStart =>
      rw [State.cancelled_afterTimer] at hc
      exact .inl hc
  | expiryStop =>
      rw [State.cancelled_afterTimer] at hc
      exact .inl hc
  | endWorker => exact .inl (by simpa using hc)
  | post => exact .inl (by simpa using hc)
  | postExpiry => exact .inl (by simpa using hc)
  | _ => exact .inl hc

end Frame

/-! ## Steady steps -/

/-- `main` watches, and the only cancelled threads are those a reboot under way has cancelled,
never the monitor. -/
structure Healthy (s : State) (pl : Place) : Prop where
  main : s.main = .watching
  todo : ∀ todo, pl = .reboot todo → .pthreadCancel .monitor ∉ todo
  cancelled : ∀ th, s.cancelled th = true → th ≠ .monitor ∧ ∃ todo, pl = .reboot todo

theorem healthy_init : Healthy .init Activity.init.place where
  main := rfl
  todo := nofun
  cancelled th h := by cases th <;> cases h

/-- A step of the activity whose call succeeds, or a step from outside that leaves the activity
alone. -/
structure Steady (q : Activity) (l : Label) (q' : Activity) : Prop where
  advance : Advance q l q'
  succeeds : l.succeeds = true
  outside : l.outside = true → q' = q

section Steps

variable {s s' : State} {q q' : Activity} {l : Label} {pl : Place} {todo : List TeardownCall}

@[simp]
theorem outside_teardownLabel_monitor (c : TeardownCall) (ok : Bool) :
    (teardownLabel (.thread .monitor) ok c).outside = false := by
  cases c <;> rfl

@[simp]
theorem outside_ignoreLabel (w : Worker) (e : Event) : (ignoreLabel w e).outside = false := by
  unfold ignoreLabel
  split <;> rfl

/-- A step from outside leaves the activity alone. -/
theorem Healthy.disturb_eq (h : Healthy s pl) (hm : Move s l s') (hout : l.outside = true) :
    pl.disturb l = pl := by
  cases hm with
  | shutdownCall c rest ok hmain => rw [h.main] at hmain; cases hmain
  | endMonitor hc => exact absurd rfl (h.cancelled .monitor hc).1
  | endWorker w hc =>
      -- A worker ends during a reboot only, when the activity is with the monitor.
      obtain ⟨-, todo, rfl⟩ := h.cancelled (.worker w) hc
      rfl
  | watch => rfl
  | watchExit => rfl
  | watchDead => rfl
  | shutdownExit => rfl
  | rebootCall => simp at hout
  | ignore => simp at hout
  | _ => cases hout

/-- A reboot goes on until it restarts the process. -/
theorem Steady.place_of_reboot (h : Steady q l q') (hq : q.place = .reboot todo) :
    l = .execl true ∨ ∃ todo', q'.place = .reboot todo' := by
  obtain ⟨hadv, hl, hout⟩ := h
  cases hadv with
  | send ok h => cases h <;> cases hq
  | post ok h => cases h <;> cases hq
  | start ok h => cases h <;> cases hq
  | rebootCall c rest => exact .inr ⟨rest, rfl⟩
  | execl => exact .inl rfl
  | execlFail => cases hl
  | outside h => exact .inr ⟨todo, by rw [hout h, hq]⟩
  | _ => cases hq

/-- A reboot has only the calls of `process_reboot` to make. -/
theorem Steady.todo_of_reboot (h : Steady q l q') (hq' : q'.place = .reboot todo) :
    (∃ c, q.place = .reboot (c :: todo)) ∨ q.place = .reboot todo ∨ todo = processRebootCalls := by
  obtain ⟨hadv, hl, hout⟩ := h
  cases hadv with
  | send ok h => cases ok <;> cases hq'
  | post ok h => cases ok <;> cases hq'
  | start ok h => cases ok <;> cases hq'
  | door data =>
      simp only [doorPlace] at hq'
      split_ifs at hq'
  | poll data =>
      simp only [pollPlace] at hq'
      split_ifs at hq'
  | senseExit => exact .inr (.inl hq')
  | sense => exact .inr (.inl hq')
  | processReboot =>
      cases hq'
      exact .inr (.inr rfl)
  | rebootCall c rest =>
      cases hq'
      exact .inl ⟨c, rfl⟩
  | outside h => exact .inr (.inl (hout h ▸ hq'))
  | _ => cases hq'

/-- While every call succeeds, the steps are steady and the process stays healthy. -/
theorem Healthy.step (h : Healthy s q.place) (hs : Shape s q) (hm : Move s l s')
    (ha : Advance q l q') (hl : l.succeeds = true) : Steady q l q' ∧ Healthy s' q'.place := by
  have hsteady : Steady q l q' := by
    refine ⟨ha, hl, fun hout => ?_⟩
    cases ha with
    | outside => rw [h.disturb_eq hm hout]
    | rebootCall => simp at hout
    | _ => cases hout
  refine ⟨hsteady, hm.watching hl h.main, fun todo hq' => ?_, fun th hc => ?_⟩
  · -- What is left to do of a reboot was left before, and `process_reboot` spares the monitor.
    rcases hsteady.todo_of_reboot hq' with ⟨c, hq⟩ | hq | rfl
    · exact fun hmem => h.todo _ hq (List.mem_cons_of_mem c hmem)
    · exact h.todo _ hq
    · decide
  · -- The thread was cancelled before, or the reboot has just cancelled it.
    have hreboot : th ≠ .monitor ∧ ∃ todo, q.place = .reboot todo := by
      rcases hm.cancelled hc with hold | ⟨rest, hpos⟩ | hmain
      · exact h.cancelled th hold
      · have hq := Place.eq_reboot (hs.monitorPos_eq hpos nofun)
        refine ⟨?_, _, hq⟩
        rintro rfl
        exact h.todo _ hq List.mem_cons_self
      · exact absurd h.main hmain
    obtain ⟨hth, todo, hq⟩ := hreboot
    rcases hsteady.place_of_reboot hq with rfl | hq'
    · obtain rfl := hm.restart
      cases th <;> cases hc
    · exact ⟨hth, hq'⟩

end Steps

/-- A run in which every call succeeds is a run of steady steps, label for label. -/
theorem Shape.steady {s t : State} {q : Activity} {tr : List Label} (hs : Shape s q)
    (hh : Healthy s q.place) (h : Run Step s tr t) (hok : ∀ l ∈ tr, l.succeeds = true) :
    ∃ q', Run Steady q tr q' ∧ Shape t q' ∧ Healthy t q'.place := by
  refine Run.simulates (R := fun s q => Shape s q ∧ Healthy s q.place) h hok ⟨hs, hh⟩ ?_
  rintro s q l s' ⟨hs, hh⟩ hstep hl
  obtain ⟨-, hmove⟩ := hstep.move
  obtain ⟨q', hadv, hs'⟩ := hs.advance hmove (Label.receives_of_succeeds hl)
  obtain ⟨hsteady, hh'⟩ := hh.step hs hmove hadv hl
  exact ⟨q', hsteady, hs', hh'⟩

/-- The same, from start-up. -/
theorem Reaches.steady {tr : List Label} {s : State} (h : Reaches tr s)
    (hok : ∀ l ∈ tr, l.succeeds = true) :
    ∃ q, Run Steady .init tr q ∧ Shape s q ∧ Healthy s q.place :=
  shape_init.steady healthy_init h hok

end DoorBell
