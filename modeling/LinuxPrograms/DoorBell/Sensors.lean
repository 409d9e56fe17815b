import LinuxPrograms.DoorBell.Steady
import LinuxPrograms.DoorBell.Threads

/-!
# Door bell: failed sensors

The motion and the distance thread look at the status of a reading before its value; the monitor
looks only at the value of the door.

- `ReportsFailures`: after every failed reading its thread reports it before it does anything else,
  or stands at the report and can make it.
- `not_reported_of_monitor`: a failed reading of the door never is reported.
- `Undisturbed.reported`, `Reported.undisturbed`: that of a worker is, exactly if nothing ends the
  worker or the process before the post, and the post succeeds.
-/

namespace DoorBell

open CString LabelledSystem

/-- The step reports a failed sensor: it posts `ECU_NOT_WORKING` or calls `process_reboot`. -/
def Label.reports (th : Thread) (l : Label) : Prop :=
  l = .msgsnd (.thread th) .ecuNotWorking true ∨ l = .processReboot

/-- With the labels `post` behind a reading of the thread `th`, up to the state `s`: the first thing
the thread has done is to report the failure, or it has done nothing yet and can report it now. -/
def Reported (th : Thread) (post : List Label) (s : State) : Prop :=
  (∃ mid l rest, post = mid ++ l :: rest ∧ (∀ l' ∈ mid, l'.by th = false ∧ l' ≠ .execl true) ∧
      l.by th = true ∧ l.reports th) ∨
    ((∀ l' ∈ post, l'.by th = false ∧ l' ≠ .execl true) ∧
      ∃ l s', Step s l s' ∧ l.by th = true ∧ l.reports th)

/-- Every reading whose status is not `ECU_WORKING` is reported, before its thread does anything
else. -/
def ReportsFailures (tr : List Label) (s : State) : Prop :=
  ∀ pre site data post, tr = pre ++ .getValue site (some data) :: post →
    data.status ≠ ecuWorking → Reported site.thread post s

/-- The step ends the process, or starts it anew. -/
def Label.endsProcess : Label → Bool
  | getValue _ none | checkThreadDead none | shutdownExit | execl true => true
  | _ => false

/-- Until the thread makes its next step, neither the thread nor the process ends, and the call by
which it makes that step succeeds. -/
def Undisturbed (th : Thread) (post : List Label) : Prop :=
  ∀ mid l rest, post = mid ++ l :: rest → (∀ l' ∈ mid, l'.by th = false) →
    l.endsProcess = false ∧ l ≠ .threadEnd th ∧ (l.by th = true → l.succeeds = true)

section Frame

variable (s : State)

theorem State.exited_afterTimer (t : Timer) (target : TimerState) (ok : Bool) :
    (s.afterTimer t target ok).exited = s.exited := by
  cases ok <;> rfl

theorem State.exited_afterTeardown (c : TeardownCall) (ok : Bool) :
    (s.afterTeardown c ok).exited = s.exited := by
  cases c with
  | timerStop t => exact s.exited_afterTimer t .unarmed ok
  | timerDestroy t => exact s.exited_afterTimer t .deleted ok
  | pthreadCancel th => cases th <;> rfl

end Frame

section Steps

variable {w : Worker} {data : ReadData} {site : Site} {l : Label} {s s' : State}

/-- A worker answers a failed reading with `ECU_NOT_WORKING`. -/
theorem answer_of_failed {e : Event} (hs : Senses w e site) (hdata : data.status ≠ ecuWorking) :
    answer w data = some .ecuNotWorking := by
  cases hs with
  | motion => simp [answer, motionEvent, hdata]
  | distance => simp [answer, distanceEvent, hdata]

/-- A failed reading leaves a worker at the post of `ECU_NOT_WORKING`. -/
theorem WorkerMove.of_failed {pos pos' : WorkerPos}
    (h : WorkerMove w pos (.getValue site (some data)) pos') (hdata : data.status ≠ ecuWorking) :
    pos' = .post .ecuNotWorking := by
  generalize hl : Label.getValue site (some data) = l at h
  cases h with
  | sense hs hans =>
      obtain ⟨rfl, hd⟩ := Label.getValue.inj hl
      obtain rfl := Option.some.inj hd
      rw [answer_of_failed hs hdata] at hans
      cases hans
  | decide hs hans =>
      obtain ⟨rfl, hd⟩ := Label.getValue.inj hl
      obtain rfl := Option.some.inj hd
      rw [answer_of_failed hs hdata] at hans
      rw [Option.some.inj hans]
  | ignore e => rcases ignoreLabel_eq _ e with h | h <;> cases hl.trans h
  | _ => cases hl

/-- After a reading of the door the monitor is at no event. -/
theorem MonitorMove.of_reading {pos pos' : MonitorPos}
    (h : MonitorMove pos (.getValue site (some data)) pos') : ∀ e, pos' ≠ .switch e := by
  generalize hl : Label.getValue site (some data) = l at h
  cases h with
  | door data' =>
      unfold afterDoor
      split_ifs <;> nofun
  | poll data' =>
      unfold afterPoll
      split_ifs <;> nofun
  | rebootCall c => cases c <;> cases hl
  | _ => cases hl

/-- The monitor reports only on an event. -/
theorem MonitorMove.not_reports {pos pos' : MonitorPos} (h : MonitorMove pos l pos')
    (hpos : ∀ e, pos ≠ .switch e) : ¬ l.reports .monitor := by
  rintro (rfl | rfl)
  · generalize hl : Label.msgsnd (.thread .monitor) .ecuNotWorking true = l at h
    cases h with
    | rebootCall c => cases c <;> cases hl
    | _ => cases hl
  · generalize hl : Label.processReboot = l at h
    cases h with
    | processReboot => exact hpos _ rfl
    | rebootCall c => cases c <;> cases hl
    | _ => cases hl

/-- The worker's one step at the post of `ECU_NOT_WORKING`. -/
theorem WorkerMove.of_report {pos : WorkerPos} (h : WorkerMove w (.post .ecuNotWorking) l pos) :
    ∃ ok, l = .msgsnd (.thread (.worker w)) .ecuNotWorking ok := by
  cases h with
  | post e ok => exact ⟨ok, rfl⟩

/-- A worker that reads a sensor can make the call at its post of `ECU_NOT_WORKING`, and the call
can succeed. -/
theorem exists_report (hsite : site.thread = .worker w) (hex : s.exited = false)
    (hpos : (s.worker w).pos = .post .ecuNotWorking) :
    ∃ s', Step s (.msgsnd (.thread (.worker w)) .ecuNotWorking true) s' := by
  refine ⟨((s.setWorkerPos w .read).postMessageToQ (.thread (.worker w)) .ecuNotWorking true).1,
    .run (.worker w) (.ret true), ?_⟩
  cases site with
  | motion =>
      obtain rfl := Thread.worker.inj hsite
      simp only [step, hex, motionDetectorThread, hpos, Bool.false_eq_true, ↓reduceIte]
      rfl
  | distance =>
      obtain rfl := Thread.worker.inj hsite
      simp only [step, hex, distanceCalculatorThread, hpos, Bool.false_eq_true, ↓reduceIte]
      rfl
  | door => cases hsite
  | poll => cases hsite

/-- Only a step that ends the process sets `exited`. -/
theorem Move.exited_eq (h : Move s l s') (hl : l.endsProcess = false) : s'.exited = s.exited := by
  cases h with
  | execl => cases hl
  | senseExit => cases hl
  | doorExit => cases hl
  | pollExit => cases hl
  | watchExit => cases hl
  | shutdownExit => cases hl
  | startBell => exact State.exited_afterTimer _ _ _ _
  | monitorStart => exact State.exited_afterTimer _ _ _ _
  | expiryStop => exact State.exited_afterTimer _ _ _ _
  | rebootCall => exact State.exited_afterTeardown _ _ _
  | shutdownCall => exact State.exited_afterTeardown _ _ _
  | _ => rfl

/-- A step that ends the process and does not start it anew leaves it exited. -/
theorem Move.exited_of_endsProcess (h : Move s l s') (hl : l.endsProcess = true)
    (hne : l ≠ .execl true) : s'.exited = true := by
  cases h with
  | execl => exact absurd rfl hne
  | senseExit => rfl
  | doorExit => rfl
  | pollExit => rfl
  | watchExit => rfl
  | shutdownExit => rfl
  | rebootCall c => cases c <;> cases hl
  | shutdownCall c => cases c <;> cases hl
  | ignore w e =>
      unfold ignoreLabel at hl
      split at hl <;> cases hl
  | _ => cases hl

/-- A thread that ends has terminated. -/
theorem Move.pos_of_threadEnd (h : Move s (.threadEnd (.worker w)) s') :
    (s'.worker w).pos = .terminated := by
  generalize hl : Label.threadEnd (.worker w) = l at h
  cases h with
  | endWorker w' =>
      obtain rfl := Thread.worker.inj (Label.threadEnd.inj hl)
      simp
  | rebootCall c => cases c <;> cases hl
  | shutdownCall c => cases c <;> cases hl
  | ignore w e => rcases ignoreLabel_eq w e with h | h <;> cases hl.trans h
  | _ => cases hl

end Steps

section Runs

variable {w : Worker} {th : Thread} {site : Site} {data : ReadData} {l : Label}
  {mid post : List Label} {s t t' : State}

/-- The step that reports: it has been made, or it can be made at the end. -/
theorem Reported.exists_step (hrun : Run Step t post s) (h : Reported th post s) :
    ∃ mid l u u', (post = mid ∨ ∃ rest, post = mid ++ l :: rest) ∧ Run Step t mid u ∧ Step u l u' ∧
      (∀ l' ∈ mid, l'.by th = false ∧ l' ≠ .execl true) ∧ l.by th = true ∧ l.reports th := by
  rcases h with ⟨mid, l, rest, rfl, hmid, hby, hreports⟩ | ⟨hpost, l, s', hstep, hby, hreports⟩
  · obtain ⟨u, u', hmid', hstep, -⟩ := Run.step_at hrun
    exact ⟨mid, l, u, u', .inr ⟨rest, rfl⟩, hmid', hstep, hmid, hby, hreports⟩
  · exact ⟨post, l, s, s', .inl rfl, hrun, hstep, hpost, hby, hreports⟩

/-- A worker makes no step once the process has exited or the worker has ended. -/
theorem Step.not_ended (hstep : Step s l t') (hby : l.by (.worker w) = true) :
    ¬ (s.exited = true ∨ (s.worker w).pos = .terminated) := by
  rintro (hex | hpos)
  · rw [hstep.move.1] at hex
    cases hex
  · rcases hstep.move.2.worker w with ⟨-, hmove⟩ | ⟨hnot, -⟩
    · rw [hpos] at hmove
      cases hmove
    · rw [hby] at hnot
      cases hnot

/-- What has ended stays so, unless the process is started anew. -/
theorem stays_ended (hrun : Run Step t post s)
    (hpost : ∀ l ∈ post, l.by (.worker w) = false ∧ l ≠ .execl true)
    (h0 : t.exited = true ∨ (t.worker w).pos = .terminated) :
    s.exited = true ∨ (s.worker w).pos = .terminated := by
  refine Run.invariant (P := fun s => s.exited = true ∨ (s.worker w).pos = .terminated) hrun hpost
    h0 ?_
  rintro u l u' hu hstep ⟨hby, hne⟩
  rcases hu with hex | hpos
  · rw [hstep.move.1] at hex
    cases hex
  · rcases hstep.move.2.worker w with ⟨hby', -⟩ | ⟨-, hsame | ⟨-, hend⟩ | hexecl⟩
    · rw [hby] at hby'
      cases hby'
    · exact .inr (hsame.trans hpos)
    · exact .inr hend
    · exact absurd hexecl hne

/-- A worker that still makes a step has not ended before, nor has the process. -/
theorem not_ended_of_step (hrun : Run Step t mid s)
    (hmid : ∀ l' ∈ mid, l'.by (.worker w) = false ∧ l' ≠ .execl true) (hstep : Step s l t')
    (hby : l.by (.worker w) = true) :
    ∀ l' ∈ mid, l'.endsProcess = false ∧ l' ≠ .threadEnd (.worker w) := by
  intro l' hl'
  obtain ⟨a, b, rfl⟩ := List.append_of_mem hl'
  obtain ⟨u, u', -, hended, hrest⟩ := Run.step_at hrun
  have hlive : ¬ (u'.exited = true ∨ (u'.worker w).pos = .terminated) := fun h =>
    hstep.not_ended hby (stays_ended hrest (fun l hl => hmid l (by simp [hl])) h)
  refine ⟨?_, ?_⟩
  · by_contra hends
    rw [Bool.not_eq_false] at hends
    exact hlive (.inl (hended.move.2.exited_of_endsProcess hends (hmid l' hl').2))
  · rintro rfl
    exact hlive (.inr hended.move.2.pos_of_threadEnd)

/-- A worker waits at its post as long as neither it nor the process ends. -/
theorem waits_at_post (hrun : Run Step t post s)
    (hpost : ∀ l ∈ post, l.by (.worker w) = false ∧ l.endsProcess = false ∧
      l ≠ .threadEnd (.worker w))
    (hex : t.exited = false) {e : Event} (hpos : (t.worker w).pos = .post e) :
    s.exited = false ∧ (s.worker w).pos = .post e := by
  refine Run.invariant (P := fun s => s.exited = false ∧ (s.worker w).pos = .post e) hrun hpost
    ⟨hex, hpos⟩ ?_
  rintro u l u' ⟨hu, hpos⟩ hstep ⟨hby, hends, hne⟩
  refine ⟨(hstep.move.2.exited_eq hends).trans hu, ?_⟩
  rcases hstep.move.2.worker w with ⟨hby', -⟩ | ⟨-, hsame | ⟨hend, -⟩ | rfl⟩
  · rw [hby] at hby'
    cases hby'
  · exact hsame.trans hpos
  · exact absurd hend hne
  · cases hends

/-- The monitor stays where it is, or ends, as long as it makes no step. -/
theorem monitor_of_quiet (hrun : Run Step t post s) (hpost : ∀ l ∈ post, l.by .monitor = false)
    (hpos : ∀ e, t.monitor ≠ .switch e) : ∀ e, s.monitor ≠ .switch e := by
  refine Run.invariant (P := fun s => ∀ e, s.monitor ≠ .switch e) hrun hpost hpos ?_
  rintro u l u' hu hstep hby
  rcases hstep.move.2.monitor with ⟨hby', -⟩ | ⟨-, hpos | hpos⟩
  · rw [hby] at hby'
    cases hby'
  · rwa [hpos]
  · rw [hpos]
    intro e he
    cases he

/-- A failed reading of the door is not reported. -/
theorem not_reported_of_monitor (hread : Step t' (.getValue site (some data)) t)
    (hrun : Run Step t post s) (hsite : site.thread = .monitor) : ¬ Reported .monitor post s := by
  intro h
  obtain ⟨mid, l, u, u', -, hmid, hstep, hquiet, hby, hreports⟩ := h.exists_step hrun
  have hpos : ∀ e, t.monitor ≠ .switch e := by
    rcases hread.move.2.monitor with ⟨-, hmove⟩ | ⟨hby', -⟩
    · exact hmove.of_reading
    · simp [Label.by, hsite] at hby'
  -- The monitor has gone on to the value of the door, where nothing is reported.
  rcases hstep.move.2.monitor with ⟨-, hmove⟩ | ⟨hby', -⟩
  · exact hmove.not_reports (monitor_of_quiet hmid (fun l hl => (hquiet l hl).1) hpos) hreports
  · rw [hby] at hby'
    cases hby'

/-- Where a worker's failure is reported, nothing has come between. -/
theorem Reported.undisturbed (hrun : Run Step t post s) (h : Reported (.worker w) post s) :
    Undisturbed (.worker w) post := by
  obtain ⟨mid, l, u, u', hpost, hmid, hstep, hquiet, hby, hreports⟩ := h.exists_step hrun
  have hbefore := not_ended_of_step hmid hquiet hstep hby
  have hat : l.endsProcess = false ∧ l ≠ .threadEnd (.worker w) ∧ l.succeeds = true := by
    rcases hreports with rfl | rfl
    · exact ⟨rfl, nofun, rfl⟩
    · cases hby
  intro mid' l' rest' hpost' hquiet'
  have hquiet'' : ∀ l ∈ mid', ¬ l.by (.worker w) = true := fun l hl => by simp [hquiet' l hl]
  rcases mem_or_eq_of_first hpost hpost' hby hquiet'' with hl' | rfl
  · -- Before the step that reports, the label is somebody else's.
    refine ⟨(hbefore l' hl').1, (hbefore l' hl').2, fun hby' => ?_⟩
    rw [(hquiet l' hl').1] at hby'
    cases hby'
  · exact ⟨hat.1, hat.2.1, fun _ => hat.2.2⟩

/-- Up to the worker's next step nothing ends. -/
theorem Undisturbed.not_ended {rest : List Label} (h : Undisturbed th (mid ++ rest))
    (hmid : ∀ l ∈ mid, l.by th = false) :
    ∀ l ∈ mid, l.endsProcess = false ∧ l ≠ .threadEnd th := by
  intro l hl
  obtain ⟨a, b, rfl⟩ := List.append_of_mem hl
  obtain ⟨hends, hne, -⟩ := h a l (b ++ rest) (by simp) fun l' hl' => hmid l' (by simp [hl'])
  exact ⟨hends, hne⟩

/-- A worker's failed reading is reported when nothing comes between. -/
theorem Undisturbed.reported (hread : Step t' (.getValue site (some data)) t)
    (hrun : Run Step t post s) (hsite : site.thread = .worker w) (hdata : data.status ≠ ecuWorking)
    (h : Undisturbed (.worker w) post) : Reported (.worker w) post s := by
  have hex : t.exited = false := (hread.move.2.exited_eq rfl).trans hread.move.1
  have hpos : (t.worker w).pos = .post .ecuNotWorking := by
    rcases hread.move.2.worker w with ⟨-, hmove⟩ | ⟨hby, -⟩
    · exact hmove.of_failed hdata
    · simp [Label.by, hsite] at hby
  cases hfirst : post.find? (·.by (.worker w)) with
  | none =>
      -- The worker has made no step: it stands at its post.
      have hquiet : ∀ l ∈ post, l.by (.worker w) = false := by simpa using hfirst
      have hends := Undisturbed.not_ended
        (show Undisturbed (.worker w) (post ++ []) by rwa [List.append_nil]) hquiet
      obtain ⟨hex', hpos'⟩ := waits_at_post hrun (fun l hl => ⟨hquiet l hl, hends l hl⟩) hex hpos
      obtain ⟨s', hstep⟩ := exists_report hsite hex' hpos'
      refine .inr ⟨fun l hl => ⟨hquiet l hl, ?_⟩, _, s', hstep, by simp [Label.by], .inl rfl⟩
      rintro rfl
      cases (hends _ hl).1
  | some l =>
      obtain ⟨hby, mid, rest, rfl, hquiet⟩ := List.find?_eq_some_iff_append.mp hfirst
      have hquiet' : ∀ l' ∈ mid, l'.by (.worker w) = false := by simpa using hquiet
      have hends := h.not_ended hquiet'
      obtain ⟨u, u', hmid, hstep, -⟩ := Run.step_at hrun
      obtain ⟨-, hpos'⟩ := waits_at_post hmid (fun l hl => ⟨hquiet' l hl, hends l hl⟩) hex hpos
      -- Its one step is the post, and the call succeeds.
      rcases hstep.move.2.worker w with ⟨-, hmove⟩ | ⟨hby', -⟩
      · rw [hpos'] at hmove
        obtain ⟨ok, rfl⟩ := hmove.of_report
        obtain rfl : ok = true := (h mid _ rest rfl hquiet').2.2 hby
        refine .inl ⟨mid, _, rest, rfl, fun l hl => ⟨hquiet' l hl, ?_⟩, hby, .inl rfl⟩
        rintro rfl
        cases (hends _ hl).1
      · rw [hby] at hby'
        cases hby'

end Runs

/-- Every failed sensor is reported and its value not acted on if and only if no reading of the
door fails, and each worker whose reading fails gets to its next step, at which its call
succeeds. -/
theorem reports_failures_iff {tr : List Label} {s : State} (h : Reaches tr s) :
    ReportsFailures tr s ↔
      ∀ pre site data post, tr = pre ++ .getValue site (some data) :: post →
        data.status ≠ ecuWorking → site.thread ≠ .monitor ∧ Undisturbed site.thread post := by
  constructor
  · rintro hreports pre site data post rfl hdata
    obtain ⟨t', t, -, hread, hrun⟩ := Run.step_at h
    have hreported := hreports pre site data post rfl hdata
    generalize hsite : site.thread = th at hreported ⊢
    cases th with
    | monitor => exact absurd hreported (not_reported_of_monitor hread hrun hsite)
    | worker w => exact ⟨nofun, hreported.undisturbed hrun⟩
  · rintro hcond pre site data post rfl hdata
    obtain ⟨t', t, -, hread, hrun⟩ := Run.step_at h
    obtain ⟨hth, hundisturbed⟩ := hcond pre site data post rfl hdata
    generalize hsite : site.thread = th at hth hundisturbed ⊢
    cases th with
    | monitor => exact absurd rfl hth
    | worker w => exact hundisturbed.reported hread hrun hsite hdata

section Examples

open Schedule

/-- The door's sensor fails at a reading that says closed: the wait timer is started, and nothing
is reported. -/
theorem not_reports_failures : ¬ ∀ tr s, Reaches tr s → ReportsFailures tr s := by
  intro hevery
  have hrun := run_play step .init (startUp ++ motion ++ distance ++ ring ++
    [.run .monitor (sensor 1 1), call .monitor])
  have htr : (play step .init (startUp ++ motion ++ distance ++ ring ++
      [.run .monitor (sensor 1 1), call .monitor])).2 =
        (play step .init (startUp ++ motion ++ distance ++ ring)).2 ++
          [.getValue .door (some ⟨1, 1⟩),
            .timerStart (.thread .monitor) .doorOpenWait 30 true] := by decide +kernel
  have hreported := hevery _ _ hrun _ .door ⟨1, 1⟩ _ htr (by decide)
  rw [htr] at hrun
  obtain ⟨t', t, -, hread, hpost⟩ := Run.step_at hrun
  exact not_reported_of_monitor hread hpost rfl hreported

/-- The motion sensor fails, and the process is rebooted. -/
theorem reports_failures_iff_motion :
    ∃ tr s, Reaches tr s ∧ .getValue .motion (some ⟨0, 1⟩) ∈ tr ∧ .execl true ∈ tr ∧
      (ReportsFailures tr s ↔
        ∀ pre site data post, tr = pre ++ .getValue site (some data) :: post →
          data.status ≠ ecuWorking → site.thread ≠ .monitor ∧ Undisturbed site.thread post) := by
  have hrun := run_play step .init (startUp ++ reboot)
  refine ⟨_, _, hrun, ?_, ?_, reports_failures_iff hrun⟩
  · decide +kernel
  · decide +kernel

end Examples

end DoorBell
