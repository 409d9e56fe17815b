import LinuxPrograms.DoorBell.StartUp

/-!
# Door bell: a thread lost at start-up

A thread that wakes before `main` has set its flag leaves its loop, and nobody creates it again. All
four threads have a part in a visit before the first timer is started, so without one of them the
bell stays silent until the process is restarted.

- `Place.needs`: the threads that have had a part in what led to a place.
- `hasTaken_of_timerStart`: a timer is started only when every thread has taken a message or
  command.
- `Attended`: a thread that has taken something has found its flag set.
- `no_timer_of_left`: behind a test that finds the flag unset no timer is started.
-/

namespace DoorBell

open LabelledSystem

/-! ## Who has had a part -/

/-- The label is the receive of the thread. -/
def Label.takes : Thread → Label → Bool
  | .monitor, msgrcv _ => true
  | .worker w, read w' _ => w' = w
  | _, _ => false

/-- Since the last restart the thread has taken a message or command. -/
def HasTaken (tr : List Label) (th : Thread) : Prop :=
  Since (fun l => l.takes th = true) (fun l => l ≠ .execl true) tr

/-- All threads, in the order in which they have their part in a visit. -/
def visitOrder : List Thread := [.worker .motion, .monitor, .worker .distance, .worker .doorBell]

/-- The threads that have had a part in what led to a command. -/
def Command.needs : Command → List Thread
  | motionScanOn => []
  | calcDistance => visitOrder.take 2
  | ringBell => visitOrder.take 3
  | ringBellExpiry => visitOrder

/-- The threads that have had a part in what led to a message. -/
def Message.needs : Message → List Thread
  | ecuNotWorking => []
  | motionDetected => visitOrder.take 1
  | validDistance | invalidDistance => visitOrder.take 3
  | _ => visitOrder

/-- The threads that have had a part in what led to a place. -/
def Place.needs : Place → List Thread
  | startUp | reboot _ | lost => []
  | inPipe c => c.needs
  | holds c => .worker c.reader :: c.needs
  | posting _ m | queued m => m.needs
  | monitor m => .monitor :: m.needs
  | _ => visitOrder

theorem mem_visitOrder (th : Thread) : th ∈ visitOrder := by
  rcases th with _ | _ | _ | _ <;> decide

section Needs

variable {q q' : Activity} {pl : Place} {n : ℤ} {who : Actor} {c : Command} {m : Message}
  {t : Timer} {delaySec : ℕ} {ok : Bool} {l : Label} {th : Thread}

theorem Sends.needs (h : Sends pl who c) : c.needs ⊆ pl.needs := by
  cases h <;> decide

theorem Posts.needs (h : Posts pl n who m) : m.needs ⊆ pl.needs := by
  cases h with
  | posting => exact List.Subset.refl _
  | ringBellExpiry => decide
  | doorOpenWaitExpiry =>
      -- Whichever of its two messages the handler posts.
      unfold Message.retry
      split <;> decide

theorem Starts.needs (h : Starts pl who t delaySec) : visitOrder ⊆ pl.needs := by
  cases h <;> decide

/-- A worker's answer needs nobody else than its command did. -/
theorem needs_of_answer {data : ReadData} (h : answer c.reader data = some m.event) :
    m.needs ⊆ (Place.holds c).needs := by
  cases c with
  | motionScanOn =>
      rcases Message.of_motion h with rfl | rfl <;> decide
  | calcDistance =>
      rcases Message.of_distance h with rfl | rfl | rfl <;> decide
  | ringBell => cases h
  | ringBellExpiry => cases h

/-- A step from outside leaves the activity where it is, or loses it. -/
theorem Place.disturb_eq_or_lost (pl : Place) (l : Label) :
    pl.disturb l = pl ∨ pl.disturb l = .lost := by
  unfold disturb
  split
  · split <;> simp
  · split <;> simp
  · split <;> simp
  · split <;> simp
  · exact .inl rfl

/-- Who has a part at the next place had one before, or has just taken something. -/
theorem Advance.needs (h : Advance q l q') (hth : th ∈ q'.place.needs) :
    th ∈ q.place.needs ∨ l.takes th = true := by
  cases h with
  | send ok h =>
      cases ok with
      | false => cases hth
      | true => exact .inl (h.needs hth)
  | post ok h =>
      cases ok with
      | false => cases hth
      | true => exact .inl (h.needs hth)
  | start ok h =>
      cases ok with
      | false => cases hth
      | true => exact .inl (h.needs hth)
  | read c n =>
      rcases List.mem_cons.mp hth with rfl | hth
      · exact .inr (decide_eq_true rfl)
      · exact .inl hth
  | take m n =>
      rcases List.mem_cons.mp hth with rfl | hth
      · exact .inr rfl
      · exact .inl hth
  | decide h hans => exact .inl (needs_of_answer hans hth)
  | door data => exact .inl (List.mem_cons_of_mem _ (mem_visitOrder th))
  | poll data => exact .inl (mem_visitOrder th)
  | outside hout =>
      rcases q.place.disturb_eq_or_lost l with hq | hq
      · exact .inl (hq ▸ hth)
      · rw [hq] at hth
        cases hth
  | expire t => exact .inl hth
  | countExpiry => exact .inl hth
  | stop => exact .inl hth
  | senseExit => exact .inl hth
  | sense => exact .inl hth
  | doorExit => exact .inl hth
  | pollExit => exact .inl hth
  | _ => cases hth

/-- Behind a restart nobody has had a part. -/
theorem Advance.needs_of_execl (h : Advance q (.execl true) q') : q'.place.needs = [] := by
  generalize hl : Label.execl true = l at h
  cases h with
  | execl => rfl
  | rebootCall c => cases c <;> cases hl
  | outside hout => cases hl; cases hout
  | _ => cases hl

/-- A timer is started where `Starts` says. -/
theorem Advance.starts (h : Advance q (.timerStart who t delaySec ok) q') :
    Starts q.place who t delaySec := by
  generalize hl : Label.timerStart who t delaySec ok = l at h
  cases h with
  | start ok' h =>
      obtain ⟨rfl, rfl, rfl, -⟩ := Label.timerStart.inj hl
      exact h
  | rebootCall c => cases c <;> cases hl
  | outside hout => cases hl; cases hout
  | _ => cases hl

/-- Whoever has had a part at the place reached has taken something since the last restart. -/
theorem hasTaken_of_needs {tr : List Label} (h : Run Advance .init tr q)
    (hth : th ∈ q.place.needs) : HasTaken tr th := by
  refine h.history (P := fun tr q => th ∈ q.place.needs → HasTaken tr th) ?_ ?_ hth
  · intro hinit
    cases hinit
  · intro tr q l q' _ ih hadv hth'
    by_cases hl : l = .execl true
    · subst hl
      rw [hadv.needs_of_execl] at hth'
      cases hth'
    · rcases hadv.needs hth' with hold | htakes
      · exact (ih hold).snoc hl
      · exact Since.self tr htakes

end Needs

/-- A timer is started only when every thread has taken a message or command since the last
restart. -/
theorem hasTaken_of_timerStart {tr : List Label} {s s' : State} {who : Actor} {t : Timer}
    {delaySec : ℕ} {ok : Bool} (h : Reaches tr s) (hrecv : ∀ l ∈ tr, l.receives = true)
    (hstep : Step s (.timerStart who t delaySec ok) s') (th : Thread) : HasTaken tr th := by
  obtain ⟨q, hrun, hshape⟩ := h.advances hrecv
  obtain ⟨q', hadv, -⟩ := hshape.advance hstep.move.2 rfl
  exact hasTaken_of_needs hrun (hadv.starts.needs (mem_visitOrder th))

/-! ## A thread behind its loop -/

/-- A thread is created once, and takes something only when it has found its flag set. Before its
test the monitor is at its first command or has been terminated. -/
structure Attended (tr : List ProcessLabel) (p : Process) : Prop where
  todo : p.todo <:+ startUpCalls
  created : ∀ th, .pthreadCreate th ∈ p.todo → p.phase th = .absent
  body : ∀ th, p.phase th = .body → p.running th = true ∨
    th = .monitor ∧ (p.sys.monitor = .startUp ∨ p.sys.monitor = .terminated)
  running : ∀ th, HasTaken (calls tr) th → p.running th = true
  left : ∀ th, p.phase th = .left → ¬ HasTaken (calls tr) th

section Attended

variable {tr : List ProcessLabel} {p p' : Process} {l : ProcessLabel} {th : Thread}

theorem calls_snoc (tr : List ProcessLabel) (l : ProcessLabel) :
    calls (tr ++ [l]) = calls tr ++ l.call.toList := filterMap_snoc _ _ _

theorem not_hasTaken_nil (th : Thread) : ¬ HasTaken [] th := by
  rintro ⟨a, l, b, htr, -⟩
  simp at htr

/-- What was taken before a restart does not count. -/
theorem not_hasTaken_restart (tr : List Label) (th : Thread) :
    ¬ HasTaken (tr ++ [.execl true]) th := by
  intro h
  rcases h.exists_mem_of_not_quiet (by simp) with htakes | ⟨l, hl, -⟩
  · cases th <;> cases htakes
  · cases hl

/-- With one more label, a thread has taken something before, or it has just done so. -/
theorem hasTaken_snoc {tr : List Label} {l : Label} (h : HasTaken (tr ++ [l]) th) :
    HasTaken tr th ∨ l.takes th = true := by
  obtain ⟨a, l₀, b, htr, hl₀, hb⟩ := h
  rcases List.eq_nil_or_concat b with rfl | ⟨b', l₁, rfl⟩
  · obtain ⟨-, hlast⟩ := List.append_inj' htr rfl
    obtain rfl := List.singleton_inj.mp hlast
    exact .inr hl₀
  · rw [List.concat_eq_append, ← List.cons_append, ← List.append_assoc] at htr
    obtain ⟨rfl, -⟩ := List.append_inj' htr rfl
    refine .inl ⟨a, l₀, b', rfl, hl₀, fun l' hl' => hb l' ?_⟩
    rw [List.concat_eq_append]
    exact List.mem_append_left _ hl'

/-- Who takes something makes the call. -/
theorem Label.by_of_takes {l : Label} (h : l.takes th = true) : l.by th = true := by
  unfold takes at h
  split at h
  · rfl
  · obtain rfl := of_decide_eq_true h
    exact decide_eq_true rfl
  · cases h

/-- The monitor takes a message at its receive only. -/
theorem monitor_of_takes {s s' : State} {l : Label} (hstep : Step s l s')
    (htakes : l.takes .monitor = true) : s.monitor = .getMessage := by
  cases l with
  | msgrcv e =>
      obtain ⟨-, hmove⟩ := hstep.move
      rcases hmove.monitor with ⟨-, hm⟩ | ⟨hnot, -⟩
      · generalize s.monitor = pos at hm
        generalize s'.monitor = pos' at hm
        generalize hl : Label.msgrcv e = l at hm
        cases hm with
        | msgrcv => rfl
        | rebootCall c => cases c <;> cases hl
        | _ => cases hl
      · cases hnot
  | _ => cases htakes

/-- The monitor leaves its first command for its loop. -/
theorem monitor_of_startUp {s s' : State} {l : Label} (hstep : Step s l s')
    (hby : l.by .monitor = true) (hpos : s.monitor = .startUp) : s'.monitor = .getMessage := by
  obtain ⟨-, hmove⟩ := hstep.move
  rcases hmove.monitor with ⟨-, hm⟩ | ⟨hnot, -⟩
  · rw [hpos] at hm
    generalize s'.monitor = pos' at hm
    cases hm with
    | write ok h => rfl
    | start ok h => cases h
  · rw [hby] at hnot
    cases hnot

/-- A thread is created once. -/
theorem pthreadCreate_notMem {todo : List StartUpCall}
    (h : .pthreadCreate th :: todo <:+ startUpCalls) : .pthreadCreate th ∉ todo := by
  have hnodup : startUpCalls.Nodup := by decide
  exact (List.nodup_cons.mp (hnodup.sublist h.sublist)).1

theorem attended_fresh (tr : List ProcessLabel) (queue : List Event)
    (h : ∀ th, ¬ HasTaken (calls tr) th) : Attended tr (.fresh queue) where
  todo := List.suffix_refl _
  created _ _ := rfl
  body th hth := by cases hth
  running th hth := absurd hth (h th)
  left th _ := h th

/-- A call of `main` before its watch loop takes back no flag. -/
theorem running_startUpCall {c : StartUpCall} {ok : Bool}
    (h : startUpCall p c ok = some (p', l)) (hth : p.running th = true) :
    p'.running th = true := by
  cases c with
  | setRunning th' =>
      rw [startUpCall] at h
      split_ifs at h
      obtain ⟨rfl, -⟩ := Prod.mk.inj (Option.some.inj h)
      show Function.update p.running th' true th = true
      rcases eq_or_ne th th' with rfl | hne
      · exact Function.update_self ..
      · rw [Function.update_of_ne hne]
        exact hth
  | _ =>
      simp only [startUpCall] at h
      try split_ifs at h
      all_goals
        obtain ⟨rfl, -⟩ := Prod.mk.inj (Option.some.inj h)
        exact hth

theorem Attended.startUp (h : Attended tr p) {c : StartUpCall} {todo : List StartUpCall}
    {ok : Bool} (htodo : p.todo = c :: todo)
    (hcall : startUpCall { p with todo } c ok = some (p', l)) : Attended (tr ++ [l]) p' := by
  obtain ⟨hnone, htodo', hsys⟩ := startUpCall_eq_some hcall
  replace htodo' : p'.todo = todo := htodo'
  have hsuffix : c :: todo <:+ startUpCalls := htodo ▸ h.todo
  have hcalls : calls (tr ++ [l]) = calls tr := by
    rw [calls_snoc, hnone]
    exact List.append_nil _
  have hmonitor : p'.sys.monitor = p.sys.monitor := by
    rcases hsys with ⟨-, -, hsys, -⟩ | ⟨-, -, hsys, -⟩
    · rw [hsys]
    · rw [hsys]
  have hrunning : ∀ th, p.running th = true → p'.running th = true :=
    fun th hth => running_startUpCall hcall hth
  -- At most one thread changes its phase, and it has not been created before.
  have hphase : ∀ th, p'.phase th = p.phase th ∨
      c = .pthreadCreate th ∧ p'.phase th = .sleeping := by
    intro th
    rcases hsys with ⟨-, -, -, hp⟩ | ⟨-, -, -, hp | ⟨th', hc, hp⟩⟩
    · exact .inl (congrFun hp th)
    · exact .inl (congrFun hp th)
    · rcases eq_or_ne th th' with rfl | hne
      · exact .inr ⟨hc, by rw [hp, Function.update_self]⟩
      · exact .inl (by rw [hp, Function.update_of_ne hne])
  refine ⟨?_, fun th hmem => ?_, fun th hth => ?_, fun th hth => ?_, fun th hth => ?_⟩
  · rw [htodo']
    exact (List.suffix_cons c todo).trans hsuffix
  · rw [htodo'] at hmem
    rcases hphase th with hp | ⟨rfl, -⟩
    · rw [hp]
      exact h.created th (by rw [htodo]; exact List.mem_cons_of_mem c hmem)
    · exact absurd hmem (pthreadCreate_notMem hsuffix)
  · rw [hmonitor]
    rcases hphase th with hp | ⟨-, hp⟩
    · exact (h.body th (hp ▸ hth)).imp_left (hrunning th)
    · rw [hp] at hth
      cases hth
  · rw [hcalls] at hth
    exact hrunning th (h.running th hth)
  · rw [hcalls]
    rcases hphase th with hp | ⟨-, hp⟩
    · exact h.left th (hp ▸ hth)
    · rw [hp] at hth
      cases hth

theorem Attended.wake (h : Attended tr p) (hphase : p.phase th = .sleeping)
    (hfirst : p.sys.atFirstCall th = true) :
    Attended (tr ++ [.wake th]) { p with phase := Function.update p.phase th th.awake } := by
  have hcalls : calls (tr ++ [.wake th]) = calls tr := by
    rw [calls_snoc]
    exact List.append_nil _
  have hother : ∀ th', th' ≠ th → Function.update p.phase th th.awake th' = p.phase th' :=
    fun th' hne => Function.update_of_ne hne _ _
  refine ⟨h.todo, fun th' hmem => ?_, fun th' hth => ?_, fun th' hth => ?_, fun th' hth => ?_⟩
  · rcases eq_or_ne th' th with rfl | hne
    · rw [h.created th' hmem] at hphase
      cases hphase
    · exact (hother th' hne).trans (h.created th' hmem)
  · rcases eq_or_ne th' th with rfl | hne
    · cases th' with
      | monitor => exact .inr ⟨rfl, .inl (of_decide_eq_true hfirst)⟩
      | worker w =>
          have hawake : Thread.awake (.worker w) = .body :=
            (Function.update_self _ _ p.phase).symm.trans hth
          cases hawake
    · exact h.body th' ((hother th' hne).symm.trans hth)
  · exact h.running th' (hcalls ▸ hth)
  · rw [hcalls]
    rcases eq_or_ne th' th with rfl | hne
    · have hawake : Thread.awake th' = .left := (Function.update_self _ _ p.phase).symm.trans hth
      cases th' <;> cases hawake
    · exact h.left th' ((hother th' hne).symm.trans hth)

theorem Attended.test (h : Attended tr p) (hphase : p.phase th = .test) :
    Attended (tr ++ [.test th (p.running th)])
      { p with phase := Function.update p.phase th (if p.running th then .body else .left) } := by
  have hcalls : calls (tr ++ [.test th (p.running th)]) = calls tr := by
    rw [calls_snoc]
    exact List.append_nil _
  have hself : Function.update p.phase th (if p.running th then Phase.body else .left) th =
      if p.running th then .body else .left := Function.update_self ..
  have hother : ∀ th', th' ≠ th →
      Function.update p.phase th (if p.running th then Phase.body else .left) th' = p.phase th' :=
    fun th' hne => Function.update_of_ne hne _ _
  refine ⟨h.todo, fun th' hmem => ?_, fun th' hth => ?_, fun th' hth => ?_, fun th' hth => ?_⟩
  · rcases eq_or_ne th' th with rfl | hne
    · rw [h.created th' hmem] at hphase
      cases hphase
    · exact (hother th' hne).trans (h.created th' hmem)
  · rcases eq_or_ne th' th with rfl | hne
    · refine .inl ?_
      have hbody := hself.symm.trans hth
      split_ifs at hbody with hr
      exact hr
    · exact h.body th' ((hother th' hne).symm.trans hth)
  · exact h.running th' (hcalls ▸ hth)
  · rw [hcalls]
    rcases eq_or_ne th' th with rfl | hne
    · -- The flag is unset, so the thread has taken nothing yet.
      have hleft := hself.symm.trans hth
      split_ifs at hleft with hr
      exact fun htaken => hr (h.running th' htaken)
    · exact h.left th' ((hother th' hne).symm.trans hth)

theorem Attended.sys (h : Attended tr p) {s : State} {l : Label} (hstep : Step p.sys l s)
    (hopen : p.Permits l) :
    Attended (tr ++ [.sys l]) { p with sys := s, phase := p.phaseAfter s l } := by
  have hcalls : calls (tr ++ [.sys l]) = calls tr ++ [l] := calls_snoc tr _
  have hother : ∀ th, l.by th ≠ true → p.phaseAfter s l th = p.phase th := fun th hby => if_neg hby
  have hown : ∀ th, l.by th = true →
      p.phaseAfter s l th = if s.atLoopHead th then .test else .body := fun th hby => if_pos hby
  refine ⟨h.todo, fun th hmem => ?_, fun th hth => ?_, fun th hth => ?_, fun th hth => ?_⟩
  · refine (hother th fun hby => ?_).trans (h.created th hmem)
    have hbody := hopen.thread th hby
    rw [h.created th hmem] at hbody
    cases hbody
  · by_cases hby : l.by th = true
    · rcases h.body th (hopen.thread th hby) with hr | ⟨rfl, hpos | hpos⟩
      · exact .inl hr
      · -- The monitor has sent its first command and is at its loop.
        have hhead : s.atLoopHead .monitor = true :=
          decide_eq_true (monitor_of_startUp hstep hby hpos)
        have hbody := (hown .monitor hby).symm.trans hth
        rw [if_pos hhead] at hbody
        cases hbody
      · have hterm := terminated_eq_false hstep hby
        exact absurd hpos (of_decide_eq_false hterm)
    · rcases h.body th ((hother th hby).symm.trans hth) with hr | ⟨rfl, hpos⟩
      · exact .inl hr
      · refine .inr ⟨rfl, ?_⟩
        show s.monitor = .startUp ∨ s.monitor = .terminated
        rcases hstep.move.2.monitor with ⟨hby', -⟩ | ⟨-, hm | hm⟩
        · exact absurd hby' hby
        · rw [hm]
          exact hpos
        · exact .inr hm
  · rw [hcalls] at hth
    rcases hasTaken_snoc hth with hold | htakes
    · exact h.running th hold
    · rcases h.body th (hopen.thread th (Label.by_of_takes htakes)) with hr | ⟨rfl, hpos⟩
      · exact hr
      · rw [monitor_of_takes hstep htakes] at hpos
        rcases hpos with hpos | hpos <;> cases hpos
  · rw [hcalls]
    intro htaken
    by_cases hby : l.by th = true
    · have hleft := (hown th hby).symm.trans hth
      split_ifs at hleft
    · rcases hasTaken_snoc htaken with hold | htakes
      · exact h.left th ((hother th hby).symm.trans hth) hold
      · exact hby (Label.by_of_takes htakes)

/-- Every step keeps the invariant. -/
theorem Attended.step (h : Attended tr p) (hm : ProcessMove p l p') : Attended (tr ++ [l]) p' := by
  cases hm with
  | startUp c todo ok htodo hcall => exact h.startUp htodo hcall
  | wake th hphase hfirst => exact h.wake hphase hfirst
  | test th hphase => exact h.test hphase
  | restart =>
      refine attended_fresh _ _ fun th => ?_
      rw [calls_snoc]
      exact not_hasTaken_restart _ th
  | sys s l hstep hopen => exact h.sys hstep hopen

/-- The invariant holds in every run. -/
theorem attended {queue : List Event} (h : ProcessReaches queue tr p) : Attended tr p := by
  refine h.history (P := Attended) (attended_fresh [] queue fun th => not_hasTaken_nil th) ?_
  intro tr p l p' _ ih hstep
  exact ih.step (processStep_move hstep)

/-- A thread behind its loop stays there until the process is restarted. -/
theorem left_of_step {tr : List ProcessLabel} (h : Attended tr p) (hm : ProcessMove p l p')
    (hl : l ≠ .sys (.execl true)) (hleft : p.phase th = .left) : p'.phase th = .left := by
  cases hm with
  | startUp c todo ok htodo hcall =>
      obtain ⟨-, -, ⟨-, -, -, hp⟩ | ⟨-, -, -, hp | ⟨th', rfl, hp⟩⟩⟩ := startUpCall_eq_some hcall
      · exact (congrFun hp th).trans hleft
      · exact (congrFun hp th).trans hleft
      · rw [hp]
        refine (Function.update_of_ne ?_ _ _).trans hleft
        -- A thread that is created had not been before.
        rintro rfl
        rw [h.created th (by rw [htodo]; exact List.mem_cons_self)] at hleft
        cases hleft
  | wake th' hphase =>
      refine (Function.update_of_ne ?_ _ _).trans hleft
      rintro rfl
      rw [hleft] at hphase
      cases hphase
  | test th' hphase =>
      refine (Function.update_of_ne ?_ _ _).trans hleft
      rintro rfl
      rw [hleft] at hphase
      cases hphase
  | restart => exact absurd rfl hl
  | sys s l hstep hopen =>
      refine (if_neg fun hby => ?_).trans hleft
      have hbody := hopen.thread th hby
      rw [hleft] at hbody
      cases hbody

/-- The same, along a run. -/
theorem left_of_run {tr' : List ProcessLabel} (hatt : Attended tr p)
    (h : Run (StepOf processStep) p tr' p') (hno : .sys (.execl true) ∉ tr')
    (hleft : p.phase th = .left) : p'.phase th = .left := by
  have hboth := h.history (P := fun tr' p' => Attended (tr ++ tr') p' ∧
    (.sys (.execl true) ∉ tr' → p'.phase th = .left))
    ⟨by rw [List.append_nil]; exact hatt, fun _ => hleft⟩ fun tr' t l u _ ih hstep => by
      obtain ⟨hatt', hleft'⟩ := ih
      have hm := processStep_move hstep
      refine ⟨by rw [← List.append_assoc]; exact hatt'.step hm, fun hno' => ?_⟩
      rw [List.mem_append, List.mem_singleton, not_or] at hno'
      exact left_of_step hatt' hm (Ne.symm hno'.2) (hleft' hno'.1)
  exact hboth.2 hno

/-- A thread that finds its flag unset leaves its loop. -/
theorem left_of_test (h : StepOf processStep p (.test th false) p') : p'.phase th = .left := by
  have hmove := processStep_move h
  generalize hl : ProcessLabel.test th false = l at hmove
  cases hmove with
  | test th' hphase =>
      obtain ⟨rfl, hr⟩ := ProcessLabel.test.inj hl
      show Function.update p.phase th (if p.running th then .body else .left) th = .left
      rw [Function.update_self, ← hr]
      rfl
  | startUp c todo ok htodo hcall =>
      obtain ⟨-, -, ⟨-, rfl, -⟩ | ⟨-, rfl, -⟩⟩ := startUpCall_eq_some hcall <;> cases hl
  | _ => cases hl

end Attended

/-- Where a thread has found its flag unset, no timer is started until the process is restarted, and
the bell stays silent. -/
theorem no_timer_of_left {queue : List Event} {pre post : List ProcessLabel} {p : Process}
    {th : Thread} (h : ProcessReaches queue (pre ++ .test th false :: post) p)
    (hclean : ∀ l ∈ pre ++ .test th false :: post, l.clean = true)
    (hrecv : ∀ l ∈ calls (pre ++ .test th false :: post), l.receives = true)
    (hno : .sys (.execl true) ∉ post) (who : Actor) (t : Timer) (delaySec : ℕ) (ok : Bool) :
    .sys (.timerStart who t delaySec ok) ∉ post := by
  intro hmem
  obtain ⟨mid, rest, rfl⟩ := List.append_of_mem hmem
  obtain ⟨p₀, p₁, hpre, htest, hpost⟩ := h.step_at
  obtain ⟨p₂, p₃, hmid, hstart, -⟩ := hpost.step_at
  have hrun : ProcessReaches queue (pre ++ .test th false :: mid) p₂ :=
    hpre.append (Run.cons_iff.mpr ⟨p₁, htest, hmid⟩)
  -- Until then the thread has stayed behind its loop and taken nothing.
  have hleft : p₂.phase th = .left := by
    refine left_of_run (attended (hpre.snoc htest)) hmid (fun hmem' => hno ?_) (left_of_test htest)
    exact List.mem_append_left _ hmem'
  refine (attended hrun).left th hleft ?_
  -- But a timer is started only when all threads have taken something.
  have hsplit : pre ++ .test th false :: (mid ++ .sys (.timerStart who t delaySec ok) :: rest) =
      (pre ++ .test th false :: mid ++ [.sys (.timerStart who t delaySec ok)]) ++ rest := by
    simp
  rw [hsplit, List.forall_mem_append] at hclean
  have hreaches := reaches_calls (hrun.snoc hstart) hclean.1
  rw [calls_snoc] at hreaches
  obtain ⟨s, hs, hstep⟩ := Run.snoc_iff.mp hreaches
  refine hasTaken_of_timerStart hs (fun l hl => hrecv l ?_) hstep th
  rw [hsplit, calls, List.filterMap_append, List.filterMap_append, ← calls]
  exact List.mem_append_left _ (List.mem_append_left _ hl)

/-- The motion thread wakes before `main` has set its flag. -/
def Schedule.earlyMotion : List ProcessAct :=
  List.replicate 13 (.startUp true) ++ [.wake (.worker .motion), .test (.worker .motion)] ++
    List.replicate 8 (.startUp true) ++ [.wake .monitor, .sys (Schedule.call .monitor)]

/-- Without the motion thread the monitor's first command stays in its pipe. -/
theorem no_timer_of_left_motion :
    ∃ pre post p, ProcessReaches [] (pre ++ .test (.worker .motion) false :: post) p ∧
      p.todo = [] ∧ p.sys.pipe .t1 = Command.motionScanOn.frame.bytes ∧
      ∀ who t delaySec ok, .sys (.timerStart who t delaySec ok) ∉ post := by
  have hrun := run_play processStep (.fresh []) Schedule.earlyMotion
  have htr : (play processStep (.fresh []) Schedule.earlyMotion).2 =
      (play processStep (.fresh []) Schedule.earlyMotion).2.take 14 ++
        .test (.worker .motion) false ::
          (play processStep (.fresh []) Schedule.earlyMotion).2.drop 15 := by
    decide +kernel
  rw [htr] at hrun
  refine ⟨_, _, _, hrun, ?_, ?_, no_timer_of_left hrun ?_ ?_ ?_⟩ <;> decide +kernel

end DoorBell
