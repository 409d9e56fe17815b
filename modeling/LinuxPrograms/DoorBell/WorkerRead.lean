import LinuxPrograms.DoorBell.Threads

/-!
# Door bell: how often the workers react

A failed pipe read leaves the buffer of the motion and the door bell thread as it was, and they act
on the command in it again; the distance thread has cleared its own. Each worker reacts at most
once for each frame exactly in the runs in which it makes no step after a read that failed with
such a command in its buffer (`reacts_once_iff`).
-/

namespace DoorBell

open CString LabelledSystem

/-- The worker reads its sensor, starts its timer or posts an event. -/
def Label.reacts (w : Worker) : Label → Bool
  | getValue site _ => site.thread = .worker w
  | msgsnd who _ _ | timerStart who _ _ _ => who = .thread (.worker w)
  | _ => false

/-- The step ends the worker's turn, or begins the next one. -/
def Label.endsTurn (w : Worker) : Label → Bool
  | read w' _ | readFail w' _ => w' = w
  | msgsnd who _ _ | timerStart who _ _ _ => who = .thread (.worker w)
  | execl ok => ok
  | _ => false

/-- Every reaction of the worker belongs to a turn that began with a successful read of a frame,
and in which it has neither posted nor started a timer before; a distance is taken once in it. -/
def ReactsOncePerFrame (w : Worker) (tr : List Label) : Prop :=
  Throughout (fun pre l => l.reacts w = true →
    Since (fun l' => ∃ buff, l' = .read w buff)
      (fun l' => l'.endsTurn w = false ∧
        ((∃ data, l = .getValue .distance data) → l'.reacts w = false)) pre) tr

/-- A read of the worker has failed with a command in its buffer that it acts on, and it has made
no step since. -/
def StaleRead (w : Worker) (tr : List Label) : Prop :=
  Since (fun l => ∃ buff, l = .readFail w buff ∧ w.handles (strEnum (some buff.bytes)) = true)
    (fun l => l.by (.worker w) = false ∧ l ≠ .execl true) tr

section Steps

variable {w : Worker} {s s' : State} {pos pos' : WorkerPos} {l : Label} {tr : List Label}

/-- A step of somebody else is no reaction. -/
private theorem reacts_of_not_by (h : l.by (.worker w) = false) : l.reacts w = false := by
  cases l <;> simp_all [Label.by, Label.reacts]

/-- A step of somebody else does not end the turn, unless it restarts the process. -/
private theorem endsTurn_of_not_by (h : l.by (.worker w) = false) (hl : l ≠ .execl true) :
    l.endsTurn w = false := by
  cases l with
  | execl ok => cases ok <;> simp_all [Label.endsTurn]
  | read w' => simp_all [Label.by, Label.endsTurn, eq_comm]
  | readFail w' => simp_all [Label.by, Label.endsTurn, eq_comm]
  | _ => simp_all [Label.by, Label.endsTurn]

/-- A worker reads its sensor on an event it acts on. -/
private theorem handles_of_senses {e : Event} {site : Site} (h : Senses w e site) :
    w.handles e = true := by
  cases h <;> rfl

/-- With an event it acts on in its buffer, the worker's next step is a reaction. -/
theorem WorkerMove.reacts (h : WorkerMove w pos l pos')
    (hpos : (∃ e, pos = .switch e ∧ w.handles e = true) ∨ pos = .terminated) :
    l.reacts w = true := by
  rcases hpos with ⟨e, rfl, he⟩ | rfl
  · cases h with
    | senseExit hs => simp [Label.reacts, hs.thread_eq]
    | sense hs => simp [Label.reacts, hs.thread_eq]
    | decide hs => simp [Label.reacts, hs.thread_eq]
    | postExpiry => simp [Label.reacts]
    | startBell => simp [Label.reacts]
    | ignore e hh =>
        rw [he] at hh
        cases hh
  · cases h

/-- A failed read goes on with what is in the buffer. -/
theorem WorkerMove.of_readFail {buff : CBuffer maxMessageSize}
    (h : WorkerMove w pos (.readFail w buff) pos') :
    pos' = .switch (strEnum (some buff.bytes)) := by
  generalize hl : Label.readFail w buff = l at h
  cases h with
  | readFail buff' =>
      obtain ⟨-, rfl⟩ := Label.readFail.inj hl
      rfl
  | ignore e => rcases ignoreLabel_eq _ e with h | h <;> cases hl.trans h
  | _ => cases hl

/-- What a failed read of the distance thread leaves names no event it acts on. -/
theorem Move.readFail_distance {buff : CBuffer maxMessageSize}
    (h : Move s (.readFail .distance buff) s') : buff = .zero _ := by
  generalize hl : Label.readFail .distance buff = l at h
  cases h with
  | readFail w hpos =>
      obtain ⟨rfl, rfl⟩ := Label.readFail.inj hl
      rfl
  | rebootCall c => cases c <;> cases hl
  | shutdownCall c => cases c <;> cases hl
  | ignore w e => rcases ignoreLabel_eq w e with h | h <;> cases hl.trans h
  | _ => cases hl

/-- A `get_value` that exits ends the process. -/
theorem Move.exited_of_getValue {site : Site} (h : Move s (.getValue site none) s') :
    s'.exited = true := by
  generalize hl : Label.getValue site none = l at h
  cases h with
  | senseExit => rfl
  | doorExit => rfl
  | pollExit => rfl
  | rebootCall c => cases c <;> cases hl
  | shutdownCall c => cases c <;> cases hl
  | ignore w e => rcases ignoreLabel_eq w e with h | h <;> cases hl.trans h
  | _ => cases hl

/-- Behind a stale read the worker is at the command again, or has ended. -/
theorem pos_of_staleRead (h : Reaches tr s) (hstale : StaleRead w tr) :
    (∃ e, (s.worker w).pos = .switch e ∧ w.handles e = true) ∨ (s.worker w).pos = .terminated := by
  refine Run.since (P := fun s => (∃ e, (s.worker w).pos = .switch e ∧ w.handles e = true) ∨
    (s.worker w).pos = .terminated) h hstale ?_ ?_
  · rintro t l u hstep ⟨buff, rfl, hbuff⟩
    rcases hstep.move.2.worker w with ⟨-, hmove⟩ | ⟨hby, -⟩
    · exact .inl ⟨_, hmove.of_readFail, hbuff⟩
    · simp [Label.by] at hby
  · rintro t l u ht hstep ⟨hby, hl⟩
    rcases hstep.move.2.worker w with ⟨hby', -⟩ | ⟨-, hpos | ⟨-, hpos⟩ | hl'⟩
    · rw [hby] at hby'
      cases hby'
    · rwa [hpos]
    · exact .inr hpos
    · exact absurd hl' hl

end Steps

/-! ## Runs -/

/-- What the labels so far say of the command or the event the worker has in hand, as long as the
process goes on: it comes from a frame it has read in this turn. -/
structure InHand (w : Worker) (tr : List Label) (s : State) : Prop where
  command : s.exited = false → ∀ e, (s.worker w).pos = .switch e → w.handles e = true →
    Since (fun l => ∃ buff, l = .read w buff)
      (fun l => l.endsTurn w = false ∧ (w = .distance → l.reacts w = false)) tr
  event : ∀ e, (s.worker w).pos = .post e →
    Since (fun l => ∃ buff, l = .read w buff) (fun l => l.endsTurn w = false) tr

namespace InHand

variable {w : Worker} {tr : List Label} {s s' : State} {l : Label}

/-- A worker at its read, or at its end, has nothing in hand. -/
theorem of_pos (h : (s.worker w).pos = .read ∨ (s.worker w).pos = .terminated) : InHand w tr s := by
  rcases h with h | h
  · exact ⟨fun _ e he => (by rw [h] at he; cases he), fun e he => by rw [h] at he; cases he⟩
  · exact ⟨fun _ e he => (by rw [h] at he; cases he), fun e he => by rw [h] at he; cases he⟩

/-- A step of somebody else. -/
theorem of_other (h : InHand w tr s) (hs : s.exited = false) (hby : l.by (.worker w) = false)
    (hl : l ≠ .execl true) (hpos : (s'.worker w).pos = (s.worker w).pos) :
    InHand w (tr ++ [l]) s' := by
  have hends := endsTurn_of_not_by hby hl
  refine ⟨fun _ e he hh => ?_, fun e he => ?_⟩
  · rw [hpos] at he
    exact (h.command hs e he hh).snoc ⟨hends, fun _ => reacts_of_not_by hby⟩
  · rw [hpos] at he
    exact (h.event e he).snoc hends

/-- The reading of a sensor, with its command in hand. -/
private theorem reaction_getValue (h : InHand w tr s) (hs : s.exited = false) {e : Event}
    {site : Site} (hpos : (s.worker w).pos = .switch e) (hsense : Senses w e site)
    (data : Option ReadData) :
    Since (fun l' => ∃ buff, l' = .read w buff) (fun l' => l'.endsTurn w = false ∧
      ((∃ data', Label.getValue site data = .getValue .distance data') →
        l'.reacts w = false)) tr := by
  refine (h.command hs e hpos (handles_of_senses hsense)).mono fun l' hl' => ⟨hl'.1, ?_⟩
  rintro ⟨data', hsite⟩
  refine hl'.2 ?_
  obtain ⟨rfl, -⟩ := Label.getValue.inj hsite
  cases hsense
  rfl

/-- A step of the worker's own. -/
private theorem of_own (h : InHand w tr s) (hs : s.exited = false) (hm : Move s l s')
    (hw : WorkerMove w (s.worker w).pos l (s'.worker w).pos) :
    (l.reacts w = true → Since (fun l' => ∃ buff, l' = .read w buff) (fun l' =>
        l'.endsTurn w = false ∧
          ((∃ data, l = .getValue .distance data) → l'.reacts w = false)) tr) ∧
      (InHand w (tr ++ [l]) s' ∨ StaleRead w (tr ++ [l])) := by
  generalize hpos : (s.worker w).pos = pos, hpos' : (s'.worker w).pos = pos' at hw
  cases hw with
  -- A read begins a turn, with nothing done in it yet.
  | read buff =>
      refine ⟨nofun, .inl ⟨fun _ e _ _ => Since.self tr ⟨buff, rfl⟩, fun e he => ?_⟩⟩
      rw [hpos'] at he
      cases he
  | readFail buff =>
      refine ⟨nofun, ?_⟩
      -- A failed read with a command in the buffer is stale; anything else goes to the `default`.
      by_cases hh : w.handles (strEnum (some buff.bytes)) = true
      · exact .inr (Since.self tr ⟨buff, rfl, hh⟩)
      · refine .inl ⟨fun _ e he he' => ?_, fun e he => ?_⟩
        · rw [hpos'] at he
          obtain rfl := WorkerPos.switch.inj he
          exact absurd he' hh
        · rw [hpos'] at he
          cases he
  -- The worker is still at its command, but the process is over.
  | senseExit hsense =>
      refine ⟨fun _ => h.reaction_getValue hs hpos hsense none,
        .inl ⟨fun hs' => ?_, fun e he => ?_⟩⟩
      · rw [hm.exited_of_getValue] at hs'
        cases hs'
      · rw [hpos'] at he
        cases he
  | @sense e site data hsense hans =>
      refine ⟨fun _ => h.reaction_getValue hs hpos hsense _,
        .inl ⟨fun _ e' he hh => ?_, fun e' he => ?_⟩⟩
      · -- Only the scan loop reads again.
        rw [hpos'] at he
        obtain rfl := WorkerPos.switch.inj he
        refine (h.command hs e hpos hh).snoc ⟨rfl, ?_⟩
        rintro rfl
        cases hans
      · rw [hpos'] at he
        cases he
  | @decide e e' site data hsense hans =>
      refine ⟨fun _ => h.reaction_getValue hs hpos hsense _,
        .inl ⟨fun _ e₁ he => ?_, fun e₁ he => ?_⟩⟩
      · rw [hpos'] at he
        cases he
      · have hcmd := h.command hs e hpos (handles_of_senses hsense)
        exact (hcmd.mono fun l' hl' => hl'.1).snoc rfl
  -- Posts and the start of the bell timer end the turn.
  | post e ok =>
      refine ⟨fun _ => (h.event e hpos).mono fun l' hl' => ⟨hl', nofun⟩, .inl (of_pos (.inl hpos'))⟩
  | postExpiry ok hw =>
      subst hw
      have hcmd := h.command hs _ hpos rfl
      exact ⟨fun _ => hcmd.mono fun l' hl' => ⟨hl'.1, nofun⟩, .inl (of_pos (.inl hpos'))⟩
  | startBell ok hw =>
      subst hw
      have hcmd := h.command hs _ hpos rfl
      exact ⟨fun _ => hcmd.mono fun l' hl' => ⟨hl'.1, nofun⟩, .inl (of_pos (.inl hpos'))⟩
  | ignore e hh =>
      refine ⟨fun hreact => ?_, .inl (of_pos (.inl hpos'))⟩
      unfold ignoreLabel at hreact
      split at hreact <;> cases hreact

/-- One step. -/
theorem step (h : InHand w tr s) (hstep : Step s l s') :
    (l.reacts w = true → Since (fun l' => ∃ buff, l' = .read w buff) (fun l' =>
        l'.endsTurn w = false ∧
          ((∃ data, l = .getValue .distance data) → l'.reacts w = false)) tr) ∧
      (InHand w (tr ++ [l]) s' ∨ StaleRead w (tr ++ [l])) := by
  obtain ⟨hs, hm⟩ := hstep.move
  rcases hm.worker w with ⟨-, hw⟩ | ⟨hby, hpos⟩
  · exact h.of_own hs hm hw
  · refine ⟨fun hreact => ?_, .inl ?_⟩
    · rw [reacts_of_not_by hby] at hreact
      cases hreact
    · by_cases hl : l = .execl true
      · -- A restart puts the worker back to its read.
        subst hl
        rw [hm.restart]
        exact of_pos (.inl rfl)
      · rcases hpos with hpos | ⟨-, hpos⟩ | hl'
        · exact h.of_other hs hby hl hpos
        · exact of_pos (.inr hpos)
        · exact absurd hl' hl

end InHand

section Runs

variable {w : Worker} {tr : List Label} {s : State}

/-- A worker that has read stale data once reacts to it if it makes another step. -/
private theorem not_by_of_reactsOnce (h : Reaches tr s) (honce : ReactsOncePerFrame w tr) :
    Throughout (fun pre l => StaleRead w pre → l.by (.worker w) = false) tr := by
  rintro pre l post rfl hstale
  obtain ⟨t₀, t, hpre, hstep, -⟩ := Run.step_at h
  rcases hstep.move.2.worker w with ⟨-, hmove⟩ | ⟨hby, -⟩
  · -- The step is a reaction, but the turn did not begin with a frame.
    have hsince := honce pre l post rfl (hmove.reacts (pos_of_staleRead hpre hstale))
    obtain ⟨a, l₀, b, rfl, ⟨buff, rfl, -⟩, hb⟩ := hstale
    -- A frame would have to be read after the failed read, where the worker makes no step.
    rcases hsince.exists_mem_of_not_quiet (by simp [Label.endsTurn]) with
      ⟨buff', hread⟩ | ⟨l', hl', buff', rfl⟩
    · cases hread
    · have hby := (hb _ hl').1
      simp [Label.by] at hby
  · exact hby

/-- Without a step after a stale read, every reaction is one to a frame. -/
private theorem reactsOnce_of_not_by (h : Reaches tr s)
    (hnone : Throughout (fun pre l => StaleRead w pre → l.by (.worker w) = false) tr) :
    ReactsOncePerFrame w tr := by
  refine (Run.throughout (J := fun tr s => InHand w tr s ∨ StaleRead w tr) h hnone
    (.inl (InHand.of_pos (.inl rfl))) ?_).1
  rintro tr s l s' (hhand | hstale) hstep hl
  · exact hhand.step hstep
  · -- From a stale read on, only others make steps.
    have hby := hl hstale
    refine ⟨fun hreact => ?_, ?_⟩
    · rw [reacts_of_not_by hby] at hreact
      cases hreact
    · by_cases hexecl : l = .execl true
      · subst hexecl
        rw [hstep.move.2.restart]
        exact .inl (InHand.of_pos (.inl rfl))
      · exact .inr (hstale.snoc ⟨hby, hexecl⟩)

/-- The distance thread reads no stale data. -/
private theorem not_staleRead_distance (h : Reaches tr s) : ¬ StaleRead .distance tr := by
  rintro ⟨a, l, b, rfl, ⟨buff, rfl, hbuff⟩, -⟩
  obtain ⟨t₀, t, -, hstep, -⟩ := Run.step_at h
  rw [hstep.move.2.readFail_distance, strEnum_zero] at hbuff
  cases hbuff

end Runs

/-- A worker reacts at most once for each frame it has received if and only if it makes no step
after a read that failed with a command in its buffer that it acts on. The distance thread always
does, whichever of its reads fail. -/
theorem reacts_once_iff {tr : List Label} {s : State} (h : Reaches tr s) :
    (∀ w, ReactsOncePerFrame w tr ↔
      Throughout (fun pre l => StaleRead w pre → l.by (.worker w) = false) tr) ∧
      ReactsOncePerFrame .distance tr := by
  refine ⟨fun w => ⟨not_by_of_reactsOnce h, reactsOnce_of_not_by h⟩, reactsOnce_of_not_by h ?_⟩
  rintro pre l post rfl hstale
  obtain ⟨t, hpre, -⟩ := Run.split h
  exact absurd hstale (not_staleRead_distance hpre)

section Examples

open Schedule

/-- The motion thread has answered its command; then its read fails, and it scans again. -/
theorem not_reacts_once : ¬ ∀ tr s, Reaches tr s → ∀ w, ReactsOncePerFrame w tr := by
  intro hevery
  have hrun := run_play step .init (startUp ++ motion.take 3 ++
    [.run (.worker .motion) (.ret false), .run (.worker .motion) (sensor 1 0)])
  have htr : (play step .init (startUp ++ motion.take 3 ++
      [.run (.worker .motion) (.ret false), .run (.worker .motion) (sensor 1 0)])).2 =
      [.write (.thread .monitor) .t1 (message "MOTION_SCAN_ON") true,
        .read .motion (message "MOTION_SCAN_ON"), .getValue .motion (some ⟨1, 0⟩),
        .msgsnd (.thread (.worker .motion)) .motionDetected true] ++
          .readFail .motion (message "MOTION_SCAN_ON") :: [] ++
            [.getValue .motion (some ⟨1, 0⟩)] := by
    decide +kernel
  have hsince := hevery _ _ hrun .motion _ _ [] htr rfl
  rcases hsince.exists_mem_of_not_quiet (by simp [Label.endsTurn]) with ⟨buff, hread⟩ | ⟨l, hl, -⟩
  · cases hread
  · cases hl

/-- A run in which reads fail with nothing in the buffers. -/
theorem reacts_once_iff_early :
    ∃ tr s, Reaches tr s ∧ .readFail .motion (.zero _) ∈ tr ∧ .readFail .distance (.zero _) ∈ tr ∧
      (∀ w, ReactsOncePerFrame w tr ↔
        Throughout (fun pre l => StaleRead w pre → l.by (.worker w) = false) tr) ∧
      ReactsOncePerFrame .distance tr := by
  have hrun := run_play step .init ([.run (.worker .motion) (.ret false),
    .run (.worker .motion) .go] ++ startUp ++ motion ++ distance ++
      [.run (.worker .distance) (.ret false)])
  refine ⟨_, _, hrun, ?_, ?_, reacts_once_iff hrun⟩
  · decide +kernel
  · decide +kernel

end Examples

end DoorBell
