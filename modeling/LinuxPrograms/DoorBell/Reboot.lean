import LinuxPrograms.DoorBell.Steady
import LinuxPrograms.DoorBell.Threads

/-!
# Door bell: the reboot

`process_reboot` deletes the timers and cancels the threads before it calls `execl`, the one call
behind which nothing is left to do. A failed `execl` takes the monitor back to its loop.

- `AllOrNothing`: a reboot entered is under way, and nothing is torn down outside of it.
- `Inv`: what holds in every run in which no `execl` fails.
- `reboot_iff`: a reboot is all or nothing exactly if no `execl` fails.
-/

namespace DoorBell

open CString LabelledSystem

/-! ## Following a reboot -/

/-- What a label adds to the calls `process_reboot` has made since it was entered; `none` where it
has not been entered in this process image. -/
def Label.handle (done : Option (List TeardownCall)) : Label → Option (List TeardownCall)
  | .processReboot => some []
  | .execl true => none
  | .timerStop (.thread .monitor) t _ => done.map (· ++ [.timerStop t])
  | .timerDestroy (.thread .monitor) t _ => done.map (· ++ [.timerDestroy t])
  | .pthreadCancel (.thread .monitor) th _ => done.map (· ++ [.pthreadCancel th])
  | _ => done

/-- The calls `process_reboot` has made since it was entered. -/
def handled (tr : List Label) : Option (List TeardownCall) := tr.foldl Label.handle none

/-- A timer is destroyed or a worker cancelled. -/
def State.Torn (s : State) : Prop :=
  (∃ t, s.timer t = .deleted) ∨ ∃ w, s.cancelled (.worker w) = true

/-- Behind the labels `tr`, what a reboot left of the process. -/
structure AllOrNothing (tr : List Label) (s : State) : Prop where
  /-- Once entered, the reboot is under way, its calls in their order, until a fresh image is
  started, or `main` has terminated the monitor and is about to exit. -/
  handling : ∀ done, handled tr = some done →
    (s.monitor = .terminated ∧ s.main ≠ .watching) ∨
      ∃ todo, s.monitor = .reboot todo ∧ done ++ todo = processRebootCalls
  /-- Whatever the last call returned the next one can be made, and behind the last one a fresh
  image started. -/
  going : s.exited = false → ∀ todo, s.monitor = .reboot todo →
    ∃ l s', Step s l s' ∧ (s' = .init ∨ ∃ c rest, todo = c :: rest ∧ s'.monitor = .reboot rest)
  /-- At its receive the monitor has its timers and its workers, unless `main` is shutting down. -/
  receiving : s.monitor = .getMessage → s.Torn → s.main ≠ .watching

theorem handled_snoc (tr : List Label) (l : Label) : handled (tr ++ [l]) = l.handle (handled tr) :=
  List.foldl_append

@[simp]
theorem handle_teardownLabel (done : Option (List TeardownCall)) (c : TeardownCall) (ok : Bool) :
    (teardownLabel (.thread .monitor) ok c).handle done = done.map (· ++ [c]) := by
  cases c <;> rfl

/-- Only the monitor's own steps count. -/
theorem Label.handle_of_not_by {l : Label} (h : l.by .monitor = false)
    (done : Option (List TeardownCall)) : l.handle done = done := by
  unfold Label.handle
  split <;> first | rfl | cases h

/-! ## What one step can do -/

section Frame

variable {s s' : State} {l : Label} {todo : List TeardownCall}

/-- `shutdown` is left only by a fresh image. -/
theorem Move.watching_before (h : Move s l s') (hl : l ≠ .execl true) (hm : s'.main = .watching) :
    s.main = .watching := by
  cases h with
  | watchDead => cases hm
  | shutdownCall c rest ok =>
      rw [State.main_afterTeardown] at hm
      cases hm
  -- The other calls leave `main` where it is.
  | startBell =>
      rw [State.main_afterTimer] at hm
      exact hm
  | monitorStart => simpa using hm
  | rebootCall => simpa using hm
  | expiryStop => simpa using hm
  | execl => exact absurd rfl hl
  | _ => exact hm

/-- The monitor is terminated only where it was cancelled. -/
theorem Move.cancelled_of_terminated (h : Move s l s') (hpos : s.monitor ≠ .terminated)
    (hpos' : s'.monitor = .terminated) : s.cancelled .monitor = true := by
  cases h with
  | endMonitor hc => exact hc
  | door data =>
      simp only [afterDoor] at hpos'
      split_ifs at hpos'
  | poll data =>
      simp only [afterPoll] at hpos'
      split_ifs at hpos'
  | startBell =>
      rw [State.monitor_afterTimer] at hpos'
      exact absurd hpos' hpos
  | monitorStart => simp at hpos'
  | rebootCall => simp at hpos'
  | expiryStop => exact absurd (by simpa using hpos') hpos
  | shutdownCall => exact absurd (by simpa using hpos') hpos
  -- The monitor goes on to another position, or somebody else moves.
  | _ => first | exact absurd hpos' hpos | cases hpos'

/-- A timer call deletes a timer only where it aims at that. -/
theorem State.deleted_afterTimer {t t' : Timer} {target : TimerState} {ok : Bool}
    (h : (s.afterTimer t target ok).timer t' = .deleted) :
    s.timer t' = .deleted ∨ target = .deleted := by
  cases ok with
  | false => exact .inl h
  | true =>
      by_cases ht : t' = t
      · subst ht
        exact .inr (by simpa [State.afterTimer, State.setTimer] using h)
      · exact .inl (by simpa [State.afterTimer, State.setTimer, ht] using h)

/-- Timers are deleted by a reboot and inside `shutdown`. -/
theorem Move.deleted {t : Timer} (h : Move s l s') (hd : s'.timer t = .deleted) :
    s.timer t = .deleted ∨ (∃ todo, s.monitor = .reboot todo) ∨ s.main ≠ .watching := by
  cases h with
  | rebootCall c rest ok hpos => exact .inr (.inl ⟨_, hpos⟩)
  | shutdownCall c rest ok hmain => exact .inr (.inr (by rw [hmain]; nofun))
  | execl => cases hd
  -- Elsewhere timers are only armed and stopped.
  | startBell => exact .inl ((State.deleted_afterTimer hd).resolve_right nofun)
  | monitorStart => exact .inl ((State.deleted_afterTimer hd).resolve_right nofun)
  | expiryStop => exact .inl ((State.deleted_afterTimer hd).resolve_right nofun)
  | expire t' harmed =>
      by_cases ht : t = t'
      · subst ht
        simp [State.setTimer] at hd
      · exact .inl (by simpa [State.setTimer, ht] using hd)
  | _ => exact .inl hd

/-- Outside of a reboot and of `shutdown` nothing is torn down. -/
theorem Move.torn (h : Move s l s') (ht : s'.Torn) :
    s.Torn ∨ (∃ todo, s.monitor = .reboot todo) ∨ s.main ≠ .watching := by
  rcases ht with ⟨t, hd⟩ | ⟨w, hc⟩
  · rcases h.deleted hd with hold | hrest
    · exact .inl (.inl ⟨t, hold⟩)
    · exact .inr hrest
  · rcases h.cancelled hc with hold | ⟨rest, hpos⟩ | hmain
    · exact .inl (.inr ⟨w, hold⟩)
    · exact .inr (.inl ⟨_, hpos⟩)
    · exact .inr (.inr hmain)

/-- A reboot under way can go on, whatever its calls returned. -/
theorem exists_step_of_reboot (hex : s.exited = false) (hpos : s.monitor = .reboot todo) :
    ∃ l s', Step s l s' ∧
      (s' = .init ∨ ∃ c rest, todo = c :: rest ∧ s'.monitor = .reboot rest) := by
  cases todo with
  | nil =>
      have hstep : step s (.run .monitor (.ret true)) = some (.init, .execl true) := by
        simp [step, hex, monitorThread, hpos, processReboot]
      exact ⟨_, _, ⟨_, hstep⟩, .inl rfl⟩
  | cons c rest =>
      -- A call that fails can always be made.
      have hstep : step s (.run .monitor (.ret false)) =
          { s with monitor := .reboot rest }.teardown (.thread .monitor) c false := by
        simp [step, hex, monitorThread, hpos, processReboot]
      obtain ⟨s', l, hs', hrest⟩ : ∃ s' l,
          { s with monitor := .reboot rest }.teardown (.thread .monitor) c false = some (s', l) ∧
            s'.monitor = .reboot rest := by
        cases c with
        | timerStop t => exact ⟨_, _, rfl, rfl⟩
        | timerDestroy t => exact ⟨_, _, rfl, rfl⟩
        | pthreadCancel th => cases th <;> exact ⟨_, _, rfl, rfl⟩
      exact ⟨l, s', ⟨_, hstep.trans hs'⟩, .inr ⟨c, rest, rfl, hrest⟩⟩

/-- A failed `execl` takes the monitor from the end of `process_reboot` back to its receive. -/
theorem Move.back (h : Move s (.execl false) s') :
    s.monitor = .reboot [] ∧ s'.monitor = .getMessage := by
  generalize hl : Label.execl false = l at h
  cases h with
  | execlFail hpos => exact ⟨hpos, rfl⟩
  | rebootCall c => cases c <;> cases hl
  | shutdownCall c => cases c <;> cases hl
  | ignore w e => rcases ignoreLabel_eq w e with h | h <;> cases hl.trans h
  -- No other move carries this label.
  | _ => cases hl

/-- The monitor is in its loop, outside of a reboot. -/
def MonitorPos.AtWork (pos : MonitorPos) : Prop := (∀ todo, pos ≠ .reboot todo) ∧ pos ≠ .terminated

/-- What a step of the monitor's own does to a reboot: it enters one, makes its next call, ends it
one way or the other, or has nothing to do with it. -/
theorem MonitorMove.reboot_cases {pos pos' : MonitorPos} (h : MonitorMove pos l pos') :
    (l = .processReboot ∧ pos' = .reboot processRebootCalls) ∨
      (∃ c rest ok, pos = .reboot (c :: rest) ∧ l = teardownLabel (.thread .monitor) ok c ∧
        pos' = .reboot rest) ∨
      (∃ ok, l = .execl ok ∧ pos'.AtWork) ∨
      ((∀ done, l.handle done = done) ∧ pos.AtWork ∧ pos'.AtWork) := by
  cases h with
  | processReboot => exact .inl ⟨rfl, rfl⟩
  | rebootCall c rest ok => exact .inr (.inl ⟨c, rest, ok, rfl, rfl, rfl⟩)
  | execl => exact .inr (.inr (.inl ⟨true, rfl, nofun, nofun⟩))
  | execlFail => exact .inr (.inr (.inl ⟨false, rfl, nofun, nofun⟩))
  | write ok h =>
      refine .inr (.inr (.inr ⟨fun _ => rfl, ?_, nofun, nofun⟩))
      cases h <;> exact ⟨nofun, nofun⟩
  | start ok h =>
      refine .inr (.inr (.inr ⟨fun _ => rfl, ?_, nofun, nofun⟩))
      cases h <;> exact ⟨nofun, nofun⟩
  | door data =>
      refine .inr (.inr (.inr ⟨fun _ => rfl, ⟨nofun, nofun⟩, ?_⟩))
      unfold afterDoor
      split_ifs <;> exact ⟨nofun, nofun⟩
  | poll data =>
      refine .inr (.inr (.inr ⟨fun _ => rfl, ⟨nofun, nofun⟩, ?_⟩))
      unfold afterPoll
      split_ifs <;> exact ⟨nofun, nofun⟩
  | _ => exact .inr (.inr (.inr ⟨fun _ => rfl, ⟨nofun, nofun⟩, nofun, nofun⟩))

end Frame

/-! ## Runs -/

/-- A reboot under way was entered; and, where no `execl` has failed: the monitor lives while `main`
watches, outside of a reboot nothing is torn down, and a reboot entered is under way or the monitor
is terminated. -/
structure Inv (tr : List Label) (s : State) : Prop where
  alive : s.main = .watching → s.monitor ≠ .terminated ∧ s.cancelled .monitor = false
  entered : ∀ todo, s.monitor = .reboot todo → handled tr ≠ none
  whole : handled tr = none → s.main = .watching → ¬ s.Torn
  handling : ∀ done, handled tr = some done →
    s.monitor = .terminated ∨ ∃ todo, s.monitor = .reboot todo ∧ done ++ todo = processRebootCalls

theorem not_torn_init : ¬ State.init.Torn := by
  rintro (⟨t, ht⟩ | ⟨w, hw⟩)
  · cases ht
  · cases hw

theorem inv_init : Inv [] .init where
  alive _ := ⟨nofun, rfl⟩
  entered _ := nofun
  whole _ _ := not_torn_init
  handling _ := nofun

section Entered

variable {s s' : State} {l : Label} {tr : List Label} {todo : List TeardownCall}

/-- The monitor comes to a reboot only by entering it. -/
theorem Move.entered (hm : Move s l s') (h : ∀ todo, s.monitor = .reboot todo → handled tr ≠ none)
    (hpos' : s'.monitor = .reboot todo) : handled (tr ++ [l]) ≠ none := by
  rw [handled_snoc]
  rcases hm.monitor with ⟨-, hown⟩ | ⟨hby, hsame | hterm⟩
  · rcases hown.reboot_cases with ⟨rfl, -⟩ | ⟨c, rest, ok, hpos, rfl, -⟩ | ⟨ok, rfl, hat⟩ |
      ⟨-, -, hat⟩
    · nofun
    · rw [handle_teardownLabel, Ne, Option.map_eq_none_iff]
      exact h _ hpos
    · exact absurd hpos' (hat.1 todo)
    · exact absurd hpos' (hat.1 todo)
  · -- Somebody else has moved.
    rw [Label.handle_of_not_by hby]
    exact h todo (hsame ▸ hpos')
  · rw [hterm] at hpos'
    cases hpos'

/-- In any run, the monitor is in a reboot only where one was entered. -/
theorem Reaches.handled_ne_none (h : Reaches tr s) (hpos : s.monitor = .reboot todo) :
    handled tr ≠ none := by
  refine Run.history (P := fun tr s => ∀ todo, s.monitor = .reboot todo → handled tr ≠ none) h
    (fun _ => nofun) ?_ todo hpos
  intro tr s l s' _ ih hstep todo hpos'
  exact hstep.move.2.entered ih hpos'

end Entered

namespace Inv

variable {s s' : State} {l : Label} {tr : List Label} {todo : List TeardownCall}

/-- In a reboot what is left to do is behind what was done. -/
theorem exists_done (h : Inv tr s) (hpos : s.monitor = .reboot todo) :
    ∃ done, handled tr = some done ∧ done ++ todo = processRebootCalls := by
  cases hd : handled tr with
  | none => exact absurd hd (h.entered todo hpos)
  | some done =>
      rcases h.handling done hd with hterm | ⟨todo', hpos', hcalls⟩
      · rw [hterm] at hpos
        cases hpos
      · obtain rfl := MonitorPos.reboot.inj (hpos'.symm.trans hpos)
        exact ⟨done, rfl, hcalls⟩

/-- The monitor at work outside of a reboot has none behind it. -/
theorem handled_eq_none (h : Inv tr s) (hterm : s.monitor ≠ .terminated)
    (hpos : ∀ todo, s.monitor ≠ .reboot todo) : handled tr = none := by
  cases hd : handled tr with
  | none => rfl
  | some done =>
      rcases h.handling done hd with hterm' | ⟨todo, hpos', -⟩
      · exact absurd hterm' hterm
      · exact absurd hpos' (hpos todo)

/-- While `main` watches, nobody cancels the monitor. -/
theorem step_alive (h : Inv tr s) (hm : Move s l s') (hmain : s'.main = .watching) :
    s'.monitor ≠ .terminated ∧ s'.cancelled .monitor = false := by
  by_cases hl : l = .execl true
  · subst hl
    obtain rfl := hm.restart
    exact ⟨nofun, rfl⟩
  · have hwatch := hm.watching_before hl hmain
    obtain ⟨hpos, hc⟩ := h.alive hwatch
    refine ⟨fun hpos' => ?_, ?_⟩
    · rw [hm.cancelled_of_terminated hpos hpos'] at hc
      cases hc
    · by_contra hc'
      rcases hm.cancelled (Bool.not_eq_false _ ▸ hc') with hold | ⟨rest, hreboot⟩ | hne
      · rw [hold] at hc
        cases hc
      · -- `process_reboot` spares the monitor.
        obtain ⟨done, -, hcalls⟩ := h.exists_done hreboot
        have hmem : TeardownCall.pthreadCancel .monitor ∈ processRebootCalls := by
          rw [← hcalls]
          simp
        revert hmem
        decide
      · exact hne hwatch

/-- A reboot is under way from its entry on, call by call. -/
theorem step_handling (h : Inv tr s) (hm : Move s l s') (hl : l ≠ .execl false)
    {done : List TeardownCall} (hd : l.handle (handled tr) = some done) :
    s'.monitor = .terminated ∨
      ∃ todo, s'.monitor = .reboot todo ∧ done ++ todo = processRebootCalls := by
  rcases hm.monitor with ⟨-, hown⟩ | ⟨hby, hsame | hterm⟩
  · rcases hown.reboot_cases with ⟨rfl, hpos'⟩ | ⟨c, rest, ok, hpos, rfl, hpos'⟩ | ⟨ok, rfl, -⟩ |
      ⟨hnot, hpos, -⟩
    · obtain rfl := Option.some.inj hd
      exact .inr ⟨_, hpos', rfl⟩
    · obtain ⟨done₀, hd₀, hcalls⟩ := h.exists_done hpos
      rw [handle_teardownLabel, hd₀] at hd
      obtain rfl := Option.some.inj hd
      exact .inr ⟨rest, hpos', by rw [← hcalls]; simp⟩
    · cases ok with
      | false => exact absurd rfl hl
      | true => cases hd
    · rw [hnot, h.handled_eq_none hpos.2 hpos.1] at hd
      cases hd
  · rw [Label.handle_of_not_by hby] at hd
    rw [hsame]
    exact h.handling done hd
  · exact .inl hterm

/-- Where none has been entered, or the last one has ended in a fresh image, nothing is torn down as
long as `main` watches. -/
theorem step_whole (h : Inv tr s) (hm : Move s l s') (hd : l.handle (handled tr) = none)
    (hmain : s'.main = .watching) : ¬ s'.Torn := by
  by_cases hl : l = .execl true
  · subst hl
    obtain rfl := hm.restart
    exact not_torn_init
  · intro htorn
    have hwatch := hm.watching_before hl hmain
    -- A label that is not `execl` leaves nothing behind only where nothing was.
    have hnone : handled tr = none := by
      by_contra hne
      obtain ⟨done, hdone⟩ := Option.ne_none_iff_exists'.mp hne
      rw [hdone] at hd
      unfold Label.handle at hd
      split at hd <;> first | exact hl rfl | cases hd
    rcases hm.torn htorn with hold | ⟨todo, hpos⟩ | hne
    · exact h.whole hnone hwatch hold
    · exact h.entered todo hpos hnone
    · exact hne hwatch

end Inv

/-- Where no `execl` fails the invariant holds of every run. -/
theorem Reaches.inv {tr : List Label} {s : State} (h : Reaches tr s)
    (hok : ∀ l ∈ tr, l ≠ .execl false) : Inv tr s := by
  refine Run.history (P := fun tr s => (∀ l ∈ tr, l ≠ .execl false) → Inv tr s) h
    (fun _ => inv_init) ?_ hok
  intro tr s l s' _ ih hstep hok'
  rw [List.forall_mem_append, List.forall_mem_singleton] at hok'
  have hinv := ih hok'.1
  obtain ⟨-, hm⟩ := hstep.move
  constructor
  · exact hinv.step_alive hm
  · exact fun todo hpos' => hm.entered hinv.entered hpos'
  · rw [handled_snoc]
    exact hinv.step_whole hm
  · rw [handled_snoc]
    exact fun done => hinv.step_handling hm hok'.2

/-- So a reboot is all or nothing. -/
theorem Inv.allOrNothing {tr : List Label} {s : State} (h : Inv tr s) : AllOrNothing tr s where
  handling done hd := by
    rcases h.handling done hd with hterm | hreboot
    · exact .inl ⟨hterm, fun hmain => (h.alive hmain).1 hterm⟩
    · exact .inr hreboot
  going hex todo hpos := exists_step_of_reboot hex hpos
  receiving hpos htorn hmain := by
    have hnone := h.handled_eq_none (by rw [hpos]; nofun) (by rw [hpos]; nofun)
    exact h.whole hnone hmain htorn

/-- In every state a run passes through a reboot is all or nothing, exactly if no `execl` of the run
fails. -/
theorem reboot_iff {tr : List Label} {s : State} (h : Reaches tr s) :
    (∀ pre post t, tr = pre ++ post → Run Step .init pre t → Run Step t post s →
      AllOrNothing pre t) ↔ ∀ l ∈ tr, l ≠ .execl false := by
  constructor
  · rintro hall l hmem rfl
    obtain ⟨pre, post, rfl⟩ := List.append_of_mem hmem
    obtain ⟨t, t', hpre, hstep, hpost⟩ := Run.step_at h
    obtain ⟨-, hm⟩ := hstep.move
    -- Behind the failed call the monitor is back at its receive, with the reboot behind it.
    obtain ⟨hpos, hpos'⟩ := hm.back
    obtain ⟨done, hdone⟩ := Option.ne_none_iff_exists'.mp (Reaches.handled_ne_none hpre hpos)
    have hback := (hall (pre ++ [.execl false]) post t' (by simp) (hpre.snoc hstep) hpost).handling
      done (by rw [handled_snoc]; exact hdone)
    rw [hpos'] at hback
    rcases hback with ⟨hterm, -⟩ | ⟨todo, hreboot, -⟩
    · cases hterm
    · cases hreboot
  · rintro hok pre post t rfl hpre -
    have hinv := Reaches.inv hpre fun l hl => hok l (List.mem_append_left _ hl)
    exact hinv.allOrNothing

section Examples

open Schedule

/-- The motion ECU fails, and the reboot gets as far as its `execl`. -/
def Schedule.failedReboot : List Act :=
  startUp ++ reboot.dropLast ++ [.run .monitor (.ret false)]

/-- The motion ECU fails and `execl` after it: the monitor waits at its queue again, with no timer
left and no worker that would send it an event. -/
theorem not_reboot :
    ∃ tr s, Reaches tr s ∧ s.monitor = .getMessage ∧ s.queue = [] ∧ s.main = .watching ∧
      s.exited = false ∧ (∀ t, s.timer t = .deleted) ∧ (∀ w, s.cancelled (.worker w) = true) ∧
      ¬ AllOrNothing tr s := by
  have hrun := run_play step .init failedReboot
  have hback : (play step .init failedReboot).1.monitor = .getMessage := by decide +kernel
  have hmain : (play step .init failedReboot).1.main = .watching := by decide +kernel
  have htimer : ∀ t, (play step .init failedReboot).1.timer t = .deleted := by
    rintro (_ | _ | _) <;> decide +kernel
  refine ⟨_, _, hrun, hback, ?_, hmain, ?_, htimer, ?_, ?_⟩
  · decide +kernel
  · decide +kernel
  · rintro (_ | _ | _) <;> decide +kernel
  · exact fun h => h.receiving hback (.inl ⟨.doorBell, htimer _⟩) hmain

/-- A reboot whose `execl` succeeds. -/
theorem reboot_iff_restarted :
    ∃ tr s, Reaches tr s ∧ .processReboot ∈ tr ∧ (∀ l ∈ tr, l ≠ .execl false) ∧
      ((∀ pre post t, tr = pre ++ post → Run Step .init pre t → Run Step t post s →
        AllOrNothing pre t) ↔ ∀ l ∈ tr, l ≠ .execl false) := by
  have hrun := run_play step .init (startUp ++ reboot)
  refine ⟨_, _, hrun, ?_, ?_, reboot_iff hrun⟩
  · decide +kernel
  · decide +kernel

end Examples

end DoorBell
