import LinuxPrograms.DoorBell.OneActivity

/-!
# Door bell: the pipes as typed channels

In every run whose pipe reads succeed - `msgrcv`, the writes and the timer calls may fail at any
time - the pipes carry whole frames of the commands meant for their readers.

- `Carries`: the frames written to a pipe are those read from it and, in order, those in it.
- `Handled`: every event on its way is one its receiver's `switch` acts on.
- `channels_typed`: both hold in every state, and what they say of the next step.
-/

namespace DoorBell

open CString LabelledSystem FrameStream

/-! ## What the pipes carry -/

/-- The bytes of a sequence of commands. -/
def frames (cs : List Command) : List UInt8 := stream (fun c => c.frame.bytes) cs

/-- The buffer written to the pipe `p`. -/
def Label.written (p : Pipe) : Label → Option (CBuffer maxMessageSize)
  | write _ p' msgBuff true => if p' = p then some msgBuff else none
  | _ => none

/-- The buffer a reader of the pipe `p` holds after its read. -/
def Label.readBack (p : Pipe) : Label → Option (CBuffer maxMessageSize)
  | read w msgBuff => if w.pipe = p then some msgBuff else none
  | _ => none

section Labels

variable (p p' : Pipe) (who : Actor) (w : Worker) (b : CBuffer maxMessageSize)

@[simp]
theorem written_write (ok : Bool) :
    (Label.write who p' b ok).written p = if ok = true ∧ p' = p then some b else none := by
  cases ok with
  | true => simp [Label.written]
  | false => rfl

@[simp]
theorem written_read : (Label.read w b).written p = none := rfl

@[simp]
theorem readBack_write (ok : Bool) : (Label.write who p' b ok).readBack p = none := rfl

@[simp]
theorem readBack_read :
    (Label.read w b).readBack p = if w.pipe = p then some b else none := rfl

end Labels

/-- The pipe read of a label succeeds, if it makes one. -/
def Label.readsPipe : Label → Bool
  | readFail _ _ => false
  | _ => true

/-- After the labels `seg`, the pipe `p` holds the commands `pending`: those written to it and
not yet read, in order. -/
structure Carries (seg : List Label) (s : State) (p : Pipe) (pending : List Command) : Prop where
  pipe_eq : ∀ c ∈ pending, c.pipe = p
  contents : s.pipe p = frames pending
  fifo : seg.filterMap (Label.written p) =
    seg.filterMap (Label.readBack p) ++ pending.map Command.frame

/-- How a step uses the pipes. -/
inductive PipeStep (s : State) : Label → State → Prop
  | read (w : Worker) (s' : State)
      (buff : CBuffer maxMessageSize) (hne : s.pipe w.pipe ≠ [])
      (hbuff : buff = (s.readBuff w).store ((s.pipe w.pipe).take maxMessageSize))
      (hs' : s'.pipe = Function.update s.pipe w.pipe ((s.pipe w.pipe).drop maxMessageSize)) :
      PipeStep s (.read w buff) s'
  | write (who : Actor) (c : Command) (ok : Bool) (s' : State)
      (hs' : s'.pipe =
        if ok then Function.update s.pipe c.pipe (s.pipe c.pipe ++ c.frame.bytes) else s.pipe) :
      PipeStep s (.write who c.pipe c.frame ok) s'
  | other (l : Label) (s' : State) (hw : ∀ p, l.written p = none) (hr : ∀ p, l.readBack p = none)
      (hs' : s'.pipe = s.pipe) : PipeStep s l s'

section PipeSteps

variable {s s' : State} {l : Label} {p : Pipe} {name : String}

/-- The monitor writes commands, each to the pipe of its reader. -/
theorem MonitorWrites.command {pos : MonitorPos} (h : MonitorWrites pos p name) :
    ∃ c : Command, c.pipe = p ∧ c.name = name := by
  cases h with
  | startUp => exact ⟨.motionScanOn, rfl, rfl⟩
  | motionDetected => exact ⟨.calcDistance, rfl, rfl⟩
  | validDistance => exact ⟨.ringBell, rfl, rfl⟩
  | invalidDistance => exact ⟨.motionScanOn, rfl, rfl⟩
  | doorWaitExpiry => exact ⟨.ringBell, rfl, rfl⟩
  | postScan => exact ⟨.motionScanOn, rfl, rfl⟩

/-- So do the expiry handlers. -/
theorem ExpiryWrites.command {t : Timer} (h : ExpiryWrites t p name) :
    ∃ c : Command, c.pipe = p ∧ c.name = name := by
  cases h with
  | doorBell => exact ⟨.ringBellExpiry, rfl, rfl⟩
  | resetStates => exact ⟨.motionScanOn, rfl, rfl⟩

@[simp]
theorem State.pipe_afterTimer (s : State) (t : Timer) (target : TimerState) (ok : Bool) :
    (s.afterTimer t target ok).pipe = s.pipe := by
  cases ok <;> rfl

@[simp]
theorem State.pipe_afterTeardown (s : State) (c : TeardownCall) (ok : Bool) :
    (s.afterTeardown c ok).pipe = s.pipe := by
  cases c with
  | timerStop t => simp [State.afterTeardown]
  | timerDestroy t => simp [State.afterTeardown]
  | pthreadCancel th => cases th <;> rfl

/-- The write of a command changes its pipe alone. -/
private theorem State.pipe_postEvent (s : State) (who : Actor) (c : Command) (ok : Bool) :
    (s.postEvent who c.pipe c.frame ok).1.pipe =
      if ok then Function.update s.pipe c.pipe (s.pipe c.pipe ++ c.frame.bytes) else s.pipe := by
  cases ok with
  | true => rfl
  | false => exact Function.update_eq_self c.pipe s.pipe

/-- A step that does not restart the process reads a frame, writes a command or leaves the pipes
alone. -/
theorem Move.pipeStep (h : Move s l s') (hl : l ≠ .execl true) : PipeStep s l s' := by
  cases h with
  | read w buff hpos hne hbuff => exact .read w _ buff hne hbuff rfl
  | monitorWrite p name ok hpos =>
      obtain ⟨c, rfl, rfl⟩ := hpos.command
      exact .write _ c ok _ (State.pipe_postEvent _ _ c ok)
  | expiryWrite i t p name ok hi hw =>
      obtain ⟨c, rfl, rfl⟩ := hw.command
      exact .write _ c ok _ (State.pipe_postEvent _ _ c ok)
  | startBell => exact .other _ _ (fun _ => rfl) (fun _ => rfl) (State.pipe_afterTimer _ _ _ _)
  | monitorStart => exact .other _ _ (fun _ => rfl) (fun _ => rfl) (State.pipe_afterTimer _ _ _ _)
  | expiryStop => exact .other _ _ (fun _ => rfl) (fun _ => rfl) (State.pipe_afterTimer _ _ _ _)
  | rebootCall c =>
      refine .other _ _ (fun p => ?_) (fun p => ?_) (State.pipe_afterTeardown _ _ _)
      · cases c <;> rfl
      · cases c <;> rfl
  | shutdownCall c =>
      refine .other _ _ (fun p => ?_) (fun p => ?_) (State.pipe_afterTeardown _ _ _)
      · cases c <;> rfl
      · cases c <;> rfl
  | ignore w e =>
      refine .other _ _ (fun p => ?_) (fun p => ?_) rfl
      · unfold ignoreLabel
        split <;> rfl
      · unfold ignoreLabel
        split <;> rfl
  | execl => exact absurd rfl hl
  | _ => exact .other _ _ (fun _ => rfl) (fun _ => rfl) rfl

end PipeSteps

namespace Carries

variable {seg : List Label} {s s' : State} {l : Label} {p : Pipe} {pending : List Command}

theorem init (p : Pipe) : Carries [] .init p [] := ⟨nofun, rfl, rfl⟩

/-- A reader with something in its pipe reads exactly the first command. -/
theorem read {w : Worker} (h : Carries seg s w.pipe pending) (hne : s.pipe w.pipe ≠ []) :
    ∃ c rest, pending = c :: rest ∧ c.reader = w ∧
      (s.readBuff w).store ((s.pipe w.pipe).take maxMessageSize) = c.frame ∧
      (s.pipe w.pipe).drop maxMessageSize = frames rest := by
  cases pending with
  | nil => exact absurd h.contents hne
  | cons c rest =>
      -- A frame is as long as the buffer of the `read`, which so takes one frame and no more.
      have htake := take_stream_cons (fun c : Command => c.length_frame) c rest
      have hdrop := drop_stream_cons (fun c : Command => c.length_frame) c rest
      refine ⟨c, rest, rfl, ?_, ?_, ?_⟩
      · exact Worker.pipe_injective (h.pipe_eq c List.mem_cons_self)
      · rw [h.contents, frames, htake, CBuffer.store_of_length_eq _ c.length_frame]
      · rw [h.contents, frames, hdrop, frames]

/-- Every step keeps the pipes carrying commands. -/
theorem step (h : Carries seg s p pending) (hs : PipeStep s l s') :
    ∃ pending', Carries (seg ++ [l]) s' p pending' := by
  obtain ⟨hpipe, hcontents, hfifo⟩ := h
  cases hs with
  | read w _ buff hne hbuff hs' =>
      by_cases hp : w.pipe = p
      · -- The oldest command leaves the pipe, and is the next one read back.
        subst hp
        obtain ⟨c, rest, rfl, hc, hframe, hdrop⟩ := read ⟨hpipe, hcontents, hfifo⟩ hne
        refine ⟨rest, fun c' hc' => hpipe c' (List.mem_cons_of_mem c hc'), ?_, ?_⟩
        · rw [hs', Function.update_self, hdrop]
        · rw [hbuff, hframe, filterMap_snoc, filterMap_snoc]
          simpa using hfifo
      · -- The read is one of another pipe.
        refine ⟨pending, hpipe, ?_, ?_⟩
        · rw [hs', Function.update_of_ne (Ne.symm hp), hcontents]
        · rw [filterMap_snoc, filterMap_snoc]
          simpa [hp] using hfifo
  | write who c ok _ hs' =>
      by_cases hsent : ok = true ∧ c.pipe = p
      · -- The command joins the end of the pipe.
        obtain ⟨rfl, rfl⟩ := hsent
        refine ⟨pending ++ [c], ?_, ?_, ?_⟩
        · simpa [or_imp, forall_and] using hpipe
        · rw [hs', if_pos rfl, Function.update_self, hcontents, frames, frames,
            stream_append_singleton]
        · rw [filterMap_snoc, filterMap_snoc, hfifo]
          simp
      · -- The write failed, or was one to another pipe.
        refine ⟨pending, hpipe, ?_, ?_⟩
        · rw [hs']
          cases ok with
          | false => exact hcontents
          | true =>
              rw [if_pos rfl, Function.update_of_ne (fun hp => hsent ⟨rfl, hp.symm⟩), hcontents]
        · rw [filterMap_snoc, filterMap_snoc]
          simpa [hsent] using hfifo
  | other _ _ hw hr hs' =>
      refine ⟨pending, hpipe, by rw [hs', hcontents], ?_⟩
      rw [filterMap_snoc, filterMap_snoc, hw, hr]
      simpa using hfifo

end Carries

/-! ## The events on their way -/

/-- A worker's `switch` acts on the event, or the monitor's on the one it is about to post. -/
def WorkerPos.Handled (w : Worker) : WorkerPos → Prop
  | switch e => w.handles e = true
  | post e => monitorHandles e = true
  | _ => True

/-- The monitor's `switch` acts on the event. -/
def MonitorPos.Handled : MonitorPos → Prop
  | switch e => monitorHandles e = true
  | _ => True

/-- Every event on its way is one its receiver's `switch` acts on. -/
structure Handled (s : State) : Prop where
  queue : ∀ e ∈ s.queue, monitorHandles e = true
  worker : ∀ w, (s.worker w).pos.Handled w
  monitor : s.monitor.Handled

namespace Handled

variable {s s' : State} {l : Label} {w : Worker}

theorem init : Handled .init := ⟨nofun, fun _ => trivial, trivial⟩

/-- A worker goes on. -/
theorem setWorkerPos (h : Handled s) {pos : WorkerPos} (hpos : pos.Handled w) :
    Handled (s.setWorkerPos w pos) := by
  refine ⟨h.queue, fun w' => ?_, h.monitor⟩
  by_cases hw : w' = w
  · subst hw
    simpa [State.setWorkerPos] using hpos
  · simpa [State.setWorkerPos, hw] using h.worker w'

/-- A worker goes back to its read. -/
theorem setRead (h : Handled s) (w : Worker) : Handled (s.setWorkerPos w .read) :=
  h.setWorkerPos trivial

/-- The monitor goes on. -/
theorem setMonitor (h : Handled s) {pos : MonitorPos} (hpos : pos.Handled) :
    Handled { s with monitor := pos } := ⟨h.queue, h.worker, hpos⟩

/-- An event is posted. -/
theorem post (h : Handled s) (who : Actor) {e : Event} (he : monitorHandles e = true) (ok : Bool) :
    Handled (s.postMessageToQ who e ok).1 := by
  refine ⟨fun e' he' => ?_, h.worker, h.monitor⟩
  cases ok with
  | false => exact h.queue e' he'
  | true =>
      rcases List.mem_append.mp he' with he' | he'
      · exact h.queue e' he'
      · rw [List.mem_singleton.mp he']
        exact he

/-- A timer call concerns no event. -/
theorem afterTimer (h : Handled s) (t : Timer) (target : TimerState) (ok : Bool) :
    Handled (s.afterTimer t target ok) := by
  cases ok with
  | false => exact h
  | true => exact ⟨h.queue, h.worker, h.monitor⟩

/-- Nor does any other call of a teardown. -/
theorem afterTeardown (h : Handled s) (c : TeardownCall) (ok : Bool) :
    Handled (s.afterTeardown c ok) := by
  cases c with
  | timerStop t => exact h.afterTimer t _ ok
  | timerDestroy t => exact h.afterTimer t _ ok
  | pthreadCancel th =>
      cases th with
      | monitor => exact ⟨h.queue, h.worker, h.monitor⟩
      | worker w =>
          refine ⟨h.queue, fun w' => ?_, h.monitor⟩
          by_cases hw : w' = w
          · subst hw
            simpa [State.afterTeardown, State.pthreadCancel] using h.worker w'
          · simpa [State.afterTeardown, State.pthreadCancel, hw] using h.worker w'

/-- A buffer that is stored concerns no position. -/
theorem setMsgBuff (h : Handled s) (b : CBuffer maxMessageSize) : Handled (s.setMsgBuff w b) := by
  refine ⟨h.queue, fun w' => ?_, h.monitor⟩
  by_cases hw : w' = w
  · subst hw
    simpa [State.setMsgBuff] using h.worker w'
  · simpa [State.setMsgBuff, hw] using h.worker w'

/-- The event a handler posts at a count is one the monitor acts on. -/
private theorem monitorHandles_retryEvent (n : ℤ) : monitorHandles (retryEvent n) = true := by
  rw [← Message.event_retry]
  exact Message.monitorHandles_event _

/-- A step keeps every event handled, if what a reader finds in its buffer is an event it acts
on. A failed `msgrcv` leaves `MOTION_DETECTED`, on which the monitor acts. -/
theorem step (h : Handled s) (hm : Move s l s') (hl : l.readsPipe = true)
    (hread : ∀ w buff, l = .read w buff → w.handles (strEnum (some buff.bytes)) = true) :
    Handled s' := by
  cases hm with
  | read w buff =>
      have hset : Handled (s.setPipe w.pipe ((s.pipe w.pipe).drop maxMessageSize)) :=
        ⟨h.queue, h.worker, h.monitor⟩
      exact (hset.setMsgBuff buff).setWorkerPos (hread w buff rfl)
  | readFail => cases hl
  | decide w e e' site data hpos hs hans =>
      -- Whatever a sensor says, the answer to it is one of the messages.
      obtain ⟨m, rfl⟩ := exists_message_of_answer hans
      exact h.setWorkerPos m.monitorHandles_event
  | post w e ok hpos =>
      have he := h.worker w
      rw [hpos] at he
      exact (h.setRead w).post _ he ok
  | postExpiry ok => exact (h.setRead .doorBell).post _ rfl ok
  | startBell ok => exact (h.setRead .doorBell).afterTimer _ _ ok
  | ignore w => exact h.setRead w
  | monitorWrite => exact ⟨h.queue, h.worker, trivial⟩
  -- For a call made on the way, the caller goes on first, and then the call has its effect.
  | monitorStart t delaySec ok =>
      have hgo : Handled { s with monitor := .getMessage } := h.setMonitor trivial
      exact hgo.afterTimer t _ ok
  | msgrcv e rest hpos hqueue =>
      have hall := h.queue
      rw [hqueue, List.forall_mem_cons] at hall
      exact ⟨hall.2, h.worker, hall.1⟩
  | msgrcvFail => exact h.setMonitor rfl
  -- After a reading of the door the monitor is at no event.
  | door data =>
      refine h.setMonitor ?_
      unfold afterDoor
      split_ifs <;> trivial
  | poll data =>
      refine h.setMonitor ?_
      unfold afterPoll
      split_ifs <;> trivial
  | monitorIgnore => exact h.setMonitor trivial
  | processReboot => exact h.setMonitor trivial
  | rebootCall c rest ok =>
      have hgo : Handled { s with monitor := .reboot rest } := h.setMonitor trivial
      exact hgo.afterTeardown c ok
  | execl => exact init
  | execlFail => exact h.setMonitor trivial
  | expiryStop i t ok =>
      have hgo : Handled { s with handlers := s.handlers.set i (t, .post) } :=
        ⟨h.queue, h.worker, h.monitor⟩
      exact hgo.afterTimer t _ ok
  | expiryPost i ok =>
      have hgo : Handled { s with handlers := s.handlers.eraseIdx i } :=
        ⟨h.queue, h.worker, h.monitor⟩
      exact hgo.post _ (monitorHandles_retryEvent _) ok
  | shutdownCall c rest ok =>
      have hgo : Handled { s with main := .shutdown rest } := ⟨h.queue, h.worker, h.monitor⟩
      exact hgo.afterTeardown c ok
  | endMonitor => exact h.setMonitor trivial
  | endWorker => exact h.setWorkerPos trivial
  | _ => exact ⟨h.queue, h.worker, h.monitor⟩

end Handled

/-! ## Typed channels -/

/-- What a step does to the channels: a read takes exactly the first frame of its pipe, a
command its reader acts on; a write is a command for its pipe; the monitor takes only events it
acts on; no thread meets an event it does not know. -/
def TypedStep (s : State) (l : Label) (s' : State) : Prop :=
  match l with
  | .read w buff =>
      ∃ c : Command, c.pipe = w.pipe ∧ buff = c.frame ∧ strEnum (some buff.bytes) = c.event ∧
        w.handles c.event = true ∧ s.pipe w.pipe = c.frame.bytes ++ s'.pipe w.pipe
  | .write _ p buff _ => ∃ c : Command, c.pipe = p ∧ buff = c.frame
  | .msgrcv e => monitorHandles e = true
  | .invalidEvent _ | .emptyCase => False
  | _ => True

section Typed

variable {s s' : State} {l : Label} {seg : List Label}

/-- A reader finds a command for it in its buffer. -/
private theorem handles_of_read {w : Worker} {buff : CBuffer maxMessageSize}
    {pending : List Command} (h : Carries seg s w.pipe pending) (hm : Move s (.read w buff) s') :
    ∃ c : Command, c.reader = w ∧ buff = c.frame ∧
      s.pipe w.pipe = c.frame.bytes ++ s'.pipe w.pipe := by
  cases hm.pipeStep nofun with
  | read _ _ _ hne hbuff hs' =>
      obtain ⟨c, rest, rfl, hc, hframe, hdrop⟩ := h.read hne
      refine ⟨c, hc, hbuff.trans hframe, ?_⟩
      rw [hs', Function.update_self, hdrop, h.contents, frames, stream_cons, frames]
  | other _ _ _ hr =>
      have hnone := hr w.pipe
      simp at hnone

/-- In a state whose pipes carry commands and whose events are handled, every step is typed. -/
private theorem typedStep (hc : ∀ p, ∃ pending, Carries seg s p pending) (hh : Handled s)
    (hm : Move s l s') (hl : l.readsPipe = true) : TypedStep s l s' := by
  cases hm with
  | read w buff hpos hne hbuff =>
      obtain ⟨pending, hpending⟩ := hc w.pipe
      obtain ⟨c, rfl, hbuff, hpipe⟩ := handles_of_read hpending (.read w buff hpos hne hbuff)
      exact ⟨c, rfl, hbuff, by rw [hbuff, c.strEnum_frame], c.handles_event, hpipe⟩
  | monitorWrite p name ok hpos =>
      obtain ⟨c, rfl, rfl⟩ := hpos.command
      exact ⟨c, rfl, rfl⟩
  | expiryWrite i t p name ok hi hw =>
      obtain ⟨c, rfl, rfl⟩ := hw.command
      exact ⟨c, rfl, rfl⟩
  | msgrcv e rest hpos hqueue => exact hh.queue e (by rw [hqueue]; exact List.mem_cons_self)
  -- The `default` of a `switch`, which no event on its way gets to.
  | ignore w e hpos hno =>
      have hyes := hh.worker w
      rw [hpos] at hyes
      exact absurd (hyes.symm.trans hno) (by decide)
  | monitorIgnore e hpos hno =>
      have hyes := hh.monitor
      rw [hpos] at hyes
      exact absurd (hyes.symm.trans hno) (by decide)
  | rebootCall c => cases c <;> trivial
  | shutdownCall c => cases c <;> trivial
  | _ => trivial

end Typed

/-- In every run with successful pipe reads, between two restarts, the frames written to each
pipe are those read from it followed by those in it, all of them commands for the pipe's reader;
and the next step takes a whole frame whose event its reader acts on. -/
theorem channels_typed {pre seg : List Label} {s : State} (h : Reaches (pre ++ seg) s)
    (hpre : pre = [] ∨ ∃ pre', pre = pre' ++ [.execl true]) (hseg : .execl true ∉ seg)
    (hread : ∀ l ∈ seg, l.readsPipe = true) :
    (∀ p, ∃ pending, Carries seg s p pending) ∧
      ∀ l s', Step s l s' → l.readsPipe = true → TypedStep s l s' := by
  obtain ⟨t, hrun₀, hrun⟩ := Run.split h
  obtain rfl := Reaches.eq_init hrun₀ hpre
  have hinv : (∀ p, ∃ pending, Carries seg s p pending) ∧ Handled s := by
    refine Run.history (P := fun seg s => .execl true ∉ seg → (∀ l ∈ seg, l.readsPipe = true) →
      (∀ p, ∃ pending, Carries seg s p pending) ∧ Handled s) hrun ?_ ?_ hseg hread
    · exact fun _ _ => ⟨fun p => ⟨[], Carries.init p⟩, Handled.init⟩
    · intro seg s l s' _ ih hstep hseg hread
      rw [List.forall_mem_append, List.forall_mem_singleton] at hread
      rw [List.mem_append, List.mem_singleton, not_or] at hseg
      obtain ⟨hc, hh⟩ := ih hseg.1 hread.1
      obtain ⟨-, hmove⟩ := hstep.move
      -- What is read is handled since the pipe carries commands, so the invariants go together.
      refine ⟨fun p => ?_, hh.step hmove hread.2 ?_⟩
      · obtain ⟨pending, hpending⟩ := hc p
        exact hpending.step (hmove.pipeStep (Ne.symm hseg.2))
      · rintro w buff rfl
        obtain ⟨c, -, -, hev, hhandles, -⟩ := typedStep hc hh hmove hread.2
        rw [hev]
        exact hhandles
  exact ⟨hinv.1, fun l s' hstep hl => typedStep hinv.1 hinv.2 hstep.move.2 hl⟩

section Examples

open Schedule

/-- After a failed `msgrcv` the bell's handler has written to a pipe. -/
theorem channels_typed_bell :
    ∃ seg s, Reaches seg s ∧ .msgrcvFail ∈ seg ∧ s.pipe .t3 = Command.ringBellExpiry.frame.bytes ∧
      (∀ p, ∃ pending, Carries seg s p pending) ∧
      ∀ l s', Step s l s' → l.readsPipe = true → TypedStep s l s' := by
  have hrun := run_play step .init
    (startUp ++ motion ++ distance ++ ring.take 5 ++ [.run .monitor (.ret false)])
  refine ⟨_, _, hrun, ?_, ?_, @channels_typed [] _ _ hrun (.inl rfl) ?_ ?_⟩
  all_goals decide +kernel

end Examples

end DoorBell
