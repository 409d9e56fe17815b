import LinuxPrograms.DoorBell.Moves

/-!
# Door bell: accounting for the queue

The sequences of calls of `post_messageToQ` and `get_messageFromQ`, with the status each returns.
What the kernel does to the queue loses nothing; `post_messageToQ` compares the result of `msgsnd`
with `FAIL`, which it never is, and reports every post as done.

- `sent_eq`: what was sent is what was handed out and what is left.
- `queue_iff`: the statuses account for the queue exactly if every `msgsnd` succeeds.
- `Reaches.queueRun`: the calls of a process image are such a sequence.
-/

namespace DoorBell

open LabelledSystem

/-! ## Sequences of calls -/

/-- A call of one of the two functions: who makes it, the event passed or handed out, whether the
system call behind it succeeds, and the status returned. -/
inductive QueueCall
  | post (who : Actor) (event : Event) (ok : Bool) (status : Status)
  | get (who : Actor) (event : Event) (ok : Bool) (status : Status)
  deriving DecidableEq

/-- A call on a queue. -/
inductive QueueStep (queue : List Event) : QueueCall → List Event → Prop
  | post (who : Actor) (event : Event) (ok : Bool) :
      QueueStep queue (.post who event ok (postMessageToQ queue event ok).2)
        (postMessageToQ queue event ok).1
  | get (who : Actor) (event : Event) (ok : Bool) (status : Status) (queue' : List Event)
      (h : getMessageFromQ queue ok = some (queue', event, status)) :
      QueueStep queue (.get who event ok status) queue'

namespace QueueCall

/-- The event of a post that returned `SUCCESS`. -/
def accepted : QueueCall → Option Event
  | post _ event _ .success => some event
  | _ => none

/-- The event a post enqueued. -/
def sent : QueueCall → Option Event
  | post _ event true _ => some event
  | _ => none

/-- The event handed out by a get that returned `SUCCESS`. -/
def handedOut : QueueCall → Option Event
  | get _ event _ .success => some event
  | _ => none

/-- A `msgsnd` that failed. -/
def sendFails : QueueCall → Bool
  | post _ _ ok _ => !ok
  | get _ _ _ _ => false

end QueueCall

/-- The statuses account for the queue: what the accepted posts passed is what was handed out and
what is left, in order, and a post that enqueued nothing reports `FAIL`. -/
structure Accounted (tr : List QueueCall) (queue : List Event) : Prop where
  accepted_eq : tr.filterMap QueueCall.accepted = tr.filterMap QueueCall.handedOut ++ queue
  reported : ∀ who event status, .post who event false status ∈ tr → status = .fail

section Calls

variable {queue queue' : List Event} {call : QueueCall} {tr : List QueueCall}

/-- `FAIL` is no result of a system call. -/
theorem postMessageToQ_snd (queue : List Event) (event : Event) (ok : Bool) :
    (postMessageToQ queue event ok).2 = .success := by
  cases ok <;> rfl

/-- A call appends what it sends and takes off the front what it hands out. -/
theorem QueueStep.contents (h : QueueStep queue call queue') :
    queue ++ call.sent.toList = call.handedOut.toList ++ queue' := by
  cases h with
  | post who event ok =>
      cases ok with
      | true => rfl
      | false => exact List.append_nil queue
  | get who event ok status queue' h =>
      cases ok with
      | false =>
          -- The event handed out is that of the cleared object, and counts for nothing.
          obtain ⟨rfl, rfl, rfl⟩ :
              queue = queue' ∧ clearedEvent = event ∧ Status.fail = status := by
            simpa [getMessageFromQ] using h
          exact List.append_nil queue
      | true =>
          cases queue with
          -- On an empty queue `msgrcv` blocks.
          | nil => cases h
          | cons e rest =>
              obtain ⟨rfl, rfl, rfl⟩ : rest = queue' ∧ e = event ∧ Status.success = status := by
                simpa [getMessageFromQ] using h
              exact List.append_nil (e :: rest)

/-- What was sent is what was handed out and what is left. -/
theorem sent_eq (h : Run QueueStep [] tr queue) :
    tr.filterMap QueueCall.sent = tr.filterMap QueueCall.handedOut ++ queue := by
  have hfifo := h.fifo QueueCall.sent QueueCall.handedOut id fun _ _ _ hstep => hstep.contents
  simpa using hfifo

/-- Every post reports `SUCCESS`. -/
theorem status_of_post {who : Actor} {event : Event} {ok : Bool} {status : Status}
    (h : Run QueueStep [] tr queue) (hmem : .post who event ok status ∈ tr) :
    status = .success := by
  obtain ⟨pre, post, rfl⟩ := List.append_of_mem hmem
  obtain ⟨q, q', -, hstep, -⟩ := Run.step_at h
  generalize hcall : QueueCall.post who event ok status = call at hstep
  cases hstep with
  | post who' event' ok' =>
      obtain ⟨-, -, -, rfl⟩ := QueueCall.post.inj hcall
      exact postMessageToQ_snd _ _ _
  | get => cases hcall

/-- The accepted posts are those sent and as many more as `msgsnd` failed. -/
theorem length_accepted (h : Run QueueStep [] tr queue) :
    (tr.filterMap QueueCall.accepted).length =
      (tr.filterMap QueueCall.sent).length + tr.countP QueueCall.sendFails := by
  refine Run.history (P := fun tr _ => (tr.filterMap QueueCall.accepted).length =
    (tr.filterMap QueueCall.sent).length + tr.countP QueueCall.sendFails) h rfl ?_
  intro tr q call q' _ ih hstep
  have hcall : call.accepted.toList.length =
      call.sent.toList.length + [call].countP QueueCall.sendFails := by
    cases hstep with
    | post who event ok => cases ok <;> rfl
    | get => rfl
  rw [filterMap_snoc, filterMap_snoc, List.length_append, List.length_append, List.countP_append,
    ih, hcall]
  omega

/-- Where no `msgsnd` fails the accepted posts are those sent. -/
theorem accepted_eq_sent (h : Run QueueStep [] tr queue)
    (hok : ∀ call ∈ tr, call.sendFails = false) :
    tr.filterMap QueueCall.accepted = tr.filterMap QueueCall.sent := by
  refine List.filterMap_congr fun call hmem => ?_
  have hsend := hok call hmem
  cases call with
  | get => rfl
  | post who event ok status =>
      obtain rfl := status_of_post h hmem
      obtain rfl : ok = true := by simpa [QueueCall.sendFails] using hsend
      rfl

/-- The accepted posts are those handed out and those left exactly if no `msgsnd` fails: each one
that does leaves an accepted event nowhere. -/
theorem accepted_eq_iff (h : Run QueueStep [] tr queue) :
    tr.filterMap QueueCall.accepted = tr.filterMap QueueCall.handedOut ++ queue ↔
      ∀ call ∈ tr, call.sendFails = false := by
  constructor
  · -- By their lengths: nothing that was sent is lost.
    intro heq
    have hlen := length_accepted h
    rw [heq, ← sent_eq h] at hlen
    have hnone : tr.countP QueueCall.sendFails = 0 := by omega
    simpa using List.countP_eq_zero.mp hnone
  · intro hok
    rw [accepted_eq_sent h hok, sent_eq h]

/-- The statuses account for the queue exactly if no `msgsnd` fails. -/
theorem queue_iff (h : Run QueueStep [] tr queue) :
    Accounted tr queue ↔ ∀ call ∈ tr, call.sendFails = false := by
  constructor
  · exact fun hacc => (accepted_eq_iff h).mp hacc.accepted_eq
  · intro hok
    refine ⟨(accepted_eq_iff h).mpr hok, fun who event status hmem => ?_⟩
    cases hok _ hmem

/-- The motion thread posts, and the monitor takes the event. -/
theorem queue_iff_taken :
    Accounted [.post (.thread (.worker .motion)) .motionDetected true .success,
        .get (.thread .monitor) .motionDetected true .success] [] ↔
      ∀ call ∈ [QueueCall.post (.thread (.worker .motion)) .motionDetected true .success,
        .get (.thread .monitor) .motionDetected true .success], call.sendFails = false :=
  queue_iff (Run.cons_iff.mpr ⟨_, .post _ _ true, Run.single (.get _ _ true _ _ rfl)⟩)

/-- The last retry of the door wait is posted while the queue is full: the call reports `SUCCESS`,
and the event is in no queue. -/
theorem not_queue :
    Run QueueStep [] [.post (.expiry .doorOpenWait) .doorWaitRetryEnd false .success] [] ∧
      ¬ Accounted [.post (.expiry .doorOpenWait) .doorWaitRetryEnd false .success] [] := by
  refine ⟨Run.single (.post _ _ false), fun h => ?_⟩
  have hlost := h.accepted_eq
  revert hlost
  decide

end Calls

/-! ## The calls of the process -/

/-- The call a label of the process stands for. -/
def Label.queueCall : Label → Option QueueCall
  | .msgsnd who e ok => some (.post who e ok (postMessageToQ [] e ok).2)
  | .msgrcv e => some (.get (.thread .monitor) e true .success)
  | .msgrcvFail => some (.get (.thread .monitor) clearedEvent false .fail)
  | _ => none

section Process

variable {s s' : State} {l : Label} {tr : List Label}

@[simp]
theorem State.queue_afterTimer (s : State) (t : Timer) (target : TimerState) (ok : Bool) :
    (s.afterTimer t target ok).queue = s.queue := by
  cases ok <;> rfl

@[simp]
theorem State.queue_afterTeardown (s : State) (c : TeardownCall) (ok : Bool) :
    (s.afterTeardown c ok).queue = s.queue := by
  cases c with
  | timerStop t => simp [State.afterTeardown]
  | timerDestroy t => simp [State.afterTeardown]
  | pthreadCancel th => cases th <;> rfl

/-- A step that does not restart the process is a call on the queue or leaves it alone. -/
theorem Move.queueStep (h : Move s l s') (hl : l ≠ .execl true) :
    (l.queueCall = none ∧ s'.queue = s.queue) ∨
      ∃ call, l.queueCall = some call ∧ QueueStep s.queue call s'.queue := by
  -- The status of a post does not depend on the queue.
  have hpost : ∀ who e ok, QueueStep s.queue
      (.post who e ok (postMessageToQ [] e ok).2) (postMessageToQ s.queue e ok).1 := by
    intro who e ok
    rw [postMessageToQ_snd, ← postMessageToQ_snd s.queue e ok]
    exact .post who e ok
  cases h with
  | post w e ok => exact .inr ⟨_, rfl, hpost _ e ok⟩
  | postExpiry ok => exact .inr ⟨_, rfl, hpost _ _ ok⟩
  | expiryPost i ok => exact .inr ⟨_, rfl, hpost _ _ ok⟩
  | msgrcv e rest hpos hqueue =>
      exact .inr ⟨_, rfl, .get _ _ true _ _ (by rw [hqueue]; rfl)⟩
  | msgrcvFail => exact .inr ⟨_, rfl, .get _ _ false _ _ rfl⟩
  | startBell => exact .inl ⟨rfl, State.queue_afterTimer _ _ _ _⟩
  | monitorStart => exact .inl ⟨rfl, State.queue_afterTimer _ _ _ _⟩
  | expiryStop => exact .inl ⟨rfl, State.queue_afterTimer _ _ _ _⟩
  | rebootCall c => exact .inl ⟨by cases c <;> rfl, State.queue_afterTeardown _ _ _⟩
  | shutdownCall c => exact .inl ⟨by cases c <;> rfl, State.queue_afterTeardown _ _ _⟩
  | ignore w e =>
      refine .inl ⟨?_, rfl⟩
      unfold ignoreLabel
      split <;> rfl
  | execl => exact absurd rfl hl
  | _ => exact .inl ⟨rfl, rfl⟩

/-- The calls of a process that was not restarted are a sequence of calls on its queue, so what is
said of these holds of it. -/
theorem Reaches.queueRun (h : Reaches tr s) (hl : .execl true ∉ tr) :
    Run QueueStep [] (tr.filterMap Label.queueCall) s.queue := by
  refine Run.history (P := fun tr s => .execl true ∉ tr →
    Run QueueStep [] (tr.filterMap Label.queueCall) s.queue) h (fun _ => .nil) ?_ hl
  intro tr s l s' _ ih hstep hl'
  rw [List.mem_append, List.mem_singleton, not_or] at hl'
  rw [filterMap_snoc]
  obtain ⟨-, hm⟩ := hstep.move
  rcases hm.queueStep (Ne.symm hl'.2) with ⟨hnone, hsame⟩ | ⟨call, hcall, hqueue⟩
  · rw [hnone, hsame, Option.toList_none, List.append_nil]
    exact ih hl'.1
  · rw [hcall]
    exact (ih hl'.1).snoc hqueue

end Process

end DoorBell
