import LinuxPrograms.Ipc.Messages
import LinuxPrograms.Lib.Observation
import LinuxPrograms.Lib.SysVMsg
import Mathlib.Data.Fintype.Card

/-!
# Any number of senders and receivers on the message queue

`queue_p1.c` and `queue_p2.c`, started any number of times. Each sender passes its argument to the
queue under the key 8000 and each receiver takes one message from it; one that gets "end" removes
the queue, with what is in it by then. Every process may be killed at any time.

- `p1Step`, `p2Step`, `step`: the two programs.
- `step_move`: all that a step can do.
- `Inv`: what was sent and received accounts for the queues, and a queue was removed only behind an
  "end".
- `Reaches.senders`, `Reaches.receivers`: nobody sends or receives twice.
- `Reaches.received_eq`: what was received from a queue are the payloads of the first senders.
-/

namespace QueuePrograms

open CString Ipc LabelledSystem SysVMsg
open SysVSem (Outcome)

/-- The arguments of the senders, what lies in `buffer` of each process at first, and how many
messages a queue has room for. -/
structure Setup (n m : ℕ) where
  args : Fin n → Option (List UInt8)
  buffer1 : Fin n → PayloadMsg
  buffer2 : Fin m → PayloadMsg
  room : ℕ

/-- Where a sender is. -/
inductive P1
  | start
  /-- Behind `msgget`, with the message it will send. -/
  | ready (id : ℕ) (message : ℤ × List UInt8)
  | exited

/-- Where a receiver is. -/
inductive P2
  | start
  /-- In `msgrcv`. -/
  | waiting (id : ℕ)
  /-- Before `msgctl`. -/
  | removing (id : ℕ)
  | exited

/-- The queues, and where each process is. -/
structure State (n m : ℕ) where
  queues : Queues (ℤ × List UInt8)
  p1 : Fin n → P1
  p2 : Fin m → P2

/-- What a step shows. -/
inductive Label (n m : ℕ)
  /-- A call of `msgget`, or an exit behind a check or a call that failed. -/
  | quiet
  | sent (i : Fin n) (id : ℕ)
  | received (j : Fin m) (id : ℕ) (buffer : PayloadMsg)
  | removed (j : Fin m) (id : ℕ)
  | killed

variable {n m : ℕ}

/-- Nobody has started yet. -/
def init : State n m := ⟨.init, fun _ => .start, fun _ => .start⟩

namespace State

variable (s : State n m)

/-- A sender goes on to `p`. -/
def at1 (i : Fin n) (p : P1) : State n m := { s with p1 := Function.update s.p1 i p }

/-- A receiver goes on to `p`. -/
def at2 (j : Fin m) (p : P2) : State n m := { s with p2 := Function.update s.p2 j p }

end State

section Programs

variable (c : Setup n m) (s : State n m)

/-- The next call of a sender. -/
def p1Step (i : Fin n) : Option (State n m × Label n m) :=
  match s.p1 i with
  | .start =>
      match queueP1 (c.buffer1 i) (c.args i) with
      -- Without an argument, or with too long a one, it exits.
      | none => some (s.at1 i .exited, .quiet)
      | some (_, message) =>
          let (queues, id) := msgget s.queues
          some ({ s.at1 i (.ready id message) with queues }, .quiet)
  | .ready id message =>
      match msgsnd s.queues c.room id message with
      | .returns queues => some ({ s.at1 i .exited with queues }, .sent i id)
      | .fails => some (s.at1 i .exited, .quiet)
      | .blocks => none
  | .exited => none

/-- The next call of a receiver. -/
def p2Step (j : Fin m) : Option (State n m × Label n m) :=
  match s.p2 j with
  | .start =>
      let (queues, id) := msgget s.queues
      some ({ s.at2 j (.waiting id) with queues }, .quiet)
  | .waiting id =>
      match msgrcv s.queues id with
      | .returns (message, queues) =>
          (queueP2 (c.buffer2 j) [message]).map fun (buffer, removes) =>
            ({ s.at2 j (if removes then .removing id else .exited) with queues },
              .received j id buffer)
      | .fails => some (s.at2 j .exited, .quiet)
      | .blocks => none
  | .removing id =>
      match rmid s.queues id with
      | some queues => some ({ s.at2 j .exited with queues }, .removed j id)
      | none => some (s.at2 j .exited, .quiet)
  | .exited => none

/-- Who goes on, or is killed. -/
inductive Act (n m : ℕ)
  | p1 (i : Fin n)
  | p2 (j : Fin m)
  | kill1 (i : Fin n)
  | kill2 (j : Fin m)

/-- One step. -/
def step : Act n m → Option (State n m × Label n m)
  | .p1 i => p1Step c s i
  | .p2 j => p2Step c s j
  | .kill1 i => some (s.at1 i .exited, .killed)
  | .kill2 j => some (s.at2 j .exited, .killed)

end Programs

/-- The labels `tr` lead to `s`. -/
abbrev Reaches (c : Setup n m) (tr : List (Label n m)) (s : State n m) : Prop :=
  Run (StepOf (step c)) init tr s

/-! ## What was sent and received -/

/-- What a sender puts in the queue, as the receiver's `buffer` holds it. -/
def Setup.payload (c : Setup n m) (i : Fin n) : PayloadMsg where
  mtype := 1
  arr := (CBuffer.zero 20).strcpy ((c.args i).getD [])

/-- The message in the queue of which this is the payload. -/
def message (buffer : PayloadMsg) : ℤ × List UInt8 := (buffer.mtype, buffer.arr.bytes)

namespace Label

/-- The sender of a message. -/
def sender : Label n m → Option (Fin n)
  | sent i _ => some i
  | _ => none

/-- The receiver of a message. -/
def receiver : Label n m → Option (Fin m)
  | received j _ _ => some j
  | _ => none

/-- The sender of a message to the queue `id`. -/
def senderTo (id : ℕ) : Label n m → Option (Fin n)
  | sent i id' => if id' = id then some i else none
  | _ => none

/-- What a receiver got from the queue `id`. -/
def receivedFrom (id : ℕ) : Label n m → Option PayloadMsg
  | received _ id' buffer => if id' = id then some buffer else none
  | _ => none

/-- The message sent, with its queue. -/
def sentMessage (c : Setup n m) : Label n m → Option (ℕ × (ℤ × List UInt8))
  | sent i id => some (id, message (c.payload i))
  | _ => none

/-- A process is killed. -/
def isKilled : Label n m → Bool
  | killed => true
  | _ => false

instance (l : Label n m) : Decidable (l = .killed) :=
  decidable_of_iff (l.isKilled = true) (by cases l <;> simp [isKilled])

/-- The message received, with its queue. -/
def receivedMessage : Label n m → Option (ℕ × (ℤ × List UInt8))
  | received _ id buffer => some (id, message buffer)
  | _ => none

end Label

/-- The check of the sender lets its argument pass. -/
def Setup.Accepts (c : Setup n m) (i : Fin n) : Prop := checked (c.args i) ≠ none

/-- The argument of a sender is "end". -/
def Setup.SendsEnd (c : Setup n m) (i : Fin n) : Prop := (c.args i).map cstr = some (text "end")

instance (c : Setup n m) : DecidablePred c.Accepts :=
  fun i => inferInstanceAs (Decidable (checked (c.args i) ≠ none))

instance (c : Setup n m) : DecidablePred c.SendsEnd :=
  fun i => inferInstanceAs (Decidable ((c.args i).map cstr = some (text "end")))

/-- Somebody received "end" from the queue. -/
def EndReceived (id : ℕ) (tr : List (Label n m)) : Prop :=
  ∃ buffer ∈ tr.filterMap (Label.receivedFrom id), buffer.arr.str = text "end"

/-- How many calls a sender still makes at most. -/
def P1.rank : P1 → ℕ
  | .start => 2
  | .ready _ _ => 1
  | .exited => 0

/-- How many calls a receiver still makes at most. -/
def P2.rank : P2 → ℕ
  | .start => 3
  | .waiting _ => 2
  | .removing _ => 1
  | .exited => 0

section Moves

variable {c : Setup n m} {s s' : State n m} {l : Label n m} {tr : List (Label n m)}
  {i i' : Fin n} {j j' : Fin m} {id : ℕ} {p : P1} {q : P2}

@[simp]
theorem at1_p1 : (s.at1 i p).p1 i' = if i' = i then p else s.p1 i' := by
  simp [State.at1, Function.update_apply]

@[simp]
theorem at1_p2 : (s.at1 i p).p2 = s.p2 := rfl

@[simp]
theorem at1_queues : (s.at1 i p).queues = s.queues := rfl

@[simp]
theorem at2_p2 : (s.at2 j q).p2 j' = if j' = j then q else s.p2 j' := by
  simp [State.at2, Function.update_apply]

@[simp]
theorem at2_p1 : (s.at2 j q).p1 = s.p1 := rfl

@[simp]
theorem at2_queues : (s.at2 j q).queues = s.queues := rfl

theorem message_injective : Function.Injective message := by
  rintro ⟨mtype, ⟨bytes, hbytes⟩⟩ ⟨mtype', ⟨bytes', hbytes'⟩⟩ h
  obtain ⟨rfl, rfl⟩ := Prod.mk.inj h
  rfl

/-- What a sender whose argument passes has ready is its payload. -/
theorem queueP1_eq (b : PayloadMsg) (i : Fin n) (h : c.Accepts i) :
    ∃ k, queueP1 b (c.args i) = some (k, message (c.payload i)) := by
  obtain ⟨arg, harg⟩ := Option.ne_none_iff_exists'.mp h
  have hargs : c.args i = some arg := (Option.filter_eq_some_iff.mp harg).1
  refine ⟨strcpySize arg, ?_⟩
  rw [queueP1, harg, Option.map_some, Setup.payload, hargs]
  rfl

/-- The string in the payload is the argument. -/
theorem str_payload (h : c.Accepts i) : some (c.payload i).arr.str = (c.args i).map cstr := by
  obtain ⟨arg, harg⟩ := Option.ne_none_iff_exists'.mp h
  obtain ⟨hargs, hstr⟩ := str_strcpy_of_checked (CBuffer.zero 20) harg
  rw [Setup.payload, hargs, Option.map_some, Option.getD_some, hstr]

/-- What the processes can do. -/
inductive Move (c : Setup n m) (s : State n m) : Label n m → State n m → Prop
  | exit1 (i : Fin n) (l : Label n m)
      (h : l = .killed ∨ l = .quiet ∧ (s.p1 i = .start ∧ ¬ c.Accepts i ∨
        ∃ id msg, s.p1 i = .ready id msg ∧ s.queues.queueAt id = none)) :
      Move c s l (s.at1 i .exited)
  | get1 (i : Fin n) (hp : s.p1 i = .start) (h : c.Accepts i) :
      Move c s .quiet { s.at1 i (.ready s.queues.removed (message (c.payload i))) with
        queues := (msgget s.queues).1 }
  | send (i : Fin n) (id : ℕ) (msg : ℤ × List UInt8) (queues : Queues (ℤ × List UInt8))
      (hp : s.p1 i = .ready id msg) (h : msgsnd s.queues c.room id msg = .returns queues) :
      Move c s (.sent i id) { s.at1 i .exited with queues }
  | exit2 (j : Fin m) (l : Label n m)
      (h : l = .killed ∨ l = .quiet ∧ ∃ id, s.queues.queueAt id = none ∧
        (s.p2 j = .waiting id ∨ s.p2 j = .removing id)) :
      Move c s l (s.at2 j .exited)
  | get2 (j : Fin m) (hp : s.p2 j = .start) :
      Move c s .quiet { s.at2 j (.waiting s.queues.removed) with queues := (msgget s.queues).1 }
  | receive (j : Fin m) (id : ℕ) (msg : ℤ × List UInt8) (queues : Queues (ℤ × List UInt8))
      (buffer : PayloadMsg) (hp : s.p2 j = .waiting id)
      (h : msgrcv s.queues id = .returns (msg, queues))
      (hbuffer : buffer = ⟨msg.1, (c.buffer2 j).arr.store msg.2⟩) :
      Move c s (.received j id buffer)
        { s.at2 j (if buffer.arr.str = text "end" then .removing id else .exited) with queues }
  | remove (j : Fin m) (id : ℕ) (queues : Queues (ℤ × List UInt8)) (hp : s.p2 j = .removing id)
      (h : rmid s.queues id = some queues) :
      Move c s (.removed j id) { s.at2 j .exited with queues }

theorem p1Step_move (h : p1Step c s i = some (s', l)) : Move c s l s' := by
  unfold p1Step at h
  cases hp : s.p1 i with
  | start =>
      simp only [hp] at h
      by_cases haccept : c.Accepts i
      · obtain ⟨k, hk⟩ := queueP1_eq (c.buffer1 i) i haccept
        simp only [hk, Option.some.injEq, Prod.mk.injEq] at h
        obtain ⟨rfl, rfl⟩ := h
        exact .get1 i hp haccept
      · have hnone : queueP1 (c.buffer1 i) (c.args i) = none := by
          rw [queueP1, not_not.mp haccept, Option.map_none]
        simp only [hnone, Option.some.injEq, Prod.mk.injEq] at h
        obtain ⟨rfl, rfl⟩ := h
        exact .exit1 i _ (.inr ⟨rfl, .inl ⟨hp, haccept⟩⟩)
  | ready id msg =>
      simp only [hp] at h
      cases hsnd : msgsnd s.queues c.room id msg with
      | returns queues =>
          simp only [hsnd, Option.some.injEq, Prod.mk.injEq] at h
          obtain ⟨rfl, rfl⟩ := h
          exact .send i id msg queues hp hsnd
      | fails =>
          simp only [hsnd, Option.some.injEq, Prod.mk.injEq] at h
          obtain ⟨rfl, rfl⟩ := h
          exact .exit1 i _ (.inr ⟨rfl, .inr ⟨id, msg, hp, msgsnd_fails hsnd⟩⟩)
      | blocks => simp [hsnd] at h
  | exited => simp [hp] at h

theorem p2Step_move (h : p2Step c s j = some (s', l)) : Move c s l s' := by
  unfold p2Step at h
  cases hp : s.p2 j with
  | start =>
      simp only [hp, Option.some.injEq, Prod.mk.injEq] at h
      obtain ⟨rfl, rfl⟩ := h
      exact .get2 j hp
  | waiting id =>
      simp only [hp] at h
      cases hrcv : msgrcv s.queues id with
      | returns r =>
          obtain ⟨msg, queues⟩ := r
          simp only [hrcv, queueP2, Option.map_some, Option.some.injEq, Prod.mk.injEq,
            decide_eq_true_eq] at h
          obtain ⟨rfl, rfl⟩ := h
          exact .receive j id msg queues _ hp hrcv rfl
      | fails =>
          simp only [hrcv, Option.some.injEq, Prod.mk.injEq] at h
          obtain ⟨rfl, rfl⟩ := h
          exact .exit2 j _ (.inr ⟨rfl, id, msgrcv_fails hrcv, .inl hp⟩)
      | blocks => simp [hrcv] at h
  | removing id =>
      simp only [hp] at h
      cases hrm : rmid s.queues id with
      | some queues =>
          simp only [hrm, Option.some.injEq, Prod.mk.injEq] at h
          obtain ⟨rfl, rfl⟩ := h
          exact .remove j id queues hp hrm
      | none =>
          simp only [hrm, Option.some.injEq, Prod.mk.injEq] at h
          obtain ⟨rfl, rfl⟩ := h
          exact .exit2 j _ (.inr ⟨rfl, id, Option.map_eq_none_iff.mp hrm, .inr hp⟩)
  | exited => simp [hp] at h

/-- A step is one of the moves. -/
theorem step_move (h : StepOf (step c) s l s') : Move c s l s' := by
  obtain ⟨a, ha⟩ := h
  cases a with
  | p1 i => exact p1Step_move ha
  | p2 j => exact p2Step_move ha
  | kill1 i =>
      obtain ⟨rfl, rfl⟩ := Prod.mk.inj (Option.some.inj ha)
      exact .exit1 i _ (.inl rfl)
  | kill2 j =>
      obtain ⟨rfl, rfl⟩ := Prod.mk.inj (Option.some.inj ha)
      exact .exit2 j _ (.inl rfl)

end Moves

section Invariants

variable {c : Setup n m} {s s' : State n m} {l : Label n m} {tr : List (Label n m)}

/-- Only payloads of accepted arguments are ready to be sent or in the queue. -/
structure Sound (c : Setup n m) (s : State n m) : Prop where
  ready : ∀ i id msg, s.p1 i = .ready id msg → c.Accepts i ∧ msg = message (c.payload i)
  inQueue : ∀ msg ∈ s.queues.messages, ∃ i, msg = message (c.payload i)

theorem Sound.init (c : Setup n m) : Sound c init where
  ready _ _ _ h := by cases h
  inQueue _ h := absurd h List.not_mem_nil

theorem Sound.step (h : Sound c s) (hm : Move c s l s') : Sound c s' := by
  -- Who exits has nothing ready.
  have hexit : ∀ i i' id msg, (s.at1 i .exited).p1 i' = .ready id msg →
      c.Accepts i' ∧ msg = message (c.payload i') := by
    intro i i' id msg hp
    rw [at1_p1] at hp
    split_ifs at hp with hi
    exact h.ready i' id msg hp
  cases hm with
  | exit1 i l hl => exact ⟨hexit i, h.inQueue⟩
  | get1 i hp haccept =>
      refine ⟨fun i' id msg hp' => ?_, h.inQueue⟩
      rw [show _ = _ from at1_p1] at hp'
      split_ifs at hp' with hi
      · subst hi
        obtain ⟨-, rfl⟩ := P1.ready.inj hp'
        exact ⟨haccept, rfl⟩
      · exact h.ready i' id msg hp'
  | send i id msg queues hp hsnd =>
      obtain ⟨-, -, rfl⟩ := msgsnd_returns hsnd
      refine ⟨hexit i, fun msg' hmsg => ?_⟩
      rcases List.mem_append.mp hmsg with hold | hnew
      · exact h.inQueue msg' hold
      · obtain rfl := List.mem_singleton.mp hnew
        exact ⟨i, (h.ready i id _ hp).2⟩
  | exit2 j l hl => exact ⟨h.ready, h.inQueue⟩
  | get2 j hp => exact ⟨h.ready, h.inQueue⟩
  | receive j id msg queues buffer hp hrcv hbuffer =>
      obtain ⟨-, ms, hms, rfl⟩ := msgrcv_returns hrcv
      refine ⟨h.ready, fun msg' hmsg => h.inQueue msg' ?_⟩
      rw [hms]
      exact List.mem_cons_of_mem _ hmsg
  | remove j id queues hp hrm =>
      obtain ⟨-, rfl⟩ := rmid_eq_some hrm
      exact ⟨h.ready, fun msg hmsg => absurd hmsg List.not_mem_nil⟩

/-- A received buffer holds the payload whole. -/
theorem Sound.message_buffer (h : Sound c s) {id : ℕ} {msg : ℤ × List UInt8}
    {queues : Queues (ℤ × List UInt8)} (arr : CBuffer 20)
    (hrcv : msgrcv s.queues id = .returns (msg, queues)) :
    message ⟨msg.1, arr.store msg.2⟩ = msg := by
  obtain ⟨-, ms, hms, -⟩ := msgrcv_returns hrcv
  obtain ⟨i, rfl⟩ := h.inQueue msg (hms ▸ List.mem_cons_self)
  rw [message, message, CBuffer.store_of_length_eq arr (c.payload i).arr.length_eq]

/-- What was sent and what was received account for the queues, and why queues were removed. -/
structure Inv (c : Setup n m) (tr : List (Label n m)) (s : State n m) : Prop extends Sound c s where
  account : Accounted (tr.filterMap (Label.sentMessage c)) (tr.filterMap Label.receivedMessage)
    s.queues
  accepted : ∀ i ∈ tr.filterMap Label.sender, c.Accepts i
  removing : ∀ j id, s.p2 j = .removing id → EndReceived id tr
  gone : ∀ id < s.queues.removed, EndReceived id tr

theorem Inv.init (c : Setup n m) : Inv c [] init where
  toSound := .init c
  account := .init
  accepted _ h := absurd h List.not_mem_nil
  removing _ _ h := by cases h
  gone id h := absurd h (Nat.not_lt_zero id)

theorem EndReceived.snoc {id : ℕ} (h : EndReceived id tr) (l : Label n m) :
    EndReceived id (tr ++ [l]) := by
  obtain ⟨buffer, hmem, hend⟩ := h
  refine ⟨buffer, ?_, hend⟩
  rw [List.filterMap_append]
  exact List.mem_append_left _ hmem

/-- A step that shows no message and leaves the queues as they are, or makes one. -/
theorem Inv.silent (h : Inv c tr s) (hm : Move c s l s')
    (hl : l = .killed ∨ l = .quiet)
    (hqueues : s'.queues = s.queues ∨ s'.queues = (msgget s.queues).1)
    (hremoving : ∀ j id, s'.p2 j = .removing id → s.p2 j = .removing id) :
    Inv c (tr ++ [l]) s' := by
  have hsent : (tr ++ [l]).filterMap (Label.sentMessage c) = tr.filterMap (Label.sentMessage c) :=
    filterMap_snoc_of_none tr (by rcases hl with rfl | rfl <;> rfl)
  have hreceived : (tr ++ [l]).filterMap Label.receivedMessage =
      tr.filterMap Label.receivedMessage :=
    filterMap_snoc_of_none tr (by rcases hl with rfl | rfl <;> rfl)
  have hsender : (tr ++ [l]).filterMap Label.sender = tr.filterMap Label.sender :=
    filterMap_snoc_of_none tr (by rcases hl with rfl | rfl <;> rfl)
  refine ⟨h.toSound.step hm, ?_, ?_, fun j id hj => (h.removing j id (hremoving j id hj)).snoc l,
    fun id hid => ?_⟩
  · rw [hsent, hreceived]
    rcases hqueues with hq | hq
    · rw [hq]
      exact h.account
    · rw [hq]
      exact h.account.msgget
  · rw [hsender]
    exact h.accepted
  · refine (h.gone id ?_).snoc l
    rcases hqueues with hq | hq
    · rwa [hq] at hid
    · rwa [hq] at hid

theorem Inv.step (h : Inv c tr s) (hm : Move c s l s') : Inv c (tr ++ [l]) s' := by
  have hmove := hm
  cases hm with
  | exit1 i l hl => exact h.silent hmove (hl.imp_right And.left) (.inl rfl) fun _ _ hj => hj
  | get1 i hp haccept => exact h.silent hmove (.inr rfl) (.inr rfl) fun _ _ hj => hj
  | exit2 j l hl =>
      refine h.silent hmove (hl.imp_right And.left) (.inl rfl) fun j' id hj' => ?_
      rw [at2_p2] at hj'
      split_ifs at hj'
      exact hj'
  | get2 j hp =>
      refine h.silent hmove (.inr rfl) (.inr rfl) fun j' id hj' => ?_
      rw [show _ = _ from at2_p2] at hj'
      split_ifs at hj'
      exact hj'
  | send i id msg queues hp hsnd =>
      obtain ⟨haccept, rfl⟩ := h.ready i id msg hp
      refine ⟨h.toSound.step hmove, ?_, ?_, fun j id' hj => (h.removing j id' hj).snoc _,
        fun id' hid' => (h.gone id' ?_).snoc _⟩
      · rw [filterMap_snoc_of_some (f := Label.sentMessage c) tr rfl,
          filterMap_snoc_of_none tr rfl]
        exact h.account.msgsnd hsnd
      · rw [filterMap_snoc_of_some (f := Label.sender) tr rfl, List.forall_mem_append,
          List.forall_mem_singleton]
        exact ⟨h.accepted, haccept⟩
      · obtain ⟨-, -, rfl⟩ := msgsnd_returns hsnd
        exact hid'
  | receive j id msg queues buffer hp hrcv hbuffer =>
      have hmsg := h.message_buffer (c.buffer2 j).arr hrcv
      refine ⟨h.toSound.step hmove, ?_, ?_, fun j' id' hj' => ?_, fun id' hid' =>
        (h.gone id' ?_).snoc _⟩
      · rw [filterMap_snoc_of_some (f := Label.receivedMessage) tr rfl,
          filterMap_snoc_of_none tr rfl, hbuffer, hmsg]
        exact h.account.msgrcv hrcv
      · rw [filterMap_snoc_of_none tr rfl]
        exact h.accepted
      · rw [show _ = _ from at2_p2] at hj'
        split_ifs at hj' with hj hend
        · -- The receiver itself has just got "end".
          obtain rfl := P2.removing.inj hj'
          refine ⟨buffer, ?_, hend⟩
          rw [filterMap_snoc_of_some tr (if_pos rfl)]
          exact List.mem_append_right _ List.mem_cons_self
        · exact (h.removing j' id' hj').snoc _
      · obtain ⟨-, ms, -, rfl⟩ := msgrcv_returns hrcv
        exact hid'
  | remove j id queues hp hrm =>
      have hend := (h.removing j id hp).snoc (.removed j id)
      refine ⟨h.toSound.step hmove, ?_, ?_, fun j' id' hj' => ?_, fun id' hid' => ?_⟩
      · rw [filterMap_snoc_of_none tr rfl, filterMap_snoc_of_none tr rfl]
        exact h.account.rmid hrm
      · rw [filterMap_snoc_of_none tr rfl]
        exact h.accepted
      · rw [show _ = _ from at2_p2] at hj'
        split_ifs at hj'
        exact (h.removing j' id' hj').snoc _
      · obtain ⟨rfl, rfl⟩ := rmid_eq_some hrm
        rcases Nat.lt_succ_iff_lt_or_eq.mp hid' with hlt | rfl
        · exact (h.gone id' hlt).snoc _
        · exact hend

end Invariants

section Runs

variable {c : Setup n m} {s s' : State n m} {l : Label n m} {tr : List (Label n m)} {id : ℕ}

theorem Reaches.inv (h : Reaches c tr s) : Inv c tr s :=
  h.history (P := Inv c) (.init c) fun _ _ _ _ _ ih hstep => ih.step (step_move hstep)

/-- No process goes back. -/
theorem Move.rank1_le (hm : Move c s l s') (i : Fin n) : (s'.p1 i).rank ≤ (s.p1 i).rank := by
  have hexit : ∀ i', ((s.at1 i' .exited).p1 i).rank ≤ (s.p1 i).rank := by
    intro i'
    rw [at1_p1]
    split_ifs
    · exact Nat.zero_le _
    · exact Nat.le_refl _
  cases hm with
  | exit1 i' l hl => exact hexit i'
  | get1 i' hp haccept =>
      show ((s.at1 i' _).p1 i).rank ≤ _
      rw [at1_p1]
      split_ifs with hi
      · rw [hi, hp]
        exact Nat.le_succ 1
      · exact Nat.le_refl _
  | send i' id msg queues hp hsnd => exact hexit i'
  | exit2 | get2 | receive | remove => exact Nat.le_refl _

theorem Move.rank2_le (hm : Move c s l s') (j : Fin m) : (s'.p2 j).rank ≤ (s.p2 j).rank := by
  have hexit : ∀ j', ((s.at2 j' .exited).p2 j).rank ≤ (s.p2 j).rank := by
    intro j'
    rw [at2_p2]
    split_ifs
    · exact Nat.zero_le _
    · exact Nat.le_refl _
  cases hm with
  | exit1 | get1 | send => exact Nat.le_refl _
  | exit2 j' l hl => exact hexit j'
  | get2 j' hp =>
      show ((s.at2 j' _).p2 j).rank ≤ _
      rw [at2_p2]
      split_ifs with hj
      · rw [hj, hp]
        exact Nat.le_succ 2
      · exact Nat.le_refl _
  | receive j' id msg queues buffer hp hrcv hbuffer =>
      show ((s.at2 j' _).p2 j).rank ≤ _
      rw [at2_p2]
      split_ifs with hj hend
      · rw [hj, hp]
        exact Nat.le_succ 1
      · exact Nat.zero_le _
      · exact Nat.le_refl _
  | remove j' id queues hp hrm => exact hexit j'

/-- Who sends has exited behind it. -/
theorem Move.of_sender {i : Fin n} (hm : Move c s l s') (hl : l.sender = some i) :
    (s.p1 i).rank = 1 ∧ (s'.p1 i).rank = 0 := by
  cases hm with
  | send i' id msg queues hp hsnd =>
      obtain rfl : i' = i := Option.some.inj hl
      refine ⟨by rw [hp]; rfl, ?_⟩
      show ((s.at1 i' .exited).p1 i').rank = 0
      rw [at1_p1, if_pos rfl]
      rfl
  | exit1 i' l hor => rcases hor with rfl | ⟨rfl, -⟩ <;> cases hl
  | exit2 i' l hor => rcases hor with rfl | ⟨rfl, -⟩ <;> cases hl
  | get1 | get2 | receive | remove => cases hl

/-- Who receives is past its `msgrcv`. -/
theorem Move.of_receiver {j : Fin m} (hm : Move c s l s') (hl : l.receiver = some j) :
    (s.p2 j).rank = 2 ∧ (s'.p2 j).rank ≤ 1 := by
  cases hm with
  | receive j' id msg queues buffer hp hrcv hbuffer =>
      obtain rfl : j' = j := Option.some.inj hl
      refine ⟨by rw [hp]; rfl, ?_⟩
      show ((s.at2 j' _).p2 j').rank ≤ 1
      rw [at2_p2, if_pos rfl]
      split_ifs
      · exact Nat.le_refl 1
      · exact Nat.zero_le 1
  | exit1 i' l hor => rcases hor with rfl | ⟨rfl, -⟩ <;> cases hl
  | exit2 i' l hor => rcases hor with rfl | ⟨rfl, -⟩ <;> cases hl
  | get1 | get2 | send | remove => cases hl

/-- Nobody sends twice, and who has sent has exited. -/
theorem Reaches.senders (h : Reaches c tr s) : (tr.filterMap Label.sender).Nodup ∧
    ∀ i ∈ tr.filterMap Label.sender, (s.p1 i).rank = 0 := by
  refine h.once (P := fun i s => (s.p1 i).rank = 0) ?_ ?_
  · intro t l u i hstep hi
    have hle := (step_move hstep).rank1_le i
    omega
  · intro t l u i hstep hl
    obtain ⟨hbefore, hafter⟩ := (step_move hstep).of_sender hl
    exact ⟨by omega, hafter⟩

/-- Nobody receives twice. -/
theorem Reaches.receivers (h : Reaches c tr s) : (tr.filterMap Label.receiver).Nodup ∧
    ∀ j ∈ tr.filterMap Label.receiver, (s.p2 j).rank ≤ 1 := by
  refine h.once (P := fun j s => (s.p2 j).rank ≤ 1) ?_ ?_
  · intro t l u j hstep hj
    exact ((step_move hstep).rank2_le j).trans hj
  · intro t l u j hstep hl
    obtain ⟨hbefore, hafter⟩ := (step_move hstep).of_receiver hl
    exact ⟨by omega, hafter⟩

/-- The messages sent to a queue are the payloads of their senders. -/
theorem under_sent (c : Setup n m) (tr : List (Label n m)) (id : ℕ) :
    under id (tr.filterMap (Label.sentMessage c)) =
      ((tr.filterMap (Label.senderTo id)).map c.payload).map message := by
  rw [under, List.filterMap_filterMap, List.map_map, List.map_filterMap]
  congr 1
  ext1 l
  cases l with
  | sent i id' =>
      show (if id' = id then some _ else none) = (if id' = id then some i else none).map _
      split_ifs <;> rfl
  | quiet | received | removed | killed => rfl

/-- The messages received from a queue are in the buffers of the receivers. -/
theorem under_received (tr : List (Label n m)) (id : ℕ) :
    under id (tr.filterMap Label.receivedMessage) =
      (tr.filterMap (Label.receivedFrom id)).map message := by
  rw [under, List.filterMap_filterMap, List.map_filterMap]
  congr 1
  ext1 l
  cases l with
  | received j id' buffer =>
      show (if id' = id then some _ else none) = (if id' = id then some buffer else none).map _
      split_ifs <;> rfl
  | quiet | sent | removed | killed => rfl

/-- What was received from a queue are the payloads of the first senders to it. -/
theorem Reaches.received_eq (h : Reaches c tr s) (id : ℕ) :
    tr.filterMap (Label.receivedFrom id) = ((tr.filterMap (Label.senderTo id)).take
      (tr.filterMap (Label.receivedFrom id)).length).map c.payload := by
  have hpre := h.inv.account.prefix_under id
  rw [under_sent, under_received, List.prefix_iff_eq_take, List.length_map] at hpre
  apply List.map_injective_iff.mpr message_injective
  rw [List.map_take, List.map_take]
  exact hpre

/-- The senders to one queue are among the senders. -/
theorem senderTo_sublist (tr : List (Label n m)) (id : ℕ) :
    (tr.filterMap (Label.senderTo id)).Sublist (tr.filterMap Label.sender) := by
  induction tr with
  | nil => exact List.Sublist.slnil
  | cons l tr ih =>
      cases l with
      | sent i id' =>
          rw [List.filterMap_cons_some (f := Label.sender) rfl]
          by_cases hid : id' = id
          · have hsender : (Label.sent (m := m) i id').senderTo id = some i := if_pos hid
            rw [List.filterMap_cons_some hsender]
            exact ih.cons_cons i
          · have hother : (Label.sent (m := m) i id').senderTo id = none := if_neg hid
            rw [List.filterMap_cons_none hother]
            exact ih.cons i
      | quiet | received | removed | killed => exact ih

/-- "end" received is the argument of one of the first senders. -/
theorem Reaches.exists_sendsEnd (h : Reaches c tr s) (hend : EndReceived id tr) :
    ∃ i ∈ (tr.filterMap (Label.senderTo id)).take (tr.filterMap (Label.receivedFrom id)).length,
      c.SendsEnd i := by
  obtain ⟨buffer, hmem, hstr⟩ := hend
  rw [h.received_eq id] at hmem
  obtain ⟨i, hi, rfl⟩ := List.mem_map.mp hmem
  refine ⟨i, hi, ?_⟩
  have haccept := h.inv.accepted i ((senderTo_sublist tr id).subset (List.mem_of_mem_take hi))
  rw [Setup.SendsEnd, ← str_payload haccept, hstr]

end Runs

end QueuePrograms
