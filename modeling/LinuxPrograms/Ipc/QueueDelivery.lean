import LinuxPrograms.Ipc.QueuePrograms
import Mathlib.Algebra.BigOperators.Fin
import Mathlib.Algebra.Order.BigOperators.Group.Finset

/-!
# What the message queue delivers

The runs of the senders and receivers of `QueuePrograms`.

- `delivered`: what the receivers get from each queue, and when a message is lost.
- `completes`: without "end" every message reaches a receiver, as far as there are receivers.
-/

namespace QueuePrograms

open CString Ipc LabelledSystem SysVMsg
open SysVSem (Outcome)

variable {n m : ℕ} {c : Setup n m} {s s' : State n m} {l : Label n m} {tr : List (Label n m)}

/-! ## In order, and lost only behind "end" -/

/-- In every run, whoever is killed, nobody sends or receives twice; what was received from a queue
are, in their order, the payloads of the first senders to it; the messages of the others are still
in the queue, unless it was removed, and then one of those received was "end". -/
theorem delivered (h : Reaches c tr s) :
    (tr.filterMap Label.sender).Nodup ∧ (tr.filterMap Label.receiver).Nodup ∧
    ∀ id, ∃ k,
      tr.filterMap (Label.receivedFrom id) =
        ((tr.filterMap (Label.senderTo id)).take k).map c.payload ∧
      (s.queues.removed ≤ id → (s.queues.queueAt id).getD [] =
        ((tr.filterMap (Label.senderTo id)).drop k).map fun i => message (c.payload i)) ∧
      (id < s.queues.removed → ∃ i ∈ (tr.filterMap (Label.senderTo id)).take k, c.SendsEnd i) := by
  refine ⟨h.senders.1, h.receivers.1, fun id => ⟨_, h.received_eq id, fun hid => ?_, fun hid =>
    h.exists_sendsEnd (h.inv.gone id hid)⟩⟩
  have haccount := h.inv.account
  rcases Nat.lt_or_eq_of_le hid with hlt | rfl
  · -- Nothing was ever sent to a queue that was not made.
    have hnone := (haccount.future id hlt).1
    rw [under_sent, List.map_eq_nil_iff, List.map_eq_nil_iff] at hnone
    rw [hnone, Queues.queueAt, if_neg (Nat.ne_of_gt hlt), List.drop_nil]
    rfl
  · have hpresent := haccount.present
    rw [under_sent, under_received] at hpresent
    have hdrop := congrArg
      (List.drop (tr.filterMap (Label.receivedFrom s.queues.removed)).length) hpresent
    rw [List.drop_left' (List.length_map _), ← List.map_drop, ← List.map_drop,
      List.map_map] at hdrop
    rw [Queues.queueAt, if_pos rfl]
    exact hdrop.symm

/-- Two senders, of "end" and of "hi", and one receiver. -/
def endAndHi : Setup 2 1 where
  args i := if i.val = 0 then some (text "end") else some (text "hi")
  buffer1 _ := ⟨0, .zero 20⟩
  buffer2 _ := ⟨0, .zero 20⟩
  room := 819

/-- "hi" is sent behind "end" and goes with the queue. -/
theorem delivered_end :
    ∃ tr s, Reaches endAndHi tr s ∧ s.queues.removed = 1 ∧
      tr.filterMap (Label.senderTo 0) = [0, 1] ∧
      (tr.filterMap Label.sender).Nodup ∧
      ∃ k, tr.filterMap (Label.receivedFrom 0) =
          ((tr.filterMap (Label.senderTo 0)).take k).map endAndHi.payload ∧
        ∃ i ∈ (tr.filterMap (Label.senderTo 0)).take k, endAndHi.SendsEnd i := by
  have hrun := run_play (step endAndHi) init [.p1 0, .p1 1, .p2 0, .p1 0, .p2 0, .p1 1, .p2 0]
  obtain ⟨hnodup, -, hid⟩ := delivered hrun
  obtain ⟨k, hreceived, -, hend⟩ := hid 0
  exact ⟨_, _, hrun, by decide, by decide, hnodup, k, hreceived, hend (by decide)⟩

/-! ## Runs without "end" -/

/-- An identifier that was returned stays one. -/
theorem Move.made (hm : Move c s l s') {id : ℕ} (h : s.queues.Made id) : s'.queues.Made id := by
  cases hm with
  | exit1 | exit2 => exact h
  | get1 | get2 => exact h.msgget
  | send i id' msg queues hp hsnd => exact h.msgsnd hsnd
  | receive j id' msg queues buffer hp hrcv => exact h.msgrcv hrcv
  | remove j id' queues hp hrm => exact h.rmid hrm

/-- Processes send to and wait for queues that were made. -/
structure Known (s : State n m) : Prop where
  ready : ∀ i id msg, s.p1 i = .ready id msg → s.queues.Made id
  waiting : ∀ j id, s.p2 j = .waiting id → s.queues.Made id

theorem Known.init : Known (init : State n m) where
  ready _ _ _ h := by cases h
  waiting _ _ h := by cases h

theorem Known.step (h : Known s) (hm : Move c s l s') : Known s' := by
  have hready : ∀ i id msg, s.p1 i = .ready id msg → s'.queues.Made id :=
    fun i id msg hp => hm.made (h.ready i id msg hp)
  have hwaiting : ∀ j id, s.p2 j = .waiting id → s'.queues.Made id :=
    fun j id hp => hm.made (h.waiting j id hp)
  cases hm with
  | exit1 i l hl =>
      refine ⟨fun i' id msg hp' => ?_, hwaiting⟩
      rw [at1_p1] at hp'
      split_ifs at hp'
      exact hready i' id msg hp'
  | get1 i hp haccept =>
      refine ⟨fun i' id msg hp' => ?_, hwaiting⟩
      rw [show _ = _ from at1_p1] at hp'
      split_ifs at hp'
      · obtain ⟨rfl, -⟩ := P1.ready.inj hp'
        exact made_msgget s.queues
      · exact hready i' id msg hp'
  | send i id' msg' queues hp hsnd =>
      refine ⟨fun i' id msg hp' => ?_, hwaiting⟩
      rw [show _ = _ from at1_p1] at hp'
      split_ifs at hp'
      exact hready i' id msg hp'
  | exit2 j l hl =>
      refine ⟨hready, fun j' id hp' => ?_⟩
      rw [at2_p2] at hp'
      split_ifs at hp'
      exact hwaiting j' id hp'
  | get2 j hp =>
      refine ⟨hready, fun j' id hp' => ?_⟩
      rw [show _ = _ from at2_p2] at hp'
      split_ifs at hp'
      · obtain rfl := P2.waiting.inj hp'
        exact made_msgget s.queues
      · exact hwaiting j' id hp'
  | receive j id' msg queues buffer hp hrcv hbuffer =>
      refine ⟨hready, fun j' id hp' => ?_⟩
      rw [show _ = _ from at2_p2] at hp'
      split_ifs at hp'
      exact hwaiting j' id hp'
  | remove j id' queues hp hrm =>
      refine ⟨hready, fun j' id hp' => ?_⟩
      rw [show _ = _ from at2_p2] at hp'
      split_ifs at hp'
      exact hwaiting j' id hp'

theorem Reaches.known (h : Reaches c tr s) : Known s :=
  h.history (P := fun _ s => Known s) .init fun _ _ _ _ _ ih hstep => ih.step (step_move hstep)

section NoEnd

variable (hend : ∀ i, ¬ c.SendsEnd i)
include hend

/-- Then no queue is removed, and nobody goes to remove one. -/
theorem Reaches.removed_eq_zero (h : Reaches c tr s) : s.queues.removed = 0 := by
  by_contra hne
  obtain ⟨i, -, hi⟩ := h.exists_sendsEnd (h.inv.gone 0 (Nat.pos_of_ne_zero hne))
  exact hend i hi

theorem Reaches.not_removing (h : Reaches c tr s) (j : Fin m) (id : ℕ) :
    s.p2 j ≠ .removing id := by
  intro hp
  obtain ⟨i, -, hi⟩ := h.exists_sendsEnd (h.inv.removing j id hp)
  exact hend i hi

/-- Unless it is killed, a sender whose argument passes exits behind its message, and a receiver
behind what it received. -/
structure Calm (c : Setup n m) (tr : List (Label n m)) (s : State n m) : Prop where
  sent : ∀ i, s.p1 i = .exited → c.Accepts i → i ∈ tr.filterMap Label.sender
  received : ∀ j, s.p2 j = .exited → j ∈ tr.filterMap Label.receiver

omit hend in
theorem Calm.init (c : Setup n m) : Calm c [] init where
  sent _ h := by cases h
  received _ h := by cases h

theorem Calm.step (h : Calm c tr s) (hreach : Reaches c tr s) (hm : Move c s l s')
    (hl : l ≠ .killed) : Calm c (tr ++ [l]) s' := by
  have hremoved := hreach.removed_eq_zero hend
  -- Who has sent or received stays among those who have.
  have hsent : ∀ i, i ∈ tr.filterMap Label.sender → i ∈ (tr ++ [l]).filterMap Label.sender := by
    intro i hi
    rw [List.filterMap_append]
    exact List.mem_append_left _ hi
  have hreceived : ∀ j, j ∈ tr.filterMap Label.receiver →
      j ∈ (tr ++ [l]).filterMap Label.receiver := by
    intro j hj
    rw [List.filterMap_append]
    exact List.mem_append_left _ hj
  cases hm with
  | exit1 i l hor =>
      refine ⟨fun i' hp' haccept => ?_, fun j hp => hreceived j (h.received j hp)⟩
      rw [at1_p1] at hp'
      split_ifs at hp' with hi
      · rcases hor with rfl | ⟨-, ⟨-, hnot⟩ | ⟨id, msg, hready, hnone⟩⟩
        · exact absurd rfl hl
        · exact absurd (hi ▸ haccept) hnot
        · -- The queue it got is still there.
          have hqueue := ((hreach.known.ready i id msg hready).queueAt hremoved).2
          rw [hnone] at hqueue
          cases hqueue
      · exact hsent i' (h.sent i' hp' haccept)
  | get1 i hp haccept =>
      refine ⟨fun i' hp' haccept' => ?_, fun j hp => hreceived j (h.received j hp)⟩
      rw [show _ = _ from at1_p1] at hp'
      split_ifs at hp'
      exact hsent i' (h.sent i' hp' haccept')
  | send i id msg queues hp hsnd =>
      refine ⟨fun i' hp' haccept => ?_, fun j hp => hreceived j (h.received j hp)⟩
      rw [show _ = _ from at1_p1] at hp'
      split_ifs at hp' with hi
      · rw [filterMap_snoc_of_some (f := Label.sender) tr rfl, hi]
        exact List.mem_append_right _ List.mem_cons_self
      · exact hsent i' (h.sent i' hp' haccept)
  | exit2 j l hor =>
      refine ⟨fun i hp haccept => hsent i (h.sent i hp haccept), fun j' hp' => ?_⟩
      rw [at2_p2] at hp'
      split_ifs at hp' with hj
      · rcases hor with rfl | ⟨-, id, hnone, hwaiting | hremoving⟩
        · exact absurd rfl hl
        · have hqueue := ((hreach.known.waiting j id hwaiting).queueAt hremoved).2
          rw [hnone] at hqueue
          cases hqueue
        · exact absurd hremoving (hreach.not_removing hend j id)
      · exact hreceived j' (h.received j' hp')
  | get2 j hp =>
      refine ⟨fun i hp haccept => hsent i (h.sent i hp haccept), fun j' hp' => ?_⟩
      rw [show _ = _ from at2_p2] at hp'
      split_ifs at hp'
      exact hreceived j' (h.received j' hp')
  | receive j id msg queues buffer hp hrcv hbuffer =>
      refine ⟨fun i hp haccept => hsent i (h.sent i hp haccept), fun j' hp' => ?_⟩
      rw [show _ = _ from at2_p2] at hp'
      split_ifs at hp' with hj
      · rw [filterMap_snoc_of_some (f := Label.receiver) tr rfl, hj]
        exact List.mem_append_right _ List.mem_cons_self
      · exact hreceived j' (h.received j' hp')
  | remove j id queues hp hrm => exact absurd hp (hreach.not_removing hend j id)

theorem Reaches.calm (h : Reaches c tr s) (hno : ∀ l ∈ tr, l ≠ .killed) : Calm c tr s := by
  refine h.history (P := fun tr s => (∀ l ∈ tr, l ≠ .killed) → Calm c tr s)
    (fun _ => .init c) ?_ hno
  intro tr t l u hreach ih hstep hno'
  rw [List.forall_mem_append, List.forall_mem_singleton] at hno'
  exact (ih hno'.1).step hend hreach (step_move hstep) hno'.2

end NoEnd

/-- Where no process can make a call, senders have exited or find the queue full, and receivers have
exited or find it empty. -/
theorem p1_of_stuck {i : Fin n} (h : p1Step c s i = none) :
    s.p1 i = .exited ∨ ∃ id msg, s.p1 i = .ready id msg ∧
      msgsnd s.queues c.room id msg = .blocks := by
  unfold p1Step at h
  cases hp : s.p1 i with
  | start =>
      simp only [hp] at h
      split at h <;> cases h
  | ready id msg =>
      simp only [hp] at h
      cases hsnd : msgsnd s.queues c.room id msg with
      | returns queues => simp [hsnd] at h
      | fails => simp [hsnd] at h
      | blocks => exact .inr ⟨id, msg, rfl, hsnd⟩
  | exited => exact .inl rfl

theorem p2_of_stuck {j : Fin m} (h : p2Step c s j = none) :
    s.p2 j = .exited ∨ ∃ id, s.p2 j = .waiting id ∧ msgrcv s.queues id = .blocks := by
  unfold p2Step at h
  cases hp : s.p2 j with
  | start => simp [hp] at h
  | waiting id =>
      simp only [hp] at h
      cases hrcv : msgrcv s.queues id with
      | returns r => simp [hrcv, queueP2] at h
      | fails => simp [hrcv] at h
      | blocks => exact .inr ⟨id, rfl, hrcv⟩
  | removing id =>
      simp only [hp] at h
      split at h <;> cases h
  | exited => exact .inl rfl

/-! ## Runs are bounded -/

/-- How many calls the processes still make at most. -/
def State.total (s : State n m) : ℕ := ∑ i, (s.p1 i).rank + ∑ j, (s.p2 j).rank

theorem total_init : (init : State n m).total = 2 * n + 3 * m := by
  simp [State.total, init, P1.rank, P2.rank, Nat.mul_comm]

/-- A step by which nobody is killed brings a process forward. -/
theorem Move.rank_lt (hm : Move c s l s') (hl : l ≠ .killed) :
    (∃ i, (s'.p1 i).rank < (s.p1 i).rank) ∨ ∃ j, (s'.p2 j).rank < (s.p2 j).rank := by
  cases hm with
  | exit1 i l hor =>
      refine .inl ⟨i, ?_⟩
      rw [at1_p1, if_pos rfl]
      rcases hor with rfl | ⟨-, ⟨hp, -⟩ | ⟨id, msg, hp, -⟩⟩
      · exact absurd rfl hl
      · rw [hp]
        exact Nat.zero_lt_two
      · rw [hp]
        exact Nat.one_pos
  | get1 i hp haccept =>
      refine .inl ⟨i, ?_⟩
      show ((s.at1 i _).p1 i).rank < _
      rw [at1_p1, if_pos rfl, hp]
      exact Nat.lt_succ_self 1
  | send i id msg queues hp hsnd =>
      refine .inl ⟨i, ?_⟩
      show ((s.at1 i _).p1 i).rank < _
      rw [at1_p1, if_pos rfl, hp]
      exact Nat.one_pos
  | exit2 j l hor =>
      refine .inr ⟨j, ?_⟩
      rw [at2_p2, if_pos rfl]
      rcases hor with rfl | ⟨-, id, -, hp | hp⟩
      · exact absurd rfl hl
      · rw [hp]
        exact Nat.zero_lt_two
      · rw [hp]
        exact Nat.one_pos
  | get2 j hp =>
      refine .inr ⟨j, ?_⟩
      show ((s.at2 j _).p2 j).rank < _
      rw [at2_p2, if_pos rfl, hp]
      exact Nat.lt_succ_self 2
  | receive j id msg queues buffer hp hrcv hbuffer =>
      refine .inr ⟨j, ?_⟩
      show ((s.at2 j _).p2 j).rank < _
      rw [at2_p2, if_pos rfl, hp]
      split_ifs
      · exact Nat.lt_succ_self 1
      · exact Nat.zero_lt_two
  | remove j id queues hp hrm =>
      refine .inr ⟨j, ?_⟩
      show ((s.at2 j _).p2 j).rank < _
      rw [at2_p2, if_pos rfl, hp]
      exact Nat.one_pos

theorem Move.total_lt (hm : Move c s l s') (hl : l ≠ .killed) : s'.total < s.total := by
  have h1 : ∑ i, (s'.p1 i).rank ≤ ∑ i, (s.p1 i).rank :=
    Finset.sum_le_sum fun i _ => hm.rank1_le i
  have h2 : ∑ j, (s'.p2 j).rank ≤ ∑ j, (s.p2 j).rank :=
    Finset.sum_le_sum fun j _ => hm.rank2_le j
  unfold State.total
  rcases hm.rank_lt hl with ⟨i, hi⟩ | ⟨j, hj⟩
  · have hlt := Finset.sum_lt_sum (fun i _ => hm.rank1_le i) ⟨i, Finset.mem_univ i, hi⟩
    omega
  · have hlt := Finset.sum_lt_sum (fun j _ => hm.rank2_le j) ⟨j, Finset.mem_univ j, hj⟩
    omega

theorem Reaches.length_le (h : Reaches c tr s) (hno : ∀ l ∈ tr, l ≠ .killed) :
    tr.length ≤ 2 * n + 3 * m := by
  have hle : tr.length + s.total ≤ 2 * n + 3 * m := by
    refine h.history (P := fun tr s => (∀ l ∈ tr, l ≠ .killed) →
      tr.length + s.total ≤ 2 * n + 3 * m) (fun _ => ?_) ?_ hno
    · rw [List.length_nil, Nat.zero_add, total_init]
    · intro tr t l u _ ih hstep hno'
      rw [List.forall_mem_append, List.forall_mem_singleton] at hno'
      have hlt := (step_move hstep).total_lt hno'.2
      have hold := ih hno'.1
      rw [List.length_append, List.length_singleton]
      omega
  omega

/-! ## Every message finds a receiver -/

/-- A message is shown with its sender and with its receiver. -/
theorem length_sentMessage (c : Setup n m) (tr : List (Label n m)) :
    (tr.filterMap (Label.sentMessage c)).length = (tr.filterMap Label.sender).length := by
  rw [List.length_filterMap_eq_countP, List.length_filterMap_eq_countP]
  refine List.countP_congr fun l _ => ?_
  cases l <;> exact Iff.rfl

theorem length_receivedMessage (tr : List (Label n m)) :
    (tr.filterMap Label.receivedMessage).length = (tr.filterMap Label.receiver).length := by
  rw [List.length_filterMap_eq_countP, List.length_filterMap_eq_countP]
  refine List.countP_congr fun l _ => ?_
  cases l <;> exact Iff.rfl

/-- Where no queue was removed, all messages received came from the first. -/
theorem Reaches.length_receivedFrom (h : Reaches c tr s) (hremoved : s.queues.removed = 0) :
    (tr.filterMap (Label.receivedFrom 0)).length = (tr.filterMap Label.receiver).length := by
  have hunder := congrArg List.length (under_received tr 0)
  rw [List.length_map, length_under fun e he => ?_, length_receivedMessage] at hunder
  · exact hunder.symm
  · have hle := h.inv.account.fst_le.2 e he
    omega

/-- Where no process can make a call, as many messages have been received as there are receivers
and senders whose argument passes. -/
theorem Reaches.length_receivers (h : Reaches c tr s) (hroom : 0 < c.room)
    (hend : ∀ i, ¬ c.SendsEnd i) (hno : ∀ l ∈ tr, l ≠ .killed) (h1 : ∀ i, p1Step c s i = none)
    (h2 : ∀ j, p2Step c s j = none) :
    (tr.filterMap Label.receiver).length = min (Finset.univ.filter c.Accepts).card m := by
  have hcalm := h.calm hend hno
  have hcount := h.inv.account.length_sent (h.removed_eq_zero hend)
  rw [length_sentMessage, length_receivedMessage] at hcount
  -- At most the accepted senders have sent, and at most the receivers received.
  have hsenders : (tr.filterMap Label.sender).length ≤ (Finset.univ.filter c.Accepts).card := by
    rw [← List.toFinset_card_of_nodup h.senders.1]
    refine Finset.card_le_card fun i hi => ?_
    rw [Finset.mem_filter]
    exact ⟨Finset.mem_univ i, h.inv.accepted i (List.mem_toFinset.mp hi)⟩
  have hreceivers : (tr.filterMap Label.receiver).length ≤ m := by
    have hle := h.receivers.1.length_le_card
    rwa [Fintype.card_fin] at hle
  by_cases hall : ∀ j, s.p2 j = .exited
  · -- Every receiver has got a message.
    have hfull : m ≤ (tr.filterMap Label.receiver).length := by
      have hle := Finset.card_le_card (s := Finset.univ)
        (t := (tr.filterMap (Label.receiver (n := n) (m := m))).toFinset) fun j _ =>
          List.mem_toFinset.mpr (hcalm.received j (hall j))
      rwa [Finset.card_univ, Fintype.card_fin, List.toFinset_card_of_nodup h.receivers.1] at hle
    omega
  · -- One waits, so the queue is empty and no sender waits for room.
    rw [not_forall] at hall
    obtain ⟨j, hj⟩ := hall
    obtain ⟨id, -, hblocks⟩ := (p2_of_stuck (h2 j)).resolve_left hj
    have hempty := (msgrcv_blocks hblocks).2
    have hexited : ∀ i, s.p1 i = .exited := by
      intro i
      refine (p1_of_stuck (h1 i)).resolve_right ?_
      rintro ⟨id', msg, -, hfull⟩
      have hle := msgsnd_blocks hfull
      rw [hempty, List.length_nil] at hle
      omega
    have hsent : (Finset.univ.filter c.Accepts).card ≤ (tr.filterMap Label.sender).length := by
      rw [← List.toFinset_card_of_nodup h.senders.1]
      refine Finset.card_le_card fun i hi => ?_
      rw [List.mem_toFinset]
      exact hcalm.sent i (hexited i) (Finset.mem_filter.mp hi).2
    rw [hempty, List.length_nil] at hcount
    omega

/-- Without "end" among the arguments, and unless processes are killed: the processes come to rest,
and where no one can make a call, as many messages have been received as there are receivers and
senders whose argument passes: those of the first senders, each once and in the order sent. -/
theorem completes (hroom : 0 < c.room) (hend : ∀ i, ¬ c.SendsEnd i) :
    (∀ tr s, Reaches c tr s → (∀ l ∈ tr, l ≠ .killed) → tr.length ≤ 2 * n + 3 * m) ∧
    ∀ tr s, Reaches c tr s → (∀ l ∈ tr, l ≠ .killed) → (∀ i, p1Step c s i = none) →
      (∀ j, p2Step c s j = none) →
      (tr.filterMap Label.receiver).length = min (Finset.univ.filter c.Accepts).card m ∧
      ∃ senders : List (Fin n), senders <+: tr.filterMap (Label.senderTo 0) ∧ senders.Nodup ∧
        (∀ i ∈ senders, c.Accepts i) ∧
        senders.length = min (Finset.univ.filter c.Accepts).card m ∧
        tr.filterMap (Label.receivedFrom 0) = senders.map c.payload := by
  refine ⟨fun tr s h hno => h.length_le hno, fun tr s h hno h1 h2 => ?_⟩
  have heq := h.received_eq 0
  have hlen := h.length_receivers hroom hend hno h1 h2
  refine ⟨hlen, _, List.take_prefix _ _, ?_, fun i hi => ?_, ?_, heq⟩
  · exact (h.senders.1.sublist (senderTo_sublist tr 0)).sublist (List.take_sublist _ _)
  · exact h.inv.accepted i ((senderTo_sublist tr 0).subset (List.mem_of_mem_take hi))
  · have hmap := congrArg List.length heq
    rw [List.length_map] at hmap
    rw [← hmap, h.length_receivedFrom (h.removed_eq_zero hend), hlen]

/-- Two senders and three receivers. -/
def twoAndThree : Setup 2 3 where
  args i := if i.val = 0 then some (text "hello") else some (text "hi")
  buffer1 _ := ⟨0, .zero 20⟩
  buffer2 _ := ⟨0, .zero 20⟩
  room := 819

/-- The second sender is the first to send, and one receiver waits in the end. -/
theorem completes_two :
    ∃ tr s, Reaches twoAndThree tr s ∧ tr.filterMap (Label.senderTo 0) = [1, 0] ∧
      ∃ senders : List (Fin 2), senders <+: tr.filterMap (Label.senderTo 0) ∧ senders.length = 2 ∧
        tr.filterMap (Label.receivedFrom 0) = senders.map twoAndThree.payload := by
  have hrun := run_play (step twoAndThree) init
    [.p1 0, .p1 1, .p2 0, .p2 1, .p2 2, .p1 1, .p1 0, .p2 2, .p2 0]
  obtain ⟨-, senders, hprefix, -, -, hlen, hreceived⟩ := (completes (c := twoAndThree) (by decide)
    (by decide)).2 _ _ hrun (by decide) (by decide) (by decide)
  refine ⟨_, _, hrun, by decide, senders, hprefix, ?_, hreceived⟩
  rw [hlen]
  decide

end QueuePrograms
