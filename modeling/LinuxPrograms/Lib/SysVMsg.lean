import LinuxPrograms.Lib.SysVSem
import Mathlib.Data.List.Basic
import Mathlib.Tactic.ByContra

/-!
# System V message queues

The message queues of one key: `msgget` with `IPC_CREAT`, `msgsnd`, `msgrcv` of the first message,
and `msgctl` with `IPC_RMID`. A queue that is removed never comes back; the next `msgget` makes one
with another identifier.

- `Accounted`: what was sent to each queue and what was received from it.
- `Accounted.msgsnd`, `Accounted.msgrcv`, `Accounted.rmid`: each call keeps the account.
- `Accounted.prefix_under`: what was received from a queue is the first of what was sent to it.
-/

namespace SysVMsg

open SysVSem (Outcome)

variable {M : Type*}

/-- The queues of one key. Their identifiers count up, and those below `removed` are gone. -/
structure Queues (M : Type*) where
  removed : ℕ
  /-- The queue present, under the identifier `removed`. -/
  queue : Option (List M)

/-- No queue was made yet. -/
def Queues.init : Queues M := ⟨0, none⟩

/-- The messages in the queue present. -/
def Queues.messages (k : Queues M) : List M := k.queue.getD []

/-- The queue under an identifier. -/
def Queues.queueAt (k : Queues M) (id : ℕ) : Option (List M) :=
  if id = k.removed then k.queue else none

/-- The identifier is one that `msgget` has returned. -/
def Queues.Made (k : Queues M) (id : ℕ) : Prop :=
  id ≤ k.removed ∧ (id = k.removed → k.queue.isSome)

section Calls

variable (k : Queues M)

/-- `msgget(key, IPC_CREAT|..)`, with the identifier it returns. -/
def msgget : Queues M × ℕ := ({ k with queue := some k.messages }, k.removed)

/-- `msgsnd(id, &m, size, 0)`, on a queue with room for `room` messages. -/
def msgsnd (room id : ℕ) (m : M) : Outcome (Queues M) :=
  match k.queueAt id with
  | none => .fails
  | some ms => if ms.length < room then .returns { k with queue := some (ms ++ [m]) } else .blocks

/-- `msgrcv(id, &m, size, 0, 0)`. -/
def msgrcv (id : ℕ) : Outcome (M × Queues M) :=
  match k.queueAt id with
  | none => .fails
  | some [] => .blocks
  | some (m :: ms) => .returns (m, { k with queue := some ms })

/-- `msgctl(id, IPC_RMID, 0)`. -/
def rmid (id : ℕ) : Option (Queues M) := (k.queueAt id).map fun _ => ⟨k.removed + 1, none⟩

end Calls

/-- Of a log of messages, each with the identifier of its queue, those of one queue. -/
def under (id : ℕ) (log : List (ℕ × M)) : List M :=
  log.filterMap fun e => if e.1 = id then some e.2 else none

section Accounts

variable {k k' : Queues M} {sent got : List (ℕ × M)} {room id : ℕ} {m : M} {ms : List M}

@[simp]
theorem under_nil (id : ℕ) : under id ([] : List (ℕ × M)) = [] := rfl

theorem under_snoc (id : ℕ) (log : List (ℕ × M)) (e : ℕ × M) :
    under id (log ++ [e]) = if e.1 = id then under id log ++ [e.2] else under id log := by
  unfold under
  rw [List.filterMap_append]
  split_ifs with h <;> simp [h]

theorem under_snoc_self (log : List (ℕ × M)) (id : ℕ) (m : M) :
    under id (log ++ [(id, m)]) = under id log ++ [m] := by
  rw [under_snoc, if_pos rfl]

theorem under_snoc_of_ne {id id' : ℕ} (log : List (ℕ × M)) (m : M) (h : id ≠ id') :
    under id' (log ++ [(id, m)]) = under id' log := by
  rw [under_snoc, if_neg h]

theorem mem_under {log : List (ℕ × M)} {e : ℕ × M} (he : e ∈ log) : e.2 ∈ under e.1 log :=
  List.mem_filterMap.mpr ⟨e, he, if_pos rfl⟩

theorem length_under {log : List (ℕ × M)} (h : ∀ e ∈ log, e.1 = id) :
    (under id log).length = log.length := by
  have heq : under id log = log.map Prod.snd := by
    rw [under, ← List.filterMap_eq_map]
    exact List.filterMap_congr fun e he => if_pos (h e he)
  rw [heq, List.length_map]

/-- Under its identifier the queue present is found. -/
theorem queueAt_eq_some (h : k.queueAt id = some ms) : id = k.removed ∧ k.queue = some ms := by
  unfold Queues.queueAt at h
  split_ifs at h with hid
  exact ⟨hid, h⟩

theorem messages_eq (h : k.queue = some ms) : k.messages = ms := by
  rw [Queues.messages, h]
  rfl

/-- A message that `msgsnd` enqueues goes behind those of the queue present. -/
theorem msgsnd_returns (h : msgsnd k room id m = .returns k') :
    id = k.removed ∧ k.messages.length < room ∧
      k' = { k with queue := some (k.messages ++ [m]) } := by
  unfold msgsnd at h
  cases hq : k.queueAt id with
  | none => simp [hq] at h
  | some ms =>
      obtain ⟨hid, hqueue⟩ := queueAt_eq_some hq
      simp only [hq] at h
      split_ifs at h with hroom
      obtain rfl := SysVSem.Outcome.returns.inj h
      rw [messages_eq hqueue]
      exact ⟨hid, hroom, rfl⟩

/-- A message that `msgrcv` returns was the first of the queue present. -/
theorem msgrcv_returns (h : msgrcv k id = .returns (m, k')) :
    id = k.removed ∧ ∃ ms, k.messages = m :: ms ∧ k' = { k with queue := some ms } := by
  unfold msgrcv at h
  cases hq : k.queueAt id with
  | none => simp [hq] at h
  | some ms =>
      obtain ⟨hid, hqueue⟩ := queueAt_eq_some hq
      cases ms with
      | nil => simp [hq] at h
      | cons m' ms =>
          simp only [hq, Outcome.returns.injEq, Prod.mk.injEq] at h
          obtain ⟨rfl, rfl⟩ := h
          exact ⟨hid, ms, messages_eq hqueue, rfl⟩

/-- Calls on a queue that is there do not fail. -/
theorem msgsnd_fails (h : msgsnd k room id m = .fails) : k.queueAt id = none := by
  unfold msgsnd at h
  cases hq : k.queueAt id with
  | none => rfl
  | some ms =>
      simp only [hq] at h
      split_ifs at h

theorem msgrcv_fails (h : msgrcv k id = .fails) : k.queueAt id = none := by
  unfold msgrcv at h
  cases hq : k.queueAt id with
  | none => rfl
  | some ms => cases ms <;> simp [hq] at h

/-- `msgsnd` waits only for room, and `msgrcv` only for a message. -/
theorem msgsnd_blocks (h : msgsnd k room id m = .blocks) : room ≤ k.messages.length := by
  unfold msgsnd at h
  cases hq : k.queueAt id with
  | none => simp [hq] at h
  | some ms =>
      simp only [hq] at h
      split_ifs at h with hroom
      rw [messages_eq (queueAt_eq_some hq).2]
      exact Nat.le_of_not_lt hroom

theorem msgrcv_blocks (h : msgrcv k id = .blocks) : id = k.removed ∧ k.messages = [] := by
  unfold msgrcv at h
  cases hq : k.queueAt id with
  | none => simp [hq] at h
  | some ms =>
      obtain ⟨hid, hqueue⟩ := queueAt_eq_some hq
      cases ms with
      | nil => exact ⟨hid, messages_eq hqueue⟩
      | cons m ms => simp [hq] at h

theorem rmid_eq_some (h : rmid k id = some k') : id = k.removed ∧ k' = ⟨k.removed + 1, none⟩ := by
  obtain ⟨ms, hq, rfl⟩ := Option.map_eq_some_iff.mp h
  exact ⟨(queueAt_eq_some hq).1, rfl⟩

theorem made_msgget (k : Queues M) : (msgget k).1.Made (msgget k).2 :=
  ⟨Nat.le_refl _, fun _ => rfl⟩

/-- An identifier returned once stays one. -/
theorem Queues.Made.msgget (h : k.Made id) : (msgget k).1.Made id := ⟨h.1, fun _ => rfl⟩

theorem Queues.Made.msgsnd {id' : ℕ} (h : k.Made id')
    (hsnd : SysVMsg.msgsnd k room id m = .returns k') : k'.Made id' := by
  obtain ⟨-, -, rfl⟩ := msgsnd_returns hsnd
  exact ⟨h.1, fun _ => rfl⟩

theorem Queues.Made.msgrcv {id' : ℕ} (h : k.Made id')
    (hrcv : SysVMsg.msgrcv k id = .returns (m, k')) : k'.Made id' := by
  obtain ⟨-, ms, -, rfl⟩ := msgrcv_returns hrcv
  exact ⟨h.1, fun _ => rfl⟩

theorem Queues.Made.rmid {id' : ℕ} (h : k.Made id') (hrm : SysVMsg.rmid k id = some k') :
    k'.Made id' := by
  obtain ⟨-, rfl⟩ := rmid_eq_some hrm
  exact ⟨Nat.le_succ_of_le h.1, fun heq => absurd h.1 (by simp [heq])⟩

/-- While no queue was removed, there is one under each of them. -/
theorem Queues.Made.queueAt (h : k.Made id) (hremoved : k.removed = 0) :
    id = 0 ∧ k.queueAt id = some k.messages := by
  obtain ⟨hle, hsome⟩ := h
  have hid : id = k.removed := by omega
  obtain ⟨ms, hms⟩ := Option.isSome_iff_exists.mp (hsome hid)
  refine ⟨by omega, ?_⟩
  rw [Queues.queueAt, if_pos hid, messages_eq hms, hms]

/-- What was sent and what was received, each with the identifier of its queue, account for the
queues: with the messages of the queue present, and for those that are gone up to what went with
them. -/
structure Accounted (sent got : List (ℕ × M)) (k : Queues M) : Prop where
  present : under k.removed sent = under k.removed got ++ k.messages
  gone : ∀ id < k.removed, under id got <+: under id sent
  future : ∀ id, k.removed < id → under id sent = [] ∧ under id got = []

namespace Accounted

theorem init : Accounted [] [] (Queues.init : Queues M) where
  present := rfl
  gone _ _ := List.prefix_rfl
  future _ _ := ⟨rfl, rfl⟩

theorem msgget (h : Accounted sent got k) : Accounted sent got (msgget k).1 where
  present := h.present
  gone := h.gone
  future := h.future

theorem msgsnd (h : Accounted sent got k) (hsnd : msgsnd k room id m = .returns k') :
    Accounted (sent ++ [(id, m)]) got k' := by
  obtain ⟨rfl, -, rfl⟩ := msgsnd_returns hsnd
  refine ⟨?_, fun id hid => ?_, fun id hid => ?_⟩
  · show under k.removed _ = under k.removed got ++ (k.messages ++ [m])
    rw [under_snoc_self, h.present, List.append_assoc]
  · have hid' : id < k.removed := hid
    rw [under_snoc_of_ne sent m (by omega)]
    exact h.gone id hid'
  · have hid' : k.removed < id := hid
    rw [under_snoc_of_ne sent m (by omega)]
    exact h.future id hid'

theorem msgrcv (h : Accounted sent got k) (hrcv : msgrcv k id = .returns (m, k')) :
    Accounted sent (got ++ [(id, m)]) k' := by
  obtain ⟨rfl, ms, hms, rfl⟩ := msgrcv_returns hrcv
  refine ⟨?_, fun id hid => ?_, fun id hid => ?_⟩
  · show under k.removed sent = under k.removed _ ++ ms
    rw [under_snoc_self, h.present, hms, List.append_assoc, List.singleton_append]
  · have hid' : id < k.removed := hid
    rw [under_snoc_of_ne got m (by omega)]
    exact h.gone id hid'
  · have hid' : k.removed < id := hid
    rw [under_snoc_of_ne got m (by omega)]
    exact h.future id hid'

/-- With the queue go the messages in it. -/
theorem rmid (h : Accounted sent got k) (hrm : rmid k id = some k') : Accounted sent got k' := by
  obtain ⟨rfl, rfl⟩ := rmid_eq_some hrm
  refine ⟨?_, fun id hid => ?_, fun id hid => h.future id (Nat.lt_of_succ_lt hid)⟩
  · obtain ⟨hsent, hgot⟩ := h.future (k.removed + 1) (Nat.lt_succ_self _)
    show under (k.removed + 1) sent = under (k.removed + 1) got ++ []
    rw [hsent, hgot]
    rfl
  · rcases Nat.lt_succ_iff_lt_or_eq.mp hid with hlt | rfl
    · exact h.gone id hlt
    · rw [h.present]
      exact List.prefix_append _ _

/-- What was received from a queue is the first of what was sent to it. -/
theorem prefix_under (h : Accounted sent got k) (id : ℕ) : under id got <+: under id sent := by
  rcases Nat.lt_trichotomy id k.removed with hlt | rfl | hgt
  · exact h.gone id hlt
  · rw [h.present]
    exact List.prefix_append _ _
  · rw [(h.future id hgt).2]
    exact List.nil_prefix

/-- Nothing was sent to, or received from, a queue that was not made. -/
theorem fst_le (h : Accounted sent got k) : (∀ e ∈ sent, e.1 ≤ k.removed) ∧
    ∀ e ∈ got, e.1 ≤ k.removed := by
  constructor
  · intro e he
    by_contra hlt
    have hmem := mem_under he
    rw [(h.future e.1 (Nat.lt_of_not_le hlt)).1] at hmem
    cases hmem
  · intro e he
    by_contra hlt
    have hmem := mem_under he
    rw [(h.future e.1 (Nat.lt_of_not_le hlt)).2] at hmem
    cases hmem

/-- Where no queue was removed, all that was sent was received or is in the queue. -/
theorem length_sent (h : Accounted sent got k) (hremoved : k.removed = 0) :
    sent.length = got.length + k.messages.length := by
  obtain ⟨hsent, hgot⟩ := h.fst_le
  have hpresent := congrArg List.length h.present
  rw [List.length_append, length_under fun e he => ?_, length_under fun e he => ?_] at hpresent
  · exact hpresent
  · have hle := hgot e he
    omega
  · have hle := hsent e he
    omega

end Accounted

end Accounts

end SysVMsg
