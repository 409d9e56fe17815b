import LinuxPrograms.Lib.LabelledSystem
import Mathlib.Data.List.GetD
import Mathlib.Tactic.ByContra

/-!
# A relay of messages

A sender and a receiver with a bounded FIFO between them. The sender sends one message after the
other until one of them makes it leave; the receiver acts on each message it takes until one of them
makes it end. At the end of the file the receiver takes nothing and acts on what it holds again.

- `Spec.Step`, `Spec.Reaches`: the two, in any order.
- `Inv`: what was taken and what is in the channel are the first messages, in their order.
- `length_le`, `gone_of_stuck`: with a message that ends the receiver runs are bounded, and where
  nobody can go on, both are gone.
- `Realizes`, `Realizes.stops_iff`: a system whose steps are those of a relay; its runs are bounded
  exactly if there is such a message.
-/

namespace Relay

open LabelledSystem

variable {M : Type*}

/-- The messages the sender sends; which of them make it leave and which end the receiver; what the
receiver holds at first; and how many messages the channel has room for. -/
structure Spec (M : Type*) where
  src : ℕ → M
  quits : M → Bool
  ends : M → Bool
  blank : M
  room : ℕ
  room_pos : 0 < room
  quits_ends : ∀ m, quits m = true → ends m = true
  ends_blank : ends blank = false

/-- How many messages were sent, whether the sender has left, the channel, what the receiver has
taken, how often it has acted on the last of it again, and whether it has ended. -/
structure State (M : Type*) where
  sent : ℕ
  left : Bool
  channel : List M
  got : List M
  repeats : ℕ
  ended : Bool

/-- At first. -/
def State.init : State M := ⟨0, false, [], [], 0, false⟩

/-- What a step does. -/
inductive Label (M : Type*)
  | send (m : M)
  /-- The sender leaves of itself. -/
  | leave
  /-- The sender finds the receiver gone. -/
  | brokenPipe
  | take (m : M)
  /-- At the end of the file the receiver acts on what it holds. -/
  | again (m : M)

namespace Spec

variable (r : Spec M)

/-- The first `k` messages. -/
def firsts (k : ℕ) : List M := (List.range k).map r.src

/-- What the receiver holds. -/
def held (s : State M) : M := s.got.getLastD r.blank

/-- What the receiver holds after `n` messages. -/
def heldAfter : ℕ → M
  | 0 => r.blank
  | n + 1 => r.src n

/-- All that the receiver has acted on. -/
def acted (s : State M) : List M := s.got ++ List.replicate s.repeats (r.held s)

/-- One step. -/
inductive Step : State M → Label M → State M → Prop
  | send {s : State M} (hleft : s.left = false) (hended : s.ended = false)
      (hroom : s.channel.length < r.room) :
      Step s (.send (r.src s.sent))
        { s with
          sent := s.sent + 1
          left := r.quits (r.src s.sent)
          channel := s.channel ++ [r.src s.sent] }
  | leave {s : State M} (hleft : s.left = false) : Step s .leave { s with left := true }
  | brokenPipe {s : State M} (hleft : s.left = false) (hended : s.ended = true) :
      Step s .brokenPipe { s with left := true }
  | take {s : State M} (m : M) (rest : List M) (hended : s.ended = false)
      (hchannel : s.channel = m :: rest) :
      Step s (.take m) { s with channel := rest, got := s.got ++ [m], ended := r.ends m }
  | again {s : State M} (hended : s.ended = false) (hleft : s.left = true)
      (hchannel : s.channel = []) :
      Step s (.again (r.held s)) { s with repeats := s.repeats + 1, ended := r.ends (r.held s) }

/-- The labels `tr` lead to `s`. -/
abbrev Reaches (tr : List (Label M)) (s : State M) : Prop := Run r.Step .init tr s

end Spec

section Runs

variable {r : Spec M} {tr : List (Label M)} {s s' : State M} {l : Label M} {i k : ℕ}

@[simp]
theorem length_firsts (k : ℕ) : (r.firsts k).length = k := by
  simp [Spec.firsts]

theorem firsts_succ (k : ℕ) : r.firsts (k + 1) = r.firsts k ++ [r.src k] := by
  simp [Spec.firsts, List.range_succ]

theorem src_mem_firsts (h : i < k) : r.src i ∈ r.firsts k :=
  List.mem_map_of_mem (List.mem_range.mpr h)

/-- What was taken and what is in the channel are the first messages; the receiver has ended exactly
with the first one that ends it, and acts again only at the end of the file. -/
structure Inv (r : Spec M) (s : State M) : Prop where
  stream : s.got ++ s.channel = r.firsts s.sent
  room : s.channel.length ≤ r.room
  goesOn : s.ended = false → ∀ m ∈ s.got, r.ends m = false
  ended : s.ended = true →
    ∃ ms m, s.got = ms ++ [m] ∧ r.ends m = true ∧ ∀ m' ∈ ms, r.ends m' = false
  again : 0 < s.repeats → s.left = true ∧ s.channel = [] ∧ s.ended = false

theorem inv_init : Inv r .init where
  stream := rfl
  room := Nat.zero_le _
  goesOn _ m hm := absurd hm List.not_mem_nil
  ended h := by cases h
  again h := absurd h (Nat.lt_irrefl 0)

/-- A receiver that goes on holds nothing that ends it. -/
theorem Inv.ends_held (h : Inv r s) (hended : s.ended = false) : r.ends (r.held s) = false := by
  unfold Spec.held
  rcases List.eq_nil_or_concat s.got with hgot | ⟨ms, m, hgot⟩
  · rw [hgot]
    exact r.ends_blank
  · refine h.goesOn hended _ ?_
    rw [hgot, List.concat_eq_append, List.getLastD_concat]
    exact List.mem_append_right _ List.mem_cons_self

theorem Inv.step (h : Inv r s) (hstep : r.Step s l s') : Inv r s' := by
  cases hstep with
  | send hleft hended hroom =>
      refine ⟨?_, ?_, h.goesOn, h.ended, fun hrep => ?_⟩
      · rw [firsts_succ, ← h.stream, List.append_assoc]
      · rw [List.length_append, List.length_singleton]
        exact hroom
      · rw [(h.again hrep).1] at hleft
        cases hleft
  | leave hleft =>
      refine ⟨h.stream, h.room, h.goesOn, h.ended, fun hrep => ?_⟩
      rw [(h.again hrep).1] at hleft
      cases hleft
  | brokenPipe hleft hended =>
      refine ⟨h.stream, h.room, h.goesOn, h.ended, fun hrep => ?_⟩
      rw [(h.again hrep).1] at hleft
      cases hleft
  | take m rest hended hchannel =>
      have hold := h.goesOn hended
      refine ⟨?_, ?_, fun hm => ?_, fun hm => ⟨s.got, m, rfl, hm, hold⟩, fun hrep => ?_⟩
      · rw [← h.stream, hchannel, List.append_assoc, List.singleton_append]
      · have hroom := h.room
        rw [hchannel, List.length_cons] at hroom
        exact Nat.le_of_succ_le hroom
      · rw [List.forall_mem_append, List.forall_mem_singleton]
        exact ⟨hold, hm⟩
      · -- Who acts again has found the channel empty.
        rw [(h.again hrep).2.1] at hchannel
        cases hchannel
  | again hended hleft hchannel =>
      have hheld := h.ends_held hended
      refine ⟨h.stream, h.room, fun _ => h.goesOn hended, fun hm => ?_, fun _ => ?_⟩
      · rw [hheld] at hm
        cases hm
      · exact ⟨hleft, hchannel, hheld⟩

/-- The invariant holds in every run. -/
theorem Spec.Reaches.inv (h : r.Reaches tr s) : Inv r s :=
  h.history (P := fun _ s => Inv r s) inv_init fun _ _ _ _ _ ih hstep => ih.step hstep

/-- What was taken are the first messages. -/
theorem Inv.got_eq (h : Inv r s) : s.got = r.firsts s.got.length := by
  have hpre : s.got <+: r.firsts s.sent := ⟨_, h.stream⟩
  have hle := hpre.length_le
  rw [length_firsts] at hle
  obtain ⟨d, hd⟩ := Nat.exists_eq_add_of_le hle
  have hfirsts : r.firsts s.got.length <+: r.firsts s.sent := by
    refine ⟨(List.range d).map fun i => r.src (s.got.length + i), ?_⟩
    rw [Spec.firsts, Spec.firsts, hd, List.range_add, List.map_append, List.map_map]
    rfl
  have hgot : s.got <+: r.firsts s.got.length :=
    List.prefix_of_prefix_length_le hpre hfirsts (Nat.le_of_eq (length_firsts _).symm)
  exact hgot.eq_of_length (length_firsts _).symm

/-- Of the messages taken only the last can end the receiver. -/
theorem Inv.ends_before (h : Inv r s) (hi : i + 1 < s.got.length) : r.ends (r.src i) = false := by
  have hgot := h.got_eq
  cases hended : s.ended with
  | false =>
      refine h.goesOn hended _ ?_
      rw [hgot]
      exact src_mem_firsts (by omega)
  | true =>
      obtain ⟨ms, m, hms, -, hbefore⟩ := h.ended hended
      have hlen : s.got.length = ms.length + 1 := by simp [hms]
      have hpre : ms = r.firsts ms.length := by
        rw [hlen, firsts_succ, hms] at hgot
        exact (List.append_inj' hgot rfl).1
      refine hbefore _ ?_
      rw [hpre]
      exact src_mem_firsts (by omega)

/-- What the receiver holds is the last message taken. -/
theorem Inv.held_eq (h : Inv r s) : r.held s = r.heldAfter s.got.length := by
  cases hn : s.got.length with
  | zero =>
      rw [List.length_eq_zero_iff] at hn
      rw [Spec.held, hn]
      rfl
  | succ n =>
      rw [Spec.held, h.got_eq, hn, firsts_succ, List.getLastD_concat]
      rfl

/-- The receiver has ended exactly if the last message taken ends it. -/
theorem Inv.ended_iff (h : Inv r s) : s.ended = true ↔ r.ends (r.held s) = true := by
  constructor
  · intro hended
    obtain ⟨ms, m, hms, hm, -⟩ := h.ended hended
    rw [Spec.held, hms, List.getLastD_concat]
    exact hm
  · intro hheld
    by_contra hne
    rw [h.ends_held (by simpa using hne)] at hheld
    cases hheld

/-- What was sent was taken or is in the channel. -/
theorem mem_of_send (h : r.Reaches tr s) : ∀ m, .send m ∈ tr → m ∈ s.got ++ s.channel := by
  refine h.history (P := fun tr s => ∀ m, .send m ∈ tr → m ∈ s.got ++ s.channel)
    (fun m hm => absurd hm List.not_mem_nil) ?_
  intro tr t l u _ ih hstep m hm
  rcases List.mem_append.mp hm with hold | hnew
  · have hmem := ih m hold
    cases hstep with
    | send =>
        rw [← List.append_assoc]
        exact List.mem_append_left _ hmem
    | take m' rest _ hchannel =>
        rw [hchannel] at hmem
        simpa using hmem
    | leave => exact hmem
    | brokenPipe => exact hmem
    | again => exact hmem
  · generalize hl : Label.send m = l' at hnew
    obtain rfl := List.mem_singleton.mp hnew
    cases hstep with
    | send =>
        obtain rfl := Label.send.inj hl
        simp
    | _ => cases hl

/-- In a run in which the sender does not leave of itself, it is gone only behind a message that
makes it leave, or behind the end of the receiver. -/
theorem left_cases (h : r.Reaches tr s) (hno : ∀ l ∈ tr, l ≠ .leave) (hleft : s.left = true) :
    s.ended = true ∨ ∃ i, i + 1 = s.sent ∧ r.quits (r.src i) = true := by
  refine h.invariant (Q := fun l => l ≠ .leave) (P := fun s => s.left = true →
    s.ended = true ∨ ∃ i, i + 1 = s.sent ∧ r.quits (r.src i) = true) hno ?_ ?_ hleft
  · intro hinit
    cases hinit
  · intro t l u ih hstep hl hleft'
    cases hstep with
    | send => exact .inr ⟨t.sent, rfl, hleft'⟩
    | leave => exact absurd rfl hl
    | brokenPipe _ hended => exact .inl hended
    | take m rest hended =>
        rcases ih hleft' with hold | hquit
        · rw [hold] at hended
          cases hended
        · exact .inr hquit
    | again hended =>
        rcases ih hleft' with hold | hquit
        · rw [hold] at hended
          cases hended
        · exact .inr hquit

/-- Then the receiver never acts on what it holds again. -/
theorem repeats_eq_zero (h : r.Reaches tr s) (hno : ∀ l ∈ tr, l ≠ .leave) : s.repeats = 0 := by
  by_contra hne
  have hinv := h.inv
  obtain ⟨hleft, hchannel, hended⟩ := hinv.again (Nat.pos_of_ne_zero hne)
  rcases left_cases h hno hleft with hend | ⟨i, hi, hquits⟩
  · rw [hend] at hended
    cases hended
  · -- The message behind which the sender left has been taken, and would have ended the receiver.
    have hgot : r.src i ∈ s.got := by
      have hstream := hinv.stream
      rw [hchannel, List.append_nil] at hstream
      rw [hstream]
      exact src_mem_firsts (by omega)
    have hends := hinv.goesOn hended _ hgot
    rw [r.quits_ends _ hquits] at hends
    cases hends

/-- Every label stands for something sent, taken, acted on again, or for the sender's leaving. -/
theorem length_le_counts (h : r.Reaches tr s) :
    tr.length ≤ s.sent + s.got.length + s.repeats + s.left.toNat := by
  refine h.history (P := fun tr s => tr.length ≤
    s.sent + s.got.length + s.repeats + s.left.toNat) (Nat.zero_le _) ?_
  intro tr t l u _ ih hstep
  rw [List.length_append, List.length_singleton]
  cases hstep with
  | send hleft =>
      rw [hleft, Bool.toNat_false] at ih
      show tr.length + 1 ≤ t.sent + 1 + t.got.length + t.repeats + _
      omega
  | leave hleft =>
      rw [hleft, Bool.toNat_false] at ih
      show tr.length + 1 ≤ t.sent + t.got.length + t.repeats + 1
      omega
  | brokenPipe hleft =>
      rw [hleft, Bool.toNat_false] at ih
      show tr.length + 1 ≤ t.sent + t.got.length + t.repeats + 1
      omega
  | take m rest =>
      show tr.length + 1 ≤ t.sent + (t.got ++ [m]).length + t.repeats + t.left.toNat
      rw [List.length_append, List.length_singleton]
      omega
  | again =>
      show tr.length + 1 ≤ t.sent + t.got.length + (t.repeats + 1) + t.left.toNat
      omega

section Ending

variable (hk : r.ends (r.src k) = true)
include hk

/-- The receiver takes nothing behind the message that ends it. -/
theorem Inv.length_got_le (h : Inv r s) : s.got.length ≤ k + 1 := by
  by_contra hlong
  rw [h.ends_before (by omega)] at hk
  cases hk

/-- With a message that ends the receiver, runs are bounded. -/
theorem length_le (h : r.Reaches tr s) (hno : ∀ l ∈ tr, l ≠ .leave) :
    tr.length ≤ 2 * (k + 1) + r.room + 1 := by
  have hinv := h.inv
  have hcount := length_le_counts h
  have hgot := hinv.length_got_le hk
  have hroom := hinv.room
  have hstream := congrArg List.length hinv.stream
  rw [List.length_append, length_firsts] at hstream
  rw [repeats_eq_zero h hno] at hcount
  have hleft := Bool.toNat_le s.left
  omega

end Ending

/-- A receiver that has ended has taken the messages up to the first that ends it. -/
theorem Inv.got_of_ended (h : Inv r s) (hended : s.ended = true) :
    ∃ k, r.ends (r.src k) = true ∧ (∀ i < k, r.ends (r.src i) = false) ∧
      s.got = r.firsts (k + 1) := by
  obtain ⟨ms, m, hms, hm, -⟩ := h.ended hended
  have hgot := h.got_eq
  have hlen : s.got.length = ms.length + 1 := by simp [hms]
  have hm' := hgot
  rw [hlen, firsts_succ, hms] at hm'
  obtain ⟨-, hlast⟩ := List.append_inj' hm' rfl
  obtain rfl := List.singleton_inj.mp hlast
  exact ⟨ms.length, hm, fun i hi => h.ends_before (by omega), hlen ▸ hgot⟩

/-- Where nobody can go on, both are gone. -/
theorem gone_of_stuck (hstuck : ∀ l s', r.Step s l s' → l = .leave) :
    s.ended = true ∧ s.left = true := by
  have hended : s.ended = true := by
    by_contra hne
    rw [Bool.not_eq_true] at hne
    cases hchannel : s.channel with
    | cons m rest => cases hstuck _ _ (.take m rest hne hchannel)
    | nil =>
        cases hleft : s.left with
        | true => cases hstuck _ _ (.again hne hleft hchannel)
        | false =>
            have hroom : s.channel.length < r.room := by
              rw [hchannel]
              exact r.room_pos
            cases hstuck _ _ (.send hleft hne hroom)
  refine ⟨hended, ?_⟩
  by_contra hne
  rw [Bool.not_eq_true] at hne
  cases hstuck _ _ (.brokenPipe hne hended)

/-- If no message ends the receiver, there are runs of every length. -/
theorem exists_reaches (hgoes : ∀ i, r.ends (r.src i) = false) (N : ℕ) :
    ∃ tr s, r.Reaches tr s ∧ (∀ l ∈ tr, l ≠ .leave) ∧ tr.length = N := by
  induction N with
  | zero => exact ⟨[], .init, .nil, fun l hl => absurd hl List.not_mem_nil, rfl⟩
  | succ N ih =>
      obtain ⟨tr, s, h, hno, rfl⟩ := ih
      have hinv := h.inv
      have hended : s.ended ≠ true := by
        intro hended
        obtain ⟨ms, m, hms, hm, -⟩ := hinv.ended hended
        have hmem : m ∈ r.firsts s.got.length := by
          rw [← hinv.got_eq, hms]
          exact List.mem_append_right _ List.mem_cons_self
        obtain ⟨i, -, rfl⟩ := List.mem_map.mp hmem
        rw [hgoes i] at hm
        cases hm
      have hnext : ∃ l s', r.Step s l s' ∧ l ≠ .leave := by
        by_contra hnone
        have hstuck : ∀ l s', r.Step s l s' → l = .leave := by
          intro l s' hstep
          by_contra hl
          exact hnone ⟨l, s', hstep, hl⟩
        exact hended (gone_of_stuck hstuck).1
      obtain ⟨l, s', hstep, hl⟩ := hnext
      refine ⟨tr ++ [l], s', h.snoc hstep, ?_, by simp⟩
      rw [List.forall_mem_append, List.forall_mem_singleton]
      exact ⟨hno, hl⟩

end Runs

/-! ## Systems that are relays -/

/-- From `s₀`, the steps of a system are those of the relay, label for label, with `R` between their
states. -/
structure Realizes {σ : Type*} (r : Spec M) (Step : σ → Label M → σ → Prop)
    (R : σ → State M → Prop) (s₀ : σ) : Prop where
  init : R s₀ .init
  forth : ∀ s q l s', R s q → Step s l s' → ∃ q', r.Step q l q' ∧ R s' q'
  back : ∀ s q l q', R s q → r.Step q l q' → ∃ s', Step s l s' ∧ R s' q'

namespace Realizes

variable {σ : Type*} {r : Spec M} {Step : σ → Label M → σ → Prop} {R : σ → State M → Prop}
  {s₀ s : σ} {q : State M} {tr : List (Label M)}

/-- A run of the system is a run of the relay. -/
theorem exists_reaches (h : Realizes r Step R s₀) (hrun : Run Step s₀ tr s) :
    ∃ q, r.Reaches tr q ∧ R s q :=
  hrun.simulates (Q := fun _ => True) (fun _ _ => trivial) h.init
    fun t q l u hR hstep _ => h.forth t q l u hR hstep

/-- A run of the relay is a run of the system. -/
theorem exists_run (h : Realizes r Step R s₀) (hq : r.Reaches tr q) :
    ∃ s, Run Step s₀ tr s ∧ R s q :=
  hq.simulates (R := fun q s => R s q) (Q := fun _ => True) (fun _ _ => trivial) h.init
    fun q s l q' hR hstep _ => h.back s q l q' hR hstep

/-- Runs of the system in which the sender does not leave of itself are bounded exactly if there is
a message that ends the receiver. -/
theorem stops_iff (h : Realizes r Step R s₀) :
    (∃ N, ∀ tr s, Run Step s₀ tr s → (∀ l ∈ tr, l ≠ .leave) → tr.length ≤ N) ↔
      ∃ k, r.ends (r.src k) = true := by
  constructor
  · rintro ⟨N, hN⟩
    by_contra hnone
    have hgoes : ∀ i, r.ends (r.src i) = false := by
      intro i
      by_contra hi
      exact hnone ⟨i, by simpa using hi⟩
    -- The relay has a run that is too long, and the system follows it.
    obtain ⟨tr, q, hq, hno, hlen⟩ := Relay.exists_reaches hgoes (N + 1)
    obtain ⟨s, hs, -⟩ := h.exists_run hq
    have hle := hN tr s hs hno
    omega
  · rintro ⟨k, hk⟩
    refine ⟨2 * (k + 1) + r.room + 1, fun tr s hs hno => ?_⟩
    obtain ⟨q, hq, -⟩ := h.exists_reaches hs
    exact length_le hk hq hno

/-- Where the system cannot go on, sender and receiver are both gone. -/
theorem gone_of_stuck (h : Realizes r Step R s₀) (hR : R s q)
    (hstuck : ∀ l s', Step s l s' → l = .leave) : q.ended = true ∧ q.left = true := by
  refine Relay.gone_of_stuck (r := r) fun l q' hstep => ?_
  obtain ⟨s', hs, -⟩ := h.back s q l q' hR hstep
  exact hstuck l s' hs

end Realizes

end Relay
