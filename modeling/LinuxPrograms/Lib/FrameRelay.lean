import LinuxPrograms.Lib.FrameStream
import LinuxPrograms.Lib.Relay

/-!
# A relay over a FIFO of bytes

A relay whose messages travel as frames of a fixed size: the sender writes whole frames while there
is room for one, and the receiver reads the size of a frame into its buffer.

- `Framing`: the frame of a message, and the buffer after a read.
- `FifoStep`: the steps of sender and receiver on the FIFO.
- `realizes`: they are the steps of a relay.
-/

namespace Relay

open FrameStream LabelledSystem

variable {σ M α : Type*}

/-- Messages as frames of `size` elements; `load` is the receiver's buffer after a read. -/
structure Framing (M α : Type*) where
  encode : M → List α
  size : ℕ
  size_pos : 0 < size
  length_encode : ∀ m, (encode m).length = size
  load : M → List α → M
  load_encode : ∀ b m, load b (encode m) = m

/-- The two processes: what the sender has, whether it has left, the FIFO, the receiver's buffer,
what it has acted on, and whether it has ended. -/
structure FifoState (σ M α : Type*) where
  sender : σ
  left : Bool
  fifo : List α
  buf : M
  acted : List M
  ended : Bool

/-- A sender that goes on to its next message with `next`, a framing, the messages at which sender
and receiver stop, and the capacity of the FIFO. -/
structure FifoSpec (σ M α : Type*) extends Framing M α where
  next : σ → σ × M
  quits : M → Bool
  ends : M → Bool
  quits_ends : ∀ m, quits m = true → ends m = true
  start : σ
  blank : M
  ends_blank : ends blank = false
  capacity : ℕ
  size_le : size ≤ capacity

namespace FifoSpec

variable (p : FifoSpec σ M α)

/-- At first. -/
def init : FifoState σ M α := ⟨p.start, false, [], p.blank, [], false⟩

/-- What the sender has after `k` messages. -/
def senderAfter : ℕ → σ
  | 0 => p.start
  | k + 1 => (p.next (senderAfter k)).1

/-- The relay. -/
def relay : Spec M where
  src k := (p.next (p.senderAfter k)).2
  quits := p.quits
  ends := p.ends
  blank := p.blank
  room := p.capacity / p.size
  room_pos := Nat.div_pos p.size_le p.size_pos
  quits_ends := p.quits_ends
  ends_blank := p.ends_blank

/-- The steps on the FIFO. -/
inductive Step (s : FifoState σ M α) : Label M → FifoState σ M α → Prop
  | send (hleft : s.left = false) (hended : s.ended = false)
      (hroom : s.fifo.length + p.size ≤ p.capacity) :
      Step s (.send (p.next s.sender).2)
        { s with
          sender := (p.next s.sender).1
          left := p.quits (p.next s.sender).2
          fifo := s.fifo ++ p.encode (p.next s.sender).2 }
  | leave (hleft : s.left = false) : Step s .leave { s with left := true }
  | brokenPipe (hleft : s.left = false) (hended : s.ended = true) :
      Step s .brokenPipe { s with left := true }
  | take (m : M) (hm : m = p.load s.buf (s.fifo.take p.size)) (hended : s.ended = false)
      (hne : s.fifo ≠ []) :
      Step s (.take m)
        { s with
          fifo := s.fifo.drop p.size
          buf := m
          acted := s.acted ++ [m]
          ended := p.ends m }
  | again (hended : s.ended = false) (hleft : s.left = true) (hempty : s.fifo = []) :
      Step s (.again s.buf) { s with acted := s.acted ++ [s.buf], ended := p.ends s.buf }

end FifoSpec

section Follows

variable {p : FifoSpec σ M α} {s s' : FifoState σ M α} {q q' : State M} {l : Label M}

/-- A state of the two processes and one of their relay. -/
structure Follows (p : FifoSpec σ M α) (s : FifoState σ M α) (q : State M) : Prop where
  sender : q.left = false → s.sender = p.senderAfter q.sent
  left : s.left = q.left
  fifo : s.fifo = stream p.encode q.channel
  buf : s.buf = p.relay.held q
  acted : s.acted = p.relay.acted q
  ended : s.ended = q.ended
  inv : Inv p.relay q

theorem length_stream (p : FifoSpec σ M α) (ms : List M) :
    (stream p.encode ms).length = ms.length * p.size := by
  induction ms with
  | nil => rw [List.length_nil, Nat.zero_mul]; rfl
  | cons m ms ih =>
      rw [stream_cons, List.length_append, p.length_encode, ih, List.length_cons, Nat.succ_mul,
        Nat.add_comm]

theorem stream_eq_nil_iff (p : FifoSpec σ M α) {ms : List M} :
    stream p.encode ms = [] ↔ ms = [] := by
  rw [← List.length_eq_zero_iff, length_stream, Nat.mul_eq_zero, List.length_eq_zero_iff,
    or_iff_left (Nat.ne_of_gt p.size_pos)]

/-- There is room for a frame exactly if there is room for a message. -/
theorem Follows.room_iff (h : Follows p s q) :
    s.fifo.length + p.size ≤ p.capacity ↔ q.channel.length < p.relay.room := by
  show _ ↔ q.channel.length < p.capacity / p.size
  rw [h.fifo, length_stream, Nat.lt_iff_add_one_le, Nat.le_div_iff_mul_le p.size_pos, Nat.succ_mul]

/-- The sender is gone. -/
theorem Follows.gone (h : Follows p s q) (hstep : p.relay.Step q l { q with left := true }) :
    Follows p { s with left := true } { q with left := true } where
  sender hleft := by cases hleft
  left := rfl
  fifo := h.fifo
  buf := h.buf
  acted := h.acted
  ended := h.ended
  inv := h.inv.step hstep

/-- A frame goes behind those in the FIFO. -/
theorem Follows.send (h : Follows p s q) (hleft : q.left = false)
    (hstep : p.relay.Step q l
      { q with
        sent := q.sent + 1
        left := p.quits (p.relay.src q.sent)
        channel := q.channel ++ [p.relay.src q.sent] }) :
    Follows p
      { s with
        sender := (p.next s.sender).1
        left := p.quits (p.next s.sender).2
        fifo := s.fifo ++ p.encode (p.next s.sender).2 }
      { q with
        sent := q.sent + 1
        left := p.quits (p.relay.src q.sent)
        channel := q.channel ++ [p.relay.src q.sent] } := by
  have hsender := h.sender hleft
  refine ⟨fun _ => ?_, ?_, ?_, h.buf, h.acted, h.ended, h.inv.step hstep⟩
  · show (p.next s.sender).1 = _
    rw [hsender]
    rfl
  · show p.quits (p.next s.sender).2 = _
    rw [hsender]
    rfl
  · show s.fifo ++ p.encode (p.next s.sender).2 = _
    rw [stream_append_singleton, ← h.fifo, hsender]
    rfl

/-- A read of the size of a frame takes the first of the messages. -/
theorem Follows.take (h : Follows p s q) {m : M} {rest : List M} (hchannel : q.channel = m :: rest)
    (hstep : p.relay.Step q l
      { q with channel := rest, got := q.got ++ [m], ended := p.ends m }) :
    m = p.load s.buf (s.fifo.take p.size) ∧
      Follows p
        { s with
          fifo := s.fifo.drop p.size
          buf := m
          acted := s.acted ++ [m]
          ended := p.ends m }
        { q with channel := rest, got := q.got ++ [m], ended := p.ends m } := by
  have hfifo := h.fifo
  rw [hchannel] at hfifo
  have hheld : p.relay.held { q with channel := rest, got := q.got ++ [m], ended := p.ends m } =
      m := List.getLastD_concat ..
  -- Nothing was acted on again while the FIFO held something.
  have hrepeats : q.repeats = 0 := by
    by_contra hne
    rw [(h.inv.again (Nat.pos_of_ne_zero hne)).2.1] at hchannel
    cases hchannel
  refine ⟨?_, h.sender, h.left, ?_, hheld.symm, ?_, rfl, h.inv.step hstep⟩
  · rw [hfifo, take_stream_cons p.length_encode, p.load_encode]
  · show s.fifo.drop p.size = _
    rw [hfifo, drop_stream_cons p.length_encode]
  · show s.acted ++ [m] = _
    rw [h.acted, Spec.acted, Spec.acted, hrepeats]
    simp

/-- At the end of the file the receiver acts on its buffer again. -/
theorem Follows.again (h : Follows p s q) (hleft : q.left = true)
    (hstep : p.relay.Step q l { q with repeats := q.repeats + 1, ended := p.ends s.buf }) :
    Follows p { s with acted := s.acted ++ [s.buf], ended := p.ends s.buf }
      { q with repeats := q.repeats + 1, ended := p.ends s.buf } where
  sender hl := by rw [hleft] at hl; cases hl
  left := h.left
  fifo := h.fifo
  buf := h.buf
  acted := by
    show s.acted ++ [s.buf] = q.got ++ List.replicate (q.repeats + 1) _
    rw [List.replicate_succ', ← List.append_assoc, h.acted, h.buf]
    rfl
  ended := rfl
  inv := h.inv.step hstep

/-- A step on the FIFO is one of the relay. -/
theorem Follows.forth (h : Follows p s q) (hstep : p.Step s l s') :
    ∃ q', p.relay.Step q l q' ∧ Follows p s' q' := by
  cases hstep with
  | send hleft hended hroom =>
      have hleft' := h.left.symm.trans hleft
      have hsend := Spec.Step.send hleft' (h.ended.symm.trans hended) (h.room_iff.mp hroom)
      refine ⟨_, ?_, h.send hleft' hsend⟩
      rw [h.sender hleft']
      exact hsend
  | leave hleft =>
      have hleave := Spec.Step.leave (r := p.relay) (h.left.symm.trans hleft)
      exact ⟨_, hleave, h.gone hleave⟩
  | brokenPipe hleft hended =>
      have hbroken := Spec.Step.brokenPipe (r := p.relay) (h.left.symm.trans hleft)
        (h.ended.symm.trans hended)
      exact ⟨_, hbroken, h.gone hbroken⟩
  | take m hm hended hne =>
      rw [h.fifo, Ne, stream_eq_nil_iff] at hne
      obtain ⟨m', rest, hchannel⟩ := List.exists_cons_of_ne_nil hne
      have htake := Spec.Step.take (r := p.relay) m' rest (h.ended.symm.trans hended) hchannel
      obtain ⟨hm', hfollows⟩ := h.take hchannel htake
      obtain rfl : m = m' := hm.trans hm'.symm
      exact ⟨_, htake, hfollows⟩
  | again hended hleft hempty =>
      rw [h.fifo, stream_eq_nil_iff] at hempty
      have hleft' := h.left.symm.trans hleft
      have hagain := Spec.Step.again (r := p.relay) (h.ended.symm.trans hended) hleft' hempty
      rw [← h.buf] at hagain
      exact ⟨_, hagain, h.again hleft' hagain⟩

/-- A step of the relay is one on the FIFO. -/
theorem Follows.back (h : Follows p s q) (hstep : p.relay.Step q l q') :
    ∃ s', p.Step s l s' ∧ Follows p s' q' := by
  have hcopy := hstep
  cases hstep with
  | send hleft hended hroom =>
      refine ⟨_, ?_, h.send hleft hcopy⟩
      have hsend := FifoSpec.Step.send (p := p) (h.left.trans hleft) (h.ended.trans hended)
        (h.room_iff.mpr hroom)
      rw [h.sender hleft] at hsend ⊢
      exact hsend
  | leave hleft => exact ⟨_, .leave (h.left.trans hleft), h.gone hcopy⟩
  | brokenPipe hleft hended =>
      exact ⟨_, .brokenPipe (h.left.trans hleft) (h.ended.trans hended), h.gone hcopy⟩
  | take m rest hended hchannel =>
      obtain ⟨hm, hfollows⟩ := h.take hchannel hcopy
      refine ⟨_, .take m hm (h.ended.trans hended) ?_, hfollows⟩
      rw [h.fifo, Ne, stream_eq_nil_iff, hchannel]
      exact List.cons_ne_nil m rest
  | again hended hleft hchannel =>
      rw [← h.buf] at hcopy ⊢
      refine ⟨_, .again (h.ended.trans hended) (h.left.trans hleft) ?_, h.again hleft hcopy⟩
      rw [h.fifo, stream_eq_nil_iff]
      exact hchannel

end Follows

/-- Sender and receiver on their FIFO are a relay. -/
theorem FifoSpec.realizes (p : FifoSpec σ M α) : Realizes p.relay p.Step (Follows p) p.init where
  init := ⟨fun _ => rfl, rfl, rfl, rfl, rfl, rfl, inv_init⟩
  forth _ _ _ _ hR hstep := hR.forth hstep
  back _ _ _ _ hR hstep := hR.back hstep

section Runs

variable {p : FifoSpec σ M α} {s : FifoState σ M α} {tr : List (Label M)}

/-- What the receiver acts on in a run are the first messages, each once and in their order, and at
the end of the file, if the sender has left without one that ends it, the last of them again; the
first one that ends it does so. -/
theorem FifoSpec.acted_eq (h : Run p.Step p.init tr s) :
    ∃ n k, s.acted = p.relay.firsts n ++ List.replicate k (p.relay.heldAfter n) ∧
      (0 < k → s.left = true ∧ s.fifo = [] ∧ s.ended = false ∧
        ∀ m, .send m ∈ tr → p.ends m = false) ∧
      (s.ended = true ↔ p.ends (p.relay.heldAfter n) = true) ∧
      ∀ i < n, p.ends (p.relay.heldAfter i) = false := by
  obtain ⟨q, hq, hR⟩ := p.realizes.exists_reaches h
  have hinv := hR.inv
  refine ⟨q.got.length, q.repeats, ?_, fun hk => ?_, ?_, fun i hi => ?_⟩
  · rw [hR.acted, Spec.acted, ← hinv.held_eq, ← hinv.got_eq]
  · obtain ⟨hleft, hchannel, hended⟩ := hinv.again hk
    refine ⟨hR.left.trans hleft, ?_, hR.ended.trans hended, fun m hm => ?_⟩
    · rw [hR.fifo, stream_eq_nil_iff]
      exact hchannel
    · -- All that was sent has been taken, and the receiver goes on.
      have hmem := mem_of_send hq m hm
      rw [hchannel, List.append_nil] at hmem
      exact hinv.goesOn hended m hmem
  · rw [hR.ended, hinv.ended_iff, hinv.held_eq]
    rfl
  · cases i with
    | zero => exact p.ends_blank
    | succ i => exact hinv.ends_before hi

/-- A run in which the sender does not leave of itself and nobody can go on has delivered exactly
the messages up to the first that ends the receiver. -/
theorem FifoSpec.acted_of_stuck (h : Run p.Step p.init tr s) (hno : ∀ l ∈ tr, l ≠ .leave)
    (hstuck : ∀ l s', p.Step s l s' → l = .leave) :
    s.left = true ∧ s.ended = true ∧
      ∃ k, p.ends (p.relay.src k) = true ∧ (∀ i < k, p.ends (p.relay.src i) = false) ∧
        s.acted = p.relay.firsts (k + 1) := by
  obtain ⟨q, hq, hR⟩ := p.realizes.exists_reaches h
  obtain ⟨hended, hleft⟩ := p.realizes.gone_of_stuck hR hstuck
  obtain ⟨k, hk, hfirst, hgot⟩ := hR.inv.got_of_ended hended
  refine ⟨hR.left.trans hleft, hR.ended.trans hended, k, hk, hfirst, ?_⟩
  rw [hR.acted, Spec.acted, repeats_eq_zero hq hno, List.replicate_zero, List.append_nil, hgot]

end Runs

end Relay
