import LinuxPrograms.Socket.Payload

/-!
# Multi-client server: one reader

`read_thread`, which reads messages of 24 bytes from the socket of one client and sends their
strings on. It looks neither at how many bytes a `read` returned nor whether the stream has ended:
whatever the payload buffer then holds counts as a message. Only the string `end` stops it.

- `readThread`: the loop on what its reads return.
- `faithful_of_closed`: reads of whole messages and an `end` behind strings that have their NUL.
- `faithful_iff`: that it does not work without these.
-/

namespace SocketServer

open CString FrameStream

/-! ## The loop -/

/-- The variables of `read_thread`. -/
structure ReadThread where
  clSocFd : Int32
  socPayload : SockPayload
  readMsg : PipePayload

/-- What a `read` returns: -1, or bytes, none of them at the end of the stream. -/
inductive ReadResult
  | error
  | bytes (b : List UInt8)

/-- What a round of the loop comes to: the thread exits, or `strcpy` runs past the end of `str`, or
a payload goes to `send_message`. -/
inductive Round
  | exited
  | overran
  | forwarded (msg : PipePayload) (t : ReadThread)

/-- `0==strcmp(soc_payload.str,"end")`, which is settled by the first four bytes of `str`. -/
def IsEnd (p : SockPayload) : Prop := (strField p).str = text "end"

instance (p : SockPayload) : Decidable (IsEnd p) := inferInstanceAs (Decidable (_ = _))

/-- `str` has its NUL. -/
def Terminated (p : SockPayload) : Prop := 0 ∈ (strField p).bytes

instance (p : SockPayload) : Decidable (Terminated p) := inferInstanceAs (Decidable (_ ∈ _))

/-- `read_msg` for the payload in `soc_payload`. -/
def ReadThread.message (t : ReadThread) : PipePayload where
  msgNo := 1
  clientId := t.clSocFd
  str := t.readMsg.str.strcpy (strField t.socPayload).bytes

/-- What the thread does about the payload in `soc_payload`. -/
def ReadThread.act (t : ReadThread) : Round :=
  if IsEnd t.socPayload then .exited
  else if Terminated t.socPayload then .forwarded t.message { t with readMsg := t.message }
  else .overran

/-- One round of the loop. A failed `read` leaves `soc_payload` as it is, and a short one the bytes
behind those it got. -/
def ReadThread.round (t : ReadThread) : ReadResult → Round
  | .error => t.act
  | .bytes b => { t with socPayload := t.socPayload.store b }.act

/-- Where the thread stands. -/
inductive Status
  | running
  | exited
  | overran
  deriving DecidableEq

/-- The loop on what the reads return, with the payloads passed to `send_message`. -/
def readThread (t : ReadThread) : List ReadResult → Status × List PipePayload
  | [] => (.running, [])
  | r :: rs =>
      match t.round r with
      | .exited => (.exited, [])
      | .overran => (.overran, [])
      | .forwarded msg t' =>
          let (status, sent) := readThread t' rs
          (status, msg :: sent)

/-- Every payload carries the descriptor of the client. -/
theorem clientId_of_mem_readThread {t : ReadThread} {rs : List ReadResult} {p : PipePayload}
    (h : p ∈ (readThread t rs).2) : p.clientId = t.clSocFd := by
  induction rs generalizing t with
  | nil => cases h
  | cons r rs ih =>
      -- A round passes on a payload with the descriptor and keeps the descriptor.
      have hact : ∀ {u : ReadThread} {msg : PipePayload} {t' : ReadThread},
          u.act = .forwarded msg t' → msg.clientId = u.clSocFd ∧ t'.clSocFd = u.clSocFd := by
        intro u msg t' hround
        rw [ReadThread.act] at hround
        split_ifs at hround
        obtain ⟨rfl, rfl⟩ := Round.forwarded.inj hround
        exact ⟨rfl, rfl⟩
      have hround : ∀ {msg : PipePayload} {t' : ReadThread}, t.round r = .forwarded msg t' →
          msg.clientId = t.clSocFd ∧ t'.clSocFd = t.clSocFd := by
        cases r with
        | error => exact hact
        | bytes b => exact hact
      rw [readThread] at h
      split at h
      · cases h
      · cases h
      next msg t' hforwarded =>
        obtain ⟨hmsg, hfd⟩ := hround hforwarded
        rcases List.mem_cons.mp h with rfl | hrest
        · exact hmsg
        · rw [ih hrest, hfd]

/-! ## The socket -/

/-- How the socket cuts the stream: what the `n`-th read returns where there is more. -/
@[ext]
structure Cuts where
  size : ℕ → ℕ
  /-- A read returns something. -/
  size_pos : ∀ n, 0 < size n
  /-- It asks for `sizeof(soc_payload)` bytes. -/
  size_le : ∀ n, size n ≤ 24

namespace Cuts

/-- Whole messages. -/
def whole : Cuts where
  size _ := 24
  size_pos _ := by decide
  size_le _ := Nat.le_refl 24

/-- The reads behind the first `k`. -/
def drop (c : Cuts) (k : ℕ) : Cuts where
  size n := c.size (n + k)
  size_pos n := c.size_pos (n + k)
  size_le n := c.size_le (n + k)

@[simp]
theorem size_drop (c : Cuts) (k n : ℕ) : (c.drop k).size n = c.size (n + k) := rfl

/-- What the first `n` reads of the stream return. -/
def reads (c : Cuts) : ℕ → List UInt8 → List ReadResult
  | 0, _ => []
  | n + 1, stream =>
      .bytes (stream.take (c.size 0)) :: (c.drop 1).reads n (stream.drop (c.size 0))

end Cuts

/-- With `bytes` in the stream, the thread exits after it has sent on payloads with the strings
`out`. -/
def Exits (c : Cuts) (t : ReadThread) (bytes : List UInt8) (out : List (List UInt8)) : Prop :=
  ∃ n sent, readThread t (c.reads n bytes) = (.exited, sent) ∧
    sent.map (fun p => p.str.str) = out

/-- The strings of the messages before the first `end`. -/
def stringsBeforeEnd (ms : List SockPayload) : List (List UInt8) :=
  (ms.takeWhile fun m => ¬ IsEnd m).map fun m => (strField m).str

/-- Whatever its variables hold at first, the thread sends on the strings before the first `end`,
and exits. -/
def Faithful (c : Cuts) (ms : List SockPayload) : Prop :=
  ∀ t, Exits c t (stream CBuffer.bytes ms) (stringsBeforeEnd ms)

/-- The messages before an `end`: strings that have their NUL, none of them `end`. -/
def Closed (before : List SockPayload) (e : SockPayload) : Prop :=
  (∀ m ∈ before, ¬ IsEnd m ∧ Terminated m) ∧ IsEnd e

/-! ## One round -/

section Round

variable {c : Cuts} {t : ReadThread} {bytes : List UInt8} {out : List (List UInt8)}

/-- Whether a payload is `end` is settled by its first eight bytes. -/
theorem isEnd_iff (p : SockPayload) : IsEnd p ↔ (p.bytes.take 8).drop 4 = text "end" ++ [0] := by
  have hlen : (text "end").length < (strField p).bytes.length := by
    rw [(strField p).length_eq]
    decide
  rw [IsEnd, CBuffer.str, cstr_eq_iff (by decide) hlen, List.prefix_iff_eq_take, eq_comm,
    List.drop_take]
  rfl

/-- The variables after the payload `p` is read and passed on. -/
def ReadThread.passOn (t : ReadThread) (p : SockPayload) : ReadThread :=
  { t with socPayload := p, readMsg := { t with socPayload := p }.message }

/-- A round, by the payload that its read leaves in the buffer. -/
theorem round_bytes {b : List UInt8} {p : SockPayload} (hp : t.socPayload.store b = p) :
    t.round (.bytes b) =
      if IsEnd p then .exited
      else if Terminated p then .forwarded (t.passOn p).readMsg (t.passOn p)
      else .overran := by
  rw [ReadThread.round, hp]
  rfl

/-- The payload is passed on with its string. -/
theorem str_passOn (t : ReadThread) {p : SockPayload} (h : Terminated p) :
    (t.passOn p).readMsg.str.str = (strField p).str := by
  apply CBuffer.str_strcpy
  have hlt := length_cstr_lt h
  rwa [(strField p).length_eq] at hlt

/-- What a run comes to is settled by the payload that the first read leaves in the buffer, and by
the rest of the run. -/
theorem exits_iff {p : SockPayload} (hp : t.socPayload.store (bytes.take (c.size 0)) = p) :
    Exits c t bytes out ↔
      IsEnd p ∧ out = [] ∨
      ¬ IsEnd p ∧ Terminated p ∧ ∃ out', out = (strField p).str :: out' ∧
        Exits (c.drop 1) (t.passOn p) (bytes.drop (c.size 0)) out' := by
  have hround := round_bytes hp
  constructor
  · rintro ⟨n, sent, hrun, rfl⟩
    cases n with
    | zero => cases hrun
    | succ n =>
        rw [Cuts.reads, readThread, hround] at hrun
        by_cases hend : IsEnd p
        · rw [if_pos hend] at hrun
          obtain ⟨-, rfl⟩ := Prod.mk.inj hrun
          exact .inl ⟨hend, rfl⟩
        · by_cases hterm : Terminated p
          · rw [if_neg hend, if_pos hterm] at hrun
            obtain ⟨hexit, rfl⟩ := Prod.mk.inj hrun
            refine .inr ⟨hend, hterm, _, ?_, n, _, Prod.ext hexit rfl, rfl⟩
            rw [List.map_cons, str_passOn t hterm]
          · rw [if_neg hend, if_neg hterm] at hrun
            cases hrun
  · rintro (⟨hend, rfl⟩ | ⟨hend, hterm, out', rfl, n, sent, hrun, rfl⟩)
    · exact ⟨1, [], by rw [Cuts.reads, readThread, hround, if_pos hend], rfl⟩
    · refine ⟨n + 1, (t.passOn p).readMsg :: sent, ?_, ?_⟩
      · rw [Cuts.reads, readThread, hround, if_neg hend, if_pos hterm]
        simp only [hrun]
      · rw [List.map_cons, str_passOn t hterm]

end Round

/-! ## Whole messages -/

section Whole

variable {c : Cuts} {t : ReadThread} {e m : SockPayload} {before after ms : List SockPayload}
  {out : List (List UInt8)}

/-- A read of a whole message leaves it in the buffer. -/
theorem exits_cons_iff (hsize : c.size 0 = 24) :
    Exits c t (stream CBuffer.bytes (m :: ms)) out ↔
      IsEnd m ∧ out = [] ∨
      ¬ IsEnd m ∧ Terminated m ∧ ∃ out', out = (strField m).str :: out' ∧
        Exits (c.drop 1) (t.passOn m) (stream CBuffer.bytes ms) out' := by
  have hlen : ∀ p : SockPayload, p.bytes.length = 24 := CBuffer.length_eq
  rw [exits_iff (p := m), hsize, drop_stream_cons hlen]
  rw [hsize, take_stream_cons hlen, CBuffer.store_of_length_eq _ m.length_eq]

/-- Eight bytes of an `end` are enough. -/
theorem exits_end (he : IsEnd e) (hsize : 8 ≤ c.size 0) :
    Exits c t (stream CBuffer.bytes (e :: ms)) [] := by
  refine (exits_iff rfl).mpr (.inl ⟨?_, rfl⟩)
  have hchunk : (stream CBuffer.bytes (e :: ms)).take (c.size 0) = e.bytes.take (c.size 0) := by
    rw [stream_cons, List.take_append_of_le_length]
    rw [e.length_eq]
    exact c.size_le 0
  have hlen : (e.bytes.take (c.size 0)).length = c.size 0 := by
    rw [List.length_take, e.length_eq, Nat.min_eq_left (c.size_le 0)]
  rw [isEnd_iff] at he ⊢
  rw [hchunk, CBuffer.bytes_store (by rw [hlen]; exact c.size_le 0),
    List.take_append_of_le_length (by omega), List.take_take, Nat.min_eq_left hsize, he]

/-- The strings before an `end` that closes them. -/
theorem stringsBeforeEnd_of_closed (h : Closed before e) :
    stringsBeforeEnd (before ++ e :: after) = before.map fun m => (strField m).str := by
  have hkeep : ∀ m ∈ before, decide (¬ IsEnd m) = true := by
    intro m hm
    simpa using (h.1 m hm).1
  rw [stringsBeforeEnd, List.takeWhile_append_of_pos hkeep,
    List.takeWhile_cons_of_neg (by simpa using h.2), List.append_nil]

/-- The thread sends on strings that have their NUL, in their order, and exits, if the messages
before `end` are read whole and the first eight bytes of `end` in one read. -/
theorem faithful_of_closed (h : Closed before e) (hwhole : ∀ n < before.length, c.size n = 24)
    (hend : 8 ≤ c.size before.length) : Faithful c (before ++ e :: after) := by
  intro t
  rw [stringsBeforeEnd_of_closed h]
  induction before generalizing c t with
  | nil => exact exits_end h.2 hend
  | cons m before ih =>
      obtain ⟨hne, hterm⟩ := h.1 m List.mem_cons_self
      refine (exits_cons_iff (hwhole 0 (Nat.succ_pos _))).mpr (.inr ⟨hne, hterm, _, rfl, ?_⟩)
      exact ih ⟨fun m' hm' => h.1 m' (List.mem_cons_of_mem _ hm'), h.2⟩
        (fun n hn => hwhole (n + 1) (Nat.succ_lt_succ hn)) hend _

/-- On whole messages the thread exits at an `end` only, behind strings that have their NUL. At the
end of the stream it goes on with what is left in the buffer. -/
theorem closed_of_exits (h : Exits .whole t (stream CBuffer.bytes ms) out)
    (hbuff : ¬ IsEnd t.socPayload) :
    ∃ before e after, ms = before ++ e :: after ∧ Closed before e := by
  induction out generalizing t ms with
  | nil =>
      cases ms with
      | nil =>
          rcases (exits_iff (CBuffer.store_nil _)).mp h with ⟨hend, -⟩ | ⟨-, -, out', hout, -⟩
          · exact absurd hend hbuff
          · cases hout
      | cons m ms =>
          rcases (exits_cons_iff rfl).mp h with ⟨hend, -⟩ | ⟨-, -, out', hout, -⟩
          · exact ⟨[], m, ms, rfl, nofun, hend⟩
          · cases hout
  | cons s out ih =>
      cases ms with
      | nil =>
          rcases (exits_iff (CBuffer.store_nil _)).mp h with ⟨-, hout⟩ | ⟨-, -, out', hout, hrest⟩
          · cases hout
          · obtain ⟨-, rfl⟩ := List.cons_eq_cons.mp hout
            obtain ⟨before, e, after, hsplit, -⟩ := @ih _ [] hrest hbuff
            simp at hsplit
      | cons m ms =>
          rcases (exits_cons_iff rfl).mp h with ⟨-, hout⟩ | ⟨hne, hterm, out', hout, hrest⟩
          · cases hout
          · obtain ⟨-, rfl⟩ := List.cons_eq_cons.mp hout
            obtain ⟨before, e, after, rfl, hall, he⟩ := ih hrest hne
            exact ⟨m :: before, e, after, rfl, List.forall_mem_cons.mpr ⟨⟨hne, hterm⟩, hall⟩, he⟩

end Whole

/-! ## Short reads -/

/-- A string of one letter, and no further NUL behind its own. -/
def briefMessage : SockPayload := ⟨[0, 0, 0, 0] ++ text "p" ++ 0 :: List.replicate 18 112, rfl⟩

/-- A string that takes up all of `str`. -/
def fullMessage : SockPayload := ⟨[0, 0, 0, 0] ++ List.replicate 19 118 ++ [0], rfl⟩

/-- `end`. -/
def endMessage : SockPayload := ⟨[0, 0, 0, 0] ++ text "end" ++ List.replicate 17 0, rfl⟩

section Short

variable {c : Cuts} {t : ReadThread} {ms : List SockPayload} {out : List (List UInt8)} {k n : ℕ}

/-- What a short read of a message leaves in the buffer. -/
theorem take_stream_of_le {m : SockPayload} (h : n ≤ 24) :
    (stream CBuffer.bytes (m :: ms)).take n = m.bytes.take n := by
  rw [stream_cons, List.take_append_of_le_length]
  rwa [m.length_eq]

/-- A short read of a full message does not get its string. -/
theorem not_exits_full (hbuff : t.socPayload = briefMessage) (hshort : c.size 0 < 24) :
    ¬ Exits c t (stream CBuffer.bytes (fullMessage :: ms)) ((strField fullMessage).str :: out) := by
  have hwrong : ∀ s < 24, 0 < s → Terminated (briefMessage.store (fullMessage.bytes.take s)) →
      (strField (briefMessage.store (fullMessage.bytes.take s))).str ≠
        (strField fullMessage).str := by
    decide
  intro h
  rw [exits_iff rfl, hbuff, take_stream_of_le (c.size_le 0)] at h
  rcases h with ⟨-, hout⟩ | ⟨-, hterm, out', hout, -⟩
  · cases hout
  · obtain ⟨hstr, -⟩ := List.cons_eq_cons.mp hout
    exact hwrong _ hshort (c.size_pos 0) hterm hstr.symm

/-- Less than eight bytes of an `end` are not taken for one. -/
theorem not_exits_end (hbuff : t.socPayload = briefMessage) (hshort : c.size 0 < 8) :
    ¬ Exits c t (stream CBuffer.bytes (endMessage :: ms)) [] := by
  have hwrong : ∀ s < 8, 0 < s → ¬ IsEnd (briefMessage.store (endMessage.bytes.take s)) := by
    decide
  intro h
  rw [exits_iff rfl, hbuff, take_stream_of_le (c.size_le 0)] at h
  rcases h with ⟨hend, -⟩ | ⟨-, -, out', hout, -⟩
  · exact hwrong _ hshort (c.size_pos 0) hend
  · cases hout

/-- Brief messages that are read whole are sent on, and the last of them stays in the buffer. -/
theorem exits_brief (hbuff : t.socPayload = briefMessage) (hwhole : ∀ i < n, c.size i = 24)
    (h : Exits c t (stream CBuffer.bytes (List.replicate n briefMessage ++ ms))
      ((List.replicate n briefMessage).map (fun m => (strField m).str) ++ out)) :
    ∃ t' : ReadThread, t'.socPayload = briefMessage ∧
      Exits (c.drop n) t' (stream CBuffer.bytes ms) out := by
  induction n generalizing c t with
  | zero => exact ⟨t, hbuff, h⟩
  | succ n ih =>
      rw [List.replicate_succ, List.cons_append, List.map_cons, List.cons_append] at h
      rcases (exits_cons_iff (hwhole 0 (Nat.succ_pos n))).mp h with
        ⟨hend, -⟩ | ⟨-, -, out', hout, hrest⟩
      · exact absurd hend (by decide)
      · obtain ⟨-, rfl⟩ := List.cons_eq_cons.mp hout
        obtain ⟨t', hbuff', hexit⟩ :=
          ih (c := c.drop 1) rfl (fun i hi => hwhole (i + 1) (Nat.succ_lt_succ hi)) hrest
        have hdrop : (c.drop 1).drop n = c.drop (n + 1) := by
          ext i
          rw [Cuts.size_drop, Cuts.size_drop, Cuts.size_drop, Nat.add_assoc]
        exact ⟨t', hbuff', hdrop ▸ hexit⟩

/-- If `k` strings before an `end` always are sent on, then they were read whole, and the first
eight bytes of the `end` at once. -/
theorem sizes_of_faithful
    (h : ∀ before e after, before.length = k → Closed before e →
      Faithful c (before ++ e :: after)) :
    (∀ n < k, c.size n = 24) ∧ 8 ≤ c.size k := by
  have hbrief : ∀ n, ∀ m ∈ List.replicate n briefMessage, ¬ IsEnd m ∧ Terminated m := by
    intro n m hm
    rw [List.eq_of_mem_replicate hm]
    decide
  let t : ReadThread := ⟨0, briefMessage, 0, 0, .zero 20⟩
  -- The first read that is short meets a full message behind brief ones.
  have hwhole : ∀ n ≤ k, ∀ i < n, c.size i = 24 := by
    intro n hn
    induction n with
    | zero => exact fun i hi => absurd hi (Nat.not_lt_zero i)
    | succ n ih =>
        have hbefore := ih (by omega)
        intro i hi
        rcases Nat.lt_succ_iff_lt_or_eq.mp hi with hi | rfl
        · exact hbefore i hi
        by_contra hsize
        have hshort : c.size i < 24 := lt_of_le_of_ne (c.size_le i) hsize
        have hclosed : Closed (List.replicate i briefMessage ++
            fullMessage :: List.replicate (k - (i + 1)) briefMessage) endMessage := by
          refine ⟨?_, by decide⟩
          rw [List.forall_mem_append, List.forall_mem_cons]
          exact ⟨hbrief i, by decide, hbrief _⟩
        have hexit := h _ _ [] (by simp; omega) hclosed t
        rw [stringsBeforeEnd_of_closed hclosed, List.map_append, List.append_assoc] at hexit
        obtain ⟨t', hbuff, hexit⟩ := exits_brief (t := t) rfl hbefore hexit
        exact not_exits_full hbuff (by rwa [Cuts.size_drop, Nat.zero_add]) hexit
  refine ⟨hwhole k (Nat.le_refl k), ?_⟩
  by_contra hsize
  have hclosed : Closed (List.replicate k briefMessage) endMessage := ⟨hbrief k, by decide⟩
  have hexit := h _ _ [] List.length_replicate hclosed t
  rw [stringsBeforeEnd_of_closed hclosed, ← List.append_nil (List.map _ _)] at hexit
  obtain ⟨t', hbuff, hexit⟩ := exits_brief (t := t) rfl (hwhole k (Nat.le_refl k)) hexit
  refine not_exits_end hbuff ?_ hexit
  rw [Cuts.size_drop, Nat.zero_add]
  omega

end Short

/-- Reads of whole messages make a faithful reader of messages that hold an `end`, with strings that
have their NUL before it, and of no others. Other reads make a faithful reader of all such messages
with `k` strings before the `end` only if those before the `end` are whole and the one that gets it
has eight bytes at least. -/
theorem faithful_iff (ms : List SockPayload) (c : Cuts) (k : ℕ) :
    (Faithful .whole ms ↔ ∃ before e after, ms = before ++ e :: after ∧ Closed before e) ∧
    ((∀ before e after, before.length = k → Closed before e →
        Faithful c (before ++ e :: after)) ↔
      (∀ n < k, c.size n = 24) ∧ 8 ≤ c.size k) := by
  constructor
  · constructor
    · intro h
      exact closed_of_exits (h ⟨0, .zero 24, 0, 0, .zero 20⟩) (by decide)
    · rintro ⟨before, e, after, rfl, hclosed⟩
      exact faithful_of_closed hclosed (fun _ _ => rfl) (show 8 ≤ 24 by decide)
  · constructor
    · exact sizes_of_faithful
    · rintro ⟨hwhole, hend⟩ before e after rfl hclosed
      exact faithful_of_closed hclosed hwhole hend

/-- A client that writes a string and closes its socket: the string is sent on again and again. -/
theorem not_faithful : ¬ ∀ c ms, Faithful c ms := by
  intro h
  obtain ⟨before, e, after, hsplit, hclosed⟩ :=
    closed_of_exits (h .whole [fullMessage] ⟨0, .zero 24, 0, 0, .zero 20⟩) (by decide)
  have he : e ∈ [fullMessage] := by
    rw [hsplit]
    simp
  rw [List.mem_singleton.mp he] at hclosed
  exact absurd hclosed.2 (by decide)

end SocketServer
