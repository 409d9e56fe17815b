import LinuxPrograms.Lib.CInt
import LinuxPrograms.Lib.CString

/-!
# Messages between two programs

Three senders, each with the same check of its argument, and their receivers: `queue_p1.c` and
`queue_p2.c` over a message queue, `socket_client.c` and `socket_server.c` of `normal_socket` over
a UNIX socket, `fifo_p2.c` and `fifo_p1.c` over a FIFO. All calls succeed, and one message is in
flight.

- `queueTrip`, `socketTrip`, `fifoTrip`: what becomes of an argument.
- `survives_iff`: it arrives whole exactly if it is shorter than the arrays.
-/

namespace Ipc

open CInt CString

/-- The check of each sender: without `argv[1]`, or with more than 20 characters, it exits. -/
def checked (argv1 : Option (List UInt8)) : Option (List UInt8) :=
  argv1.filter fun arg => decide (¬ 20 < (cstr arg).length)

/-- The bytes `strcpy` stores: those of the string and its NUL. -/
def strcpySize (src : List UInt8) : ℕ := (cstr src).length + 1

/-! ## The message queue -/

/-- `payload_msg`. -/
structure PayloadMsg where
  mtype : ℤ
  arr : CBuffer 20

/-- `queue_p1`, with what lies in `buffer` before: how many bytes `strcpy` stores, and the message
sent, its type and its text of 20 bytes. -/
def queueP1 (buffer : PayloadMsg) (argv1 : Option (List UInt8)) : Option (ℕ × ℤ × List UInt8) :=
  (checked argv1).map fun arg =>
    -- `arr` is cleared before the copy.
    let buffer := { buffer with mtype := 1, arr := (buffer.arr.memset 0).strcpy arg }
    (strcpySize arg, buffer.mtype, buffer.arr.bytes)

/-- `queue_p2`: the first message of the queue in `buffer`, and whether the program removes the
queue; `none` while the queue is empty, when `msgrcv` blocks. -/
def queueP2 (buffer : PayloadMsg) (queue : List (ℤ × List UInt8)) : Option (PayloadMsg × Bool) :=
  match queue with
  | [] => none
  -- The type 0 asks for the first message whatever its type.
  | (mtype, msgText) :: _ =>
      let buffer := { buffer with mtype, arr := buffer.arr.store msgText }
      some (buffer, decide (buffer.arr.str = text "end"))

/-! ## The UNIX socket -/

/-- `soc_payload`. -/
structure SocPayload where
  msgNo : Int32
  str : CBuffer 20

namespace SocPayload

/-- The bytes of `soc_payload`. -/
def encode (p : SocPayload) : List UInt8 := bytesOfInt p.msgNo ++ p.str.bytes

theorem length_encode (p : SocPayload) : p.encode.length = 24 := by
  rw [encode, List.length_append, length_bytesOfInt, p.str.length_eq]

/-- `soc_payload` after a `read` of its size stored `data` in it. -/
def load (p : SocPayload) (data : List UInt8) : SocPayload :=
  let bytes := (CBuffer.store ⟨p.encode, p.length_encode⟩ data : CBuffer 24)
  { msgNo := intOfBytes (bytes.bytes.take 4)
    str := ⟨bytes.bytes.drop 4, by rw [List.length_drop, bytes.length_eq]⟩ }

end SocPayload

/-- `main` of `socket_client.c`: how many bytes `strcpy` stores in `soc_payload.str`, and the bytes
written. -/
def socketClient (socPayload : SocPayload) (argv1 : Option (List UInt8)) :
    Option (ℕ × List UInt8) :=
  (checked argv1).map fun arg =>
    let socPayload := { socPayload with msgNo := 1, str := socPayload.str.strcpy arg }
    (strcpySize arg, socPayload.encode)

/-- A round of the loop of `socket_server.c` on a connection with these bytes: what it read, and
whether it exits. -/
def socketServer (socPayload : SocPayload) (stream : List UInt8) : SocPayload × Bool :=
  let socPayload := socPayload.load (stream.take 24)
  (socPayload, decide (socPayload.str.str = text "end"))

/-! ## The FIFO -/

/-- `fifo_p2`: the bytes written. It makes no copy. -/
def fifoP2 (argv1 : Option (List UInt8)) : Option (List UInt8) := (checked argv1).map cstr

/-- A round of the loop of `fifo_p1.c` on a FIFO with these bytes: `read_buf` as it is printed, and
as it is for the next round unless the program exits. -/
def fifoP1 (readBuf : CBuffer 20) (fifo : List UInt8) : CBuffer 20 × Option (CBuffer 20) :=
  let readBuf := readBuf.store (fifo.take 20)
  (readBuf, if readBuf.str = text "end" then none else some (readBuf.memset 0))

/-- `read_buf` at the top of the loop of `fifo_p1.c`. -/
inductive FifoBuffer : CBuffer 20 → Prop
  | init : FifoBuffer (.zero 20)
  | round {readBuf next : CBuffer 20} (fifo : List UInt8) (h : FifoBuffer readBuf)
      (hnext : (fifoP1 readBuf fifo).2 = some next) : FifoBuffer next

/-! ## From the argument to the receiver's array -/

/-- What becomes of an argument: how many bytes the sender's copy of it stores, if it makes one, and
the array the receiver prints. -/
structure Trip where
  copied : Option ℕ
  received : CBuffer 20

/-- A sender and its receiver, with what their arrays hold before. -/
inductive Pair
  | queue (sender receiver : PayloadMsg)
  | socket (client server : SocPayload)
  | fifo (readBuf : CBuffer 20) (h : FifoBuffer readBuf)

/-- One message from the sender to the receiver; `none` where the sender rejects its argument. -/
def Pair.trip (argv1 : Option (List UInt8)) : Pair → Option Trip
  | queue sender receiver =>
      (queueP1 sender argv1).bind fun (copied, message) =>
        (queueP2 receiver [message]).map fun (buffer, _) => ⟨some copied, buffer.arr⟩
  | socket client server =>
      (socketClient client argv1).map fun (copied, stream) =>
        ⟨some copied, (socketServer server stream).1.str⟩
  | fifo readBuf _ => (fifoP2 argv1).map fun fifo => ⟨none, (fifoP1 readBuf fifo).1⟩

/-- The copy stays inside the sender's array of 20 bytes, and in the receiver's array of 20 bytes
the argument is found. -/
def Trip.Survives (t : Trip) (argv1 : List UInt8) : Prop :=
  (∀ k ∈ t.copied, k ≤ 20) ∧ t.received.str? = some (cstr argv1)

section Trips

variable {argv1 : List UInt8}

/-- What is written over a `soc_payload` whole replaces it. -/
theorem SocPayload.load_encode (p q : SocPayload) : p.load (q.encode.take 24) = q := by
  have htake : q.encode.take 24 = q.encode := List.take_of_length_le q.length_encode.le
  have hmsg : q.encode.take 4 = bytesOfInt q.msgNo := List.take_left' (length_bytesOfInt _)
  have hstr : q.encode.drop 4 = q.str.bytes := List.drop_left' (length_bytesOfInt _)
  rw [load, htake]
  simp only [CBuffer.store_of_length_eq _ q.length_encode, hmsg, hstr, intOfBytes_bytesOfInt]

/-- A read that stores nothing leaves a `soc_payload` as it is. -/
theorem SocPayload.load_nil (p : SocPayload) : p.load [] = p := by
  have hmsg : p.encode.take 4 = bytesOfInt p.msgNo := List.take_left' (length_bytesOfInt _)
  have hstr : p.encode.drop 4 = p.str.bytes := List.drop_left' (length_bytesOfInt _)
  rw [load]
  simp only [CBuffer.store_nil, hmsg, hstr, intOfBytes_bytesOfInt]

/-- At the top of its loop the buffer of `fifo_p1` is clear. -/
theorem FifoBuffer.eq_zero {readBuf : CBuffer 20} (h : FifoBuffer readBuf) :
    readBuf = .zero 20 := by
  induction h with
  | init => rfl
  | @round readBuf next fifo _ hnext _ =>
      simp only [fifoP1] at hnext
      split at hnext
      · cases hnext
      · exact (Option.some.inj hnext).symm

/-- An accepted argument has at most 20 characters. -/
theorem length_le_of_checked (h : checked (some argv1) = some argv1) :
    (cstr argv1).length ≤ 20 := by
  have hlen := (Option.filter_eq_some_iff.mp h).2
  simpa using hlen

/-- The string in the copy of an accepted argument is the argument. -/
theorem str_strcpy_of_checked {args : Option (List UInt8)} {arg : List UInt8} (b : CBuffer 20)
    (h : checked args = some arg) : args = some arg ∧ (b.strcpy arg).str = cstr arg := by
  have hargs : args = some arg := (Option.filter_eq_some_iff.mp h).1
  rw [hargs] at h
  have hlen := length_le_of_checked h
  refine ⟨hargs, ?_⟩
  rcases Nat.lt_or_eq_of_le hlen with hlt | heq
  · exact b.str_strcpy hlt
  · -- Twenty characters fill the array.
    have hfull : (b.strcpy arg).bytes = cstr arg := by
      simp [CBuffer.strcpy, CBuffer.store, heq]
    rw [CBuffer.str, hfull, ← cstr_append_replicate_zero (cstr arg) 1]
    exact cstr_append_zero (zero_notMem_cstr arg)

/-- What the receiver finds, and how much the sender copied. -/
theorem Pair.trip_eq (pair : Pair) (h : checked (some argv1) = some argv1) :
    ∃ t, pair.trip (some argv1) = some t ∧
      (∀ k ∈ t.copied, k = strcpySize argv1) ∧
      t.received.str? = if (cstr argv1).length < 20 then some (cstr argv1) else none := by
  have hlen := length_le_of_checked h
  cases pair with
  | queue sender receiver =>
      refine ⟨⟨some (strcpySize argv1),
        receiver.arr.store ((sender.arr.memset 0).strcpy argv1).bytes⟩, ?_, ?_, ?_⟩
      · simp only [trip, queueP1, h, Option.map_some, Option.bind_some, queueP2]
      · intro k hk
        exact (Option.some.inj hk).symm
      · -- The text of 20 bytes replaces what lay in the array.
        simp only [CBuffer.store_of_length_eq _ (CBuffer.length_eq _)]
        exact CBuffer.str?_strcpy _ hlen
  | socket client server =>
      refine ⟨⟨some (strcpySize argv1), client.str.strcpy argv1⟩, ?_, ?_, ?_⟩
      · simp only [trip, socketClient, h, Option.map_some, socketServer, SocPayload.load_encode]
      · intro k hk
        exact (Option.some.inj hk).symm
      · exact CBuffer.str?_strcpy _ hlen
  | fifo readBuf hbuf =>
      refine ⟨⟨none, (CBuffer.zero 20).store (cstr argv1)⟩, ?_, ?_, ?_⟩
      · simp only [trip, fifoP2, h, Option.map_some, fifoP1, hbuf.eq_zero,
          List.take_of_length_le hlen]
      · intro k hk
        cases hk
      · exact CBuffer.str?_store_zero hlen

/-- Between each two of the programs an accepted argument survives exactly if it is shorter than the
arrays, which the check does not ask for. -/
theorem survives_iff (pair : Pair) (h : checked (some argv1) = some argv1) :
    ∃ t, pair.trip (some argv1) = some t ∧ (t.Survives argv1 ↔ (cstr argv1).length < 20) := by
  obtain ⟨t, ht, hcopied, hreceived⟩ := pair.trip_eq h
  refine ⟨t, ht, ?_⟩
  rw [Trip.Survives, hreceived]
  constructor
  · -- At 20 characters the receiver's array is full, with no NUL in it.
    rintro ⟨-, hfound⟩
    by_contra hlen
    rw [if_neg hlen] at hfound
    cases hfound
  · intro hlen
    refine ⟨fun k hk => ?_, if_pos hlen⟩
    rw [hcopied k hk, strcpySize]
    omega

/-- A short message over the queue. -/
theorem survives_iff_hello :
    ∃ t, (Pair.queue ⟨0, .zero 20⟩ ⟨0, .zero 20⟩).trip (some (text "hello")) = some t ∧
      (t.Survives (text "hello") ↔ (cstr (text "hello")).length < 20) :=
  survives_iff _ (by decide)

/-- Twenty characters are accepted. The copies of `queue_p1` and of the socket's client store 21
bytes in arrays of 20, and no receiver finds the end of the string within its own. -/
theorem not_survives :
    checked (some (text "abcdefghijklmnopqrst")) = some (text "abcdefghijklmnopqrst") ∧
      ∀ pair : Pair, ∃ t, pair.trip (some (text "abcdefghijklmnopqrst")) = some t ∧
        (∀ k ∈ t.copied, k = 21) ∧ t.received.str? = none ∧
        ¬ t.Survives (text "abcdefghijklmnopqrst") := by
  have haccepted :
      checked (some (text "abcdefghijklmnopqrst")) = some (text "abcdefghijklmnopqrst") := by decide
  refine ⟨haccepted, fun pair => ?_⟩
  obtain ⟨t, ht, hcopied, hreceived⟩ := pair.trip_eq haccepted
  rw [if_neg (by decide)] at hreceived
  refine ⟨t, ht, hcopied, hreceived, ?_⟩
  rintro ⟨-, hfound⟩
  rw [hreceived] at hfound
  cases hfound

end Trips

end Ipc
