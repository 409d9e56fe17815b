import LinuxPrograms.Lib.CInt
import LinuxPrograms.Lib.CString
import LinuxPrograms.Lib.FrameStream

/-!
# Multi-client server: payloads

The two structures of `socket_server.c` as they lie in memory: what a client writes to its socket,
and what the readers of the clients write to the pipe.

- `PipePayload.decode_encode`: a payload comes back from its bytes.
-/

namespace SocketServer

open CInt CString

/-- `sock_payload`, as its 24 bytes: `msg_no`, which nothing reads, and behind it `str`. -/
abbrev SockPayload := CBuffer 24

/-- `str` of a `sock_payload`. -/
def strField (p : SockPayload) : CBuffer 20 :=
  ⟨p.bytes.drop 4, by rw [List.length_drop, p.length_eq]⟩

/-- `pipe_payload`. -/
@[ext]
structure PipePayload where
  msgNo : Int32
  clientId : Int32
  str : CBuffer 20
  deriving DecidableEq

namespace PipePayload

/-- The 28 bytes of a `pipe_payload`. -/
def encode (p : PipePayload) : List UInt8 :=
  bytesOfInt p.msgNo ++ bytesOfInt p.clientId ++ p.str.bytes

/-- The `pipe_payload` that 28 bytes are. -/
def decode (b : CBuffer 28) : PipePayload where
  msgNo := intOfBytes (b.bytes.take 4)
  clientId := intOfBytes ((b.bytes.drop 4).take 4)
  str := ⟨b.bytes.drop 8, by rw [List.length_drop, b.length_eq]⟩

/-- `sizeof(pipe_payload)`. -/
theorem length_encode (p : PipePayload) : p.encode.length = 28 := by
  rw [encode, List.length_append, List.length_append, length_bytesOfInt, length_bytesOfInt,
    p.str.length_eq]

/-- A payload comes back from its bytes. -/
@[simp]
theorem decode_encode (p : PipePayload) : decode ⟨p.encode, p.length_encode⟩ = p := by
  have hsecond : p.encode.drop 4 = bytesOfInt p.clientId ++ p.str.bytes := by
    rw [encode, List.append_assoc, List.drop_left' (length_bytesOfInt _)]
  ext1
  · show intOfBytes (p.encode.take 4) = p.msgNo
    rw [encode, List.append_assoc, List.take_left' (length_bytesOfInt _), intOfBytes_bytesOfInt]
  · show intOfBytes ((p.encode.drop 4).take 4) = p.clientId
    rw [hsecond, List.take_left' (length_bytesOfInt _), intOfBytes_bytesOfInt]
  · ext1
    show p.encode.drop 8 = p.str.bytes
    rw [← List.drop_drop (i := 4) (j := 4), hsecond, List.drop_left' (length_bytesOfInt _)]

end PipePayload

end SocketServer
