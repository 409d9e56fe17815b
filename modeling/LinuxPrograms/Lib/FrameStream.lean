import Mathlib.Data.List.Basic

/-!
# Fixed-size frames over a byte stream

A writer that only ever appends whole frames of `n` elements to a FIFO, and a reader that asks
for `n` elements at a time, see a queue of messages. `encode` is the frame of a message.

- `take_stream_cons`, `drop_stream_cons`: a read of `n` elements removes exactly the first
  frame.
- `stream_append_singleton`: writing a frame appends its message.
-/

namespace FrameStream

variable {M α : Type*} {n : ℕ} {encode : M → List α}

/-- The FIFO contents that hold the frames of `ms`, oldest first. -/
def stream (encode : M → List α) (ms : List M) : List α := ms.flatMap encode

/-- How many frames of `n` elements the contents amount to, a partial one counted as one. -/
def frameCount (n : ℕ) (fifo : List α) : ℕ := (fifo.length + (n - 1)) / n

@[simp]
theorem stream_cons (m : M) (ms : List M) :
    stream encode (m :: ms) = encode m ++ stream encode ms := by
  simp [stream]

/-- Writing one more frame appends its message. -/
theorem stream_append_singleton (ms : List M) (m : M) :
    stream encode (ms ++ [m]) = stream encode ms ++ encode m := by
  simp [stream]

variable (hlen : ∀ m, (encode m).length = n)
include hlen

/-- A read of `n` elements returns the first frame. -/
theorem take_stream_cons (m : M) (ms : List M) :
    (stream encode (m :: ms)).take n = encode m := by
  rw [stream_cons, List.take_left' (hlen m)]

/-- A read of `n` elements leaves the frames behind the first. -/
theorem drop_stream_cons (m : M) (ms : List M) :
    (stream encode (m :: ms)).drop n = stream encode ms := by
  rw [stream_cons, List.drop_left' (hlen m)]

end FrameStream
