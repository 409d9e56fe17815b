import LinuxPrograms.Lib.CInt
import LinuxPrograms.Lib.CString

/-!
# Copies between a kernel array and user memory

`copy_to_user` and `copy_from_user` with one side in a kernel array of `size` bytes. A copy may
stop at a page that is not there: it then has got a prefix across and returns how many bytes are
left. The range of the array a caller hands over is not checked by them; a range that leaves the
array is a wild access, and has no result here.

- `copyToUser_of_le`, `copyFromUser_zero`: a copy out of a range inside the array, and one into a
  range of a cleared array.
- `toInt_copied`: what the caller makes of the number of bytes left.
-/

namespace UserCopy

open CInt CString

variable {size : ℕ}

/-- The `n` bytes from `off` on, if there are any, lie in an array of `size` bytes. -/
def InArray (size : ℕ) (off : Int64) (n : UInt64) : Prop :=
  n = 0 ∨ 0 ≤ off.toInt ∧ off.toInt + n.toNat ≤ size

instance (size : ℕ) (off : Int64) (n : UInt64) : Decidable (InArray size off n) :=
  inferInstanceAs (Decidable (_ ∨ _ ∧ _))

/-- What gets across of `bytes`: all of it, or only the first `k` bytes if the copy faults
there. -/
def across : Option ℕ → List UInt8 → List UInt8
  | none, bytes => bytes
  | some k, bytes => bytes.take k

/-- `copy_to_user(to, arr + off, n)`: the bytes that arrive and the number of those left. -/
def copyToUser (arr : CBuffer size) (off : Int64) (n : UInt64) (fault : Option ℕ) :
    Option (List UInt8 × UInt64) :=
  if InArray size off n then
    let sent := across fault ((arr.bytes.drop off.toInt.toNat).take n.toNat)
    some (sent, UInt64.ofNat (n.toNat - sent.length))
  else none

/-- `copy_from_user(arr + off, from, n)`: the array afterwards and the number of bytes left.
`data` is the user memory that can be read at `from`; the rest of the range is zeroed. -/
def copyFromUser (arr : CBuffer size) (off : Int64) (data : List UInt8) (n : UInt64)
    (fault : Option ℕ) : Option (CBuffer size × UInt64) :=
  if InArray size off n then
    let got := across fault (data.take n.toNat)
    let left := n.toNat - got.length
    some (arr.overwrite off.toInt.toNat (got ++ List.replicate left 0), UInt64.ofNat left)
  else none

theorem isPrefix_across (fault : Option ℕ) (bytes : List UInt8) : across fault bytes <+: bytes := by
  cases fault with
  | none => exact List.prefix_rfl
  | some k => exact List.take_prefix k bytes

/-- What a caller computes from the number of bytes left is the number of those copied. -/
theorem toInt_copied {want : Int32} {k : ℕ} (hk : k ≤ want.toInt) :
    (intOfSize (sizeOfInt want - UInt64.ofNat ((sizeOfInt want).toNat - k))).toInt = k := by
  have hwant : (sizeOfInt want).toNat = want.toInt.toNat := toNat_sizeOfInt (by omega)
  have hmax := want.toInt_lt
  have hleft : (UInt64.ofNat ((sizeOfInt want).toNat - k)).toNat = want.toInt.toNat - k := by
    rw [UInt64.toNat_ofNat_of_lt' (by rw [hwant, UInt64.size]; omega), hwant]
  have hsub : (sizeOfInt want - UInt64.ofNat ((sizeOfInt want).toNat - k)).toNat = k := by
    rw [UInt64.toNat_sub_of_le _ _ (by rw [UInt64.le_iff_toNat_le, hleft, hwant]; omega), hleft,
      hwant]
    omega
  rw [toInt_intOfSize (by omega), hsub]

/-- A copy out of a range inside the array. -/
theorem copyToUser_of_le {arr : CBuffer size} {off : Int64} {n : UInt64} {fault : Option ℕ}
    (h0 : 0 ≤ off.toInt) (hn : off.toInt + n.toNat ≤ size) {sent : List UInt8}
    (hsent : sent = across fault ((arr.bytes.drop off.toInt.toNat).take n.toNat)) :
    copyToUser arr off n fault = some (sent, UInt64.ofNat (n.toNat - sent.length)) := by
  have hin : InArray size off n := Or.inr ⟨h0, hn⟩
  rw [copyToUser, if_pos hin, hsent]

/-- A copy into a range of a cleared array: what got across stands between NULs. -/
theorem copyFromUser_zero {off : Int64} {data : List UInt8} {n : UInt64} {fault : Option ℕ}
    (h0 : 0 ≤ off.toInt) (hn : off.toInt + n.toNat ≤ size) {got : List UInt8}
    (hgot : got = across fault (data.take n.toNat)) :
    ∃ arr, copyFromUser (.zero size) off data n fault =
        some (arr, UInt64.ofNat (n.toNat - got.length)) ∧
      arr.bytes = List.replicate off.toInt.toNat 0 ++ got ++
        List.replicate (size - (off.toInt.toNat + got.length)) 0 := by
  have hlen : got.length ≤ n.toNat := by
    rw [hgot]
    exact (isPrefix_across fault _).length_le.trans (List.length_take_le _ _)
  have hin : InArray size off n := Or.inr ⟨h0, hn⟩
  refine ⟨_, by rw [copyFromUser, if_pos hin, ← hgot], ?_⟩
  have hrange : (got ++ List.replicate (n.toNat - got.length) (0 : UInt8)).length = n.toNat := by
    rw [List.length_append, List.length_replicate]
    omega
  rw [CBuffer.bytes_overwrite_zero (by omega), hrange, ← List.append_assoc, List.append_assoc,
    List.replicate_append_replicate]
  congr 2
  omega

end UserCopy
