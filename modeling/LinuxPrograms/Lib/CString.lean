import Mathlib.Data.List.Infix

/-!
# C character arrays and strings

A `char` array of `n` bytes is a byte list of that length, `CBuffer n`; the string it holds is
the bytes before its first NUL. The functions of `string.h` the programs call are given on
these two.

- `str_strcpy`, `str_sprintf`: a string shorter than the array comes back from it whole.
- `store_of_length_eq`: storing as many bytes as the array has replaces all of it.
- `bytes_overwrite`: storing bytes from some place on replaces those and no others.
-/

namespace CString

/-- The bytes of a string literal, one `char` a character. -/
def text (s : String) : List UInt8 := s.toList.map fun c => UInt8.ofNat c.toNat

/-- The C string that starts at the first byte: what precedes the first NUL. -/
def cstr (bytes : List UInt8) : List UInt8 := bytes.takeWhile (· ≠ 0)

/-- `strstr(haystack, needle)` finds an occurrence. -/
def strstr (haystack needle : List UInt8) : Bool := decide (cstr needle <:+: cstr haystack)

/-- A `char` array of `n` bytes. -/
@[ext]
structure CBuffer (n : ℕ) where
  /-- The bytes of the array. -/
  bytes : List UInt8
  /-- The array has exactly `n` of them. -/
  length_eq : bytes.length = n
  deriving DecidableEq

variable {n : ℕ}

namespace CBuffer

/-- The array `{0}`. -/
def zero (n : ℕ) : CBuffer n := ⟨List.replicate n 0, List.length_replicate⟩

/-- `memset(buf, c, n)`: every byte of the array is `c`. -/
def memset (_ : CBuffer n) (c : UInt8) : CBuffer n := ⟨List.replicate n c, List.length_replicate⟩

/-- The array after `data` is stored from its first byte on; what does not fit is cut off. -/
def store (b : CBuffer n) (data : List UInt8) : CBuffer n :=
  ⟨(data ++ b.bytes.drop data.length).take n, by
    rw [List.length_take, List.length_append, List.length_drop, b.length_eq]
    omega⟩

/-- The array after `data` is stored from the byte `i` on; what does not fit is cut off. -/
def overwrite (b : CBuffer n) (i : ℕ) (data : List UInt8) : CBuffer n :=
  ⟨(b.bytes.take i ++ data ++ b.bytes.drop (i + data.length)).take n, by
    rw [List.length_take, List.length_append, List.length_append, List.length_take,
      List.length_drop, b.length_eq]
    omega⟩

/-- `strncpy(buf, src, n)`: the string of `src`, cut at `n` bytes and padded with NUL. -/
def strncpy (n : ℕ) (src : List UInt8) : CBuffer n :=
  ⟨(cstr src ++ List.replicate n 0).take n, by simp⟩

/-- `sprintf(buf, ..)` with the formatted string `text`, its NUL included. -/
def sprintf (b : CBuffer n) (text : List UInt8) : CBuffer n := b.store (text ++ [0])

/-- `strcpy(buf, src)` of a string that fits, its NUL included. -/
def strcpy (b : CBuffer n) (src : List UInt8) : CBuffer n := b.store (cstr src ++ [0])

/-- The string the array holds. -/
def str (b : CBuffer n) : List UInt8 := cstr b.bytes

/-- The string found within the array: there is none where no NUL ends it. -/
def str? (b : CBuffer n) : Option (List UInt8) := if 0 ∈ b.bytes then some b.str else none

/-- Storing as many bytes as the array has replaces all of it. -/
theorem store_of_length_eq (b : CBuffer n) {data : List UInt8} (h : data.length = n) :
    b.store data = ⟨data, h⟩ := by
  ext1
  simp [store, h, b.length_eq, List.drop_eq_nil_of_le]

/-- Storing nothing changes nothing. -/
@[simp]
theorem store_nil (b : CBuffer n) : b.store [] = b := by
  ext1
  simp [store, b.length_eq]

/-- What fits the array replaces its first bytes. -/
theorem bytes_store {b : CBuffer n} {data : List UInt8} (h : data.length ≤ n) :
    (b.store data).bytes = data ++ b.bytes.drop data.length := by
  apply List.take_of_length_le
  rw [List.length_append, List.length_drop, b.length_eq]
  omega

/-- What fits the array replaces the bytes in its place and no others. -/
theorem bytes_overwrite (b : CBuffer n) {i : ℕ} {data : List UInt8} (h : i + data.length ≤ n) :
    (b.overwrite i data).bytes = b.bytes.take i ++ data ++ b.bytes.drop (i + data.length) := by
  apply List.take_of_length_le
  rw [List.length_append, List.length_append, List.length_take, List.length_drop, b.length_eq]
  omega

/-- An array set to NUL is the array `{0}`. -/
@[simp]
theorem memset_zero (b : CBuffer n) : b.memset 0 = zero n := rfl

/-- What fits a cleared array stands between NULs. -/
theorem bytes_overwrite_zero {i : ℕ} {data : List UInt8} (h : i + data.length ≤ n) :
    ((zero n).overwrite i data).bytes =
      List.replicate i 0 ++ data ++ List.replicate (n - (i + data.length)) 0 := by
  have hzero : (zero n).bytes = List.replicate n 0 := rfl
  rw [bytes_overwrite _ h, hzero, List.take_replicate, List.drop_replicate,
    Nat.min_eq_left (by omega)]

end CBuffer

/-- A string without NUL, followed by one, ends there. -/
theorem cstr_append_zero {s r : List UInt8} (hs : 0 ∉ s) : cstr (s ++ 0 :: r) = s := by
  have hne : ∀ a ∈ s, decide (a ≠ 0) = true := by
    intro a ha
    rw [decide_eq_true_iff]
    rintro rfl
    exact hs ha
  rw [cstr, List.takeWhile_append_of_pos hne]
  simp

/-- NULs at the end do not change the string. -/
theorem cstr_append_replicate_zero (bytes : List UInt8) (k : ℕ) :
    cstr (bytes ++ List.replicate k 0) = cstr bytes := by
  have hnul : (List.replicate k (0 : UInt8)).takeWhile (· ≠ 0) = [] := by
    rw [List.takeWhile_replicate]
    rfl
  rw [cstr, List.takeWhile_append, hnul, List.append_nil, cstr]
  -- Either the string fills `bytes` or it ends inside.
  split <;> rename_i h
  · exact ((List.takeWhile_prefix _).eq_of_length h).symm
  · rfl

/-- A C string holds no NUL. -/
theorem zero_notMem_cstr (bytes : List UInt8) : 0 ∉ cstr bytes := by
  intro h
  have hall := List.all_eq_true.mp (List.all_takeWhile (p := fun c => decide (c ≠ 0)) (l := bytes))
  simpa using hall 0 h

/-- An array longer than a string holds it exactly if it begins with it and its NUL. -/
theorem cstr_eq_iff {s bytes : List UInt8} (hs : 0 ∉ s) (h : s.length < bytes.length) :
    cstr bytes = s ↔ s ++ [0] <+: bytes := by
  constructor
  · -- By induction on the array, up to its first NUL.
    rintro rfl
    clear hs
    induction bytes with
    | nil => exact absurd h (Nat.lt_irrefl _)
    | cons c rest ih =>
        rcases eq_or_ne c 0 with rfl | hc
        · exact ⟨rest, rfl⟩
        · have hcons : cstr (c :: rest) = c :: cstr rest := List.takeWhile_cons_of_pos (by simpa)
          rw [hcons, List.length_cons, List.length_cons] at h
          rw [hcons, List.cons_append]
          exact List.cons_prefix_cons.mpr ⟨rfl, ih (by omega)⟩
  · rintro ⟨rest, rfl⟩
    rw [List.append_assoc, List.singleton_append, cstr_append_zero hs]

/-- A string that ends inside the array is shorter than it. -/
theorem length_cstr_lt {bytes : List UInt8} (h : 0 ∈ bytes) :
    (cstr bytes).length < bytes.length := by
  have hpre : cstr bytes <+: bytes := List.takeWhile_prefix _
  refine lt_of_le_of_ne hpre.length_le fun heq => ?_
  rw [← hpre.eq_of_length heq] at h
  exact zero_notMem_cstr bytes h

/-- A string copied to an array it fits is held by it whole. -/
theorem CBuffer.str_strcpy (b : CBuffer n) {src : List UInt8} (h : (cstr src).length < n) :
    (b.strcpy src).str = cstr src := by
  rw [strcpy, str, bytes_store (by rw [List.length_append, List.length_singleton]; omega),
    List.append_assoc, List.singleton_append, cstr_append_zero (zero_notMem_cstr src)]

/-- A string at the front of the array, its NUL behind it, is found there. -/
theorem CBuffer.str?_eq_some {b : CBuffer n} {src : List UInt8}
    (hb : cstr src ++ [0] <+: b.bytes) : b.str? = some (cstr src) := by
  obtain ⟨rest, hrest⟩ := hb
  rw [List.append_assoc, List.singleton_append] at hrest
  rw [str?, str, if_pos (by rw [← hrest]; simp), ← hrest, cstr_append_zero (zero_notMem_cstr src)]

/-- A string of the length of the array leaves no room for the NUL. -/
theorem CBuffer.str?_eq_none {b : CBuffer n} {src : List UInt8} (hb : b.bytes = cstr src) :
    b.str? = none := by
  rw [str?, if_neg]
  rw [hb]
  exact zero_notMem_cstr src

/-- `strcpy` leaves the string to be found exactly if it is shorter than the array. -/
theorem CBuffer.str?_strcpy (b : CBuffer n) {src : List UInt8} (h : (cstr src).length ≤ n) :
    (b.strcpy src).str? = if (cstr src).length < n then some (cstr src) else none := by
  split_ifs with hlt
  · refine str?_eq_some ?_
    rw [strcpy, bytes_store (by rw [List.length_append, List.length_singleton]; omega)]
    exact List.prefix_append _ _
  · -- What does not fit is the NUL.
    have hlen : (cstr src).length = n := by omega
    have hfull : (b.strcpy src).bytes = cstr src := by simp [strcpy, store, hlen]
    exact str?_eq_none hfull

/-- So does a plain copy to a cleared array. -/
theorem CBuffer.str?_store_zero {src : List UInt8} (h : (cstr src).length ≤ n) :
    ((zero n).store (cstr src)).str? = if (cstr src).length < n then some (cstr src) else none := by
  have hbytes : ((zero n).store (cstr src)).bytes =
      cstr src ++ List.replicate (n - (cstr src).length) 0 := by
    rw [bytes_store h, zero, List.drop_replicate]
  split_ifs with hlt
  · refine str?_eq_some ?_
    obtain ⟨k, hk⟩ := Nat.exists_eq_succ_of_ne_zero (Nat.sub_ne_zero_of_lt hlt)
    exact ⟨List.replicate k 0, by rw [hbytes, hk, List.replicate_succ]; simp⟩
  · have hlen : (cstr src).length = n := by omega
    have hfull : ((zero n).store (cstr src)).bytes = cstr src := by
      rw [hbytes, hlen, Nat.sub_self]
      exact List.append_nil _
    exact str?_eq_none hfull

/-- Concatenated texts. -/
theorem text_append (s t : String) : text (s ++ t) = text s ++ text t := by
  simp [text]

/-- A text has a byte a character. -/
theorem length_text (s : String) : (text s).length = s.length := by
  rw [text, List.length_map, String.length_toList]

/-- A decimal number has a byte a digit. -/
theorem length_text_repr (k : ℕ) : (text k.repr).length = (Nat.toDigits 10 k).length := by
  rw [text, List.length_map, Nat.toList_repr]

/-- A decimal number holds no NUL. -/
theorem zero_notMem_text_repr (k : ℕ) : 0 ∉ text k.repr := by
  intro h
  rw [text, Nat.toList_repr, List.mem_map] at h
  obtain ⟨c, hc, hzero⟩ := h
  have hdigit := Char.isDigit_iff_toNat.mp (Nat.isDigit_of_mem_toDigits (by decide) (by decide) hc)
  have hlow : 48 ≤ c.toNat := hdigit.1
  have hhigh : c.toNat ≤ 57 := hdigit.2
  -- The byte of a digit is between 48 and 57.
  have hval := congrArg UInt8.toNat hzero
  rw [UInt8.toNat_ofNat', UInt8.toNat_zero] at hval
  omega

/-- A formatted string shorter than the array is held by it whole. -/
theorem CBuffer.str_sprintf (b : CBuffer n) {s : List UInt8} (hs : 0 ∉ s) (h : s.length < n) :
    (b.sprintf s).str = s := by
  rw [sprintf, str, bytes_store (by rw [List.length_append, List.length_singleton]; omega),
    List.append_assoc, List.singleton_append, cstr_append_zero hs]

end CString
