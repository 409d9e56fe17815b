import Mathlib.Algebra.Ring.Int.Defs
import Mathlib.Algebra.Ring.Nat

/-!
# C integer conversions

The conversions C inserts between `int`, `long long` and the unsigned 64-bit types on a 64-bit
machine with 32-bit `int`: `Int32`, `Int64` and `UInt64` here. Where the value fits the target
type they keep it, and these are the only rules the range arguments need.

- `toNat_sizeOfInt`: an `int` that is not negative, as a `size_t`.
- `toInt_intOfSize`: a `size_t` below `2 ^ 31`, as an `int`.
- `le_toNat_sizeOfInt`, `toInt_intOfLong_eq_zero`: what becomes of the others.
- `toInt_intOfLong`, `toInt_sub`, `toInt_add`: `long long` arithmetic that stays in range.
- `intOfBytes_bytesOfInt`: an `int` comes back from its bytes in memory.
-/

namespace CInt

/-- An `int` where a `size_t` or an `unsigned long` is expected: sign-extended, then reread. -/
def sizeOfInt (i : Int32) : UInt64 := i.toInt64.toUInt64

/-- A `size_t` stored in an `int`: the low 32 bits. -/
def intOfSize (n : UInt64) : Int32 := n.toUInt32.toInt32

/-- A `long long` stored in an `int`: the low 32 bits. -/
def intOfLong (x : Int64) : Int32 := x.toInt32

/-- A nonnegative `int` keeps its value as a `size_t`. -/
theorem toNat_sizeOfInt {i : Int32} (h : 0 ≤ i.toInt) : (sizeOfInt i).toNat = i.toInt.toNat := by
  have hlong : (0 : Int64) ≤ i.toInt64 := by
    rw [Int64.le_iff_toInt_le, Int32.toInt_toInt64]
    exact h
  rw [sizeOfInt, Int64.toNat_toUInt64_of_le hlong, ← Int64.toNat_toInt, Int32.toInt_toInt64]

/-- A negative `int` is a large `size_t`. -/
theorem le_toNat_sizeOfInt {i : Int32} (h : i.toInt < 0) : 2 ^ 63 ≤ (sizeOfInt i).toNat := by
  have hlong : i.toInt64.toBitVec.toInt < 0 := by
    show i.toInt64.toInt < 0
    rwa [Int32.toInt_toInt64]
  have hbits : (sizeOfInt i).toNat = i.toInt64.toBitVec.toNat := rfl
  rw [BitVec.toInt_neg_iff] at hlong
  omega

/-- A `size_t` below `2 ^ 31` keeps its value as an `int`. -/
theorem toInt_intOfSize {n : UInt64} (h : n.toNat < 2 ^ 31) : (intOfSize n).toInt = n.toNat := by
  have hlow : n.toUInt32.toNat = n.toNat := by
    rw [UInt64.toNat_toUInt32, Nat.mod_eq_of_lt (by omega)]
  have hbits : n.toUInt32.toInt32.toBitVec.toNat = n.toNat := by
    rw [UInt32.toBitVec_toInt32, UInt32.toNat_toBitVec, hlow]
  rw [intOfSize, Int32.toInt, BitVec.toInt_eq_toNat_of_lt (by omega), hbits]

/-- A `long long` in the range of `int` keeps its value. -/
theorem toInt_intOfLong {x : Int64} (h₁ : -2 ^ 31 ≤ x.toInt) (h₂ : x.toInt < 2 ^ 31) :
    (intOfLong x).toInt = x.toInt := by
  rw [intOfLong, Int64.toInt_toInt32]
  exact Int.bmod_eq_of_le (by omega) (by omega)

/-- A `long long` becomes the `int` 0 if its low 32 bits are. -/
theorem toInt_intOfLong_eq_zero {x : Int64} : (intOfLong x).toInt = 0 ↔ 2 ^ 32 ∣ x.toInt := by
  rw [intOfLong, Int64.toInt_toInt32, ← Int.dvd_iff_bmod_eq_zero]
  rfl

/-- A `long long` difference in range is exact. -/
theorem toInt_sub {x y : Int64} (h₁ : -2 ^ 63 ≤ x.toInt - y.toInt)
    (h₂ : x.toInt - y.toInt < 2 ^ 63) : (x - y).toInt = x.toInt - y.toInt := by
  rw [Int64.toInt_sub]
  exact Int.bmod_eq_of_le (by omega) (by omega)

/-- A `long long` sum in range is exact. -/
theorem toInt_add {x y : Int64} (h₁ : -2 ^ 63 ≤ x.toInt + y.toInt)
    (h₂ : x.toInt + y.toInt < 2 ^ 63) : (x + y).toInt = x.toInt + y.toInt := by
  rw [Int64.toInt_add]
  exact Int.bmod_eq_of_le (by omega) (by omega)

/-! ### Bytes in memory -/

/-- The four bytes of an `int`, the lowest first. -/
def bytesOfInt (i : Int32) : List UInt8 :=
  let n := i.toUInt32.toNat
  [.ofNat n, .ofNat (n / 2 ^ 8), .ofNat (n / 2 ^ 16), .ofNat (n / 2 ^ 24)]

/-- The `int` that four bytes are. -/
def intOfBytes : List UInt8 → Int32
  | [b₀, b₁, b₂, b₃] =>
      (UInt32.ofNat (b₀.toNat + b₁.toNat * 2 ^ 8 + b₂.toNat * 2 ^ 16 + b₃.toNat * 2 ^ 24)).toInt32
  | _ => 0

@[simp]
theorem length_bytesOfInt (i : Int32) : (bytesOfInt i).length = 4 := rfl

/-- An `int` comes back from its bytes. -/
@[simp]
theorem intOfBytes_bytesOfInt (i : Int32) : intOfBytes (bytesOfInt i) = i := by
  have hlt : i.toUInt32.toNat < 2 ^ 32 := i.toUInt32.toNat_lt
  simp only [bytesOfInt, intOfBytes, UInt8.toNat_ofNat']
  -- The digits of a number to the base `2 ^ 8` add up to it.
  have hsum : i.toUInt32.toNat % 2 ^ 8 + i.toUInt32.toNat / 2 ^ 8 % 2 ^ 8 * 2 ^ 8 +
      i.toUInt32.toNat / 2 ^ 16 % 2 ^ 8 * 2 ^ 16 + i.toUInt32.toNat / 2 ^ 24 % 2 ^ 8 * 2 ^ 24 =
      i.toUInt32.toNat := by
    omega
  rw [hsum, UInt32.ofNat_toNat, Int32.toInt32_toUInt32]

end CInt
