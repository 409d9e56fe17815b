import LinuxPrograms.Driver.Scull

/-!
# Scull: the range that is copied

`scull_read` and `scull_write` at any offset `pread` and `pwrite` let through. The clamp keeps the
rest of the buffer in an `int` and compares it as a `size_t`: past the end of the buffer that rest
is negative or has lost its high bits, and does not bound `count` any more.

- `bytesToCopy_eq_zero_iff`: when the clamp leaves nothing to copy.
- `bounded_iff`: when the range handed to the copy functions lies in the buffer.
-/

namespace Scull

open CInt CString OpenFiles UserCopy

/-- `MAX_RW_COUNT`, to which the kernel cuts the count of every call. -/
def maxRwCount : ℕ := 0x7ffff000

/-- The range of `drv_buff` from `*offp` on that a call hands to its copy function lies in the
buffer. -/
structure Bounded (count : UInt64) (offp : Int64) : Prop where
  nonneg : 0 ≤ (bytesToCopy count offp).toInt
  fits : 0 < (bytesToCopy count offp).toInt → offp.toInt + (bytesToCopy count offp).toInt ≤ 1024
  past : 1024 ≤ offp.toInt → (bytesToCopy count offp).toInt = 0

/-- The offset lies in the buffer, or the clamp leaves nothing to copy: `count` is 0, or the rest
that is computed is 0 in its low 32 bits. -/
def Clamped (count : UInt64) (offp : Int64) : Prop :=
  offp.toInt ≤ 1024 ∨ count = 0 ∨ 2 ^ 32 ∣ 1024 - offp.toInt

section Clamp

variable {count : UInt64} {offp : Int64}

/-- What the clamp amounts to: a negative rest does not bound the count. -/
theorem toInt_bytesToCopy_cases (hcount : count.toNat ≤ maxRwCount) :
    (bytesToCopy count offp).toInt =
      if (maxBytes offp).toInt < 0 then (count.toNat : ℤ)
      else min (count.toNat : ℤ) (maxBytes offp).toInt := by
  rw [maxRwCount] at hcount
  have hkeep : (intOfSize count).toInt = count.toNat := toInt_intOfSize (by omega)
  rw [bytesToCopy]
  split_ifs with hgt hneg hneg
  · -- A negative rest is larger than every count.
    have hlarge := le_toNat_sizeOfInt hneg
    rw [gt_iff_lt, UInt64.lt_iff_toNat_lt] at hgt
    omega
  · -- The count is cut to a rest that is not negative.
    rw [gt_iff_lt, UInt64.lt_iff_toNat_lt, toNat_sizeOfInt (by omega)] at hgt
    omega
  · exact hkeep
  · rw [gt_iff_lt, UInt64.lt_iff_toNat_lt, toNat_sizeOfInt (by omega)] at hgt
    omega

theorem toInt_bytesToCopy_nonneg (offp : Int64) (hcount : count.toNat ≤ maxRwCount) :
    0 ≤ (bytesToCopy count offp).toInt := by
  rw [toInt_bytesToCopy_cases hcount]
  split_ifs <;> omega

/-- The clamp leaves nothing to copy. -/
theorem bytesToCopy_eq_zero_iff (h0 : 0 ≤ offp.toInt) (hcount : count.toNat ≤ maxRwCount) :
    (bytesToCopy count offp).toInt = 0 ↔ count = 0 ∨ 2 ^ 32 ∣ 1024 - offp.toInt := by
  have hlt := offp.toInt_lt
  have hsize : (1024 : Int64).toInt = 1024 := rfl
  -- The `long` difference is exact, and its conversion to `int` keeps the low 32 bits.
  have hmax : (maxBytes offp).toInt = 0 ↔ 2 ^ 32 ∣ 1024 - offp.toInt := by
    rw [maxBytes, toInt_intOfLong_eq_zero, toInt_sub (by omega) (by omega), hsize]
  have hcount0 : count = 0 ↔ count.toNat = 0 := by
    rw [← UInt64.toNat_inj, UInt64.toNat_zero]
  rw [← hmax, hcount0, toInt_bytesToCopy_cases hcount]
  split_ifs <;> omega

/-- A positive number of bytes fits exactly at the offsets inside the buffer. -/
theorem bounded_iff_clamped (h0 : 0 ≤ offp.toInt) (hcount : count.toNat ≤ maxRwCount) :
    Bounded count offp ↔ Clamped count offp := by
  have hzero := bytesToCopy_eq_zero_iff h0 hcount
  constructor
  · intro h
    -- Past the end nothing may be copied, so the clamp must leave nothing.
    by_cases hin : offp.toInt ≤ 1024
    · exact .inl hin
    · exact .inr (hzero.mp (h.past (by omega)))
  · intro h
    refine ⟨toInt_bytesToCopy_nonneg offp hcount, fun hpos => ?_, fun hpast => ?_⟩
    · have hne : ¬ (count = 0 ∨ 2 ^ 32 ∣ 1024 - offp.toInt) := by
        rw [← hzero]
        omega
      have hin : InBuff offp := ⟨h0, h.resolve_right hne⟩
      rw [toInt_bytesToCopy count hin]
      exact offp_add_wanted_le count hin
    · rcases h with hin | hnone
      · rw [toInt_bytesToCopy count ⟨h0, hin⟩, wanted]
        omega
      · exact hzero.mpr hnone

/-- The copy functions are handed a range inside the buffer. -/
theorem inArray_iff_clamped (h0 : 0 ≤ offp.toInt) (hcount : count.toNat ≤ maxRwCount) :
    InArray maxBuffSize offp (sizeOfInt (bytesToCopy count offp)) ↔ Clamped count offp := by
  have hnonneg := toInt_bytesToCopy_nonneg offp hcount
  have hsize := toNat_sizeOfInt hnonneg
  have hbuff : (maxBuffSize : ℤ) = 1024 := rfl
  rw [← bounded_iff_clamped h0 hcount, InArray, ← UInt64.toNat_inj, UInt64.toNat_zero, hsize]
  constructor
  · intro h
    exact ⟨hnonneg, fun hpos => by omega, fun hpast => by omega⟩
  · intro h
    by_cases hpos : 0 < (bytesToCopy count offp).toInt
    · have hfits := h.fits hpos
      exact .inr ⟨h0, by omega⟩
    · exact .inl (by omega)

end Clamp

/-- A copy out of the array has a result exactly if its range lies inside. -/
theorem isSome_scullRead (buff : DrvBuff) (count : UInt64) (offp : Int64) (fault : Option ℕ) :
    (scullRead buff count offp fault).isSome ↔
      InArray maxBuffSize offp (sizeOfInt (bytesToCopy count offp)) := by
  rw [scullRead, copyToUser]
  split_ifs with hin <;> simp [hin]

theorem isSome_scullWrite (buff : DrvBuff) (data : List UInt8) (count : UInt64) (offp : Int64)
    (fault : Option ℕ) : (scullWrite buff data count offp fault).isSome ↔
      InArray maxBuffSize offp (sizeOfInt (bytesToCopy count offp)) := by
  rw [scullWrite, copyFromUser]
  split_ifs with hin <;> simp [hin]

theorem SeqFile.isSome_scullRead (m : SeqFile.Module) (count : UInt64) (offp : Int64)
    (fault : Option ℕ) : (SeqFile.scullRead m count offp fault).isSome ↔
      InArray maxBuffSize offp (sizeOfInt (bytesToCopy count offp)) := by
  rw [← Scull.isSome_scullRead m.drvBuff count offp fault, SeqFile.scullRead]
  cases Scull.scullRead m.drvBuff count offp fault <;> simp

theorem SeqFile.isSome_scullWrite (m : SeqFile.Module) (data : List UInt8) (count : UInt64)
    (offp : Int64) (fault : Option ℕ) : (SeqFile.scullWrite m data count offp fault).isSome ↔
      InArray maxBuffSize offp (sizeOfInt (bytesToCopy count offp)) := by
  rw [← Scull.isSome_scullWrite m.drvBuff data count offp fault, SeqFile.scullWrite]
  cases Scull.scullWrite m.drvBuff data count offp fault <;> simp

/-- A call of any of the modules has a result exactly if its range lies inside the buffer. -/
theorem Driver.isSome_read (d : Driver) (m : d.Module) (count : UInt64) (offp : Int64)
    (fault : Option ℕ) : (d.scullFops.read m count offp fault).isSome ↔
      InArray maxBuffSize offp (sizeOfInt (bytesToCopy count offp)) := by
  cases d with
  | charDriver | procReadCharDriver => exact isSome_scullRead m count offp fault
  | seqFileInterface => exact SeqFile.isSome_scullRead m count offp fault

theorem Driver.isSome_write (d : Driver) (m : d.Module) (data : List UInt8) (count : UInt64)
    (offp : Int64) (fault : Option ℕ) : (d.scullFops.write m data count offp fault).isSome ↔
      InArray maxBuffSize offp (sizeOfInt (bytesToCopy count offp)) := by
  cases d with
  | charDriver | procReadCharDriver => exact isSome_scullWrite m data count offp fault
  | seqFileInterface => exact SeqFile.isSome_scullWrite m data count offp fault

/-- At any offset, `scull_read` and `scull_write` stay inside the buffer exactly if the offset does
or the clamp leaves nothing to copy. -/
theorem bounded_iff {count : UInt64} {offp : Int64} (h0 : 0 ≤ offp.toInt)
    (hcount : count.toNat ≤ maxRwCount) :
    (Bounded count offp ↔ Clamped count offp) ∧
      ∀ (d : Driver) (m : d.Module) (fault : Option ℕ),
        ((d.scullFops.read m count offp fault).isSome ↔ Clamped count offp) ∧
          ∀ data, (d.scullFops.write m data count offp fault).isSome ↔ Clamped count offp := by
  refine ⟨bounded_iff_clamped h0 hcount, fun d m fault => ⟨?_, fun data => ?_⟩⟩
  · rw [d.isSome_read, inArray_iff_clamped h0 hcount]
  · rw [d.isSome_write, inArray_iff_clamped h0 hcount]

/-- Ten bytes at the offset 1025 are taken from behind the buffer. -/
theorem not_bounded : ¬ ∀ (count : UInt64) (offp : Int64), 0 ≤ offp.toInt →
    count.toNat ≤ maxRwCount → Bounded count offp := by
  intro hall
  have hpast := (hall 10 1025 (by decide) (by decide)).past (by decide)
  exact absurd hpast (by decide)

/-- The last ten bytes of the buffer, where 20 are asked for. -/
theorem bounded_iff_last : (Bounded 20 1014 ↔ Clamped 20 1014) ∧
    ∀ (d : Driver) (m : d.Module) (fault : Option ℕ),
      ((d.scullFops.read m 20 1014 fault).isSome ↔ Clamped 20 1014) ∧
        ∀ data, (d.scullFops.write m data 20 1014 fault).isSome ↔ Clamped 20 1014 :=
  bounded_iff (by decide) (by decide)

end Scull
