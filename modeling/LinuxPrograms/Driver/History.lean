import LinuxPrograms.Driver.Scull

/-!
# Scull: any history of calls

The device after any sequence of `open`, `scull_read` and `scull_write` calls on any number of
files, in which any copy may stop early.

- `Driver.advances`, `Driver.serves`: the operations fit the rules for open files.
- `calls_defined`: no call on an open file leaves the buffer.
- `scull_accounted`: the buffer is zero but for what the last write stored, each offset is the sum
  of what the file's own calls returned, and a reader gets the buffer from its offset on.
-/

namespace Scull

open CString LabelledSystem OpenFiles UserCopy

namespace Driver

variable (d : Driver)

/-- The states a history of calls leads to. -/
abbrev Reaches (tr : List Event) (s : State d.Module) : Prop :=
  OpenFiles.Reaches d.scullFops d.setupCharModule tr s

/-- `open` of any of the modules makes a file with the offset 0. -/
theorem step_openDev (s : State d.Module) :
    step d.scullFops s .openDev = some (⟨s.dev, s.pos ++ [0]⟩, .opened s.pos.length) := by
  cases d <;> rfl

/-- A copy gets at most what was wanted across. -/
theorem length_across_le (fault : Option ℕ) (bytes : List UInt8) (n : ℕ) :
    (across fault (bytes.take n)).length ≤ n :=
  (isPrefix_across fault _).length_le.trans (List.length_take_le n bytes)

/-- An offset moved by no more than what was wanted stays in the buffer. -/
theorem inBuff_of_add {count : UInt64} {offp offp' : Int64} {k : ℕ} (hoff : InBuff offp)
    (hk : k ≤ wanted count offp) (hadd : offp'.toInt = offp.toInt + k) : InBuff offp' := by
  have hfit := offp_add_wanted_le count hoff
  obtain ⟨h0, -⟩ := hoff
  exact ⟨by omega, by omega⟩

/-- The calls move the offset by what they return, within the buffer. -/
theorem advances : Advances d.scullFops 1024 where
  read := by
    intro m count offp fault r bytes hoff hread
    obtain ⟨r', hread', -, hret, hoffp⟩ := d.read_spec m count fault hoff rfl
    obtain ⟨rfl, -⟩ := Prod.mk.inj (Option.some.inj (hread'.symm.trans hread))
    rw [hret]
    exact ⟨inBuff_of_add hoff (length_across_le fault _ _) hoffp, hoffp⟩
  write := by
    intro m data count offp fault r hoff hwrite
    obtain ⟨r', hwrite', -, hret, hoffp⟩ :=
      d.write_spec m data count fault hoff rfl
    obtain rfl := Option.some.inj (hwrite'.symm.trans hwrite)
    rw [hret]
    exact ⟨inBuff_of_add hoff (length_across_le fault _ _) hoffp, hoffp⟩

/-- The bytes wanted at an offset are all there are from it on, or the first `count` of them. -/
theorem take_wanted (buff : DrvBuff) (count : UInt64) (offp : Int64) :
    (buff.bytes.drop offp.toInt.toNat).take (wanted count offp) =
      (buff.bytes.drop offp.toInt.toNat).take count.toNat := by
  have hlen : (buff.bytes.drop offp.toInt.toNat).length = 1024 - offp.toInt.toNat := by
    rw [List.length_drop, buff.length_eq]
  rw [wanted, ← hlen, ← List.take_eq_take_min]

/-- `scull_read` hands out the buffer and changes nothing. -/
theorem serves : Serves d.scullFops fun m => (d.drvBuff m).bytes where
  openDev := by
    intro m
    cases d <;> rfl
  read_dev := d.read_dev
  read := by
    intro m count offp r bytes hoff hread
    rw [(d.drvBuff m).length_eq] at hoff
    obtain ⟨r', hread', -, hret, -⟩ := d.read_spec m count none hoff rfl
    obtain ⟨rfl, rfl⟩ := Prod.mk.inj (Option.some.inj (hread'.symm.trans hread))
    exact ⟨take_wanted _ _ _, hret⟩

/-- Every offset a history of calls leads to lies in the buffer, and is what the calls returned. -/
theorem inBuff_of_reaches {tr : List Event} {s : State d.Module} (h : d.Reaches tr s) {file : ℕ}
    {off : Int64} (hpos : s.pos[file]? = some off) :
    InBuff off ∧ off.toInt = returned file tr := by
  rw [InBuff, ← State.offset_eq hpos]
  exact d.advances.offset_eq_returned h file

/-- A call on an open file has a result: the range it hands to the copy function lies in the
buffer. -/
theorem calls_defined {tr : List Event} {s : State d.Module} (h : d.Reaches tr s) (file : ℕ)
    (hfile : file < s.pos.length) (count : UInt64) (fault : Option ℕ) :
    (step d.scullFops s (.read file count fault)).isSome ∧
      ∀ data, (step d.scullFops s (.write file data count fault)).isSome := by
  have hpos : s.pos[file]? = some s.pos[file] := List.getElem?_eq_getElem hfile
  have hoff := (d.inBuff_of_reaches h hpos).1
  constructor
  · obtain ⟨r, hread, -⟩ := d.read_spec s.dev count fault hoff rfl
    simp [step, hpos, hread]
  · intro data
    obtain ⟨r, hwrite, -⟩ :=
      d.write_spec s.dev data count fault hoff rfl
    simp [step, hpos, hwrite]

end Driver

/-- The buffer is zero but for the `n` bytes from `o` on, which are the first of `data`. -/
structure Stores (buff : DrvBuff) (o : ℤ) (data : List UInt8) (n : ℤ) : Prop where
  offset_nonneg : 0 ≤ o
  count_nonneg : 0 ≤ n
  fits : o + n ≤ 1024
  has : n ≤ data.length
  bytes : buff.bytes = List.replicate o.toNat 0 ++ data.take n.toNat ++
    List.replicate (1024 - (o + n)).toNat 0

/-- The calls `tr` account for the state `s` of the device and its open files. -/
structure Accounted (d : Driver) (tr : List Event) (s : State d.Module) : Prop where
  /-- Without a write the buffer is all zero. -/
  unwritten : (∀ e ∈ tr, e.isWrite = false) → d.drvBuff s.dev = .zero maxBuffSize
  /-- The last write returned `n` and left the first `n` bytes of its data at the offset `o` its
  file had then. -/
  written : ∀ pre file data count fault o n post,
    tr = pre ++ .wrote file data count fault o n :: post → (∀ e ∈ post, e.isWrite = false) →
      o.toInt = returned file pre ∧ Stores (d.drvBuff s.dev) o.toInt data n.toInt
  /-- The offset of a file is the sum of what its reads and writes returned. -/
  offset : ∀ file off, s.pos[file]? = some off → off.toInt = returned file tr
  /-- A read that does not fault returns what there is from the offset on, `count` bytes at most. -/
  read : ∀ file off count, s.pos[file]? = some off →
    ∃ n t, step d.scullFops s (.read file count none) = some (t, .read file count none off n
        (((d.drvBuff s.dev).bytes.drop off.toInt.toNat).take
          (min count.toNat (1024 - off.toInt.toNat)))) ∧
      n.toInt = min (count.toNat : ℤ) (1024 - off.toInt)
  /-- A reader that goes on in any chunks until 0 is returned gets the rest of the buffer. -/
  rest : ∀ file off tr' t, s.pos[file]? = some off → Run (Step d.scullFops) s tr' t →
    (∀ e ∈ tr', e.isWrite = false) → (∀ e ∈ tr', e.faults file = false) →
      (∃ e ∈ tr', e.atEnd file = true) →
        delivered file tr' = (d.drvBuff s.dev).bytes.drop off.toInt.toNat

/-- What `scull_write` leaves behind of the data it was given. -/
theorem stores_of_write {d : Driver} {m : d.Module} {data : List UInt8} {count : UInt64}
    {offp : Int64} {fault : Option ℕ} {r : Result d.Module} (hoff : InBuff offp)
    (h : d.scullFops.write m data count offp fault = some r) :
    Stores (d.drvBuff r.dev) offp.toInt data r.ret.toInt := by
  obtain ⟨r', hwrite, hbytes, hret, -⟩ :=
    d.write_spec m data count fault hoff rfl
  obtain rfl := Option.some.inj (hwrite.symm.trans h)
  generalize hgot : across fault (data.take (wanted count offp)) = got at hbytes hret
  -- What the copy got is a prefix of the data, and fits the buffer.
  have hpre : got <+: data := by
    rw [← hgot]
    exact (isPrefix_across fault _).trans (List.take_prefix _ data)
  have hlen : got.length ≤ wanted count offp := by
    rw [← hgot]
    exact Driver.length_across_le fault data _
  have hfit := offp_add_wanted_le count hoff
  have hnonneg := hoff.1
  rw [hret]
  refine ⟨hnonneg, by omega, by omega, by exact_mod_cast hpre.length_le, ?_⟩
  have hrest : (1024 - (offp.toInt + got.length)).toNat =
      1024 - (offp.toInt.toNat + got.length) := by
    omega
  rw [hbytes, hrest, Int.toNat_natCast, ← List.prefix_iff_eq_take.mp hpre]

/-- Any sequence of calls accounts for the state of the device it leads to. -/
theorem scull_accounted (d : Driver) {tr : List Event} {s : State d.Module}
    (h : d.Reaches tr s) : Accounted d tr s := by
  have hlen : (d.drvBuff s.dev).bytes.length = 1024 := (d.drvBuff s.dev).length_eq
  constructor
  case unwritten =>
    intro hquiet
    rw [d.serves.dev_eq h hquiet]
    cases d <;> rfl
  case written =>
    rintro pre file data count fault o n post rfl hquiet
    -- Behind the write nothing changes the buffer.
    obtain ⟨t, t', hpre, hstep, hpost⟩ := h.step_at
    obtain ⟨hpos, r, hwrite, rfl, rfl⟩ := step_iff.mp hstep
    obtain ⟨hoff, hsum⟩ := d.inBuff_of_reaches hpre hpos
    rw [d.serves.dev_eq hpost hquiet]
    exact ⟨hsum, stores_of_write hoff hwrite⟩
  case offset =>
    intro file off hpos
    exact (d.inBuff_of_reaches h hpos).2
  case read =>
    intro file off count hpos
    have hoff := (d.inBuff_of_reaches h hpos).1
    obtain ⟨r, hread, -, hret, -⟩ :=
      d.read_spec s.dev count none hoff rfl
    refine ⟨r.ret, ⟨r.dev, s.pos.set file r.offp⟩, ?_, ?_⟩
    · simp only [step, hpos, Option.bind_eq_bind, Option.bind_some, hread]
      rfl
    · obtain ⟨h0, h1⟩ := hoff
      rw [hret, across, List.length_take, List.length_drop, hlen, wanted]
      omega
  case rest =>
    intro file off tr' t hpos hrun hquiet hfault hend
    have hin : ∀ file, Within 1024 (s.offset file) :=
      fun file => (d.advances.offset_eq_returned h file).1
    obtain ⟨-, hbytes, hdone⟩ :=
      delivered_eq d.serves (hlen.symm ▸ d.advances) hrun (hlen.symm ▸ hin) hquiet hfault
    have hnow := hdone hend
    rw [hbytes, State.offset_eq hpos, hnow, List.take_of_length_le]
    rw [List.length_drop]
    omega

/-- Two files of the proc driver: a write of three bytes through the first, a write of `hey`
through the second that faults after two, and the rest read through the first. -/
theorem scull_accounted_shared :
    ∃ tr s, Driver.seqFileInterface.Reaches tr s ∧ returned 1 tr = 2 ∧
      Accounted .seqFileInterface tr s := by
  have hrun := run_play (step SeqFile.scullFops) (.loaded SeqFile.setupCharModule)
    [.openDev, .openDev, .write 0 [100, 101, 102] 3 none, .write 1 [104, 101, 121] 3 (some 2),
      .read 0 2000 none]
  exact ⟨_, _, hrun, by decide +kernel, scull_accounted .seqFileInterface hrun⟩

end Scull
