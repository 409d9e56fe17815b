import LinuxPrograms.Driver.History

/-!
# Scull: writing in pieces

Data written piece by piece through one open file. Every `scull_write` clears the buffer before it
stores its own bytes, so that only the last piece is found in the device afterwards, at its place;
the offset is the one a single write leaves.

- `exec_writeAll`: the state after the pieces.
- `write_pieces_iff`: when that is what a single write of all the data leaves.
-/

namespace Scull

open CString LabelledSystem OpenFiles UserCopy

/-- The calls of a program that opens the device and writes the pieces one after the other. The new
file is the one with the number `file`. -/
def writeAll (file : ℕ) (pieces : List (List UInt8)) : List Call :=
  pieces.map fun piece => .write file piece (UInt64.ofNat piece.length) none

/-- The whole program: `open`, and then the pieces. -/
def openAndWrite {σ : Type} (s : State σ) (pieces : List (List UInt8)) : List Call :=
  .openDev :: writeAll s.pos.length pieces

/-- The buffer with `data` at the place `o` and zeros elsewhere. -/
def placed (o : ℕ) (data : List UInt8) : List UInt8 :=
  List.replicate o 0 ++ data ++ List.replicate (1024 - (o + data.length)) 0

section Pieces

variable {d : Driver} {s : State d.Module} {file : ℕ} {off : Int64} {o : ℕ}

/-- One piece that fits behind the offset is stored whole, and the rest of the buffer cleared. -/
theorem step_writePiece (piece : List UInt8) (hpos : s.pos[file]? = some off) (ho : off.toInt = o)
    (hfit : o + piece.length ≤ 1024) :
    ∃ (m : d.Module) (off' : Int64) (e : Event),
      step d.scullFops s (.write file piece (UInt64.ofNat piece.length) none) =
        some (⟨m, s.pos.set file off'⟩, e) ∧
      (d.drvBuff m).bytes = placed o piece ∧ off'.toInt = (o + piece.length : ℕ) := by
  have hin : InBuff off := ⟨by omega, by omega⟩
  have hcount : (UInt64.ofNat piece.length).toNat = piece.length :=
    UInt64.toNat_ofNat_of_lt' (by rw [UInt64.size]; omega)
  have hwanted : wanted (UInt64.ofNat piece.length) off = piece.length := by
    rw [wanted, hcount]
    omega
  have hgot : piece = across none (piece.take (wanted (UInt64.ofNat piece.length) off)) := by
    rw [hwanted, List.take_length, across]
  obtain ⟨r, hwrite, hbytes, -, hoffp⟩ := d.write_spec s.dev piece _ none hin hgot
  refine ⟨r.dev, r.offp, .wrote file piece (UInt64.ofNat piece.length) none off r.ret, ?_, ?_, ?_⟩
  · simp only [step, hpos, Option.bind_eq_bind, Option.bind_some, hwrite]
  · rw [hbytes, ho, Int.toNat_natCast]
    rfl
  · rw [hoffp, ho, Int.natCast_add]

/-- After pieces that fit behind the offset, the offset has moved by all of them and the device
holds the last one. -/
theorem exec_writeAll (pieces : List (List UInt8)) (hpos : s.pos[file]? = some off)
    (ho : off.toInt = o) (hfit : o + pieces.flatten.length ≤ 1024) :
    ∃ (t : State d.Module) (tr : List Event) (off' : Int64),
      exec (step d.scullFops) s (writeAll file pieces) = some (t, tr) ∧
      t.pos = s.pos.set file off' ∧ off'.toInt = (o + pieces.flatten.length : ℕ) ∧
      (pieces = [] → t.dev = s.dev) ∧
      ∀ before last, pieces = before ++ [last] →
        (d.drvBuff t.dev).bytes = placed (o + before.flatten.length) last := by
  induction pieces generalizing s off o with
  | nil =>
      obtain ⟨hfile, rfl⟩ := List.getElem?_eq_some_iff.mp hpos
      refine ⟨s, [], _, rfl, (List.set_getElem_self hfile).symm, ho, fun _ => rfl, ?_⟩
      intro before last hsplit
      simp at hsplit
  | cons piece rest ih =>
      rw [List.flatten_cons, List.length_append] at hfit
      have hfirst : o + piece.length ≤ 1024 := by omega
      obtain ⟨m, off₁, e, hstep, hbytes, hoff₁⟩ := step_writePiece piece hpos ho hfirst
      obtain ⟨hfile, -⟩ := List.getElem?_eq_some_iff.mp hpos
      obtain ⟨t, tr, off', hexec, htpos, hoff', hnone, hlast⟩ :=
        ih (s := ⟨m, s.pos.set file off₁⟩) (List.getElem?_set_self hfile) hoff₁ (by omega)
      refine ⟨t, e :: tr, off', ?_, ?_, ?_, nofun, ?_⟩
      · rw [writeAll, List.map_cons, exec, hstep]
        change (exec _ _ (writeAll file rest)).map _ = _
        rw [hexec, Option.map_some]
      · rw [htpos, List.set_set]
      · rw [hoff', List.flatten_cons, List.length_append, Nat.add_assoc]
      · intro before last hsplit
        rcases List.cons_eq_append_iff.mp hsplit with ⟨rfl, hrest⟩ | ⟨before', rfl, hrest⟩
        · -- The piece is the last one.
          obtain ⟨rfl, rfl⟩ := List.cons_eq_cons.mp hrest
          rw [hnone rfl, hbytes]
          rfl
        · rw [hlast before' last hrest, List.flatten_cons, List.length_append, Nat.add_assoc]

/-- The program that opens the device and writes the pieces. -/
theorem exec_openAndWrite (s : State d.Module) (pieces : List (List UInt8))
    (hfit : pieces.flatten.length ≤ 1024) :
    ∃ (t : State d.Module) (tr : List Event) (off : Int64),
      exec (step d.scullFops) s (openAndWrite s pieces) = some (t, tr) ∧
      t.pos = s.pos ++ [off] ∧ off.toInt = pieces.flatten.length ∧
      (pieces = [] → t.dev = s.dev) ∧
      ∀ before last, pieces = before ++ [last] →
        (d.drvBuff t.dev).bytes = placed before.flatten.length last := by
  have hpos : (s.pos ++ [(0 : Int64)])[s.pos.length]? = some 0 := by simp
  obtain ⟨t, tr, off, hexec, htpos, hoff, hnone, hlast⟩ :=
    exec_writeAll (s := ⟨s.dev, s.pos ++ [0]⟩) (o := 0) pieces hpos rfl (by rwa [Nat.zero_add])
  refine ⟨t, .opened s.pos.length :: tr, off, ?_, ?_, ?_, hnone, ?_⟩
  · rw [openAndWrite, exec, d.step_openDev]
    change (exec _ _ (writeAll s.pos.length pieces)).map _ = _
    rw [hexec, Option.map_some]
  · rw [htpos, List.set_append_right _ _ (Nat.le_refl _), Nat.sub_self, List.set_cons_zero]
  · rw [hoff, Nat.zero_add]
  · intro before last hsplit
    rw [hlast before last hsplit, Nat.zero_add]

end Pieces

/-- A piece behind others is found alone in the buffer where all of them would be, exactly if the
others are zeros. -/
theorem placed_eq_placed_iff {before last : List UInt8} :
    placed before.length last = placed 0 (before ++ last) ↔ ∀ b ∈ before, b = 0 := by
  rw [placed, placed, List.replicate_zero, List.nil_append, List.length_append, Nat.zero_add,
    List.append_left_inj, List.append_left_inj, eq_comm, List.eq_replicate_iff]
  exact ⟨fun h => h.2, fun h => ⟨rfl, h⟩⟩

/-- Writing data in pieces leaves the offset of a single write. It leaves the contents of a single
write if and only if every piece but the last consists of zeros - and, where there is no piece at
all and so no write to clear it, the buffer was zero before. -/
theorem write_pieces_iff (d : Driver) (s : State d.Module) (pieces : List (List UInt8))
    (hfit : pieces.flatten.length ≤ 1024) :
    ∃ t tr t₁ tr₁,
      exec (step d.scullFops) s (openAndWrite s pieces) = some (t, tr) ∧
      exec (step d.scullFops) s (openAndWrite s [pieces.flatten]) = some (t₁, tr₁) ∧
      t.pos = t₁.pos ∧
      (∀ before last, pieces = before ++ [last] →
        (d.drvBuff t.dev).bytes = placed before.flatten.length last) ∧
      (d.drvBuff t.dev = d.drvBuff t₁.dev ↔
        (∀ piece ∈ pieces.dropLast, ∀ b ∈ piece, b = 0) ∧
          (pieces = [] → d.drvBuff s.dev = .zero maxBuffSize)) := by
  obtain ⟨t, tr, off, hexec, hpos, hoff, hnone, hlast⟩ := exec_openAndWrite s pieces hfit
  obtain ⟨t₁, tr₁, off₁, hexec₁, hpos₁, hoff₁, -, hlast₁⟩ :=
    exec_openAndWrite s [pieces.flatten] (by simpa using hfit)
  have hwhole : (d.drvBuff t₁.dev).bytes = placed 0 pieces.flatten := hlast₁ [] _ rfl
  refine ⟨t, tr, t₁, tr₁, hexec, hexec₁, ?_, hlast, ?_⟩
  · have hsame : off = off₁ := by
      rw [← Int64.toInt_inj, hoff, hoff₁, List.flatten_singleton]
    rw [hpos, hpos₁, hsame]
  · rw [CBuffer.ext_iff, hwhole]
    rcases List.eq_nil_or_concat pieces with rfl | ⟨before, last, rfl⟩
    · -- Nothing was written, and the single write of nothing cleared the buffer.
      have hzero : placed 0 ([] : List (List UInt8)).flatten = (CBuffer.zero maxBuffSize).bytes :=
        rfl
      rw [hnone rfl, hzero, ← CBuffer.ext_iff]
      simp
    · rw [List.concat_eq_append] at hlast ⊢
      rw [hlast before last rfl, List.flatten_append, List.flatten_singleton,
        placed_eq_placed_iff, List.dropLast_concat]
      constructor
      · intro hall
        exact ⟨fun piece hpiece b hb => hall b (List.mem_flatten.mpr ⟨piece, hpiece, hb⟩), by simp⟩
      · rintro ⟨hall, -⟩ b hb
        obtain ⟨piece, hpiece, hb⟩ := List.mem_flatten.mp hb
        exact hall piece hpiece b hb

section Examples

/-- Two pieces of one byte: the first is gone afterwards. -/
theorem not_write_pieces :
    ¬ ∀ (d : Driver) (s t t₁ : State d.Module) (pieces : List (List UInt8)) (tr tr₁ : List Event),
      pieces.flatten.length ≤ 1024 → (∀ piece ∈ pieces, piece ≠ []) →
      exec (step d.scullFops) s (openAndWrite s pieces) = some (t, tr) →
      exec (step d.scullFops) s (openAndWrite s [pieces.flatten]) = some (t₁, tr₁) →
      d.drvBuff t.dev = d.drvBuff t₁.dev ∧ t.pos = t₁.pos := by
  intro hsame
  obtain ⟨t, tr, -, hexec, -, -, -, hlast⟩ := exec_openAndWrite (d := .charDriver)
    (.loaded Driver.charDriver.setupCharModule) [[1], [2]] (by decide)
  obtain ⟨t₁, tr₁, -, hexec₁, -, -, -, hlast₁⟩ := exec_openAndWrite (d := .charDriver)
    (.loaded Driver.charDriver.setupCharModule) [[1, 2]] (by decide)
  have hbuff := (hsame _ _ t t₁ [[1], [2]] tr tr₁ (by decide) (by decide) hexec hexec₁).1
  have hbytes := congrArg CBuffer.bytes hbuff
  rw [hlast [[1]] [2] rfl, hlast₁ [] [1, 2] rfl] at hbytes
  exact absurd (placed_eq_placed_iff.mp hbytes 1 (by decide)) (by decide)

/-- Three pieces, the second of them zeros. -/
theorem write_pieces_iff_three :
    ∃ t tr t₁ tr₁,
      exec (step SeqFile.scullFops) (.loaded SeqFile.setupCharModule)
        (openAndWrite (.loaded SeqFile.setupCharModule) [[1], [0, 0], [2]]) = some (t, tr) ∧
      exec (step SeqFile.scullFops) (.loaded SeqFile.setupCharModule)
        (openAndWrite (.loaded SeqFile.setupCharModule) [[1, 0, 0, 2]]) = some (t₁, tr₁) ∧
      t.pos = t₁.pos ∧ t.dev.drvBuff ≠ t₁.dev.drvBuff := by
  obtain ⟨t, tr, t₁, tr₁, hexec, hexec₁, hpos, -, hiff⟩ :=
    write_pieces_iff .seqFileInterface (.loaded SeqFile.setupCharModule) [[1], [0, 0], [2]]
      (by decide)
  refine ⟨t, tr, t₁, tr₁, hexec, hexec₁, hpos, fun hsame => ?_⟩
  exact absurd ((hiff.mp hsame).1 [1] (by decide) 1 (by decide)) (by decide)

end Examples

end Scull
