import LinuxPrograms.Driver.CharDev

/-!
# charDev: what holds after every run of calls

- `Sole`: at most one file is open, the last one opened.
- `Accounted`: the buffer holds what was last written to each byte, and the files have taken their
  turns.
- `read_last_written`, `read_back`: what a read delivers, in terms of the writes before it.
- `deviceLseek_eq_clamp_iff`: where `lseek` goes.
-/

namespace CharDev

open LabelledSystem CInt CString OpenFiles UserCopy BlockStore
open Scull (maxBytes bytesToCopy wanted InBuff)

variable {s t : State} {e : Event} {tr : List Event} {ret : Int32}

section Pos

variable {file f : ℕ} {off : Int64}

theorem pos_append (s : State) (sem : ℕ) (off : Int64) (f : ℕ) :
    State.pos { s with sem := sem, fPos := s.fPos ++ [some off] } f =
      if f = s.fPos.length then some off else s.pos f := by
  unfold State.pos
  dsimp only
  split_ifs with hf
  · rw [hf, List.getElem?_concat_length]
    rfl
  · rcases Nat.lt_or_gt_of_ne hf with hlt | hgt
    · rw [List.getElem?_append_left hlt]
    · rw [List.getElem?_eq_none (by rw [List.length_append, List.length_singleton]; omega),
        List.getElem?_eq_none (by omega)]

theorem lt_of_pos (h : s.pos file = some off) : file < s.fPos.length := by
  by_contra hge
  rw [State.pos, List.getElem?_eq_none (by omega)] at h
  cases h

theorem pos_set (h : s.pos file = some off) (x : Option Int64) (f : ℕ) :
    ((s.fPos.set file x)[f]?).join = if f = file then x else s.pos f := by
  rw [List.getElem?_set]
  by_cases hf : file = f
  · subst hf
    rw [if_pos rfl, if_pos rfl, if_pos (lt_of_pos h)]
    rfl
  · rw [if_neg hf, if_neg (Ne.symm hf)]
    rfl

end Pos

/-- The semaphore is free and no file open, or the semaphore is taken and just the last file
opened is open. -/
def Sole (s : State) : Prop :=
  (s.sem = 1 ∧ ∀ f, s.pos f = none) ∨
    (s.sem = 0 ∧ ∃ n off, s.fPos.length = n + 1 ∧ ∀ f, s.pos f = if f = n then some off else none)

namespace Sole

theorem of_pos {file : ℕ} {off : Int64} (h : Sole s) (hpos : s.pos file = some off) :
    s.sem = 0 ∧ s.fPos.length = file + 1 ∧ ∀ f, s.pos f = if f = file then some off else none := by
  obtain ⟨-, hnone⟩ | ⟨hsem, n, off', hlen, hall⟩ := h
  · rw [hnone] at hpos
    cases hpos
  · have hn := hpos
    rw [hall] at hn
    split_ifs at hn with hfile
    cases hn
    rw [hfile]
    exact ⟨hsem, hlen, hall⟩

theorem step (h : Sole s) (hmove : Move s e t) : Sole t := by
  -- The file a call is on stays the only one, with another offset.
  have hset : ∀ {dev : DeviceBuffer} {file : ℕ} {ppos : Int64} (offp : Int64),
      s.pos file = some ppos →
      Sole { s with deviceBuffer := dev, fPos := s.fPos.set file (some offp) } := by
    intro dev file ppos offp hpos
    obtain ⟨hsem, hlen, hall⟩ := h.of_pos hpos
    refine .inr ⟨hsem, file, offp, by rw [List.length_set]; exact hlen, fun f => ?_⟩
    show ((s.fPos.set file (some offp))[f]?).join = _
    rw [pos_set hpos, hall]
    split_ifs <;> rfl
  cases hmove with
  | opened hsem =>
      obtain ⟨hone, hnone⟩ | ⟨hzero, -⟩ := h
      · refine .inr ⟨by show s.sem - 1 = 0; omega, s.fPos.length, 0, by simp, fun f => ?_⟩
        rw [pos_append, hnone]
      · omega
  | interrupted => exact h
  | read hpos => exact hset _ hpos
  | wrote hpos => exact hset _ hpos
  | sought hpos => exact hset _ hpos
  | @closed file ppos hpos =>
      obtain ⟨hsem, hlen, hall⟩ := h.of_pos hpos
      refine .inl ⟨by show s.sem + 1 = 1; omega, fun f => ?_⟩
      show ((s.fPos.set file none)[f]?).join = none
      rw [pos_set hpos, hall]
      split_ifs <;> rfl

end Sole

/-- The blocks written, in their order. -/
def blocks (tr : List Event) : List (Block UInt8) := tr.filterMap Event.block

/-- What was last written to a byte of the buffer; it is 0 in the beginning. -/
def lastWritten (tr : List Event) : ℕ → UInt8 := contents (fun _ => 0) (blocks tr)

/-- Of two calls on files, the later one is not on an earlier file, and on a later one if the first
closes its file or the second opens its own. -/
def Before (e e' : Event) : Prop :=
  ∀ f ∈ e.file, ∀ f' ∈ e'.file, f ≤ f' ∧ (e.isClose ∨ e'.isOpen → f < f')

/-- What holds after the calls `tr`. -/
structure Accounted (tr : List Event) (s : State) : Prop where
  sole : Sole s
  inBuff : ∀ file off, s.pos file = some off → InBuff off
  content : ∀ j < 1024, s.deviceBuffer.bytes[j]? = some (lastWritten tr j)
  serial : tr.Pairwise Before
  lt : ∀ e ∈ tr, ∀ f ∈ e.file, f < s.fPos.length
  closed : ∀ e ∈ tr, e.isClose → ∀ f ∈ e.file, s.pos f = none

namespace Accounted

/-- The block an event writes lies in the buffer. -/
theorem block_fits {ppos : Int64} (hoff : InBuff ppos) (buff : List UInt8) (length : UInt64)
    (fault : Option ℕ) :
    ppos.toInt.toNat + (stored buff length fault ppos).length ≤ 1024 := by
  have hfit := Scull.offp_add_wanted_le length hoff
  have hnonneg := hoff.1
  rw [length_stored]
  omega

theorem content_step (hs : Accounted tr s) (hmove : Move s e t) :
    ∀ j < 1024, t.deviceBuffer.bytes[j]? = some (lastWritten (tr ++ [e]) j) := by
  -- An event that writes no block leaves both sides alone.
  have hquiet : e.block = none → lastWritten (tr ++ [e]) = lastWritten tr := by
    intro he
    rw [lastWritten, blocks, filterMap_snoc, he, Option.toList_none, List.append_nil, ← blocks,
      ← lastWritten]
  cases hmove with
  | opened | interrupted | read | sought | closed =>
      rw [hquiet rfl]
      exact hs.content
  | @wrote file buff length fault ppos offp r dev hpos hdev =>
      intro j hj
      have hoff := hs.inBuff file ppos hpos
      have hlen := s.deviceBuffer.length_eq
      have hcells : ∀ j < s.deviceBuffer.bytes.length,
          s.deviceBuffer.bytes[j]? = some (lastWritten tr j) := by
        rw [hlen]
        exact hs.content
      have hwritten : lastWritten (tr ++ [.wrote file buff length fault ppos r]) =
          BlockStore.write (lastWritten tr)
            ⟨ppos.toInt.toNat, stored buff length fault ppos⟩ := by
        rw [lastWritten, blocks, filterMap_snoc, Event.block, Option.toList_some,
          contents_append, contents_cons, contents_nil, ← blocks, ← lastWritten]
      have hfit := block_fits hoff buff length fault
      rw [← hlen] at hfit hj
      have hsplice := getElem?_splice (b := ⟨ppos.toInt.toNat, stored buff length fault ppos⟩)
        hcells hfit hj
      rw [length_stored] at hsplice
      rw [hwritten, hdev, hsplice]

theorem step (hs : Accounted tr s) (h : StepOf step s e t) : Accounted (tr ++ [e]) t := by
  have hmove := move_of_step hs.inBuff h
  have hsole := hs.sole.step hmove
  have hcontent := hs.content_step hmove
  -- A call on the open file is one on the last file there is.
  have hlast : ∀ {file : ℕ} {off : Int64}, e.file = some file → e.isOpen = false →
      s.pos file = some off → t.fPos.length = s.fPos.length →
      (tr ++ [e]).Pairwise Before ∧ ∀ e' ∈ tr ++ [e], ∀ f ∈ e'.file, f < t.fPos.length := by
    intro file off hfile hopen hpos hlen
    have hlt := lt_of_pos hpos
    have hfull := (hs.sole.of_pos hpos).2.1
    rw [List.pairwise_append, List.forall_mem_append, List.forall_mem_singleton, hlen, hfile]
    refine ⟨⟨hs.serial, List.pairwise_singleton _ _, fun e' he' e'' he'' => ?_⟩, hs.lt, ?_⟩
    · obtain rfl := List.mem_singleton.mp he''
      rintro f hf f' hf'
      rw [hfile, Option.mem_some_iff] at hf'
      subst hf'
      have hf' := hs.lt e' he' f hf
      refine ⟨by omega, fun hor => ?_⟩
      rcases hor with hclose | hopen'
      · -- A file that is closed is not the one that is open.
        have hnone := hs.closed e' he' hclose f hf
        have hne : f ≠ file := by
          rintro rfl
          rw [hnone] at hpos
          cases hpos
        omega
      · rw [hopen] at hopen'
        cases hopen'
    · rintro f hf
      obtain rfl := Option.mem_some_iff.mp hf
      exact hlt
  have hset : ∀ {file : ℕ} {ppos offp : Int64}, s.pos file = some ppos → InBuff offp →
      ∀ (f : ℕ) (off : Int64), ((s.fPos.set file (some offp))[f]?).join = some off →
        InBuff off := by
    intro file ppos offp hpos hoffp f off hf
    rw [pos_set hpos] at hf
    split_ifs at hf
    · cases hf
      exact hoffp
    · exact hs.inBuff f off hf
  -- The closed files stay closed.
  have hclosed : ∀ {file : ℕ} {ppos : Int64} (x : Option Int64), s.pos file = some ppos →
      ∀ e' ∈ tr, e'.isClose → ∀ f ∈ e'.file, ((s.fPos.set file x)[f]?).join = none := by
    intro file ppos x hpos e' he' hclose f hf
    have hnone := hs.closed e' he' hclose f hf
    rw [pos_set hpos, if_neg, hnone]
    rintro rfl
    rw [hnone] at hpos
    cases hpos
  cases hmove with
  | opened hsem =>
      refine ⟨hsole, fun f off hf => ?_, hcontent, ?_, ?_, ?_⟩
      · rw [pos_append] at hf
        split_ifs at hf
        · cases hf
          constructor <;> decide
        · exact hs.inBuff f off hf
      · rw [List.pairwise_append]
        refine ⟨hs.serial, List.pairwise_singleton _ _, fun e' he' e'' he'' => ?_⟩
        obtain rfl := List.mem_singleton.mp he''
        rintro f hf f' hf'
        obtain rfl := Option.mem_some_iff.mp hf'
        have hlt := hs.lt e' he' f hf
        exact ⟨le_of_lt hlt, fun _ => hlt⟩
      · rw [List.forall_mem_append, List.forall_mem_singleton, List.length_append,
          List.length_singleton]
        refine ⟨fun e' he' f hf => Nat.lt_succ_of_lt (hs.lt e' he' f hf), fun f hf => ?_⟩
        obtain rfl := Option.mem_some_iff.mp hf
        exact Nat.lt_succ_self _
      · rw [List.forall_mem_append, List.forall_mem_singleton]
        refine ⟨fun e' he' hclose f hf => ?_, nofun⟩
        have hlt := hs.lt e' he' f hf
        rw [pos_append, if_neg (Nat.ne_of_lt hlt)]
        exact hs.closed e' he' hclose f hf
  | interrupted =>
      refine ⟨hsole, hs.inBuff, hcontent, ?_, ?_, ?_⟩
      · rw [List.pairwise_append]
        refine ⟨hs.serial, List.pairwise_singleton _ _, fun e' _ e'' he'' => ?_⟩
        obtain rfl := List.mem_singleton.mp he''
        exact nofun
      · rw [List.forall_mem_append, List.forall_mem_singleton]
        exact ⟨hs.lt, nofun⟩
      · rw [List.forall_mem_append, List.forall_mem_singleton]
        exact ⟨hs.closed, nofun⟩
  | @read file length fault ppos offp r sent hpos hsent _ hoffp =>
      obtain ⟨hserial, hlt⟩ := hlast rfl rfl hpos (List.length_set ..)
      have hoff := hs.inBuff file ppos hpos
      have hfit := Scull.offp_add_wanted_le length hoff
      have hlen : sent.length ≤ wanted length ppos := by
        rw [hsent]
        exact (isPrefix_across fault _).length_le.trans (List.length_take_le _ _)
      have hnew : InBuff offp := by
        have hnonneg := hoff.1
        constructor <;> omega
      refine ⟨hsole, hset hpos hnew, hcontent, hserial, hlt, ?_⟩
      rw [List.forall_mem_append, List.forall_mem_singleton]
      exact ⟨hclosed _ hpos, nofun⟩
  | @wrote file buff length fault ppos offp r dev hpos _ _ hoffp =>
      obtain ⟨hserial, hlt⟩ := hlast rfl rfl hpos (List.length_set ..)
      have hoff := hs.inBuff file ppos hpos
      have hfit := Scull.offp_add_wanted_le length hoff
      have hlen := (isPrefix_across fault (buff.take (wanted length ppos))).length_le.trans
        (List.length_take_le _ _)
      have hnew : InBuff offp := by
        have hnonneg := hoff.1
        constructor <;> omega
      refine ⟨hsole, hset hpos hnew, hcontent, hserial, hlt, ?_⟩
      rw [List.forall_mem_append, List.forall_mem_singleton]
      exact ⟨hclosed _ hpos, nofun⟩
  | sought hpos =>
      obtain ⟨hserial, hlt⟩ := hlast rfl rfl hpos (List.length_set ..)
      refine ⟨hsole, hset hpos (inBuff_deviceLseek _ _ _), hcontent, hserial, hlt, ?_⟩
      rw [List.forall_mem_append, List.forall_mem_singleton]
      exact ⟨hclosed _ hpos, nofun⟩
  | @closed file ppos hpos =>
      obtain ⟨hserial, hlt⟩ := hlast rfl rfl hpos (List.length_set ..)
      refine ⟨hsole, fun f off hf => ?_, hcontent, hserial, hlt, ?_⟩
      · have hf : ((s.fPos.set file none)[f]?).join = some off := hf
        rw [pos_set hpos] at hf
        split_ifs at hf
        exact hs.inBuff f off hf
      · rw [List.forall_mem_append, List.forall_mem_singleton]
        refine ⟨hclosed _ hpos, fun _ f hf => ?_⟩
        obtain rfl := Option.mem_some_iff.mp hf
        show ((s.fPos.set file none)[file]?).join = none
        rw [pos_set hpos, if_pos rfl]

end Accounted

/-- The invariant holds after every run of calls. -/
theorem accounted_of_reaches (h : Reaches ret tr s) : Accounted tr s := by
  refine Run.history (P := Accounted) h ?_ fun tr t e u _ hs hstep => hs.step hstep
  refine ⟨.inl ⟨rfl, fun f => rfl⟩, nofun, fun j hj => ?_, List.Pairwise.nil, nofun, nofun⟩
  show (List.replicate 1024 0)[j]? = some 0
  rw [List.getElem?_replicate, if_pos hj]

/-! ### What the callers see -/

/-- The sessions of the device never overlap: after every run of calls at most one file is open,
`open` finds the semaphore free just when none is, no call on a file comes after one on a later
file, none behind the `close` of the file, and none before its `open`. -/
theorem sessions_serial (h : Reaches ret tr s) :
    (∀ f f', (s.pos f).isSome → (s.pos f').isSome → f = f') ∧
      ((step s .openDev).isSome ↔ ∀ f, s.pos f = none) ∧ tr.Pairwise Before := by
  have hs := accounted_of_reaches h
  refine ⟨fun f f' hf hf' => ?_, ?_, hs.serial⟩
  · obtain ⟨off, hoff⟩ := Option.isSome_iff_exists.mp hf
    obtain ⟨off', hoff'⟩ := Option.isSome_iff_exists.mp hf'
    have hlen := (hs.sole.of_pos hoff).2.1
    have hlen' := (hs.sole.of_pos hoff').2.1
    omega
  · obtain ⟨hsem, hnone⟩ | ⟨hsem, n, off, -, hall⟩ := hs.sole
    · rw [step, if_pos (by omega)]
      exact ⟨fun _ => hnone, fun _ => rfl⟩
    · rw [step, if_neg (by omega)]
      refine ⟨fun h => ?_, fun hnone => ?_⟩
      · cases h
      · have hn := hall n
        rw [hnone, if_pos rfl] at hn
        cases hn

/-- A file is opened again behind the `close`. -/
theorem sessions_serial_reopened :
    ∃ s, Reaches 0 [.opened 0, .closed 0 0, .opened 1] s ∧ s.pos 1 = some 0 ∧
      ¬ (step s .openDev).isSome := by
  have hrun : Reaches 0 [.opened 0, .closed 0 0, .opened 1] _ :=
    run_play step (.loaded 0) [.openDev, .close 0, .openDev]
  refine ⟨_, hrun, rfl, fun h => ?_⟩
  have hnone := (sessions_serial hrun).2.1.mp h 1
  cases hnone

/-- A read or write on the open file never leaves the buffer, whatever its length and wherever
its copy stops. -/
theorem calls_defined (h : Reaches ret tr s) {file : ℕ} (hfile : (s.pos file).isSome)
    (length : UInt64) (fault : Option ℕ) :
    (step s (.read file length fault)).isSome ∧
      ∀ buff, (step s (.write file buff length fault)).isSome := by
  obtain ⟨ppos, hpos⟩ := Option.isSome_iff_exists.mp hfile
  have hoff := (accounted_of_reaches h).inBuff file ppos hpos
  constructor
  · obtain ⟨r, hread, -⟩ := deviceRead_spec s.deviceBuffer length fault hoff rfl
    simp [step, hpos, hread]
  · intro buff
    obtain ⟨r, hwrite, -⟩ := deviceWrite_spec s.deviceBuffer buff length fault hoff rfl
    simp [step, hpos, hwrite]

section Read

variable {pre mid post : List Event} {file file' : ℕ} {length length' : UInt64}
  {fault fault' : Option ℕ} {ppos ppos' r r' : Int64} {bytes buff : List UInt8}

/-- A read delivers what was last written to each byte from its offset on, up to `length` bytes, the
end of the buffer or the place where the copy stops, and returns how many these are. -/
theorem read_last_written
    (h : Reaches ret (pre ++ .read file length fault ppos r bytes :: post) s) :
    InBuff ppos ∧ r.toInt = bytes.length ∧ bytes = across fault
      ((List.range (wanted length ppos)).map fun k =>
        lastWritten pre (ppos.toInt.toNat + k)) := by
  obtain ⟨s₁, s₂, hpre, hstep, -⟩ := Run.step_at h
  have hs := accounted_of_reaches hpre
  have hmove := move_of_step hs.inBuff hstep
  cases hmove with
  | read hpos hsent hret =>
      have hoff := hs.inBuff file ppos hpos
      have hfit := Scull.offp_add_wanted_le length hoff
      have hlen := s₁.deviceBuffer.length_eq
      have hcells : ∀ j < s₁.deviceBuffer.bytes.length,
          s₁.deviceBuffer.bytes[j]? = some (lastWritten pre j) := by
        rw [hlen]
        exact hs.content
      refine ⟨hoff, hret, ?_⟩
      rw [hsent, take_drop_eq_map hcells]
      have hnonneg := hoff.1
      rw [hlen]
      omega

/-- Of data that fits the rest of the buffer a write stores all. -/
theorem stored_eq (hoff : InBuff ppos) (hlen : length.toNat = buff.length)
    (hfit : ppos.toInt + buff.length ≤ 1024) : stored buff length none ppos = buff := by
  have hwanted : wanted length ppos = buff.length := by
    have hnonneg := hoff.1
    rw [wanted, hlen]
    omega
  rw [stored, hwanted, across, List.take_length, Nat.sub_self, List.replicate_zero,
    List.append_nil]

/-- Data written without a fault where there is room for it is read back in full by any file at
the same offset, whatever calls come in between, as long as they write to none of its bytes. -/
theorem read_back
    (h : Reaches ret (pre ++ .wrote file buff length none ppos r :: mid ++
      .read file' length none ppos r' bytes :: post) s)
    (hlen : length.toNat = buff.length) (hfit : ppos.toInt + buff.length ≤ 1024)
    (hmid : ∀ b ∈ blocks mid, Block.Disjoint ⟨ppos.toInt.toNat, buff⟩ b) :
    bytes = buff ∧ r'.toInt = buff.length := by
  obtain ⟨hoff, hret, hbytes⟩ := read_last_written h
  have hwanted : wanted length ppos = buff.length := by
    have hnonneg := hoff.1
    rw [wanted, hlen]
    omega
  have hblocks : blocks (pre ++ .wrote file buff length none ppos r :: mid) =
      blocks pre ++ ⟨ppos.toInt.toNat, buff⟩ :: blocks mid := by
    rw [blocks, List.filterMap_append, List.filterMap_cons_some (b := ⟨ppos.toInt.toNat, buff⟩)]
    · rfl
    · rw [Event.block, stored_eq hoff hlen hfit]
  have hback : (List.range buff.length).map (fun k => contents (fun _ => 0)
      (blocks pre ++ ⟨ppos.toInt.toNat, buff⟩ :: blocks mid) (ppos.toInt.toNat + k)) = buff :=
    read_block hmid
  rw [hwanted, across, lastWritten, hblocks] at hbytes
  rw [hback] at hbytes
  rw [hret, hbytes]
  exact ⟨rfl, rfl⟩

end Read

/-- The calls of a file that writes three bytes, seeks to the first and reads two. -/
def writeSeekRead : List Call :=
  [.openDev, .write 0 [97, 98, 99] 3 none, .lseek 0 0 0, .read 0 2 none]

/-- These calls, as far as the read. -/
theorem reaches_writeSeekRead :
    ∃ s, Reaches 0 ([.opened 0, .wrote 0 [97, 98, 99] 3 none 0 3, .sought 0 0 0 0] ++
      .read 0 2 none 0 2 [97, 98] :: []) s :=
  ⟨_, run_play step (.loaded 0) writeSeekRead⟩

/-- The read delivers the first two of the three bytes. -/
theorem read_last_written_two : ∃ ret s bytes,
    Reaches ret ([.opened 0, .wrote 0 [97, 98, 99] 3 none 0 3, .sought 0 0 0 0] ++
      .read 0 2 none 0 2 bytes :: []) s ∧ bytes = [97, 98] ∧
    bytes = across none ((List.range 2).map fun k => lastWritten
      [.opened 0, .wrote 0 [97, 98, 99] 3 none 0 3, .sought 0 0 0 0] k) := by
  obtain ⟨s, hrun⟩ := reaches_writeSeekRead
  obtain ⟨-, -, hbytes⟩ := read_last_written hrun
  refine ⟨0, s, _, hrun, rfl, hbytes.trans ?_⟩
  rfl

/-- A second file reads what the first has written. -/
theorem read_back_second : ∃ s bytes,
    Reaches 0 ([.opened 0] ++ .wrote 0 [97, 98] 2 none 0 2 :: [.closed 0 0, .opened 1] ++
      .read 1 2 none 0 2 bytes :: []) s ∧ bytes = [97, 98] := by
  have hrun : Reaches 0 ([.opened 0] ++ .wrote 0 [97, 98] 2 none 0 2 :: [.closed 0 0, .opened 1] ++
      .read 1 2 none 0 2 [97, 98] :: []) _ :=
    run_play step (.loaded 0)
      [.openDev, .write 0 [97, 98] 2 none, .close 0, .openDev, .read 1 2 none]
  exact ⟨_, _, hrun, (read_back hrun rfl (by decide) nofun).1⟩

/-! ### Where `lseek` goes -/

/-- The offset an `lseek` is after: `offset` counts from the beginning, from where the file stands,
or back from the end, which is the other way round than `SEEK_END` is meant. -/
def seekTarget (fPos offset : Int64) (orig : Int32) : ℤ :=
  if orig = 0 then offset.toInt
  else if orig = 1 then fPos.toInt + offset.toInt
  else if orig = 2 then 1024 - offset.toInt
  else 0

/-- The target is more than a `loff_t` can hold. -/
def SeekOverflows (fPos offset : Int64) (orig : Int32) : Prop :=
  2 ^ 63 ≤ seekTarget fPos offset orig

/-- The two comparisons move an offset to the nearest place in the buffer. -/
theorem toInt_clamp (newPos : Int64) :
    (if (if newPos > 1024 then 1024 else newPos) < 0 then 0
      else if newPos > 1024 then 1024 else newPos : Int64).toInt =
      max 0 (min 1024 newPos.toInt) := by
  have hsize : (1024 : Int64).toInt = 1024 := rfl
  have hzero : (0 : Int64).toInt = 0 := rfl
  split_ifs with hbig hneg hneg
  · exact absurd hneg (by decide)
  · rw [gt_iff_lt, Int64.lt_iff_toInt_lt, hsize] at hbig
    omega
  · rw [Int64.lt_iff_toInt_lt, hzero] at hneg
    omega
  · rw [gt_iff_lt, Int64.lt_iff_toInt_lt, hsize] at hbig
    rw [Int64.lt_iff_toInt_lt, hzero] at hneg
    omega

/-- `lseek` goes to the place in the buffer nearest to its target, unless the target overflows: then
it goes to the beginning instead of the end. -/
theorem deviceLseek_eq_clamp_iff {fPos : Int64} (hoff : InBuff fPos) (offset : Int64)
    (orig : Int32) :
    ((deviceLseek fPos offset orig).toInt = max 0 (min 1024 (seekTarget fPos offset orig)) ↔
        ¬ SeekOverflows fPos offset orig) ∧
      (SeekOverflows fPos offset orig → deviceLseek fPos offset orig = 0) := by
  obtain ⟨h0, h1⟩ := hoff
  have hlow := offset.le_toInt
  have hhigh := offset.toInt_lt
  have hsize : (1024 : Int64).toInt = 1024 := rfl
  -- What is computed is the target, taken around the range of `loff_t`.
  have hwrap : ∃ newPos : Int64,
      (deviceLseek fPos offset orig).toInt = max 0 (min 1024 newPos.toInt) ∧
        newPos.toInt = (seekTarget fPos offset orig).bmod (2 ^ 64) := by
    refine ⟨_, toInt_clamp _, ?_⟩
    rw [seekTarget]
    split_ifs
    · exact (Int.bmod_eq_of_le (by omega) (by omega)).symm
    · exact Int64.toInt_add fPos offset
    · rw [Int64.toInt_sub, hsize]
    · rfl
  have hbound : -2 ^ 63 ≤ seekTarget fPos offset orig ∧ seekTarget fPos offset orig < 2 ^ 64 := by
    rw [seekTarget]
    split_ifs <;> omega
  obtain ⟨newPos, heq, hnew⟩ := hwrap
  rw [hnew] at heq
  by_cases hover : SeekOverflows fPos offset orig
  · -- An overflowing target comes out negative.
    have hbig : 2 ^ 63 ≤ seekTarget fPos offset orig := hover
    have hneg : (seekTarget fPos offset orig).bmod (2 ^ 64) =
        seekTarget fPos offset orig - 2 ^ 64 := by
      rw [Int.bmod_def]
      omega
    have hzero : (deviceLseek fPos offset orig).toInt = 0 := by
      rw [heq, hneg]
      omega
    refine ⟨⟨fun h => ?_, fun h => absurd hover h⟩, fun _ => Int64.toInt_inj.mp hzero⟩
    rw [hzero] at h
    omega
  · have hsmall : seekTarget fPos offset orig < 2 ^ 63 := Int.not_le.mp hover
    rw [Int.bmod_eq_of_le (by omega) (by omega)] at heq
    exact ⟨⟨fun _ => hover, fun _ => heq⟩, fun h => absurd h hover⟩

/-- One step off the beginning, the greatest offset leads back to the beginning. -/
theorem deviceLseek_eq_clamp_iff_overflow :
    deviceLseek 1 9223372036854775807 1 = 0 ∧ (deviceLseek 1 9223372036854775807 1).toInt ≠
      max 0 (min 1024 (seekTarget 1 9223372036854775807 1)) := by
  obtain ⟨hiff, hzero⟩ :=
    deviceLseek_eq_clamp_iff (show InBuff 1 from ⟨by decide, by decide⟩) 9223372036854775807 1
  have hover : SeekOverflows 1 9223372036854775807 1 := by
    show (2 : ℤ) ^ 63 ≤ 1 + 9223372036854775807
    omega
  exact ⟨hzero hover, fun h => hiff.mp h hover⟩

end CharDev
