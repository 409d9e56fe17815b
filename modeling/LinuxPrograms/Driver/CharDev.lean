import LinuxPrograms.Driver.Scull
import LinuxPrograms.Lib.BlockStore

/-!
# charDev: the device that one file at a time can open

The driver of `online_char_driver.c` and its copy `online_driver.c`. `open` takes the semaphore
and `close` gives it back; `lseek` moves the offset, and a write leaves the rest of the buffer as
it is.

Left out are the `printk` lines. Calls run one after another. `pread` and `pwrite`, which bring an
offset of their own, are not among them.

- `Call`, `step`: the calls on the device.
- `reaches_of_chardevInit`: a module that loads starts as the runs do.
- `move_of_step`: all a call can do while the offsets lie in the buffer.
-/

namespace CharDev

open LabelledSystem CInt CString OpenFiles UserCopy BlockStore
open Scull (maxBytes bytesToCopy wanted InBuff)

/-- `static char device_buffer[BUFFER_SIZE]`. -/
abbrev DeviceBuffer := CBuffer 1024

/-- `bytes_to_read` and `bytes_to_write`: `length`, or `maxbytes` unless `maxbytes > length`, which
compares two `size_t`. -/
def bytesToMove (length : UInt64) (ppos : Int64) : Int32 :=
  if sizeOfInt (maxBytes ppos) > length then intOfSize length else maxBytes ppos

/-- `device_read`. -/
def deviceRead (deviceBuffer : DeviceBuffer) (length : UInt64) (ppos : Int64) (fault : Option ℕ) :
    Option (Result DeviceBuffer × List UInt8) := do
  let bytesToRead := bytesToMove length ppos
  let (delivered, left) ← copyToUser deviceBuffer ppos (sizeOfInt bytesToRead) fault
  let bytesRead := intOfSize (sizeOfInt bytesToRead - left)
  some (⟨deviceBuffer, ppos + bytesRead.toInt64, bytesRead.toInt64⟩, delivered)

/-- `device_write`. -/
def deviceWrite (deviceBuffer : DeviceBuffer) (buff : List UInt8) (length : UInt64) (ppos : Int64)
    (fault : Option ℕ) : Option (Result DeviceBuffer) := do
  let bytesToWrite := bytesToMove length ppos
  let (stored, left) ← copyFromUser deviceBuffer ppos buff (sizeOfInt bytesToWrite) fault
  let bytesWriten := intOfSize (sizeOfInt bytesToWrite - left)
  some ⟨stored, ppos + bytesWriten.toInt64, bytesWriten.toInt64⟩

/-- `device_lseek`, where `new_pos` stays 0 for an `orig` the switch does not know. -/
def deviceLseek (fPos offset : Int64) (orig : Int32) : Int64 :=
  let newPos :=
    if orig = 0 then offset
    else if orig = 1 then fPos + offset
    else if orig = 2 then 1024 - offset
    else 0
  let newPos := if newPos > 1024 then 1024 else newPos
  if newPos < 0 then 0 else newPos

/-- The module's variables and the open files. -/
structure State where
  deviceBuffer : DeviceBuffer
  /-- The count of `sem`. -/
  sem : ℕ
  /-- The global `ret`, which `device_close` returns. -/
  ret : Int32
  /-- `f_pos` of each file in the order of opening, nothing once it is closed. -/
  fPos : List (Option Int64)
  deriving DecidableEq

/-- The module just loaded: no file is open. -/
def State.loaded (ret : Int32) : State := ⟨.zero 1024, 1, ret, []⟩

/-- `chardev_init`, given what `alloc_chrdev_region` and `cdev_add` return: the value it returns,
and the module if that is not an error. -/
def chardevInit (allocChrdevRegion cdevAdd : Int32) : Int32 × Option State :=
  if allocChrdevRegion < 0 then (allocChrdevRegion, none)
  else if cdevAdd < 0 then (cdevAdd, none)
  else (0, some (.loaded cdevAdd))

/-- The offset of an open file. -/
def State.pos (s : State) (file : ℕ) : Option Int64 := (s.fPos[file]?).join

/-- A system call on the device. -/
inductive Call
  | openDev
  /-- `open` interrupted by a signal while it waits for the semaphore. -/
  | interrupt
  | read (file : ℕ) (length : UInt64) (fault : Option ℕ)
  | write (file : ℕ) (buff : List UInt8) (length : UInt64) (fault : Option ℕ)
  | lseek (file : ℕ) (offset : Int64) (orig : Int32)
  | close (file : ℕ)
  deriving DecidableEq

/-- What a system call did. -/
inductive Event
  | opened (file : ℕ)
  | interrupted
  /-- `read` at the offset `ppos` returned `ret` and delivered these bytes. -/
  | read (file : ℕ) (length : UInt64) (fault : Option ℕ) (ppos ret : Int64) (delivered : List UInt8)
  /-- `write` at the offset `ppos` returned `ret`. -/
  | wrote (file : ℕ) (buff : List UInt8) (length : UInt64) (fault : Option ℕ) (ppos ret : Int64)
  /-- `lseek` returned the new offset. -/
  | sought (file : ℕ) (offset : Int64) (orig : Int32) (newPos : Int64)
  | closed (file : ℕ) (ret : Int32)
  deriving DecidableEq

/-- The file an event is on. -/
def Event.file : Event → Option ℕ
  | .opened file | .read file .. | .wrote file .. | .sought file .. | .closed file _ => some file
  | .interrupted => none

/-- The event opens a file. -/
def Event.isOpen : Event → Bool
  | .opened _ => true
  | _ => false

/-- The event closes a file. -/
def Event.isClose : Event → Bool
  | .closed .. => true
  | _ => false

/-- A system call. An `open` that has to wait has no result yet, and neither have a call on a file
that is not open and undefined behaviour. -/
def step (s : State) : Call → Option (State × Event)
  | .openDev =>
      -- `down_interruptible` takes the semaphore if it is free.
      if 0 < s.sem then
        some ({ s with sem := s.sem - 1, fPos := s.fPos ++ [some 0] }, .opened s.fPos.length)
      else none
  | .interrupt => if s.sem = 0 then some (s, .interrupted) else none
  | .read file length fault => do
      let ppos ← s.pos file
      let (r, delivered) ← deviceRead s.deviceBuffer length ppos fault
      some ({ s with deviceBuffer := r.dev, fPos := s.fPos.set file (some r.offp) },
        .read file length fault ppos r.ret delivered)
  | .write file buff length fault => do
      let ppos ← s.pos file
      let r ← deviceWrite s.deviceBuffer buff length ppos fault
      some ({ s with deviceBuffer := r.dev, fPos := s.fPos.set file (some r.offp) },
        .wrote file buff length fault ppos r.ret)
  | .lseek file offset orig => do
      let fPos ← s.pos file
      let newPos := deviceLseek fPos offset orig
      some ({ s with fPos := s.fPos.set file (some newPos) }, .sought file offset orig newPos)
  | .close file => do
      let _ ← s.pos file
      some ({ s with sem := s.sem + 1, fPos := s.fPos.set file none }, .closed file s.ret)

/-- The calls `tr`, one after another, lead from the loaded module to `s`. -/
def Reaches (ret : Int32) (tr : List Event) (s : State) : Prop :=
  Run (StepOf step) (.loaded ret) tr s

/-- The calls on a module that has loaded are such runs, whatever the kernel answered meanwhile. -/
theorem reaches_of_chardevInit {allocChrdevRegion cdevAdd ret : Int32} {s₀ s : State}
    {tr : List Event} (hinit : chardevInit allocChrdevRegion cdevAdd = (ret, some s₀))
    (h : Run (StepOf step) s₀ tr s) : ret = 0 ∧ Reaches cdevAdd tr s := by
  unfold chardevInit at hinit
  split_ifs at hinit
  · cases hinit
  · cases hinit
  · cases hinit
    exact ⟨rfl, h⟩

/-! ### The clamp and the copies -/

section Clamp

variable {ppos : Int64}

/-- An `int` comes back from its conversion to `size_t`. -/
theorem intOfSize_sizeOfInt (i : Int32) : intOfSize (sizeOfInt i) = i := by
  apply Int32.toBitVec_inj.mp
  show (i.toBitVec.signExtend 64).setWidth 32 = i.toBitVec
  ext k hk
  have hk' : k < 64 := by omega
  rw [BitVec.getElem_setWidth, BitVec.getLsbD_signExtend]
  simp [hk, hk']

/-- The comparison is the other way round than in the clamp of Scull, which makes no difference. -/
theorem bytesToMove_eq (length : UInt64) (ppos : Int64) :
    bytesToMove length ppos = bytesToCopy length ppos := by
  rw [bytesToMove, bytesToCopy]
  split_ifs with h₁ h₂ h₂
  · exact absurd h₂ (UInt64.lt_asymm h₁)
  · rfl
  · rfl
  · -- Neither is greater, so `length` is `maxbytes`.
    rw [← UInt64.le_antisymm (UInt64.not_lt.mp h₁) (UInt64.not_lt.mp h₂), intOfSize_sizeOfInt]

/-- `device_read` at an offset inside the buffer. -/
theorem deviceRead_spec (deviceBuffer : DeviceBuffer) (length : UInt64) (fault : Option ℕ)
    (hoff : InBuff ppos) {sent : List UInt8} (hsent : sent =
      across fault ((deviceBuffer.bytes.drop ppos.toInt.toNat).take (wanted length ppos))) :
    ∃ r, deviceRead deviceBuffer length ppos fault = some (r, sent) ∧ r.dev = deviceBuffer ∧
      r.ret.toInt = sent.length ∧ r.offp.toInt = ppos.toInt + sent.length := by
  have heq : deviceRead deviceBuffer length ppos fault =
      Scull.scullRead deviceBuffer length ppos fault := by
    rw [deviceRead, Scull.scullRead, bytesToMove_eq]
  rw [heq]
  exact Scull.scullRead_spec hoff hsent

/-- What a write stores: what it gets of the data, and NULs for what it does not get. -/
def stored (buff : List UInt8) (length : UInt64) (fault : Option ℕ) (ppos : Int64) : List UInt8 :=
  let got := across fault (buff.take (wanted length ppos))
  got ++ List.replicate (wanted length ppos - got.length) 0

theorem length_stored (buff : List UInt8) (length : UInt64) (fault : Option ℕ) (ppos : Int64) :
    (stored buff length fault ppos).length = wanted length ppos := by
  have hlen := (isPrefix_across fault (buff.take (wanted length ppos))).length_le
  rw [List.length_take] at hlen
  rw [stored, List.length_append, List.length_replicate]
  omega

/-- `device_write` at an offset inside the buffer. -/
theorem deviceWrite_spec (deviceBuffer : DeviceBuffer) (buff : List UInt8) (length : UInt64)
    (fault : Option ℕ) (hoff : InBuff ppos) {got : List UInt8}
    (hgot : got = across fault (buff.take (wanted length ppos))) :
    ∃ r, deviceWrite deviceBuffer buff length ppos fault = some r ∧
      r.dev.bytes = deviceBuffer.bytes.take ppos.toInt.toNat ++ stored buff length fault ppos ++
        deviceBuffer.bytes.drop (ppos.toInt.toNat + wanted length ppos) ∧
      r.ret.toInt = got.length ∧ r.offp.toInt = ppos.toInt + got.length := by
  have hlen : got.length ≤ wanted length ppos := by
    rw [hgot]
    exact (isPrefix_across fault _).length_le.trans (List.length_take_le _ _)
  have hsize := Scull.toNat_sizeOfInt_bytesToCopy length hoff
  have hfit := Scull.offp_add_wanted_le length hoff
  have hnonneg := hoff.1
  have hin : InArray 1024 ppos (sizeOfInt (bytesToCopy length ppos)) :=
    .inr ⟨hnonneg, by rw [hsize]; exact_mod_cast hfit⟩
  have hcopy : copyFromUser deviceBuffer ppos buff (sizeOfInt (bytesToCopy length ppos)) fault =
      some (deviceBuffer.overwrite ppos.toInt.toNat (stored buff length fault ppos),
        UInt64.ofNat ((sizeOfInt (bytesToCopy length ppos)).toNat - got.length)) := by
    rw [copyFromUser, if_pos hin, stored, hsize, ← hgot]
  have hret : (intOfSize (sizeOfInt (bytesToCopy length ppos) - _)).toInt = (got.length : ℤ) :=
    toInt_copied (by rw [Scull.toInt_bytesToCopy length hoff]; exact_mod_cast hlen)
  have hplace : ppos.toInt.toNat + (stored buff length fault ppos).length ≤ 1024 := by
    rw [length_stored]
    omega
  refine ⟨⟨_, _, _⟩, by rw [deviceWrite, bytesToMove_eq, hcopy]; rfl, ?_, ?_, ?_⟩
  · show (deviceBuffer.overwrite ppos.toInt.toNat (stored buff length fault ppos)).bytes = _
    rw [CBuffer.bytes_overwrite _ hplace, length_stored]
  · rw [Int32.toInt_toInt64, hret]
  · exact Scull.toInt_offp_add hoff hret hlen

/-- Wherever `lseek` is told to go, it stays in the buffer or at its end. -/
theorem inBuff_deviceLseek (fPos offset : Int64) (orig : Int32) :
    InBuff (deviceLseek fPos offset orig) := by
  have hclamp : ∀ newPos : Int64,
      InBuff (if (if newPos > 1024 then 1024 else newPos) < 0 then 0
        else if newPos > 1024 then 1024 else newPos) := by
    intro newPos
    have hsize : (1024 : Int64).toInt = 1024 := rfl
    have hzero : (0 : Int64).toInt = 0 := rfl
    split_ifs with hbig hneg hneg
    · constructor <;> omega
    · constructor <;> omega
    · constructor <;> omega
    · rw [gt_iff_lt, Int64.lt_iff_toInt_lt, hsize] at hbig
      rw [Int64.lt_iff_toInt_lt, hzero] at hneg
      constructor <;> omega
  exact hclamp _

end Clamp

/-! ### What a call does -/

section Moves

/-- The block of the buffer an event writes. -/
def Event.block : Event → Option (Block UInt8)
  | .wrote _ buff length fault ppos _ => some ⟨ppos.toInt.toNat, stored buff length fault ppos⟩
  | _ => none

/-- A call while the offset of the open file lies in the buffer. -/
inductive Move (s : State) : Event → State → Prop
  | opened (h : 0 < s.sem) :
      Move s (.opened s.fPos.length) { s with sem := s.sem - 1, fPos := s.fPos ++ [some 0] }
  | interrupted (h : s.sem = 0) : Move s .interrupted s
  | read {file : ℕ} {length : UInt64} {fault : Option ℕ} {ppos offp ret : Int64}
      {sent : List UInt8} (hpos : s.pos file = some ppos)
      (hsent : sent = across fault
        ((s.deviceBuffer.bytes.drop ppos.toInt.toNat).take (wanted length ppos)))
      (hret : ret.toInt = sent.length) (hoffp : offp.toInt = ppos.toInt + sent.length) :
      Move s (.read file length fault ppos ret sent)
        { s with fPos := s.fPos.set file (some offp) }
  | wrote {file : ℕ} {buff : List UInt8} {length : UInt64} {fault : Option ℕ}
      {ppos offp ret : Int64} {dev : DeviceBuffer} (hpos : s.pos file = some ppos)
      (hdev : dev.bytes = s.deviceBuffer.bytes.take ppos.toInt.toNat ++
        stored buff length fault ppos ++
          s.deviceBuffer.bytes.drop (ppos.toInt.toNat + wanted length ppos))
      (hret : ret.toInt = (across fault (buff.take (wanted length ppos))).length)
      (hoffp : offp.toInt = ppos.toInt + (across fault (buff.take (wanted length ppos))).length) :
      Move s (.wrote file buff length fault ppos ret)
        { s with deviceBuffer := dev, fPos := s.fPos.set file (some offp) }
  | sought {file : ℕ} {offset ppos : Int64} {orig : Int32} (hpos : s.pos file = some ppos) :
      Move s (.sought file offset orig (deviceLseek ppos offset orig))
        { s with fPos := s.fPos.set file (some (deviceLseek ppos offset orig)) }
  | closed {file : ℕ} {ppos : Int64} (hpos : s.pos file = some ppos) :
      Move s (.closed file s.ret) { s with sem := s.sem + 1, fPos := s.fPos.set file none }

variable {s t : State} {e : Event}

theorem move_of_step (hin : ∀ file off, s.pos file = some off → InBuff off)
    (h : StepOf step s e t) : Move s e t := by
  obtain ⟨c, hstep⟩ := h
  cases c with
  | openDev =>
      rw [step] at hstep
      split_ifs at hstep with hsem
      cases hstep
      exact .opened hsem
  | interrupt =>
      rw [step] at hstep
      split_ifs at hstep with hsem
      cases hstep
      exact .interrupted hsem
  | read file length fault =>
      obtain ⟨ppos, hpos, hrest⟩ := Option.bind_eq_some_iff.mp hstep
      obtain ⟨r, hread, hdev, hret, hoffp⟩ :=
        deviceRead_spec s.deviceBuffer length fault (hin file ppos hpos) rfl
      rw [hread] at hrest
      cases hrest
      show Move s _ { s with deviceBuffer := r.dev, fPos := s.fPos.set file (some r.offp) }
      rw [hdev]
      exact .read hpos rfl hret hoffp
  | write file buff length fault =>
      obtain ⟨ppos, hpos, hrest⟩ := Option.bind_eq_some_iff.mp hstep
      obtain ⟨r, hwrite, hdev, hret, hoffp⟩ :=
        deviceWrite_spec s.deviceBuffer buff length fault (hin file ppos hpos) rfl
      rw [hwrite] at hrest
      cases hrest
      exact .wrote hpos hdev hret hoffp
  | lseek file offset orig =>
      obtain ⟨ppos, hpos, hrest⟩ := Option.bind_eq_some_iff.mp hstep
      cases hrest
      exact .sought hpos
  | close file =>
      obtain ⟨ppos, hpos, hrest⟩ := Option.bind_eq_some_iff.mp hstep
      cases hrest
      exact .closed hpos

end Moves

end CharDev
