import LinuxPrograms.Lib.OpenFiles
import LinuxPrograms.Lib.UserCopy

/-!
# Scull: the character device

The device of `char_driver_sample.c`, `proc_read_char_driver.c` and
`seq_file_interface_char_driver.c`. The three modules have one text of `scull_open`, `scull_read`
and the locked part of `scull_write`; the last also keeps a byte count for its proc file.

Left out are the `printk` lines and `private_data`: both device nodes and all open files share the
one `dev_data` and the one `drv_buff`. Calls run one after another here, so that `down` never waits.

- `toInt_bytesToCopy`: what the clamp of `scull_read` and `scull_write` amounts to in range.
- `Driver.read_spec`, `Driver.write_spec`: the two calls at an offset inside the buffer.
-/

namespace Scull

open CInt CString OpenFiles UserCopy

/-- `MAX_BUFF_SIZE`. -/
abbrev maxBuffSize : ℕ := 1024

/-- `static char drv_buff[MAX_BUFF_SIZE]`. -/
abbrev DrvBuff := CBuffer maxBuffSize

/-- `int max_bytes=MAX_BUFF_SIZE - *offp`. -/
def maxBytes (offp : Int64) : Int32 := intOfLong (1024 - offp)

/-- `bytes_to_read` and `bytes_to_write`: `count`, or `max_bytes` where `count>max_bytes`, which
compares two `size_t`. -/
def bytesToCopy (count : UInt64) (offp : Int64) : Int32 :=
  if count > sizeOfInt (maxBytes offp) then maxBytes offp else intOfSize count

/-- `scull_open`. -/
def scullOpen (drvBuff : DrvBuff) : DrvBuff × Int32 := (drvBuff, 0)

/-- `scull_read`. -/
def scullRead (drvBuff : DrvBuff) (count : UInt64) (offp : Int64) (fault : Option ℕ) :
    Option (Result DrvBuff × List UInt8) := do
  let bytesToRead := bytesToCopy count offp
  -- `copy_to_user` takes a `size_t` and returns the bytes it could not copy.
  let (delivered, left) ← copyToUser drvBuff offp (sizeOfInt bytesToRead) fault
  let bytesRead := intOfSize (sizeOfInt bytesToRead - left)
  some (⟨drvBuff, offp + bytesRead.toInt64, bytesRead.toInt64⟩, delivered)

/-- `scull_write`, up to the `up` of the semaphore. -/
def scullWrite (drvBuff : DrvBuff) (data : List UInt8) (count : UInt64) (offp : Int64)
    (fault : Option ℕ) : Option (Result DrvBuff) := do
  let bytesToWrite := bytesToCopy count offp
  -- The buffer is cleared before the copy is tried.
  let (stored, left) ←
    copyFromUser (drvBuff.memset 0) offp data (sizeOfInt bytesToWrite) fault
  let bytesWrite := intOfSize (sizeOfInt bytesToWrite - left)
  some ⟨stored, offp + bytesWrite.toInt64, bytesWrite.toInt64⟩

/-- `scull_fops` of `char_driver_sample.c` and `proc_read_char_driver.c`. -/
def scullFops : FileOperations DrvBuff where
  openDev := scullOpen
  read := scullRead
  write := scullWrite

namespace SeqFile

/-- `struct proc_debug_struct`, a node of the list behind the proc file. -/
structure ProcDebugStruct where
  /-- The number of the node. -/
  info : CBuffer 23
  /-- The number of bytes in `drv_buff`. -/
  info1 : CBuffer 20
  deriving DecidableEq

/-- What the module `seq_file_interface_char_driver` keeps. -/
structure Module where
  /-- `drv_buff`. -/
  drvBuff : DrvBuff
  /-- The nodes linked at `mydrv_list_head`. -/
  mydrvList : List ProcDebugStruct
  deriving DecidableEq

/-- The text `"byte Count=%d\n"`. -/
def byteCountText (n : ℤ) : List UInt8 := text ("byte Count=" ++ toString n ++ "\n")

/-- `setup_char_module`: an empty buffer and one node. -/
def setupCharModule : Module where
  drvBuff := .zero maxBuffSize
  mydrvList := [⟨(CBuffer.zero 23).sprintf (text "List Node 1\n"),
    (CBuffer.zero 20).sprintf (byteCountText 0)⟩]

/-- The end of `scull_write`, behind `up`: the two `list_for_each_entry` loops leave `q` at the
first node, and its text is replaced. -/
def noteByteCount (bytesWrite : Int64) (list : List ProcDebugStruct) : List ProcDebugStruct :=
  if 0 < bytesWrite ∧ bytesWrite < 1024 then
    list.modifyHead fun q => { q with info1 := q.info1.sprintf (byteCountText bytesWrite.toInt) }
  else list

/-- `scull_open`. -/
def scullOpen (m : Module) : Module × Int32 := (m, 0)

/-- `scull_read`. -/
def scullRead (m : Module) (count : UInt64) (offp : Int64) (fault : Option ℕ) :
    Option (Result Module × List UInt8) := do
  let (r, delivered) ← Scull.scullRead m.drvBuff count offp fault
  some (⟨{ m with drvBuff := r.dev }, r.offp, r.ret⟩, delivered)

/-- `scull_write`. -/
def scullWrite (m : Module) (data : List UInt8) (count : UInt64) (offp : Int64)
    (fault : Option ℕ) : Option (Result Module) := do
  let r ← Scull.scullWrite m.drvBuff data count offp fault
  some ⟨⟨r.dev, noteByteCount r.ret m.mydrvList⟩, r.offp, r.ret⟩

/-- `scull_fops` of `seq_file_interface_char_driver.c`. -/
def scullFops : FileOperations Module where
  openDev := scullOpen
  read := scullRead
  write := scullWrite

end SeqFile

/-- The modules that carry the device. -/
inductive Driver
  | charDriver
  | procReadCharDriver
  | seqFileInterface
  deriving DecidableEq

namespace Driver

/-- What the module keeps. -/
def Module : Driver → Type
  | charDriver | procReadCharDriver => DrvBuff
  | seqFileInterface => SeqFile.Module

/-- What it keeps after `setup_char_module`. -/
def setupCharModule : (d : Driver) → d.Module
  | charDriver | procReadCharDriver => CBuffer.zero maxBuffSize
  | seqFileInterface => SeqFile.setupCharModule

/-- Its `drv_buff`. -/
def drvBuff : (d : Driver) → d.Module → DrvBuff
  | charDriver | procReadCharDriver => id
  | seqFileInterface => SeqFile.Module.drvBuff

/-- Its `scull_fops`. -/
def scullFops : (d : Driver) → FileOperations d.Module
  | charDriver | procReadCharDriver => Scull.scullFops
  | seqFileInterface => SeqFile.scullFops

end Driver

/-- `scull_read` leaves the buffer as it is. -/
theorem scullRead_dev {buff : DrvBuff} {count : UInt64} {offp : Int64} {fault : Option ℕ}
    {r : Result DrvBuff} {sent : List UInt8}
    (h : scullRead buff count offp fault = some (r, sent)) : r.dev = buff := by
  obtain ⟨⟨delivered, left⟩, -, h⟩ := Option.bind_eq_some_iff.mp h
  obtain ⟨rfl, -⟩ := Prod.mk.inj (Option.some.inj h)
  rfl

/-- `scull_read` leaves what the module keeps as it is. -/
theorem Driver.read_dev (d : Driver) {m : d.Module} {count : UInt64} {offp : Int64}
    {fault : Option ℕ} {r : Result d.Module} {sent : List UInt8}
    (h : d.scullFops.read m count offp fault = some (r, sent)) : r.dev = m := by
  cases d with
  | charDriver => exact scullRead_dev h
  | procReadCharDriver => exact scullRead_dev h
  | seqFileInterface =>
      obtain ⟨⟨r', delivered⟩, hread, h⟩ := Option.bind_eq_some_iff.mp h
      obtain ⟨rfl, -⟩ := Prod.mk.inj (Option.some.inj h)
      show SeqFile.Module.mk r'.dev m.mydrvList = m
      rw [scullRead_dev hread]
      rfl

section InRange

variable {buff : DrvBuff} {data : List UInt8} {count : UInt64} {offp : Int64} {fault : Option ℕ}

/-- The offset lies in the buffer or at its end. -/
abbrev InBuff (offp : Int64) : Prop := Within 1024 offp.toInt

/-- The bytes a call at this offset is after: `count`, or the rest of the buffer if that is less. -/
def wanted (count : UInt64) (offp : Int64) : ℕ := min count.toNat (1024 - offp.toInt.toNat)

/-- At an offset inside the buffer `max_bytes` is the rest of the buffer. -/
theorem toInt_maxBytes (hoff : InBuff offp) : (maxBytes offp).toInt = 1024 - offp.toInt := by
  obtain ⟨h0, h1⟩ := hoff
  have hsize : (1024 : Int64).toInt = 1024 := rfl
  have hsub : (1024 - offp).toInt = 1024 - offp.toInt := by
    rw [toInt_sub (by omega) (by omega), hsize]
  rw [maxBytes, toInt_intOfLong (by omega) (by omega), hsub]

/-- At an offset inside the buffer the clamp is exact. -/
theorem toInt_bytesToCopy (count : UInt64) (hoff : InBuff offp) :
    (bytesToCopy count offp).toInt = wanted count offp := by
  have hmax := toInt_maxBytes hoff
  obtain ⟨h0, h1⟩ := hoff
  have hsize : (sizeOfInt (maxBytes offp)).toNat = (1024 - offp.toInt).toNat := by
    rw [toNat_sizeOfInt (by omega), hmax]
  rw [bytesToCopy, wanted]
  split_ifs with hcount
  · rw [gt_iff_lt, UInt64.lt_iff_toNat_lt, hsize] at hcount
    omega
  -- Here `count` is small, so that the conversion to `int` keeps it.
  · rw [gt_iff_lt, UInt64.lt_iff_toNat_lt, hsize] at hcount
    rw [toInt_intOfSize (by omega)]
    omega

/-- What is handed to the copy functions at an offset inside the buffer. -/
theorem toNat_sizeOfInt_bytesToCopy (count : UInt64) (hoff : InBuff offp) :
    (sizeOfInt (bytesToCopy count offp)).toNat = wanted count offp := by
  have hclamp := toInt_bytesToCopy count hoff
  rw [toNat_sizeOfInt (by omega), hclamp, Int.toNat_natCast]

/-- The range handed to the copy functions then lies in the buffer. -/
theorem offp_add_wanted_le (count : UInt64) (hoff : InBuff offp) :
    offp.toInt + wanted count offp ≤ 1024 := by
  obtain ⟨h0, h1⟩ := hoff
  rw [wanted]
  omega

/-- `*offp += n` for a number of bytes that fits the buffer. -/
theorem toInt_offp_add (hoff : InBuff offp) {n : Int32} {k : ℕ} (hn : n.toInt = k)
    (hk : k ≤ wanted count offp) : (offp + n.toInt64).toInt = offp.toInt + k := by
  have hfit := offp_add_wanted_le count hoff
  obtain ⟨h0, -⟩ := hoff
  rw [toInt_add, Int32.toInt_toInt64, hn]
  all_goals
    rw [Int32.toInt_toInt64, hn]
    omega

/-- `scull_read` at an offset inside the buffer. -/
theorem scullRead_spec (hoff : InBuff offp) {sent : List UInt8}
    (hsent : sent = across fault ((buff.bytes.drop offp.toInt.toNat).take (wanted count offp))) :
    ∃ r, scullRead buff count offp fault = some (r, sent) ∧ r.dev = buff ∧
      r.ret.toInt = sent.length ∧ r.offp.toInt = offp.toInt + sent.length := by
  have hclamp := toInt_bytesToCopy count hoff
  have hlen : sent.length ≤ wanted count offp := by
    rw [hsent]
    exact (isPrefix_across fault _).length_le.trans (List.length_take_le _ _)
  -- The copy returns what it could not deliver, and the call what it could.
  have hsize := toNat_sizeOfInt_bytesToCopy count hoff
  have hfit := offp_add_wanted_le count hoff
  rw [← hsize] at hsent hfit
  have hcopy := copyToUser_of_le hoff.1 hfit hsent
  have hret : (intOfSize (sizeOfInt (bytesToCopy count offp) - _)).toInt = (sent.length : ℤ) :=
    toInt_copied (by omega)
  refine ⟨⟨buff, _, _⟩, by rw [scullRead, hcopy]; rfl, rfl, ?_, ?_⟩
  · rw [Int32.toInt_toInt64, hret]
  · exact toInt_offp_add hoff hret hlen

/-- `scull_write` at an offset inside the buffer: it clears the buffer and stores what it got of the
data at its offset. -/
theorem scullWrite_spec (buff : DrvBuff) (hoff : InBuff offp) {got : List UInt8}
    (hgot : got = across fault (data.take (wanted count offp))) :
    ∃ r, scullWrite buff data count offp fault = some r ∧
      r.dev.bytes = List.replicate offp.toInt.toNat 0 ++ got ++
        List.replicate (1024 - (offp.toInt.toNat + got.length)) 0 ∧
      r.ret.toInt = got.length ∧ r.offp.toInt = offp.toInt + got.length := by
  have hclamp := toInt_bytesToCopy count hoff
  have hlen : got.length ≤ wanted count offp := by
    rw [hgot]
    exact (isPrefix_across fault _).length_le.trans (List.length_take_le _ _)
  have hsize := toNat_sizeOfInt_bytesToCopy count hoff
  have hfit := offp_add_wanted_le count hoff
  rw [← hsize] at hgot hfit
  obtain ⟨stored, hcopy, hbytes⟩ := copyFromUser_zero hoff.1 hfit hgot
  have hret : (intOfSize (sizeOfInt (bytesToCopy count offp) - _)).toInt = (got.length : ℤ) :=
    toInt_copied (by omega)
  refine ⟨⟨stored, _, _⟩, by rw [scullWrite, CBuffer.memset_zero, hcopy]; rfl, hbytes, ?_, ?_⟩
  · rw [Int32.toInt_toInt64, hret]
  · exact toInt_offp_add hoff hret hlen

/-- The proc file does not touch `scull_read`. -/
theorem SeqFile.scullRead_of {m : SeqFile.Module} {r : Result DrvBuff} {sent : List UInt8}
    (h : Scull.scullRead m.drvBuff count offp fault = some (r, sent)) (hdev : r.dev = m.drvBuff) :
    SeqFile.scullRead m count offp fault = some (⟨m, r.offp, r.ret⟩, sent) := by
  rw [SeqFile.scullRead, h]
  show some ((⟨{ m with drvBuff := r.dev }, r.offp, r.ret⟩ : Result SeqFile.Module), sent) = _
  rw [hdev]

/-- The byte count is noted after the write. -/
theorem SeqFile.scullWrite_of {m : SeqFile.Module} {r : Result DrvBuff}
    (h : Scull.scullWrite m.drvBuff data count offp fault = some r) :
    SeqFile.scullWrite m data count offp fault =
      some ⟨⟨r.dev, SeqFile.noteByteCount r.ret m.mydrvList⟩, r.offp, r.ret⟩ := by
  rw [SeqFile.scullWrite, h]
  rfl

/-- `scull_read` of every module, at an offset inside the buffer. -/
theorem Driver.read_spec (d : Driver) (m : d.Module) (count : UInt64) (fault : Option ℕ)
    (hoff : InBuff offp) {sent : List UInt8} (hsent : sent = across fault
      (((d.drvBuff m).bytes.drop offp.toInt.toNat).take (wanted count offp))) :
    ∃ r, d.scullFops.read m count offp fault = some (r, sent) ∧ r.dev = m ∧
      r.ret.toInt = sent.length ∧ r.offp.toInt = offp.toInt + sent.length := by
  cases d with
  | charDriver => exact scullRead_spec hoff hsent
  | procReadCharDriver => exact scullRead_spec hoff hsent
  | seqFileInterface =>
      obtain ⟨r, hread, hdev, hret, hoffp⟩ := scullRead_spec hoff hsent
      exact ⟨_, SeqFile.scullRead_of hread hdev, rfl, hret, hoffp⟩

/-- `scull_write` of every module, at an offset inside the buffer. -/
theorem Driver.write_spec (d : Driver) (m : d.Module) (data : List UInt8) (count : UInt64)
    (fault : Option ℕ) (hoff : InBuff offp) {got : List UInt8}
    (hgot : got = across fault (data.take (wanted count offp))) :
    ∃ r, d.scullFops.write m data count offp fault = some r ∧
      (d.drvBuff r.dev).bytes = List.replicate offp.toInt.toNat 0 ++ got ++
        List.replicate (1024 - (offp.toInt.toNat + got.length)) 0 ∧
      r.ret.toInt = got.length ∧ r.offp.toInt = offp.toInt + got.length := by
  cases d with
  | charDriver => exact scullWrite_spec m hoff hgot
  | procReadCharDriver => exact scullWrite_spec m hoff hgot
  | seqFileInterface =>
      obtain ⟨r, hwrite, hbytes, hret, hoffp⟩ := scullWrite_spec m.drvBuff hoff hgot
      exact ⟨_, SeqFile.scullWrite_of hwrite, hbytes, hret, hoffp⟩

end InRange

end Scull
