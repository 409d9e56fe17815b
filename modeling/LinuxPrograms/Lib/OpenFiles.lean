import Mathlib.Algebra.Ring.Int.Defs
import LinuxPrograms.Lib.LabelledSystem

/-!
# Open files of a character device

The kernel side of a character device without `llseek`: every `open` makes an open file whose
offset is 0, and every `read` and `write` on it is handed that offset, which nothing else changes.
The device is its `file_operations` over the state `σ` of its module; calls run one after another.

- `step_iff`: all a call can do.
- `Advances`, `offset_eq_returned`: if the operations move the offset by what they return, then the
  offset of each file is the sum of the values its own calls returned.
- `Serves`, `delivered_eq`: if `read` hands out a content and changes nothing, then chunk after
  chunk of it arrives, and all of it when a `read` has returned 0.
-/

namespace OpenFiles

open LabelledSystem

/-- What a `read` or `write` of the device leaves behind. -/
structure Result (σ : Type) where
  /-- The state of the module. -/
  dev : σ
  /-- The offset stored through the offset pointer. -/
  offp : Int64
  /-- The returned value. -/
  ret : Int64
  deriving DecidableEq

/-- The operations of a character device. A call without a result is one with undefined
behaviour. `fault` says where the copy between the device and user memory stops, if it does. -/
structure FileOperations (σ : Type) where
  /-- `open`: the module's state afterwards and the returned value. -/
  openDev : σ → σ × Int32
  /-- `read(filp, buff, count, offp)`, with the bytes that arrive at `buff`. -/
  read : σ → (count : UInt64) → (offp : Int64) → (fault : Option ℕ) →
    Option (Result σ × List UInt8)
  /-- `write(filp, buff, count, offp)`; `data` is what can be read at `buff`. -/
  write : σ → (data : List UInt8) → (count : UInt64) → (offp : Int64) → (fault : Option ℕ) →
    Option (Result σ)

/-- The module's state and the offsets of the open files, in the order of opening. -/
structure State (σ : Type) where
  /-- The state of the module. -/
  dev : σ
  /-- The offset of each open file. -/
  pos : List Int64
  deriving DecidableEq

/-- A module just loaded: no file is open. -/
def State.loaded {σ : Type} (dev : σ) : State σ := ⟨dev, []⟩

/-- A system call on the device. -/
inductive Call
  /-- `open`. -/
  | openDev
  /-- `read` of `count` bytes on an open file. -/
  | read (file : ℕ) (count : UInt64) (fault : Option ℕ)
  /-- `write` of `count` bytes at `data` on an open file. -/
  | write (file : ℕ) (data : List UInt8) (count : UInt64) (fault : Option ℕ)
  deriving DecidableEq

/-- What a system call did. -/
inductive Event
  /-- `open` made a file. -/
  | opened (file : ℕ)
  /-- `open` returned an error. -/
  | openFailed (err : Int32)
  /-- `read` at the offset `offp` returned `ret` and delivered these bytes. -/
  | read (file : ℕ) (count : UInt64) (fault : Option ℕ) (offp ret : Int64) (delivered : List UInt8)
  /-- `write` at the offset `offp` returned `ret`. -/
  | wrote (file : ℕ) (data : List UInt8) (count : UInt64) (fault : Option ℕ) (offp ret : Int64)
  deriving DecidableEq

/-- The event is a write. -/
def Event.isWrite : Event → Bool
  | .wrote .. => true
  | _ => false

/-- The value a read or write of this file returned. -/
def Event.returned (file : ℕ) : Event → Option ℤ
  | .read f _ _ _ ret _ => if f = file then some ret.toInt else none
  | .wrote f _ _ _ _ ret => if f = file then some ret.toInt else none
  | _ => none

/-- The values the reads and writes of this file returned, added up. -/
def returned (file : ℕ) (tr : List Event) : ℤ := (tr.filterMap (Event.returned file)).sum

/-- The bytes a read of this file delivered. -/
def Event.delivered (file : ℕ) : Event → List UInt8
  | .read f _ _ _ _ bytes => if f = file then bytes else []
  | _ => []

/-- All bytes the reads of this file delivered, in order. -/
def delivered (file : ℕ) (tr : List Event) : List UInt8 := tr.flatMap (Event.delivered file)

/-- A system call. There is no result for a file that is not open and for undefined behaviour. -/
def step {σ : Type} (ops : FileOperations σ) (s : State σ) : Call → Option (State σ × Event)
  | .openDev =>
      let (dev, err) := ops.openDev s.dev
      if err = 0 then some (⟨dev, s.pos ++ [0]⟩, .opened s.pos.length)
      else some (⟨dev, s.pos⟩, .openFailed err)
  | .read file count fault => do
      let offp ← s.pos[file]?
      let (r, bytes) ← ops.read s.dev count offp fault
      some (⟨r.dev, s.pos.set file r.offp⟩, .read file count fault offp r.ret bytes)
  | .write file data count fault => do
      let offp ← s.pos[file]?
      let r ← ops.write s.dev data count offp fault
      some (⟨r.dev, s.pos.set file r.offp⟩, .wrote file data count fault offp r.ret)

/-- The step relation of the system calls. -/
abbrev Step {σ : Type} (ops : FileOperations σ) : State σ → Event → State σ → Prop :=
  StepOf (step ops)

/-- The calls `tr`, one after another, lead from the loaded module to `s`. -/
abbrev Reaches {σ : Type} (ops : FileOperations σ) (dev : σ) (tr : List Event) (s : State σ) :
    Prop :=
  Run (Step ops) (.loaded dev) tr s

/-- What an event says of the states before and after it. -/
def Effect {σ : Type} (ops : FileOperations σ) (s t : State σ) : Event → Prop
  | .opened file =>
      (ops.openDev s.dev).2 = 0 ∧ file = s.pos.length ∧
        t = ⟨(ops.openDev s.dev).1, s.pos ++ [0]⟩
  | .openFailed err =>
      err ≠ 0 ∧ (ops.openDev s.dev).2 = err ∧ t = ⟨(ops.openDev s.dev).1, s.pos⟩
  | .read file count fault offp ret bytes =>
      s.pos[file]? = some offp ∧ ∃ r, ops.read s.dev count offp fault = some (r, bytes) ∧
        r.ret = ret ∧ t = ⟨r.dev, s.pos.set file r.offp⟩
  | .wrote file data count fault offp ret =>
      s.pos[file]? = some offp ∧ ∃ r, ops.write s.dev data count offp fault = some r ∧
        r.ret = ret ∧ t = ⟨r.dev, s.pos.set file r.offp⟩

variable {σ : Type} {ops : FileOperations σ} {dev : σ} {s t : State σ} {e : Event}
  {tr : List Event} {file : ℕ}

/-- A call does what its event says, and any such event is one of a call. -/
theorem step_iff : Step ops s e t ↔ Effect ops s t e := by
  constructor
  · rintro ⟨c, hc⟩
    cases c with
    | openDev =>
        simp only [step] at hc
        split_ifs at hc with herr
        · obtain ⟨rfl, rfl⟩ := Prod.mk.inj (Option.some.inj hc)
          exact ⟨herr, rfl, rfl⟩
        · obtain ⟨rfl, rfl⟩ := Prod.mk.inj (Option.some.inj hc)
          exact ⟨herr, rfl, rfl⟩
    | read file count fault =>
        obtain ⟨offp, hpos, hc⟩ := Option.bind_eq_some_iff.mp hc
        obtain ⟨⟨r, bytes⟩, hread, hc⟩ := Option.bind_eq_some_iff.mp hc
        obtain ⟨rfl, rfl⟩ := Prod.mk.inj (Option.some.inj hc)
        exact ⟨hpos, r, hread, rfl, rfl⟩
    | write file data count fault =>
        obtain ⟨offp, hpos, hc⟩ := Option.bind_eq_some_iff.mp hc
        obtain ⟨r, hwrite, hc⟩ := Option.bind_eq_some_iff.mp hc
        obtain ⟨rfl, rfl⟩ := Prod.mk.inj (Option.some.inj hc)
        exact ⟨hpos, r, hwrite, rfl, rfl⟩
  · intro h
    cases e with
    | opened file =>
        obtain ⟨herr, rfl, rfl⟩ := h
        exact ⟨.openDev, by simp [step, herr]⟩
    | openFailed err =>
        obtain ⟨herr, rfl, rfl⟩ := h
        exact ⟨.openDev, by simp [step, herr]⟩
    | read file count fault offp ret bytes =>
        obtain ⟨hpos, r, hread, rfl, rfl⟩ := h
        exact ⟨.read file count fault, by simp [step, hpos, hread]⟩
    | wrote file data count fault offp ret =>
        obtain ⟨hpos, r, hwrite, rfl, rfl⟩ := h
        exact ⟨.write file data count fault, by simp [step, hpos, hwrite]⟩

section Offsets

/-- An offset from 0 to `size`. -/
def Within (size : ℕ) (off : ℤ) : Prop := 0 ≤ off ∧ off ≤ size

/-- `read` and `write` at an offset up to `size` move it by what they return, and not past
`size`. -/
structure Advances (ops : FileOperations σ) (size : ℕ) : Prop where
  read : ∀ {dev count offp fault r bytes}, Within size offp.toInt →
    ops.read dev count offp fault = some (r, bytes) →
      Within size r.offp.toInt ∧ r.offp.toInt = offp.toInt + r.ret.toInt
  write : ∀ {dev data count offp fault r}, Within size offp.toInt →
    ops.write dev data count offp fault = some r →
      Within size r.offp.toInt ∧ r.offp.toInt = offp.toInt + r.ret.toInt

/-- The offset of a file, 0 if it is not open yet. -/
def State.offset (s : State σ) (file : ℕ) : ℤ := (s.pos.getD file 0).toInt

theorem State.offset_eq {off : Int64} (h : s.pos[file]? = some off) :
    s.offset file = off.toInt := by
  rw [offset, List.getD_eq_getElem?_getD, h, Option.getD_some]

/-- A file just opened has the offset 0. -/
theorem State.offset_open (dev : σ) (s : State σ) (file : ℕ) :
    (State.mk dev (s.pos ++ [0])).offset file = s.offset file := by
  -- An older file, the new one, and one that is still not open.
  rcases Nat.lt_trichotomy file s.pos.length with h | h | h
  · simp [State.offset, List.getElem?_append_left h]
  · simp [State.offset, h]
  · simp [State.offset, List.getElem?_eq_none (Nat.le_of_lt h), List.getElem?_append_right
      (Nat.le_of_lt h), List.getElem?_eq_none (show [(0 : Int64)].length ≤ file - s.pos.length by
        simp; omega)]

/-- A call on a file sets its offset and no other. -/
theorem State.offset_set (dev : σ) (s : State σ) (f file : ℕ) {off new : Int64}
    (h : s.pos[f]? = some off) :
    (State.mk dev (s.pos.set f new)).offset file =
      if f = file then new.toInt else s.offset file := by
  obtain ⟨hf, -⟩ := List.getElem?_eq_some_iff.mp h
  by_cases hfile : f = file
  · subst hfile
    simp [State.offset, hf]
  · simp [State.offset, hfile]

theorem returned_snoc (file : ℕ) (tr : List Event) (e : Event) :
    returned file (tr ++ [e]) = returned file tr + (e.returned file).getD 0 := by
  rw [returned, filterMap_snoc, List.sum_append]
  cases e.returned file <;> simp [returned]

/-- One call moves each offset by what it returned on that file, and keeps it in range. -/
theorem Advances.step {size : ℕ} (hops : Advances ops size) (hstep : Step ops s e t) (file : ℕ)
    (hs : ∀ file, Within size (s.offset file)) :
    Within size (t.offset file) ∧ t.offset file = s.offset file + (e.returned file).getD 0 := by
  -- What a call on the file `f` does to the offset of `file`.
  have hset : ∀ f offp, s.pos[f]? = some offp → ∀ r : Result σ, Within size r.offp.toInt →
      r.offp.toInt = offp.toInt + r.ret.toInt →
        Within size ((State.mk r.dev (s.pos.set f r.offp)).offset file) ∧
          (State.mk r.dev (s.pos.set f r.offp)).offset file =
            s.offset file + (if f = file then some r.ret.toInt else none).getD 0 := by
    intro f offp hpos r hr hadd
    rw [State.offset_set r.dev s f file hpos]
    split_ifs with hf
    · subst hf
      rw [State.offset_eq hpos]
      exact ⟨hr, hadd⟩
    -- The offset of another file does not move.
    · exact ⟨hs file, (Int.add_zero _).symm⟩
  cases e with
  | opened f =>
      obtain ⟨-, -, rfl⟩ := step_iff.mp hstep
      rw [State.offset_open]
      exact ⟨hs file, (Int.add_zero _).symm⟩
  | openFailed err =>
      obtain ⟨-, -, rfl⟩ := step_iff.mp hstep
      exact ⟨hs file, (Int.add_zero _).symm⟩
  | read f count fault offp ret bytes =>
      obtain ⟨hpos, r, hread, rfl, rfl⟩ := step_iff.mp hstep
      obtain ⟨hr, hadd⟩ := hops.read (State.offset_eq hpos ▸ hs f) hread
      exact hset f offp hpos r hr hadd
  | wrote f data count fault offp ret =>
      obtain ⟨hpos, r, hwrite, rfl, rfl⟩ := step_iff.mp hstep
      obtain ⟨hr, hadd⟩ := hops.write (State.offset_eq hpos ▸ hs f) hwrite
      exact hset f offp hpos r hr hadd

/-- In range stay all offsets. -/
theorem Advances.within_run {size : ℕ} (hops : Advances ops size) (h : Run (Step ops) s tr t)
    (hs : ∀ file, Within size (s.offset file)) (file : ℕ) : Within size (t.offset file) := by
  refine h.history (P := fun _ t => ∀ file, Within size (t.offset file)) hs ?_ file
  intro tr t e u _ ht hstep file
  exact (hops.step hstep file ht).1

/-- The offset of a file is the sum of what its reads and writes returned. -/
theorem Advances.offset_eq_returned {size : ℕ} (hops : Advances ops size)
    (h : Reaches ops dev tr s) (file : ℕ) :
    Within size (s.offset file) ∧ s.offset file = returned file tr := by
  refine h.history (P := fun tr s => ∀ file, Within size (s.offset file) ∧
    s.offset file = returned file tr) ?_ ?_ file
  · exact fun file => ⟨⟨Int.le_refl 0, Int.natCast_nonneg size⟩, rfl⟩
  · intro tr s e t _ hs hstep file
    obtain ⟨hin, hadd⟩ := hops.step hstep file fun file => (hs file).1
    exact ⟨hin, by rw [hadd, (hs file).2, returned_snoc]⟩

end Offsets

section Contents

/-- `open` and `read` leave the module as it is, and a `read` without a fault delivers the next
`count` bytes of its content, as far as there are. -/
structure Serves (ops : FileOperations σ) (content : σ → List UInt8) : Prop where
  openDev : ∀ dev, (ops.openDev dev).1 = dev
  read_dev : ∀ {dev count offp fault r bytes},
    ops.read dev count offp fault = some (r, bytes) → r.dev = dev
  read : ∀ {dev count offp r bytes}, Within (content dev).length offp.toInt →
    ops.read dev count offp none = some (r, bytes) →
      bytes = ((content dev).drop offp.toInt.toNat).take count.toNat ∧ r.ret.toInt = bytes.length

variable {content : σ → List UInt8}

/-- Calls other than `write` leave the module as it is. -/
theorem Serves.dev_eq (hops : Serves ops content) (h : Run (Step ops) s tr t)
    (hquiet : ∀ e ∈ tr, e.isWrite = false) : t.dev = s.dev := by
  refine h.invariant (P := fun t => t.dev = s.dev) hquiet rfl ?_
  intro t e u ht hstep he
  rw [← ht]
  cases e with
  | opened f =>
      obtain ⟨-, -, rfl⟩ := step_iff.mp hstep
      exact hops.openDev t.dev
  | openFailed err =>
      obtain ⟨-, -, rfl⟩ := step_iff.mp hstep
      exact hops.openDev t.dev
  | read f count fault offp ret bytes =>
      obtain ⟨-, r, hread, -, rfl⟩ := step_iff.mp hstep
      exact hops.read_dev hread
  | wrote => cases he

/-- A read of this file in which the copy to user memory faults. -/
def Event.faults (file : ℕ) : Event → Bool
  | .read f _ fault _ _ _ => f = file && fault.isSome
  | _ => false

/-- A read of this file that asked for bytes and returned 0. -/
def Event.atEnd (file : ℕ) : Event → Bool
  | .read f count _ _ ret _ => f = file && (0 < count) && ret = 0
  | _ => false

/-- What a reader of the file has got since its offset was `off`. -/
structure Delivered (content : List UInt8) (file : ℕ) (off : ℤ) (tr : List Event) (now : ℤ) :
    Prop where
  le : off ≤ now
  bytes : delivered file tr = (content.drop off.toNat).take (now - off).toNat
  atEnd : (∃ e ∈ tr, e.atEnd file = true) → now = content.length

/-- A call that delivers nothing to the reader and does not move its offset. -/
theorem Delivered.snoc_quiet {C : List UInt8} {off now : ℤ} (h : Delivered C file off tr now)
    (hbytes : e.delivered file = []) (hend : e.atEnd file = false) :
    Delivered C file off (tr ++ [e]) now where
  le := h.le
  bytes := by rw [delivered, List.flatMap_append, List.flatMap_singleton, hbytes, List.append_nil,
    ← delivered, h.bytes]
  atEnd := by
    rintro ⟨e', he', htrue⟩
    rcases List.mem_append.mp he' with he' | he'
    · exact h.atEnd ⟨e', he', htrue⟩
    · rw [List.mem_singleton.mp he', hend] at htrue
      cases htrue

/-- A read of the next bytes. -/
theorem Delivered.snoc_read {C bytes : List UInt8} {off now ret : ℤ} {count : ℕ}
    (h : Delivered C file off tr now) (hoff : 0 ≤ off) (hnow : now ≤ C.length)
    (hbytes : bytes = (C.drop now.toNat).take count) (hret : ret = bytes.length)
    (hdel : e.delivered file = bytes) (hend : e.atEnd file = true → 0 < count ∧ ret = 0) :
    Delivered C file off (tr ++ [e]) (now + ret) := by
  have hle := h.le
  have hlen : bytes.length = min count (C.length - now.toNat) := by
    rw [hbytes, List.length_take, List.length_drop]
  refine ⟨by omega, ?_, ?_⟩
  · -- The bytes so far end where the new ones begin.
    have hsplit : (now + ret - off).toNat = (now - off).toNat + bytes.length := by omega
    have hplace : off.toNat + (now - off).toNat = now.toNat := by omega
    have hnew : bytes = (C.drop now.toNat).take bytes.length := by
      conv_lhs => rw [hbytes]
      rw [hlen, ← List.length_drop, List.take_eq_take_min]
    calc delivered file (tr ++ [e])
        = delivered file tr ++ bytes := by
          rw [delivered, List.flatMap_append, List.flatMap_singleton, hdel, ← delivered]
      _ = (C.drop off.toNat).take (now - off).toNat ++ (C.drop now.toNat).take bytes.length := by
          rw [h.bytes, ← hnew]
      _ = (C.drop off.toNat).take (now + ret - off).toNat := by
          rw [hsplit, List.take_add, List.drop_drop, hplace]
  · rintro ⟨e', he', htrue⟩
    rcases List.mem_append.mp he' with he' | he'
    · -- It was at the end already, and there is nothing left to read.
      have hnow' := h.atEnd ⟨e', he', htrue⟩
      omega
    · rw [List.mem_singleton.mp he'] at htrue
      obtain ⟨hcount, hzero⟩ := hend htrue
      omega

/-- As long as nobody writes, a reader gets the content from its offset on, byte after byte, and
once a `read` has returned 0 it has got the rest of it. -/
theorem delivered_eq (hops : Serves ops content) (hadv : Advances ops (content s.dev).length)
    (h : Run (Step ops) s tr t) (hs : ∀ file, Within (content s.dev).length (s.offset file))
    (hquiet : ∀ e ∈ tr, e.isWrite = false) (hfault : ∀ e ∈ tr, e.faults file = false) :
    Delivered (content s.dev) file (s.offset file) tr (t.offset file) := by
  refine h.history (P := fun tr t => (∀ e ∈ tr, e.isWrite = false) →
    (∀ e ∈ tr, e.faults file = false) →
      Delivered (content s.dev) file (s.offset file) tr (t.offset file)) ?_ ?_ hquiet hfault
  · intro _ _
    exact ⟨Int.le_refl _, by simp [delivered], by simp⟩
  · intro tr t e u hrun ih hstep hquiet hfault
    rw [List.forall_mem_append, List.forall_mem_singleton] at hquiet hfault
    have hd := ih hquiet.1 hfault.1
    have hdev := hops.dev_eq hrun hquiet.1
    have ht := hadv.within_run hrun hs
    have hmove := (hadv.step hstep file ht).2
    -- A call that returns nothing on this file does not move its offset.
    have hstay : e.returned file = none → e.delivered file = [] → e.atEnd file = false →
        Delivered (content s.dev) file (s.offset file) (tr ++ [e]) (u.offset file) := by
      intro hret hbytes hend
      rw [hmove, hret, Option.getD_none, Int.add_zero]
      exact hd.snoc_quiet hbytes hend
    cases e with
    | opened f => exact hstay rfl rfl rfl
    | openFailed err => exact hstay rfl rfl rfl
    | read f count fault offp ret bytes =>
        by_cases hf : f = file
        -- The reader's own read takes the next bytes; a read of another file gives it none.
        · subst hf
          obtain rfl : fault = none := by simpa [Event.faults] using hfault.2
          obtain ⟨hpos, r, hread, rfl, -⟩ := step_iff.mp hstep
          have hoff := State.offset_eq hpos
          obtain ⟨hbytes, hret⟩ := hops.read (by rw [hdev, ← hoff]; exact ht f) hread
          rw [hdev, ← hoff] at hbytes
          rw [hmove, Event.returned, if_pos rfl, Option.getD_some]
          refine hd.snoc_read (hs f).1 (ht f).2 hbytes hret (if_pos rfl) fun hend => ?_
          simpa [Event.atEnd, UInt64.lt_iff_toNat_lt, ← Int64.toInt_inj] using hend
        · exact hstay (if_neg hf) (if_neg hf) (by simp [Event.atEnd, hf])
    | wrote => cases hquiet.2

end Contents

end OpenFiles
