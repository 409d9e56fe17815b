import LinuxPrograms.Driver.History
import Mathlib.Data.List.Nodup
import Mathlib.Data.List.Perm.Subperm

/-!
# Scull: the byte count of the proc file

The module with the proc file, used by any number of processes at once. A `scull_read` or
`scull_write` in progress has its own copy of the offset, which the kernel stores in the open file
when the call returns; only the part between `down` and `up` excludes other calls. The byte count is
noted behind `up`, and only for sizes from 1 to 1023.

- `step`, `Reaches`: the calls in progress, each taking its next step in any order.
- `exec_write_alone`, `exec_read_alone`: a call that nothing interrupts is the sequential one.
- `Tallied`: the writes that have stored, and those of them that have noted their size.
- `shows_lastStored`: when the proc file shows the size of the last write to take the semaphore.
-/

namespace Scull.SeqFile

open CString LabelledSystem OpenFiles UserCopy

/-! ## Calls in progress -/

/-- A call on an open file. -/
inductive Request
  | read (count : UInt64) (fault : Option ℕ)
  | write (data : List UInt8) (count : UInt64) (fault : Option ℕ)
  deriving DecidableEq

/-- The call is one of `scull_write`. -/
def Request.isWrite : Request → Bool
  | read _ _ => false
  | write _ _ _ => true

/-- Where a call stands: before `down`, behind it, behind the copy with the value to return, or
behind `up`. -/
inductive CallPos
  | entry
  | locked
  | copied (ret : Int64)
  | unlocked (ret : Int64)
  deriving DecidableEq

/-- A call in progress. -/
structure CallInProgress where
  file : ℕ
  request : Request
  /-- `*offp`. -/
  offp : Int64
  pos : CallPos
  deriving DecidableEq

/-- The module, `dev_data.sem`, the offsets of the open files and the calls in progress, each under
the number of its start. -/
structure System where
  module : Module
  sem : ℕ
  pos : List Int64
  call : ℕ → Option CallInProgress
  started : ℕ

/-- The module just loaded. -/
def System.init : System where
  module := setupCharModule
  sem := 1
  pos := []
  call := fun _ => none
  started := 0

/-- The call `id` in a new state. -/
def System.setCall (s : System) (id : ℕ) (c : CallInProgress) : System :=
  { s with call := Function.update s.call id (some c) }

/-- What a step does. -/
inductive Label
  | opened (file : ℕ)
  | started (id : ℕ)
  | down (id : ℕ)
  | read (id : ℕ) (delivered : List UInt8)
  /-- The buffer is cleared and filled from the offset `offp` on. -/
  | wrote (id : ℕ) (data : List UInt8) (count : UInt64) (fault : Option ℕ) (offp : Int64)
  | up (id : ℕ)
  /-- A call returns, a write with its size noted. -/
  | returned (id : ℕ) (isWrite : Bool)

/-- The next step of the call `id`. -/
def advance (s : System) (id : ℕ) (c : CallInProgress) : Option (System × Label) :=
  match c.pos with
  | .entry =>
      -- `down` waits while another call holds the semaphore.
      if s.sem = 0 then none
      else some ({ s with sem := s.sem - 1 }.setCall id { c with pos := .locked }, .down id)
  | .locked =>
      match c.request with
      | .read count fault =>
          (Scull.scullRead s.module.drvBuff count c.offp fault).map fun (r, delivered) =>
            ({ s with module := { s.module with drvBuff := r.dev } }.setCall id
                { c with offp := r.offp, pos := .copied r.ret }, .read id delivered)
      | .write data count fault =>
          (Scull.scullWrite s.module.drvBuff data count c.offp fault).map fun r =>
            ({ s with module := { s.module with drvBuff := r.dev } }.setCall id
                { c with offp := r.offp, pos := .copied r.ret }, .wrote id data count fault c.offp)
  | .copied ret =>
      some ({ s with sem := s.sem + 1 }.setCall id { c with pos := .unlocked ret }, .up id)
  | .unlocked ret =>
      -- The semaphore is free again; the count is noted, and the kernel stores the offset.
      let list := if c.request.isWrite then noteByteCount ret s.module.mydrvList
        else s.module.mydrvList
      some ({ s with
        module := { s.module with mydrvList := list }
        pos := s.pos.set c.file c.offp
        call := Function.update s.call id none }, .returned id c.request.isWrite)

/-- A process opens the device, starts a call on an open file, or goes on with one. -/
inductive Act
  | openDev
  | start (file : ℕ) (request : Request)
  | run (id : ℕ)

/-- One step. -/
def step (s : System) : Act → Option (System × Label)
  | .openDev => some ({ s with pos := s.pos ++ [0] }, .opened s.pos.length)
  | .start file request => do
      let offp ← s.pos[file]?
      some ({ s with started := s.started + 1 }.setCall s.started ⟨file, request, offp, .entry⟩,
        .started s.started)
  | .run id => do
      let c ← s.call id
      advance s id c

/-- The labels `tr` lead from the loaded module to `s`. -/
abbrev Reaches (tr : List Label) (s : System) : Prop := Run (StepOf step) .init tr s

/-- `mydrv_seq_show` of a node. -/
def mydrvSeqShow (p : ProcDebugStruct) : List UInt8 := text "info:" ++ p.info.str ++ p.info1.str

/-- No write is in progress. -/
def System.Quiet (s : System) : Prop := ∀ id c, s.call id = some c → c.request.isWrite = false

/-! ## What was stored and noted -/

/-- The write that took the semaphore, and the bytes it stored: as many of the wanted ones as the
copy got. -/
def Label.stored : Label → Option (ℕ × ℕ)
  | wrote id data count fault offp =>
      some (id, (across fault (data.take (wanted count offp))).length)
  | _ => none

/-- The writes so far in the order in which they took the semaphore, with the bytes they stored. -/
def stored (tr : List Label) : List (ℕ × ℕ) := tr.filterMap Label.stored

/-- The write that notes its byte count. -/
def Label.noted : Label → Option ℕ
  | returned id true => some id
  | _ => none

/-- The writes so far in the order in which they noted their byte counts. -/
def noted (tr : List Label) : List ℕ := tr.filterMap Label.noted

/-- The number of bytes stored by the last write to take the semaphore, 0 before any. -/
def lastStored (tr : List Label) : ℕ := ((stored tr).getLast?.map Prod.snd).getD 0

/-- No write stores all 1024 bytes, and none stores nothing behind one that stores something. -/
def Sized (tr : List Label) : Prop :=
  (∀ w ∈ stored tr, w.2 < 1024) ∧ (stored tr).Pairwise fun w w' => w'.2 = 0 → w.2 = 0

/-- The writes note their byte counts in the order in which they took the semaphore. -/
def NotedInOrder (tr : List Label) : Prop := (noted tr).Sublist ((stored tr).map Prod.fst)

instance (tr : List Label) : Decidable (Sized tr) := inferInstanceAs (Decidable (_ ∧ _))

instance (tr : List Label) : Decidable (NotedInOrder tr) :=
  inferInstanceAs (Decidable ((noted tr).Sublist _))

section Alone

variable {s : System} {file : ℕ} {offp : Int64} {r : Result Module}

/-- A `scull_write` that nothing interrupts does what the sequential one does. -/
theorem exec_write_alone {data : List UInt8} {count : UInt64} {fault : Option ℕ}
    (hpos : s.pos[file]? = some offp) (hsem : s.sem = 1) (hfree : s.call s.started = none)
    (h : scullWrite s.module data count offp fault = some r) :
    ∃ tr, exec step s (.start file (.write data count fault) :: List.replicate 4 (.run s.started)) =
      some (⟨r.dev, 1, s.pos.set file r.offp, s.call, s.started + 1⟩, tr) := by
  obtain ⟨r', hwrite, h⟩ := Option.bind_eq_some_iff.mp h
  obtain rfl := Option.some.inj h
  have hcalls : Function.update s.call s.started none = s.call := by
    rw [← hfree, Function.update_eq_self]
  simp [exec, List.replicate, step, advance, System.setCall, hpos, hsem, hwrite, hcalls,
    Request.isWrite]

/-- Nor does one interrupt a `scull_read`. -/
theorem exec_read_alone {count : UInt64} {fault : Option ℕ} {delivered : List UInt8}
    (hpos : s.pos[file]? = some offp) (hsem : s.sem = 1) (hfree : s.call s.started = none)
    (h : scullRead s.module count offp fault = some (r, delivered)) :
    ∃ tr, exec step s (.start file (.read count fault) :: List.replicate 4 (.run s.started)) =
      some (⟨r.dev, 1, s.pos.set file r.offp, s.call, s.started + 1⟩, tr) := by
  obtain ⟨⟨r', delivered'⟩, hread, h⟩ := Option.bind_eq_some_iff.mp h
  obtain ⟨rfl, rfl⟩ := Prod.mk.inj (Option.some.inj h)
  have hcalls : Function.update s.call s.started none = s.call := by
    rw [← hfree, Function.update_eq_self]
  simp [exec, List.replicate, step, advance, System.setCall, hpos, hsem, hread, hcalls,
    Request.isWrite]

end Alone

/-! ## What a step can do -/

/-- The steps of the calls in progress, with what each needs. -/
inductive Move (s : System) : Label → System → Prop
  | opened : Move s (.opened s.pos.length) { s with pos := s.pos ++ [0] }
  | started {file : ℕ} {offp : Int64} (request : Request) (hpos : s.pos[file]? = some offp) :
      Move s (.started s.started)
        ({ s with started := s.started + 1 }.setCall s.started ⟨file, request, offp, .entry⟩)
  | down {id : ℕ} {c : CallInProgress} (hcall : s.call id = some c) (hentry : c.pos = .entry) :
      Move s (.down id) ({ s with sem := s.sem - 1 }.setCall id { c with pos := .locked })
  | read {id : ℕ} {c : CallInProgress} {count : UInt64} {fault : Option ℕ} {r : Result DrvBuff}
      {delivered : List UInt8} (hcall : s.call id = some c)
      (hrequest : c.request = .read count fault)
      (hread : Scull.scullRead s.module.drvBuff count c.offp fault = some (r, delivered)) :
      Move s (.read id delivered)
        ({ s with module := { s.module with drvBuff := r.dev } }.setCall id
          { c with offp := r.offp, pos := .copied r.ret })
  | wrote {id : ℕ} {c : CallInProgress} {data : List UInt8} {count : UInt64} {fault : Option ℕ}
      {r : Result DrvBuff} (hcall : s.call id = some c) (hlocked : c.pos = .locked)
      (hrequest : c.request = .write data count fault)
      (hwrite : Scull.scullWrite s.module.drvBuff data count c.offp fault = some r) :
      Move s (.wrote id data count fault c.offp)
        ({ s with module := { s.module with drvBuff := r.dev } }.setCall id
          { c with offp := r.offp, pos := .copied r.ret })
  | up {id : ℕ} {c : CallInProgress} {ret : Int64} (hcall : s.call id = some c)
      (hcopied : c.pos = .copied ret) :
      Move s (.up id) ({ s with sem := s.sem + 1 }.setCall id { c with pos := .unlocked ret })
  | returned {id : ℕ} {c : CallInProgress} {ret : Int64} (hcall : s.call id = some c)
      (hunlocked : c.pos = .unlocked ret) :
      Move s (.returned id c.request.isWrite)
        { s with
          module := { s.module with
            mydrvList := if c.request.isWrite then noteByteCount ret s.module.mydrvList
              else s.module.mydrvList }
          pos := s.pos.set c.file c.offp
          call := Function.update s.call id none }

/-- Every step is one of these. -/
theorem move_of_step {s t : System} {l : Label} (h : StepOf step s l t) : Move s l t := by
  obtain ⟨a, h⟩ := h
  cases a with
  | openDev =>
      obtain ⟨rfl, rfl⟩ := Prod.mk.inj (Option.some.inj h)
      exact .opened
  | start file request =>
      obtain ⟨offp, hpos, h⟩ := Option.bind_eq_some_iff.mp h
      obtain ⟨rfl, rfl⟩ := Prod.mk.inj (Option.some.inj h)
      exact .started request hpos
  | run id =>
      obtain ⟨c, hcall, h⟩ := Option.bind_eq_some_iff.mp h
      rw [advance] at h
      split at h
      case h_1 hentry =>
        split_ifs at h
        obtain ⟨rfl, rfl⟩ := Prod.mk.inj (Option.some.inj h)
        exact .down hcall hentry
      case h_2 hlocked =>
        split at h
        case h_1 count fault hrequest =>
          obtain ⟨⟨r, delivered⟩, hread, h⟩ := Option.map_eq_some_iff.mp h
          obtain ⟨rfl, rfl⟩ := Prod.mk.inj h
          exact .read hcall hrequest hread
        case h_2 data count fault hrequest =>
          obtain ⟨r, hwrite, h⟩ := Option.map_eq_some_iff.mp h
          obtain ⟨rfl, rfl⟩ := Prod.mk.inj h
          exact .wrote hcall hlocked hrequest hwrite
      case h_3 ret hcopied =>
        obtain ⟨rfl, rfl⟩ := Prod.mk.inj (Option.some.inj h)
        exact .up hcall hcopied
      case h_4 ret hunlocked =>
        obtain ⟨rfl, rfl⟩ := Prod.mk.inj (Option.some.inj h)
        exact .returned hcall hunlocked

section Setters

variable (s : System) (id : ℕ) (c : CallInProgress)

@[simp] theorem System.setCall_module : (s.setCall id c).module = s.module := rfl
@[simp] theorem System.setCall_started : (s.setCall id c).started = s.started := rfl

/-- The calls in a new state of one of them. -/
theorem System.setCall_call {id' : ℕ} {c' : CallInProgress} :
    (s.setCall id c).call id' = some c' ↔ id' = id ∧ c = c' ∨ id' ≠ id ∧ s.call id' = some c' := by
  simp only [System.setCall, Function.update_apply]
  split_ifs with h <;> simp [h]

/-- The calls left when one has returned. -/
theorem update_call {id' : ℕ} {c' : CallInProgress} :
    Function.update s.call id none id' = some c' ↔ id' ≠ id ∧ s.call id' = some c' := by
  rw [Function.update_apply]
  split_ifs with h <;> simp [h]

end Setters

/-! ## Offsets -/

/-- All offsets lie in the buffer or at its end, those of the calls in progress too. -/
structure InRange (s : System) : Prop where
  file : ∀ off ∈ s.pos, InBuff off
  call : ∀ id c, s.call id = some c → InBuff c.offp

/-- What a copy leaves as the offset is in range. -/
theorem inBuff_of_add {offp offp' : Int64} {count : UInt64} {fault : Option ℕ} {bytes : List UInt8}
    (hoff : InBuff offp)
    (hadd : offp'.toInt = offp.toInt + (across fault (bytes.take (wanted count offp))).length) :
    InBuff offp' := by
  have hlen := Driver.length_across_le fault bytes (wanted count offp)
  have hfit := offp_add_wanted_le count hoff
  obtain ⟨h0, h1⟩ := hoff
  exact ⟨by omega, by omega⟩

/-- A call starts or goes on at an offset in range. -/
theorem InRange.setCall {s t : System} (hs : InRange s) {id : ℕ} {c : CallInProgress}
    (hpos : t.pos = s.pos) (hcall : t.call = Function.update s.call id (some c))
    (hoff : InBuff c.offp) : InRange t where
  file := by
    intro off hmem
    exact hs.file off (hpos ▸ hmem)
  call := by
    intro id' c' hc
    rw [hcall] at hc
    obtain ⟨-, rfl⟩ | ⟨-, hc⟩ := (System.setCall_call s id c).mp hc
    · exact hoff
    · exact hs.call id' c' hc

/-- A step keeps the offsets in range. -/
theorem InRange.step {s t : System} {l : Label} (hs : InRange s) (h : Move s l t) : InRange t := by
  cases h with
  | opened =>
      refine ⟨fun off hoff => ?_, hs.call⟩
      rcases List.mem_append.mp hoff with hoff | hoff
      · exact hs.file off hoff
      · obtain rfl := List.mem_singleton.mp hoff
        exact ⟨by decide, by decide⟩
  | started request hpos =>
      have hoff := hs.file _ (List.mem_of_getElem? hpos)
      exact hs.setCall rfl rfl hoff
  | down hcall => exact hs.setCall rfl rfl (hs.call _ _ hcall :)
  | read hcall hrequest hread =>
      have hoff := hs.call _ _ hcall
      obtain ⟨r, hspec, -, -, hoffp⟩ := scullRead_spec hoff rfl
      obtain ⟨rfl, -⟩ := Prod.mk.inj (Option.some.inj (hspec.symm.trans hread))
      exact hs.setCall rfl rfl (inBuff_of_add hoff hoffp)
  | wrote hcall hlocked hrequest hwrite =>
      have hoff := hs.call _ _ hcall
      obtain ⟨r, hspec, -, -, hoffp⟩ := scullWrite_spec s.module.drvBuff hoff rfl
      obtain rfl := Option.some.inj (hspec.symm.trans hwrite)
      exact hs.setCall rfl rfl (inBuff_of_add hoff hoffp)
  | up hcall => exact hs.setCall rfl rfl (hs.call _ _ hcall :)
  | returned hcall =>
      refine ⟨fun off hoff => ?_, fun id c hc => hs.call id c ((update_call _ _).mp hc).2⟩
      rcases List.mem_or_eq_of_mem_set hoff with hoff | rfl
      · exact hs.file off hoff
      · exact hs.call _ _ hcall

/-- No offset ever leaves the buffer. -/
theorem inRange_of_reaches {tr : List Label} {s : System} (h : Reaches tr s) : InRange s := by
  refine h.history (P := fun _ s => InRange s) ⟨by simp [System.init], by simp [System.init]⟩ ?_
  intro tr t l u _ ih hstep
  exact ih.step (move_of_step hstep)

/-! ## The writes and their notes -/

/-- A call behind its copy has stored what it is going to return; one before it has not stored. -/
def Tracks (ws : List (ℕ × ℕ)) (id : ℕ) (c : CallInProgress) : Prop :=
  match c.pos with
  | .entry | .locked => id ∉ ws.map Prod.fst
  | .copied ret | .unlocked ret =>
      c.request.isWrite = true → ∃ n : ℕ, (id, n) ∈ ws ∧ ret.toInt = n

/-- The calls in progress, the writes `ws` that have stored and those of them that have noted their
byte counts, `ns`. -/
structure Tallied (ws : List (ℕ × ℕ)) (ns : List ℕ) (s : System) : Prop where
  fresh : ∀ id c, s.call id = some c → id < s.started
  writer : ∀ id ∈ ws.map Prod.fst, id < s.started
  nodup : (ws.map Prod.fst).Nodup
  tracks : ∀ id c, s.call id = some c → Tracks ws id c
  notes : ∀ id ∈ ns, id ∈ ws.map Prod.fst
  left : ∀ id ∈ ws.map Prod.fst, id ∈ ns ∨ ∃ c, s.call id = some c ∧ c.request.isWrite = true

namespace Tallied

variable {ws : List (ℕ × ℕ)} {ns : List ℕ} {s t : System} {l : Label}

/-- The calls in progress remain among those that have started. -/
theorem fresh_setCall (hs : Tallied ws ns s) {id : ℕ} {c : CallInProgress}
    (hcall : s.call id = some c) (c' : CallInProgress) (u : System) (hu : u.call = s.call)
    (hstarted : u.started = s.started) :
    ∀ id' c₁, (u.setCall id c').call id' = some c₁ → id' < (u.setCall id c').started := by
  intro id' c₁ hc
  rw [System.setCall_started, hstarted]
  obtain ⟨rfl, -⟩ | ⟨-, hc⟩ := (System.setCall_call _ _ _).mp hc
  · exact hs.fresh _ _ hcall
  · exact hs.fresh _ _ (hu ▸ hc)

/-- A call that goes on without storing or noting anything. -/
theorem setCall (hs : Tallied ws ns s) {id : ℕ} {c c' : CallInProgress} (hcall : s.call id = some c)
    (hrequest : c'.request = c.request) (htracks : Tracks ws id c') (u : System)
    (hu : u.call = s.call) (hstarted : u.started = s.started) :
    Tallied ws ns (u.setCall id c') where
  fresh := hs.fresh_setCall hcall c' u hu hstarted
  writer := by
    rw [System.setCall_started, hstarted]
    exact hs.writer
  nodup := hs.nodup
  tracks := by
    intro id' c₁ hc
    obtain ⟨rfl, rfl⟩ | ⟨-, hc⟩ := (System.setCall_call _ _ _).mp hc
    · exact htracks
    · exact hs.tracks _ _ (hu ▸ hc)
  notes := hs.notes
  left := by
    intro id' hid
    refine (hs.left id' hid).imp_right ?_
    rintro ⟨c₁, hc₁, hwrite⟩
    rcases eq_or_ne id' id with rfl | hne
    · obtain rfl := Option.some.inj (hc₁.symm.trans hcall)
      exact ⟨c', (System.setCall_call _ _ _).mpr (.inl ⟨rfl, rfl⟩), hrequest ▸ hwrite⟩
    · exact ⟨c₁, (System.setCall_call _ _ _).mpr (.inr ⟨hne, hu ▸ hc₁⟩), hwrite⟩

/-- A call starts. -/
theorem start (hs : Tallied ws ns s) (file : ℕ) (request : Request) (offp : Int64) :
    Tallied ws ns
      ({ s with started := s.started + 1 }.setCall s.started ⟨file, request, offp, .entry⟩) where
  fresh := by
    intro id c hc
    rw [System.setCall_started]
    obtain ⟨rfl, -⟩ | ⟨-, hc⟩ := (System.setCall_call _ _ _).mp hc
    · exact Nat.lt_succ_self _
    · exact Nat.lt_succ_of_lt (hs.fresh _ _ hc)
  writer := fun id hid => Nat.lt_succ_of_lt (hs.writer id hid)
  nodup := hs.nodup
  tracks := by
    intro id c hc
    obtain ⟨rfl, rfl⟩ | ⟨-, hc⟩ := (System.setCall_call _ _ _).mp hc
    · exact fun hid => Nat.lt_irrefl _ (hs.writer _ hid)
    · exact hs.tracks _ _ hc
  notes := hs.notes
  left := by
    intro id hid
    refine (hs.left id hid).imp_right ?_
    rintro ⟨c, hc, hwrite⟩
    exact ⟨c, (System.setCall_call _ _ _).mpr (.inr ⟨(hs.writer id hid).ne, hc⟩), hwrite⟩

/-- A write stores. -/
theorem store (hs : Tallied ws ns s) {id n : ℕ} {c c' : CallInProgress}
    (hcall : s.call id = some c) (hahead : id ∉ ws.map Prod.fst)
    (hwrite : c'.request.isWrite = true) (htracks : Tracks (ws ++ [(id, n)]) id c') (u : System)
    (hu : u.call = s.call) (hstarted : u.started = s.started) :
    Tallied (ws ++ [(id, n)]) ns (u.setCall id c') where
  fresh := hs.fresh_setCall hcall c' u hu hstarted
  writer := by
    intro id' hid
    rw [System.setCall_started, hstarted]
    rw [List.map_append, List.mem_append] at hid
    rcases hid with hid | hid
    · exact hs.writer id' hid
    · obtain rfl : id' = id := by simpa using hid
      exact hs.fresh _ _ hcall
  nodup := by
    rw [List.map_append, List.map_singleton, ← List.concat_eq_append]
    exact List.Nodup.concat hahead hs.nodup
  tracks := by
    intro id' c₁ hc
    obtain ⟨rfl, rfl⟩ | ⟨hne, hc⟩ := (System.setCall_call _ _ _).mp hc
    · exact htracks
    · -- What another call has stored is not changed.
      have hother := hs.tracks _ _ (hu ▸ hc)
      unfold Tracks at hother ⊢
      cases hpos : c₁.pos with
      | entry | locked => simp_all
      | copied ret | unlocked ret =>
          rw [hpos] at hother
          intro hw
          obtain ⟨m, hm, hret⟩ := hother hw
          exact ⟨m, List.mem_append_left _ hm, hret⟩
  notes := fun id' hid => by
    rw [List.map_append]
    exact List.mem_append_left _ (hs.notes id' hid)
  left := by
    intro id' hid
    rw [List.map_append, List.mem_append] at hid
    -- The write that stores now is still in progress; the others are where they were.
    rcases eq_or_ne id' id with rfl | hne
    · exact .inr ⟨c', (System.setCall_call _ _ _).mpr (.inl ⟨rfl, rfl⟩), hwrite⟩
    · have hold : id' ∈ ws.map Prod.fst := hid.resolve_right (by simpa using hne)
      refine (hs.left id' hold).imp_right ?_
      rintro ⟨c₁, hc₁, hw⟩
      exact ⟨c₁, (System.setCall_call _ _ _).mpr (.inr ⟨hne, hu ▸ hc₁⟩), hw⟩

/-- A call returns, a write with its byte count noted. -/
theorem finish (hs : Tallied ws ns s) {id : ℕ} {c : CallInProgress} {ret : Int64}
    (hcall : s.call id = some c) (hunlocked : c.pos = .unlocked ret) (u : System)
    (hu : u.call = Function.update s.call id none) (hstarted : u.started = s.started) :
    Tallied ws (ns ++ (Label.noted (.returned id c.request.isWrite)).toList) u where
  fresh := by
    intro id' c₁ hc
    rw [hu] at hc
    rw [hstarted]
    exact hs.fresh _ _ ((update_call _ _).mp hc).2
  writer := hstarted ▸ hs.writer
  nodup := hs.nodup
  tracks := by
    intro id' c₁ hc
    rw [hu] at hc
    exact hs.tracks _ _ ((update_call _ _).mp hc).2
  notes := by
    intro id' hid
    rcases List.mem_append.mp hid with hid | hid
    · exact hs.notes id' hid
    · -- A write returns behind its copy, so it has stored.
      have htracks := hs.tracks _ _ hcall
      rw [Tracks, hunlocked] at htracks
      cases hw : c.request.isWrite with
      | false => simp [hw, Label.noted] at hid
      | true =>
          obtain rfl : id' = id := by simpa [hw, Label.noted] using hid
          obtain ⟨n, hn, -⟩ := htracks hw
          exact List.mem_map_of_mem hn
  left := by
    intro id' hid
    rcases hs.left id' hid with hnoted | ⟨c₁, hc₁, hw⟩
    · exact .inl (List.mem_append_left _ hnoted)
    · rcases eq_or_ne id' id with rfl | hne
      · obtain rfl := Option.some.inj (hc₁.symm.trans hcall)
        exact .inl (List.mem_append_right _ (by simp [hw, Label.noted]))
      · exact .inr ⟨c₁, by rw [hu]; exact (update_call _ _).mpr ⟨hne, hc₁⟩, hw⟩

/-- Every step keeps the tally. -/
theorem step (hs : Tallied ws ns s) (hrange : InRange s) (h : Move s l t) :
    Tallied (ws ++ l.stored.toList) (ns ++ l.noted.toList) t := by
  have htracks : ∀ {id : ℕ} {c : CallInProgress}, s.call id = some c → Tracks ws id c :=
    hs.tracks _ _
  cases h with
  | opened =>
      simp only [Label.stored, Label.noted, Option.toList_none, List.append_nil]
      exact ⟨hs.fresh, hs.writer, hs.nodup, hs.tracks, hs.notes, hs.left⟩
  | started request hpos =>
      simp only [Label.stored, Label.noted, Option.toList_none, List.append_nil]
      exact hs.start _ request _
  | down hcall hentry =>
      simp only [Label.stored, Label.noted, Option.toList_none, List.append_nil]
      refine hs.setCall hcall (by rfl) ?_ _ (by rfl) (by rfl)
      simpa [Tracks, hentry] using htracks hcall
  | read hcall hrequest hread =>
      simp only [Label.stored, Label.noted, Option.toList_none, List.append_nil]
      refine hs.setCall hcall (by rfl) ?_ _ (by rfl) (by rfl)
      simp [Tracks, hrequest, Request.isWrite]
  | @wrote id c data count fault r hcall hlocked hrequest hwrite =>
      simp only [Label.stored, Label.noted, Option.toList_none, Option.toList_some, List.append_nil]
      refine hs.store hcall ?_ ?_ ?_ _ rfl rfl
      · simpa [Tracks, hlocked] using htracks hcall
      · simp [hrequest, Request.isWrite]
      · -- The value a write returns is the number of bytes it has stored.
        have hgot : across fault (data.take (wanted count c.offp)) = across fault _ := rfl
        obtain ⟨r', hspec, -, hret, -⟩ :=
          scullWrite_spec s.module.drvBuff (hrange.call _ _ hcall) hgot
        obtain rfl := Option.some.inj (hspec.symm.trans hwrite)
        exact fun _ => ⟨_, List.mem_append_right _ (List.mem_singleton_self _), hret⟩
  | up hcall hcopied =>
      simp only [Label.stored, Label.noted, Option.toList_none, List.append_nil]
      refine hs.setCall hcall (by rfl) ?_ _ (by rfl) (by rfl)
      simpa [Tracks, hcopied] using htracks hcall
  | returned hcall hunlocked =>
      simp only [Label.stored, Option.toList_none, List.append_nil]
      exact hs.finish hcall hunlocked _ rfl rfl

end Tallied

/-- What one more step stores. -/
theorem stored_snoc (tr : List Label) (l : Label) :
    stored (tr ++ [l]) = stored tr ++ l.stored.toList :=
  filterMap_snoc _ _ _

/-- What one more step notes. -/
theorem noted_snoc (tr : List Label) (l : Label) :
    noted (tr ++ [l]) = noted tr ++ l.noted.toList :=
  filterMap_snoc _ _ _

/-- The tally of a run. -/
theorem tallied_of_reaches {tr : List Label} {s : System} (h : Reaches tr s) :
    Tallied (stored tr) (noted tr) s := by
  refine h.history (P := fun tr s => Tallied (stored tr) (noted tr) s) ?_ ?_
  · constructor <;> simp [stored, noted, System.init]
  · intro tr t l u hrun ih hstep
    rw [stored_snoc, noted_snoc]
    exact ih.step (inRange_of_reaches hrun) (move_of_step hstep)

/-! ## What the proc file shows -/

/-- The text of a byte count. -/
theorem byteCountText_natCast (n : ℕ) :
    byteCountText n = text "byte Count=" ++ text n.repr ++ text "\n" := by
  have hrepr : toString (n : ℤ) = n.repr := rfl
  rw [byteCountText, hrepr, text_append, text_append]

/-- A node holds the text of a byte count whole. -/
theorem str_byteCount (b : CBuffer 20) {n : ℕ} (hn : n < 1024) :
    (b.sprintf (byteCountText n)).str = byteCountText n := by
  have hdigits : n.repr.length ≤ 4 := (Nat.length_repr_le_iff (by decide)).mpr (by omega)
  rw [byteCountText_natCast]
  apply CBuffer.str_sprintf
  · rw [List.mem_append, List.mem_append]
    rintro ((h | h) | h)
    · exact absurd h (by decide)
    · exact zero_notMem_text_repr n h
    · exact absurd h (by decide)
  · rw [List.length_append, List.length_append, length_text n.repr]
    have hfirst : (text "byte Count=").length = 11 := by decide
    have hlast : (text "\n").length = 1 := by decide
    omega

/-- The list has one node, and it shows the size of the last write to note its own. -/
def Shows (ws : List (ℕ × ℕ)) (ns : List ℕ) (list : List ProcDebugStruct) : Prop :=
  ∃ (node : ProcDebugStruct) (n : ℕ), list = [node] ∧
    node.info.str = text "List Node 1\n" ∧ node.info1.str = byteCountText n ∧
    (ns = [] ∧ n = 0 ∨ ∃ id, ns.getLast? = some id ∧ (id, n) ∈ ws)

section Shows

variable {ws : List (ℕ × ℕ)} {ns : List ℕ} {list : List ProcDebugStruct} {id n n' id' : ℕ}

/-- A write has stored one number of bytes. -/
theorem stored_unique (hnodup : (ws.map Prod.fst).Nodup) (h : (id, n) ∈ ws) (h' : (id, n') ∈ ws) :
    n = n' :=
  (Prod.mk.inj (List.inj_on_of_nodup_map hnodup h h' rfl)).2

/-- Of two writes that note in order, the second one storing nothing, the first stored nothing. -/
theorem stored_zero (hnodup : (ws.map Prod.fst).Nodup)
    (hsized : ws.Pairwise fun w w' => w'.2 = 0 → w.2 = 0)
    (horder : [id', id].Sublist (ws.map Prod.fst)) (hn : (id', n) ∈ ws) (hzero : (id, 0) ∈ ws) :
    n = 0 := by
  -- The order of the sizes is one of the writes, which then holds of any two of them in this order.
  have hkeys : (ws.map Prod.fst).Pairwise fun i j =>
      ∀ a b, (i, a) ∈ ws → (j, b) ∈ ws → b = 0 → a = 0 := by
    rw [List.pairwise_map]
    refine hsized.imp_of_mem ?_
    rintro ⟨i, a⟩ ⟨j, b⟩ hi hj hab a' b' ha' hb' hb
    rw [stored_unique hnodup hb' hj] at hb
    rw [stored_unique hnodup ha' hi]
    exact hab hb
  have hpair := hkeys.sublist horder
  rw [List.pairwise_pair] at hpair
  exact hpair n 0 hn hzero rfl

/-- A further write that stores changes nothing. -/
theorem Shows.store (h : Shows ws ns list) (w : ℕ × ℕ) : Shows (ws ++ [w]) ns list := by
  obtain ⟨node, n, hlist, hinfo, hinfo1, hn⟩ := h
  refine ⟨node, n, hlist, hinfo, hinfo1, hn.imp_right ?_⟩
  rintro ⟨id, hlast, hid⟩
  exact ⟨id, hlast, List.mem_append_left _ hid⟩

/-- A write that notes its size in order. -/
theorem Shows.note (h : Shows ws ns list) (hnodup : (ws.map Prod.fst).Nodup)
    (hsized : ws.Pairwise fun w w' => w'.2 = 0 → w.2 = 0)
    (horder : (ns ++ [id]).Sublist (ws.map Prod.fst)) {ret : Int64} (hid : (id, n) ∈ ws)
    (hret : ret.toInt = n) (hlt : n < 1024) : Shows ws (ns ++ [id]) (noteByteCount ret list) := by
  obtain ⟨node, n', rfl, hinfo, hinfo1, hn'⟩ := h
  have hlast : (ns ++ [id]).getLast? = some id := by simp
  rcases Nat.eq_zero_or_pos n with rfl | hpos
  · -- Nothing is noted, and the node shows 0 already.
    have hskip : ¬ (0 < ret ∧ ret < 1024) := by
      rintro ⟨hret0, -⟩
      rw [Int64.lt_iff_toInt_lt, hret] at hret0
      exact absurd hret0 (by decide)
    have hn0 : n' = 0 := by
      rcases hn' with ⟨-, hn'⟩ | ⟨id', hprev, hid'⟩
      · exact hn'
      · obtain ⟨ns', rfl⟩ := List.getLast?_eq_some_iff.mp hprev
        rw [List.append_assoc] at horder
        exact stored_zero hnodup hsized ((List.sublist_append_right _ _).trans horder) hid' hid
    rw [noteByteCount, if_neg hskip]
    exact ⟨node, 0, rfl, hinfo, hn0 ▸ hinfo1, .inr ⟨id, hlast, hid⟩⟩
  · -- The node is overwritten with the new text.
    have hnote : 0 < ret ∧ ret < 1024 := by
      have h0 : (0 : Int64).toInt = 0 := rfl
      have h1024 : (1024 : Int64).toInt = 1024 := rfl
      rw [Int64.lt_iff_toInt_lt, Int64.lt_iff_toInt_lt, hret, h0, h1024]
      omega
    rw [noteByteCount, if_pos hnote, hret]
    exact ⟨_, n, rfl, hinfo, str_byteCount _ hlt, .inr ⟨id, hlast, hid⟩⟩

end Shows

section Runs

variable {tr : List Label} {s t : System} {l : Label}

/-- The sizes of a run are those of its beginning and of its last step. -/
theorem Sized.init (h : Sized (tr ++ [l])) : Sized tr := by
  rw [Sized, stored_snoc] at h
  exact ⟨fun w hw => h.1 w (List.mem_append_left _ hw), (List.pairwise_append.mp h.2).1⟩

/-- A run whose writes note in order does so at its beginning. -/
theorem NotedInOrder.init (hrun : Reaches tr s) (hmove : Move s l t)
    (h : NotedInOrder (tr ++ [l])) : NotedInOrder tr := by
  have htally := tallied_of_reaches hrun
  rw [NotedInOrder, stored_snoc, noted_snoc] at h
  rw [NotedInOrder]
  cases hmove with
  | @wrote id c data count fault r hcall hlocked hrequest hwrite =>
      -- The new write has not noted, so that it takes no part in the order.
      have hahead := htally.tracks _ _ hcall
      rw [Tracks, hlocked] at hahead
      simp only [Label.stored, Label.noted, Option.toList_none, Option.toList_some, List.append_nil,
        List.map_append, List.map_singleton] at h
      obtain ⟨ns₁, ns₂, hsplit, hsub₁, hsub₂⟩ := List.sublist_append_iff.mp h
      rcases List.sublist_singleton.mp hsub₂ with rfl | rfl
      · rwa [hsplit, List.append_nil]
      · exact absurd (htally.notes id (by rw [hsplit]; simp)) hahead
  | returned =>
      simp only [Label.stored, Option.toList_none, List.append_nil] at h
      exact (List.sublist_append_left _ _).trans h
  | _ => simpa [Label.stored, Label.noted] using h

/-- As long as the sizes are in range and noted in order, the proc file shows the last one noted. -/
theorem shows_of_reaches (h : Reaches tr s) (hsized : Sized tr) (horder : NotedInOrder tr) :
    Shows (stored tr) (noted tr) s.module.mydrvList := by
  refine h.history (P := fun tr s => Sized tr → NotedInOrder tr →
    Shows (stored tr) (noted tr) s.module.mydrvList) ?_ ?_ hsized horder
  · intro _ _
    exact ⟨_, 0, rfl, by decide, by decide, .inl ⟨rfl, rfl⟩⟩
  · intro tr t l u hrun ih hstep hsized horder
    have hmove := move_of_step hstep
    have hshows := ih hsized.init (horder.init hrun hmove)
    have htally := tallied_of_reaches hrun
    rw [Sized, stored_snoc] at hsized
    rw [NotedInOrder, stored_snoc, noted_snoc] at horder
    rw [stored_snoc, noted_snoc]
    cases hmove with
    | wrote =>
        simp only [Label.stored, Label.noted, Option.toList_none, Option.toList_some,
          List.append_nil]
        exact hshows.store _
    | @returned id c ret hcall hunlocked =>
        -- Only the return of a write notes something.
        simp only [Label.stored, Option.toList_none, List.append_nil] at hsized horder ⊢
        cases hw : c.request.isWrite with
        | false =>
            simp only [Label.noted, Option.toList_none, List.append_nil]
            exact hshows
        | true =>
            have hbehind := htally.tracks _ _ hcall
            rw [Tracks, hunlocked] at hbehind
            obtain ⟨n, hn, hret⟩ := hbehind hw
            simp only [hw, Label.noted, Option.toList_some] at horder ⊢
            exact hshows.note htally.nodup hsized.2 horder hn hret (hsized.1 _ hn)
    | _ => simpa [Label.stored, Label.noted] using hshows

/-- When no write is in progress, all of them have noted. -/
theorem noted_eq_of_quiet (h : Reaches tr s) (horder : NotedInOrder tr) (hquiet : s.Quiet) :
    noted tr = (stored tr).map Prod.fst := by
  have htally := tallied_of_reaches h
  -- All writes are among the noted ones, of which there are no more.
  refine horder.eq_of_length_le (List.subperm_of_subset htally.nodup ?_).length_le
  intro id hid
  rcases htally.left id hid with hnoted | ⟨c, hc, hwrite⟩
  · exact hnoted
  · rw [hquiet id c hc] at hwrite
    cases hwrite

/-- When no write is in progress, the proc file shows how many bytes the last write to take the
semaphore has stored, if in the run so far no write stored all 1024 bytes, or none behind one that
stored some, and the writes noted their sizes in the order in which they took the semaphore. -/
theorem shows_lastStored (h : Reaches tr s) (hsized : Sized tr) (horder : NotedInOrder tr)
    (hquiet : s.Quiet) :
    ∃ node, s.module.mydrvList = [node] ∧
      mydrvSeqShow node = text "info:List Node 1\n" ++ byteCountText (lastStored tr) := by
  obtain ⟨node, n, hlist, hinfo, hinfo1, hn⟩ := shows_of_reaches h hsized horder
  refine ⟨node, hlist, ?_⟩
  have hlast : n = lastStored tr := by
    rw [noted_eq_of_quiet h horder hquiet] at hn
    rw [lastStored]
    rcases hn with ⟨hnone, rfl⟩ | ⟨id, hid, hn⟩
    · rw [List.map_eq_nil_iff] at hnone
      rw [hnone]
      rfl
    · rw [List.getLast?_map] at hid
      obtain ⟨⟨id', m⟩, hw, rfl⟩ := Option.map_eq_some_iff.mp hid
      rw [hw]
      exact stored_unique (tallied_of_reaches h).nodup hn (List.mem_of_getLast? hw)
  rw [mydrvSeqShow, hinfo, hinfo1, ← hlast]
  rfl

end Runs

section Examples

/-- The steps of a write of `data` from its start to its return, by itself. -/
def writeAlone (id file : ℕ) (data : List UInt8) : List Act :=
  .start file (.write data (UInt64.ofNat data.length) none) :: List.replicate 4 (.run id)

/-- A file is opened and 1024 bytes are written through it. -/
def fillDevice : List Act := .openDev :: writeAlone 0 0 (List.replicate 1024 1)

/-- A write of 1024 bytes through a file just opened: the proc file goes on showing 0. -/
theorem not_shows_lastStored :
    ¬ ∀ tr s, Reaches tr s → s.Quiet →
      ∃ node, s.module.mydrvList = [node] ∧
        mydrvSeqShow node = text "info:List Node 1\n" ++ byteCountText (lastStored tr) := by
  intro hevery
  have hrun := run_play step .init fillDevice
  have hone : (play step .init fillDevice).1.started = 1 := by decide +kernel
  have hnone : (play step .init fillDevice).1.call 0 = none := by decide +kernel
  obtain ⟨node, hlist, hshow⟩ := hevery _ _ hrun (by
    intro id c hc
    obtain rfl : id = 0 := Nat.lt_one_iff.mp (hone ▸ (tallied_of_reaches hrun).fresh id c hc)
    rw [hnone] at hc
    cases hc)
  have hnode : (play step .init fillDevice).1.module.mydrvList = setupCharModule.mydrvList := by
    decide +kernel
  obtain rfl := List.singleton_inj.mp (hnode.symm.trans hlist)
  revert hshow
  decide +kernel

/-- A write of two bytes and, through another file, one of none before it. -/
theorem shows_lastStored_two :
    ∃ tr s node, Reaches tr s ∧ lastStored tr = 2 ∧ s.module.mydrvList = [node] ∧
      mydrvSeqShow node = text "info:List Node 1\n" ++ byteCountText (lastStored tr) := by
  have hrun := run_play step .init
    (.openDev :: .openDev :: (writeAlone 0 1 [] ++ writeAlone 1 0 [104, 105]))
  obtain ⟨node, hlist, hshow⟩ := shows_lastStored hrun (by decide +kernel) (by decide +kernel) (by
    intro id c hc
    have hid := (tallied_of_reaches hrun).fresh id c hc
    obtain rfl | rfl : id = 0 ∨ id = 1 := by
      have hstarted : id < 2 := hid
      omega
    · cases hc
    · cases hc)
  exact ⟨_, _, node, hrun, by decide +kernel, hlist, hshow⟩

end Examples

end Scull.SeqFile
