import Mathlib.Data.Int.Notation
import Mathlib.Data.Nat.Notation
import Mathlib.Logic.Function.Basic
import Mathlib.Tactic.SplitIfs

/-!
# System V semaphores

Semaphore sets in the kernel, each under an identifier and a key, and the calls on them: `semget`
with `IPC_CREAT`, the commands of `semctl`, `semop` of one operation with `SEM_UNDO`, and what the
exit of a process undoes. `P` is the type of the processes.

- `semAt_putSem`, `semAt_exit`: a semaphore after it is changed, and after a process exits.
- `semopUndo_returns`: all that `semop` can do to a semaphore.
- `findKey_putSem`, `findKey_semget`: the set under a key stays the set under this key.
-/

namespace SysVSem

variable {P : Type*}

/-- A semaphore: its value, and what the exit of each process adds to it. -/
structure Sem (P : Type*) where
  val : ℕ
  adj : P → ℤ

/-- A set of semaphores. -/
structure SemSet (P : Type*) where
  key : ℤ
  sems : List (Sem P)
  /-- No set is empty. -/
  sems_ne : sems ≠ []

/-- The sets under their identifiers; a set that is removed leaves its place empty. -/
abbrev Sems (P : Type*) := List (Option (SemSet P))

/-- `SEMVMX`, the largest value of a semaphore. -/
def semvmx : ℕ := 32767

/-- `IPC_PRIVATE`. -/
def ipcPrivate : ℤ := 0

/-- A semaphore nobody has used. -/
def Sem.ofVal (val : ℕ) : Sem P := ⟨val, fun _ => 0⟩

/-- A set of new semaphores. -/
def SemSet.ofSize (key : ℤ) (n : ℕ) (hn : n ≠ 0) : SemSet P where
  key := key
  sems := List.replicate n (.ofVal 0)
  sems_ne := by simpa using hn

/-- The set with one of its semaphores changed. -/
def SemSet.put (set : SemSet P) (num : ℕ) (sem : Sem P) : SemSet P where
  key := set.key
  sems := set.sems.set num sem
  sems_ne := by simpa using set.sems_ne

section Calls

variable (k : Sems P)

/-- The set under an identifier. -/
def setAt (id : ℕ) : Option (SemSet P) := k[id]?.join

/-- A semaphore of a set. -/
def semAt (id num : ℕ) : Option (Sem P) := (setAt k id).bind fun set => set.sems[num]?

/-- One semaphore changed. -/
def putSem (id num : ℕ) (sem : Sem P) : Sems P :=
  k.modify id (Option.map fun set => set.put num sem)

/-- The identifier of the set under a key. -/
def findKey (key : ℤ) : Option ℕ := k.findIdx? fun set => set.any fun set => set.key = key

/-- `semget(key, nsems, IPC_CREAT|..)`, with the identifier it returns. `room` says that the limits
of the system allow the new set. -/
def semget (room : Bool) (key nsems : ℤ) : Sems P × Option ℕ :=
  -- Under `IPC_PRIVATE` nothing is looked up: every call makes a new set.
  match if key = ipcPrivate then none else findKey k key with
  | some id =>
      match setAt k id with
      | some set => if nsems ≤ set.sems.length then (k, some id) else (k, none)
      | none => (k, none)
  | none =>
      if hn : 0 < nsems ∧ room then
        (k ++ [some (.ofSize key nsems.toNat (by omega))], some k.length)
      else (k, none)

/-- `semctl(id, num, GETVAL)`. -/
def getval (id num : ℕ) : Option ℕ := (semAt k id num).map Sem.val

/-- `semctl(id, num, SETVAL, val)`. Nothing of what processes did before is undone any more. -/
def setval (id num : ℕ) (val : ℤ) : Option (Sems P) :=
  (semAt k id num).bind fun _ =>
    if 0 ≤ val ∧ val ≤ semvmx then some (putSem k id num (.ofVal val.toNat)) else none

/-- `semctl(id, 0, IPC_RMID)`. -/
def rmid (id : ℕ) : Option (Sems P) := (setAt k id).map fun _ => k.set id none

end Calls

/-- What becomes of a call that may block. -/
inductive Outcome (α : Type*)
  | returns (a : α)
  | fails
  | blocks

section Undo

variable [DecidableEq P] (k : Sems P) (p : P)

/-- `semop` of the process `p` with the one operation `op` on a semaphore, with `SEM_UNDO`. -/
def semopUndo (id num : ℕ) (op : ℤ) : Outcome (Sems P) :=
  match semAt k id num with
  | none => .fails
  | some sem =>
      if op = 0 then if sem.val = 0 then .returns k else .blocks
      -- The operation waits until the value allows it; the process is not interrupted.
      else if sem.val + op < 0 then .blocks
      else if semvmx < sem.val + op then .fails
      else .returns (putSem k id num
        ⟨(sem.val + op).toNat, Function.update sem.adj p (sem.adj p - op)⟩)

/-- The semaphore after the process has exited. -/
def Sem.exit (sem : Sem P) : Sem P :=
  ⟨min (sem.val + sem.adj p).toNat semvmx, Function.update sem.adj p 0⟩

/-- The process exits: what it did with `SEM_UNDO` is undone. -/
def exit : Sems P :=
  k.map (Option.map fun set => ⟨set.key, set.sems.map (Sem.exit p), by simpa using set.sems_ne⟩)

end Undo

section Rules

variable {k : Sems P} {id num : ℕ} {sem : Sem P}

/-- A set after one of the semaphores is changed. -/
theorem setAt_putSem (id' : ℕ) : setAt (putSem k id num sem) id' =
    if id = id' then (setAt k id').map fun set => set.put num sem else setAt k id' := by
  rw [setAt, putSem, List.getElem?_modify, setAt]
  split_ifs
  · cases k[id']? with
    | none => rfl
    | some set => cases set <;> rfl
  · cases k[id']? <;> rfl

/-- A semaphore after it is changed. -/
theorem semAt_putSem {sem' : Sem P} (h : semAt k id num = some sem') :
    semAt (putSem k id num sem) id num = some sem := by
  obtain ⟨set, hset, hsem⟩ := Option.bind_eq_some_iff.mp h
  obtain ⟨hnum, -⟩ := List.getElem?_eq_some_iff.mp hsem
  rw [semAt, setAt_putSem, if_pos rfl, hset]
  exact List.getElem?_set_self hnum

/-- All that `semop` can do to a semaphore. -/
theorem semopUndo_returns [DecidableEq P] {p : P} {op : ℤ} {k' : Sems P} (hop : op ≠ 0)
    (hsem : semAt k id num = some sem) (h : semopUndo k p id num op = .returns k') :
    0 ≤ sem.val + op ∧ sem.val + op ≤ semvmx ∧
      k' = putSem k id num ⟨(sem.val + op).toNat, Function.update sem.adj p (sem.adj p - op)⟩ := by
  simp only [semopUndo, hsem, if_neg hop] at h
  split_ifs at h with hlow hhigh
  exact ⟨by omega, by omega, (Outcome.returns.inj h).symm⟩

/-- `semop` where it neither blocks nor fails. -/
theorem semopUndo_eq [DecidableEq P] (p : P) {op : ℤ} (hop : op ≠ 0)
    (hsem : semAt k id num = some sem) (hlow : 0 ≤ sem.val + op) (hhigh : sem.val + op ≤ semvmx) :
    semopUndo k p id num op = .returns (putSem k id num
      ⟨(sem.val + op).toNat, Function.update sem.adj p (sem.adj p - op)⟩) := by
  simp only [semopUndo, hsem, if_neg hop]
  rw [if_neg (by omega), if_neg (by omega)]

/-- A semaphore after a process has exited. -/
theorem semAt_exit [DecidableEq P] (k : Sems P) (p : P) (id num : ℕ) :
    semAt (exit k p) id num = (semAt k id num).map (Sem.exit p) := by
  rw [semAt, setAt, exit, List.getElem?_map, semAt, setAt]
  cases k[id]? with
  | none => rfl
  | some set =>
      cases set with
      | none => rfl
      | some set => exact List.getElem?_map ..

/-- The sets keep their keys when a semaphore is changed. -/
theorem findKey_putSem (key : ℤ) : findKey (putSem k id num sem) key = findKey k key := by
  have hkey : ∀ set : Option (SemSet P),
      (set.map fun set => set.put num sem).any (fun set => decide (set.key = key)) =
        set.any (fun set => decide (set.key = key)) := by
    intro set
    cases set <;> rfl
  rw [findKey, findKey, putSem]
  -- By induction on the sets before the one that changes.
  induction k generalizing id with
  | nil => simp
  | cons set k ih =>
      cases id with
      | zero => simp [List.findIdx?_cons, hkey]
      | succ id => simp [List.findIdx?_cons, ih]

/-- The set found under a key has this key. -/
theorem key_of_findKey {key : ℤ} (h : findKey k key = some id) :
    ∃ set, setAt k id = some set ∧ set.key = key := by
  obtain ⟨hid, hany, -⟩ := List.findIdx?_eq_some_iff_getElem.mp h
  cases hset : k[id] with
  | none =>
      rw [hset] at hany
      cases hany
  | some set =>
      rw [hset] at hany
      exact ⟨set, by rw [setAt, List.getElem?_eq_getElem hid, hset]; rfl, by simpa using hany⟩

/-- The set found under a key has a first semaphore. -/
theorem exists_semAt {key : ℤ} (h : findKey k key = some id) : ∃ sem, semAt k id 0 = some sem := by
  obtain ⟨set, hset, -⟩ := key_of_findKey h
  obtain ⟨sem, sems, hsems⟩ := List.exists_cons_of_ne_nil set.sems_ne
  exact ⟨sem, by rw [semAt, hset, Option.bind_some, hsems]; rfl⟩

/-- `semget` of one semaphore under a key there is a set for returns this set. -/
theorem semget_of_findKey {key : ℤ} (hkey : key ≠ ipcPrivate) (h : findKey k key = some id)
    (room : Bool) : semget k room key 1 = (k, some id) := by
  obtain ⟨set, hset, -⟩ := key_of_findKey h
  have hlen : (1 : ℤ) ≤ set.sems.length := by
    have hpos := List.length_pos_iff.mpr set.sems_ne
    omega
  simp only [semget, if_neg hkey, h, hset, if_pos hlen]

/-- What `semget` returns is the set under the key from then on. -/
theorem findKey_semget {key n : ℤ} {room : Bool} {k' : Sems P} (hkey : key ≠ ipcPrivate)
    (h : semget k room key n = (k', some id)) : findKey k' key = some id := by
  rw [semget, if_neg hkey] at h
  cases hfind : findKey k key with
  | some id' =>
      obtain ⟨set, hset, -⟩ := key_of_findKey hfind
      simp only [hfind, hset] at h
      split_ifs at h
      · obtain ⟨rfl, hid⟩ := Prod.mk.inj h
        rw [hfind, hid]
      · cases (Prod.mk.inj h).2
  | none =>
      simp only [hfind] at h
      split_ifs at h with hn
      · obtain ⟨rfl, hid⟩ := Prod.mk.inj h
        have hpos : n.toNat ≠ 0 := by omega
        have hnew : findKey [some (SemSet.ofSize (P := P) key n.toNat hpos)] key = some 0 := by
          simp [findKey, SemSet.ofSize]
        rw [findKey, List.findIdx?_append]
        change (findKey k key).or ((findKey [_] key).map _) = _
        rw [hfind, hnew, ← hid, Option.none_or, Option.map_some, Nat.zero_add]
      · cases (Prod.mk.inj h).2

/-- `semget` of one semaphore under a key there is no set for creates it, if there is room. -/
theorem semget_of_none {key : ℤ} (hkey : key ≠ ipcPrivate) (h : findKey k key = none)
    (room : Bool) : semget k room key 1 =
      if room then (k ++ [some (.ofSize key 1 Nat.one_ne_zero)], some k.length) else (k, none) := by
  simp only [semget, if_neg hkey, h]
  cases room <;> rfl

/-- A new semaphore is 0. -/
theorem semAt_ofSize (k : Sems P) (key : ℤ) :
    semAt (k ++ [some (.ofSize key 1 Nat.one_ne_zero)]) k.length 0 = some (.ofVal 0) := by
  rw [semAt, setAt, List.getElem?_concat_length]
  rfl

/-- The sets keep their keys when `semop` returns. -/
theorem findKey_semopUndo [DecidableEq P] {p : P} {op : ℤ} {k' : Sems P}
    (h : semopUndo k p id num op = .returns k') (key : ℤ) : findKey k' key = findKey k key := by
  rw [semopUndo] at h
  split at h
  · cases h
  · split_ifs at h
    · rw [Outcome.returns.inj h]
    · rw [← Outcome.returns.inj h, findKey_putSem]

/-- The sets keep their keys when a process exits. -/
theorem findKey_exit [DecidableEq P] (k : Sems P) (p : P) (key : ℤ) :
    findKey (exit k p) key = findKey k key := by
  rw [findKey, exit, List.findIdx?_map, findKey]
  congr 1
  funext set
  cases set <;> rfl

end Rules

end SysVSem
