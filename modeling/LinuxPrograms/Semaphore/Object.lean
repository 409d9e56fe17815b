import LinuxPrograms.Lib.SysVSem

/-!
# The class Semaphore

`class Semaphore` of `semaphore_linux.cpp`, an object for a System V semaphore set. The constructor
keeps its arguments in the object and creates the set with `sem_create()`, whose own defaults - one
semaphore, key 3333 - take their place.

- `Semaphore.new`: the constructor; `semCreate`, `semLock` and so on: the methods.
- `findKey_new`: whatever the arguments, the set of an object is the one under the key 3333.
- `never_independent`: no two objects with different keys have sets of their own.
-/

namespace SemaphoreLinux

open SysVSem

variable {P : Type*}

/-- `class Semaphore`. `semId` is `none` for the -1 of a failed `semget`; `sem_data` and `sem_buf`
are left out: they are set before every use. -/
structure Semaphore where
  ipcKey : ℤ
  nsem : ℤ
  semId : Option ℕ

section Methods

variable (k : Sems P) (o : Semaphore)

/-- `Semaphore::sem_create`. -/
def semCreate (room : Bool) (nSem : ℤ := 1) (ipcKey : ℤ := 3333) : Sems P × Semaphore :=
  let (k', semId) := semget k room ipcKey nSem
  (k', { o with semId })

/-- `Semaphore::set_sema_val`. A failed call is reported and changes nothing. -/
def setSemaVal (semNo : ℕ := 0) (semVal : ℤ := 1) : Sems P :=
  (o.semId.bind fun id => setval k id semNo semVal).getD k

/-- `Semaphore::get_sema_val`. -/
def getSemaVal (semNo : ℕ := 0) : ℤ :=
  match o.semId.bind fun id => getval k id semNo with
  | some val => val
  | none => -1

/-- `Semaphore::sem_destroy`. -/
def semDestroy : Sems P := (o.semId.bind fun id => rmid k id).getD k

/-- The constructor. -/
def Semaphore.new (room : Bool) (nSem : ℤ := 1) (ipcKey : ℤ := 3333) : Sems P × Semaphore :=
  -- `sem_create()` and `set_sema_val()` are called without arguments.
  let (k', o) := semCreate k ⟨ipcKey, nSem, none⟩ room
  (setSemaVal k' o, o)

variable [DecidableEq P] (p : P)

/-- `semop` on the set of the object. A failed call is reported and changes nothing; there is no
result while the call blocks. -/
def semaphoreOp (semNum : ℕ) (op : ℤ) : Option (Sems P) :=
  match o.semId with
  | none => some k
  | some id =>
      match semopUndo k p id semNum op with
      | .returns k' => some k'
      | .fails => some k
      | .blocks => none

/-- `Semaphore::sem_lock`. -/
def semLock (semNum : ℕ := 0) : Option (Sems P) := semaphoreOp k o p semNum (-1)

/-- `Semaphore::sem_unlock`. -/
def semUnlock (semNum : ℕ := 0) : Option (Sems P) := semaphoreOp k o p semNum 1

end Methods

/-! ## Objects that share a set -/

/-- A call on an object, the constructor with the arguments of the object among them. -/
inductive MethodCall
  | construct (room : Bool)
  | lock (semNum : ℕ)
  | unlock (semNum : ℕ)
  | set (semNo : ℕ) (semVal : ℤ)
  | destroy

section Sharing

variable [DecidableEq P] (p : P)

/-- One call on an object. -/
def callMethod (k : Sems P) (o : Semaphore) : MethodCall → Option (Sems P × Semaphore)
  | .construct room => some (Semaphore.new k room o.nsem o.ipcKey)
  | .lock semNum => (semLock k o p semNum).map fun k' => (k', o)
  | .unlock semNum => (semUnlock k o p semNum).map fun k' => (k', o)
  | .set semNo semVal => some (setSemaVal k o semNo semVal, o)
  | .destroy => some (semDestroy k o, o)

/-- A sequence of calls on an object. -/
def callMethods (k : Sems P) (o : Semaphore) : List MethodCall → Option (Sems P × Semaphore)
  | [] => some (k, o)
  | c :: cs => do
      let (k', o') ← callMethod p k o c
      callMethods k' o' cs

/-- No calls on the object `o` change a value seen through the object `o'`. -/
def Frame (k : Sems P) (o o' : Semaphore) : Prop :=
  ∀ calls k' o₁, callMethods p k o calls = some (k', o₁) →
    ∀ semNo, getSemaVal k' o' semNo = getSemaVal k o' semNo

end Sharing

/-- The object controls a set of `n` semaphores under the key `key`. -/
def Controls (k : Sems P) (o : Semaphore) (n key : ℤ) : Prop :=
  ∃ id set, o.semId = some id ∧ setAt k id = some set ∧ set.key = key ∧ set.sems.length = n

/-- Two objects constructed one after the other are independent: each controls a set of the
semaphores it was constructed with, under its own key, and calls on one do not show in the other. -/
def Independent [DecidableEq P] (p : P) (k : Sems P) (room₁ room₂ : Bool) (n₁ n₂ key₁ key₂ : ℤ) :
    Prop :=
  let (k₁, o₁) := Semaphore.new k room₁ n₁ key₁
  let (k₂, o₂) := Semaphore.new k₁ room₂ n₂ key₂
  (Controls k₂ o₁ n₁ key₁ ∧ Controls k₂ o₂ n₂ key₂) ∧ Frame p k₂ o₁ o₂ ∧ Frame p k₂ o₂ o₁

section Key

variable {k k' : Sems P} {o o' : Semaphore} {room : Bool} {n key : ℤ} {id semNo : ℕ}

/-- `set_sema_val` sets no key. -/
theorem findKey_setSemaVal (val key : ℤ) :
    findKey (setSemaVal k o semNo val) key = findKey k key := by
  rw [setSemaVal]
  cases o.semId with
  | none => rfl
  | some id =>
      rw [Option.bind_some, setval]
      cases semAt k id semNo with
      | none => rfl
      | some sem =>
          rw [Option.bind_some]
          split_ifs
          · exact findKey_putSem key
          · rfl

/-- What `set_sema_val` stores is seen through every object for the set. -/
theorem getSemaVal_setSemaVal {sem : Sem P} {val : ℤ} (ho : o.semId = some id)
    (ho' : o'.semId = some id) (hsem : semAt k id semNo = some sem)
    (hval : 0 ≤ val ∧ val ≤ semvmx) : getSemaVal (setSemaVal k o semNo val) o' semNo = val := by
  have hset : setSemaVal k o semNo val = putSem k id semNo (.ofVal val.toNat) := by
    rw [setSemaVal, ho, Option.bind_some, setval, hsem, Option.bind_some, if_pos hval,
      Option.getD_some]
  simp only [getSemaVal, ho', Option.bind_some, hset, getval, semAt_putSem hsem, Option.map_some]
  exact Int.toNat_of_nonneg hval.1

/-- Whatever the arguments, the set of an object is the one under the key 3333. -/
theorem findKey_new (h : Semaphore.new k room n key = (k', o)) (ho : o.semId = some id) :
    findKey k' 3333 = some id := by
  rw [Semaphore.new, semCreate] at h
  generalize hget : semget k room 3333 1 = r at h
  obtain ⟨rfl, rfl⟩ := Prod.mk.inj h
  rw [findKey_setSemaVal]
  exact findKey_semget (by decide) (hget.trans (Prod.ext rfl ho))

/-- If there is a set under the key 3333, it is the set of every new object. -/
theorem new_of_findKey (h : findKey k 3333 = some id) :
    Semaphore.new k room n key = (setSemaVal k ⟨key, n, some id⟩, ⟨key, n, some id⟩) := by
  simp only [Semaphore.new, semCreate, semget_of_findKey (show (3333 : ℤ) ≠ ipcPrivate by decide) h]

end Key

section Pairs

variable {k : Sems P} {room₁ : Bool} {n₁ key₁ : ℤ}

/-- Where the first of two objects has a set, the second has the same set. -/
theorem new_new {k₁ : Sems P} {o₁ : Semaphore} {id : ℕ} (room₂ : Bool) (n₂ key₂ : ℤ)
    (h : Semaphore.new k room₁ n₁ key₁ = (k₁, o₁)) (ho : o₁.semId = some id) :
    ∃ k₂ o₂ sem, Semaphore.new k₁ room₂ n₂ key₂ = (k₂, o₂) ∧ o₂.semId = some id ∧
      findKey k₂ 3333 = some id ∧ semAt k₂ id 0 = some sem ∧ getSemaVal k₂ o₂ = 1 := by
  have hfind := findKey_new h ho
  have hfind' : findKey (setSemaVal k₁ ⟨key₂, n₂, some id⟩) 3333 = some id :=
    (findKey_setSemaVal 1 3333).trans hfind
  obtain ⟨sem, hsem⟩ := exists_semAt hfind
  obtain ⟨sem', hsem'⟩ := exists_semAt hfind'
  exact ⟨_, _, sem', new_of_findKey hfind, rfl, hfind', hsem',
    getSemaVal_setSemaVal rfl rfl hsem (by decide)⟩

/-- An object controls a set under no other key than 3333. -/
theorem key_of_controls {o : Semaphore} {n key : ℤ} {id : ℕ} (ho : o.semId = some id)
    (hfind : findKey k 3333 = some id) (h : Controls k o n key) : key = 3333 := by
  obtain ⟨id', set, ho', hset, rfl, -⟩ := h
  obtain rfl : id = id' := Option.some.inj (ho.symm.trans ho')
  obtain ⟨set', hset', hkey⟩ := key_of_findKey hfind
  rw [Option.some.inj (hset.symm.trans hset'), hkey]

/-- Of two objects with different keys not both control a set under their own. -/
theorem not_controls {k₁ k₂ : Sems P} {o₁ o₂ : Semaphore} {room₂ : Bool} {n₂ key₂ : ℤ}
    (hkeys : key₁ ≠ key₂) (h₁ : Semaphore.new k room₁ n₁ key₁ = (k₁, o₁))
    (h₂ : Semaphore.new k₁ room₂ n₂ key₂ = (k₂, o₂)) :
    ¬ (Controls k₂ o₁ n₁ key₁ ∧ Controls k₂ o₂ n₂ key₂) := by
  rintro ⟨hc₁, hc₂⟩
  obtain ⟨id, -, ho₁, -⟩ := id hc₁
  obtain ⟨k', o', sem, hnew, ho', hfind, -⟩ := new_new room₂ n₂ key₂ h₁ ho₁
  obtain ⟨rfl, rfl⟩ := Prod.mk.inj (hnew.symm.trans h₂)
  exact hkeys ((key_of_controls ho₁ hfind hc₁).trans (key_of_controls ho' hfind hc₂).symm)

variable [DecidableEq P]

/-- Objects with different keys are not independent. -/
theorem not_independent_of_ne (p : P) (k : Sems P) (room₁ room₂ : Bool) (n₁ n₂ : ℤ)
    {key₁ key₂ : ℤ} (hkeys : key₁ ≠ key₂) : ¬ Independent p k room₁ room₂ n₁ n₂ key₁ key₂ :=
  fun h => not_controls hkeys rfl rfl h.1

/-- Where the kernel has a set for two objects, it is one and the same, and calls on the first show
in the second. -/
theorem not_frame (p : P) {k₁ k₂ : Sems P} {o₁ o₂ : Semaphore} {room₂ : Bool} {n₂ key₂ : ℤ}
    (h₁ : Semaphore.new k room₁ n₁ key₁ = (k₁, o₁))
    (h₂ : Semaphore.new k₁ room₂ n₂ key₂ = (k₂, o₂)) (hset : o₁.semId ≠ none) :
    o₂.semId = o₁.semId ∧ ¬ Frame p k₂ o₁ o₂ := by
  obtain ⟨id, ho₁⟩ := Option.ne_none_iff_exists'.mp hset
  obtain ⟨k', o', sem, hnew, ho', hfind, hsem, hval⟩ := new_new room₂ n₂ key₂ h₁ ho₁
  obtain ⟨rfl, rfl⟩ := Prod.mk.inj (hnew.symm.trans h₂)
  refine ⟨by rw [ho', ho₁], fun hframe => ?_⟩
  -- The first object sets the semaphore to 2, and the second sees it.
  have hseen := hframe [.set 0 2] _ _ rfl 0
  rw [getSemaVal_setSemaVal ho₁ ho' hsem (by decide), hval] at hseen
  exact absurd hseen (by decide)

/-- Two objects with different keys are never independent: not both of them control a set under
their own key, and where the kernel has a set for them it is one and the same, so that calls on the
first show in the second. -/
theorem never_independent (p : P) (k : Sems P) (room₁ room₂ : Bool) (n₁ n₂ key₁ key₂ : ℤ)
    (hkeys : key₁ ≠ key₂) :
    ¬ Independent p k room₁ room₂ n₁ n₂ key₁ key₂ ∧
    ∀ k₁ o₁ k₂ o₂, Semaphore.new k room₁ n₁ key₁ = (k₁, o₁) →
      Semaphore.new k₁ room₂ n₂ key₂ = (k₂, o₂) →
        ¬ (Controls k₂ o₁ n₁ key₁ ∧ Controls k₂ o₂ n₂ key₂) ∧
        (o₁.semId ≠ none → o₂.semId = o₁.semId ∧ ¬ Frame p k₂ o₁ o₂) :=
  ⟨not_independent_of_ne p k room₁ room₂ n₁ n₂ hkeys, fun _ _ _ _ h₁ h₂ =>
    ⟨not_controls hkeys h₁ h₂, not_frame p h₁ h₂⟩⟩

end Pairs

/-- An object with the defaults and one for two semaphores under another key, with no set there
before: the second controls no set of its own. -/
theorem not_independent :
    ¬ ∀ n₁ n₂ key₁ key₂ : ℤ, key₁ ≠ key₂ →
      Independent () ([] : Sems Unit) true true n₁ n₂ key₁ key₂ := by
  intro h
  have hkeys : (3333 : ℤ) ≠ 4444 := by decide
  exact not_independent_of_ne () [] true true 1 2 hkeys (h 1 2 3333 4444 hkeys)

/-- The same two objects: calls on the first show in the second. -/
theorem never_independent_two :
    let r₁ := Semaphore.new ([] : Sems Unit) true 1 3333
    let r₂ := Semaphore.new r₁.1 true 2 4444
    ¬ Independent () ([] : Sems Unit) true true 1 2 3333 4444 ∧ ¬ Frame () r₂.1 r₁.2 r₂.2 := by
  obtain ⟨hnot, hevery⟩ := never_independent () ([] : Sems Unit) true true 1 2 3333 4444 (by decide)
  exact ⟨hnot, ((hevery _ _ _ _ rfl rfl).2 nofun).2⟩

end SemaphoreLinux
