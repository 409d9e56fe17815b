import LinuxPrograms.Lib.SysVSem
import Mathlib.Algebra.BigOperators.Fin
import Mathlib.Algebra.Order.BigOperators.Group.Finset
import Mathlib.Tactic.Abel

/-!
# Permits

Holders of permits, `n` of which there are, and a System V semaphore that counts the permits nobody
holds: a process takes one with `semop` of -1 and gives it back with `semop` of 1, both with
`SEM_UNDO`, or when it exits.

- `holders_update`, `eq_of_holders_le_one`: counting the holders.
- `Guards`: the semaphore and the holders have `n` permits between them.
- `Guards.wait`, `Guards.signal`, `Guards.exit`, `guards_of_setval`: what the calls do to this.
-/

namespace Permits

section Holders

/-- A sum over parts one of which changes. -/
theorem sum_update_add {ι α M : Type*} [Fintype ι] [DecidableEq ι] [AddCommMonoid M]
    (f : ι → α → M) (g : ι → α) (i : ι) (x : α) :
    ∑ j, f j (Function.update g i x j) + f i (g i) = ∑ j, f j (g j) + f i x := by
  have hrest : ∑ j ∈ Finset.univ.erase i, f j (Function.update g i x j) =
      ∑ j ∈ Finset.univ.erase i, f j (g j) := by
    apply Finset.sum_congr rfl
    intro j hj
    rw [Function.update_of_ne (Finset.ne_of_mem_erase hj)]
  rw [← Finset.add_sum_erase _ _ (Finset.mem_univ i), hrest,
    ← Finset.add_sum_erase _ (fun j => f j (g j)) (Finset.mem_univ i), Function.update_self]
  abel

variable {ι : Type*} [Fintype ι] {hold : ι → Bool} {i j : ι}

/-- How many hold a permit. -/
def holders (hold : ι → Bool) : ℕ := ∑ i, (hold i).toNat

/-- Nobody holds a permit. -/
theorem holders_eq_zero_iff : holders hold = 0 ↔ ∀ i, hold i = false := by
  rw [holders, Finset.sum_eq_zero_iff]
  simp

/-- Whoever holds a permit counts. -/
theorem one_le_holders (hi : hold i = true) : 1 ≤ holders hold := by
  by_contra hnone
  have hzero : holders hold = 0 := by omega
  have hfalse := holders_eq_zero_iff.mp hzero i
  rw [hi] at hfalse
  cases hfalse

variable [DecidableEq ι]

/-- One of them may take a permit or give it back. -/
theorem holders_update (hold : ι → Bool) (i : ι) (b : Bool) :
    holders (Function.update hold i b) + (hold i).toNat = holders hold + b.toNat :=
  sum_update_add (fun _ => Bool.toNat) hold i b

/-- If there is one permit, then only one can hold it. -/
theorem eq_of_holders_le_one (h : holders hold ≤ 1) (hi : hold i = true) (hj : hold j = true) :
    i = j := by
  by_contra hne
  -- Without `i` there is nobody left.
  have hnone : holders (Function.update hold i false) = 0 := by
    have hcount := holders_update hold i false
    rw [hi, Bool.toNat_true, Bool.toNat_false] at hcount
    omega
  have hfalse := holders_eq_zero_iff.mp hnone j
  rw [Function.update_of_ne (Ne.symm hne), hj] at hfalse
  cases hfalse

end Holders

section Semaphore

open SysVSem

variable {P : Type*} [Fintype P] [DecidableEq P] {k k' : Sems P} {id num n : ℕ} {hold : P → Bool}
  {p : P}

/-- The semaphore is the number of permits nobody holds, and every holder's exit gives one back. -/
def Guards (k : Sems P) (id num n : ℕ) (hold : P → Bool) : Prop :=
  ∃ sem, semAt k id num = some sem ∧ sem.val + holders hold = n ∧ ∀ p, sem.adj p = (hold p).toNat

omit [DecidableEq P] in
/-- The value of a semaphore nobody has used is the number of permits. -/
theorem guards_of_ofVal {v : ℕ} (h : semAt k id num = some (.ofVal v))
    (hnone : ∀ p, hold p = false) : Guards k id num v hold := by
  refine ⟨_, h, ?_, fun p => ?_⟩
  · rw [holders_eq_zero_iff.mpr hnone]
    rfl
  · rw [hnone]
    rfl

omit [DecidableEq P] in
/-- `SETVAL` sets the permits when nobody holds one. -/
theorem guards_of_setval {v : ℤ} (h : setval k id num v = some k') (hnone : ∀ p, hold p = false) :
    Guards k' id num v.toNat hold := by
  obtain ⟨sem, hsem, hset⟩ := Option.bind_eq_some_iff.mp h
  split_ifs at hset
  obtain rfl := Option.some.inj hset
  exact guards_of_ofVal (semAt_putSem hsem) hnone

omit [Fintype P] in
/-- What a process holds and its adjustment change together. -/
theorem update_adj {adj : P → ℤ} {v : ℤ} {b : Bool} (hadj : ∀ q, adj q = (hold q).toNat)
    (hv : v = b.toNat) (q : P) :
    Function.update adj p v q = (Function.update hold p b q).toNat := by
  rcases eq_or_ne q p with rfl | hne
  · rw [Function.update_self, Function.update_self, hv]
  · rw [Function.update_of_ne hne, Function.update_of_ne hne, hadj]

namespace Guards

omit [DecidableEq P] in
theorem getval (h : Guards k id num n hold) : getval k id num = some (n - holders hold) := by
  obtain ⟨sem, hsem, hval, -⟩ := h
  rw [SysVSem.getval, hsem, ← hval, Nat.add_sub_cancel]
  rfl

/-- A process that holds what it held changes nothing. -/
theorem update_same {b : Bool} (h : Guards k id num n hold)
    (hp : hold p = b) : Guards k id num n (Function.update hold p b) := by
  rwa [← hp, Function.update_eq_self]

/-- If there is one permit, then only one can hold it. -/
theorem exclusive (h : Guards k id num n hold) (hn : n ≤ 1) {q : P} (hp : hold p = true)
    (hq : hold q = true) : p = q := by
  obtain ⟨sem, -, hval, -⟩ := h
  exact eq_of_holders_le_one (by omega) hp hq

/-- `semop` of -1 does not fail. -/
theorem wait_ne_fails (h : Guards k id num n hold) (hn : n ≤ semvmx) :
    semopUndo k p id num (-1) ≠ .fails := by
  obtain ⟨sem, hsem, hval, -⟩ := h
  intro hfails
  simp only [semopUndo, hsem] at hfails
  split_ifs at hfails
  all_goals omega

/-- A process that does not hold a permit takes one, of which there was one left. -/
theorem wait (h : Guards k id num n hold) (hp : hold p = false)
    (hop : semopUndo k p id num (-1) = .returns k') :
    holders hold < n ∧ Guards k' id num n (Function.update hold p true) := by
  obtain ⟨sem, hsem, hval, hadj⟩ := h
  obtain ⟨hlow, -, rfl⟩ := semopUndo_returns (by decide) hsem hop
  refine ⟨by omega, _, semAt_putSem hsem, ?_, fun q => ?_⟩
  · have hcount := holders_update hold p true
    rw [hp, Bool.toNat_true, Bool.toNat_false] at hcount
    show (sem.val + -1 : ℤ).toNat + _ = n
    omega
  · have htaken : sem.adj p - -1 = (true.toNat : ℤ) := by
      rw [hadj, hp]
      rfl
    exact update_adj hadj htaken q

/-- A process that holds a permit gives it back. -/
theorem signal (h : Guards k id num n hold) (hn : n ≤ semvmx) (hp : hold p = true) :
    ∃ k', semopUndo k p id num 1 = .returns k' ∧
      Guards k' id num n (Function.update hold p false) := by
  obtain ⟨sem, hsem, hval, hadj⟩ := h
  have hcount := holders_update hold p false
  rw [hp, Bool.toNat_true, Bool.toNat_false] at hcount
  have hop := semopUndo_eq p one_ne_zero hsem (by omega) (by omega)
  refine ⟨_, hop, _, semAt_putSem hsem, ?_, fun q => ?_⟩
  · show (sem.val + 1 : ℤ).toNat + _ = n
    omega
  · have hgiven : sem.adj p - 1 = (false.toNat : ℤ) := by
      rw [hadj, hp]
      rfl
    exact update_adj hadj hgiven q

/-- The exit of a process gives back what it holds. -/
theorem exit (h : Guards k id num n hold) (hn : n ≤ semvmx) :
    Guards (SysVSem.exit k p) id num n (Function.update hold p false) := by
  obtain ⟨sem, hsem, hval, hadj⟩ := h
  refine ⟨sem.exit p, by rw [semAt_exit, hsem]; rfl, ?_, fun q => ?_⟩
  · have hcount := holders_update hold p false
    rw [Bool.toNat_false] at hcount
    show min (sem.val + sem.adj p).toNat semvmx + _ = n
    rw [hadj]
    omega
  · have hnone : (0 : ℤ) = (false.toNat : ℤ) := rfl
    exact update_adj hadj hnone q

end Guards

end Semaphore

end Permits
