import Mathlib.Data.Fintype.Basic
import Mathlib.Data.Fintype.EquivFin
import Mathlib.Data.List.Nodup

/-!
# Merges of sequences

A list that consists of the elements of a family of lists, each list's elements in their own order.
Elements that several lists have in common are told apart by a tag: the index of the list they come
from.

- `IsMerge.snoc`, `IsMerge.append`: a merge grows by an element, or by another merge.
- `exists_isMerge`: any family of finitely many lists has a merge.
- `IsMerge.filter_eq`: a key that tells the lists apart gives each of them back.
-/

namespace Merge

variable {ι α κ : Type*} [DecidableEq ι]

/-- The elements with the tag `i`. -/
def elementsOf (i : ι) (tagged : List (ι × α)) : List α :=
  tagged.filterMap fun p => if p.1 = i then some p.2 else none

/-- The list `l` is a merge of the lists `seqs`. -/
def IsMerge (seqs : ι → List α) (l : List α) : Prop :=
  ∃ tagged : List (ι × α), tagged.map Prod.snd = l ∧ ∀ i, elementsOf i tagged = seqs i

@[simp]
theorem elementsOf_nil (i : ι) : elementsOf i ([] : List (ι × α)) = [] := rfl

theorem elementsOf_append (i : ι) (s t : List (ι × α)) :
    elementsOf i (s ++ t) = elementsOf i s ++ elementsOf i t :=
  List.filterMap_append

/-- Elements with one tag. -/
theorem elementsOf_map (i j : ι) (l : List α) :
    elementsOf i (l.map fun a => (j, a)) = if j = i then l else [] := by
  rw [elementsOf, List.filterMap_map]
  split_ifs with h
  · simp [h]
  · simp [h]

/-- Nothing is a merge of nothing. -/
theorem IsMerge.nil : IsMerge (fun _ : ι => ([] : List α)) [] := ⟨[], rfl, fun _ => rfl⟩

/-- Merges behind one another. -/
theorem IsMerge.append {s t : ι → List α} {l m : List α} (hl : IsMerge s l) (hm : IsMerge t m) :
    IsMerge (fun i => s i ++ t i) (l ++ m) := by
  obtain ⟨tl, rfl, hs⟩ := hl
  obtain ⟨tm, rfl, ht⟩ := hm
  exact ⟨tl ++ tm, List.map_append, fun i => by rw [elementsOf_append, hs, ht]⟩

/-- A further element of one of the lists. -/
theorem IsMerge.snoc {s t : ι → List α} {l : List α} {j : ι} {a : α} (h : IsMerge s l)
    (hj : t j = s j ++ [a]) (ht : ∀ i, i ≠ j → t i = s i) : IsMerge t (l ++ [a]) := by
  obtain ⟨tagged, rfl, hs⟩ := h
  refine ⟨tagged ++ [(j, a)], List.map_append, fun i => ?_⟩
  rw [elementsOf_append, hs]
  rcases eq_or_ne i j with rfl | hne
  · rw [hj]
    simp [elementsOf]
  · rw [ht i hne]
    simp [elementsOf, hne.symm]

/-- Any family of finitely many lists has a merge: one list behind the other. -/
theorem exists_isMerge [Fintype ι] (seqs : ι → List α) : ∃ l, IsMerge seqs l := by
  suffices h : ∀ is : List ι, is.Nodup →
      ∃ tagged : List (ι × α), ∀ i, elementsOf i tagged = if i ∈ is then seqs i else [] by
    obtain ⟨tagged, htagged⟩ := h Finset.univ.toList (Finset.nodup_toList _)
    exact ⟨_, tagged, rfl, fun i => by rw [htagged, if_pos (by simp)]⟩
  intro is hnodup
  induction is with
  | nil => exact ⟨[], fun i => by simp⟩
  | cons j is ih =>
      obtain ⟨hj, hnodup⟩ := List.nodup_cons.mp hnodup
      obtain ⟨tagged, htagged⟩ := ih hnodup
      refine ⟨(seqs j).map (fun a => (j, a)) ++ tagged, fun i => ?_⟩
      rw [elementsOf_append, elementsOf_map, htagged]
      rcases eq_or_ne j i with rfl | hne
      · simp [hj]
      · simp [hne, hne.symm]

/-- Where a key tells the lists apart, the elements with the key of one are that list. -/
theorem IsMerge.filter_eq [DecidableEq κ] {seqs : ι → List α} {l : List α} (h : IsMerge seqs l)
    {key : α → κ} {k : ι → κ} (hk : Function.Injective k) (hkey : ∀ i, ∀ a ∈ seqs i, key a = k i)
    (i : ι) : l.filter (fun a => key a = k i) = seqs i := by
  obtain ⟨tagged, rfl, hs⟩ := h
  have htag : ∀ p ∈ tagged, key p.2 = k p.1 := by
    intro p hp
    apply hkey
    rw [← hs, elementsOf, List.mem_filterMap]
    exact ⟨p, hp, by simp⟩
  rw [← hs i]
  clear hs hkey
  induction tagged with
  | nil => rfl
  | cons p tagged ih =>
      rw [List.forall_mem_cons] at htag
      rw [List.map_cons, elementsOf, List.filterMap_cons, List.filter_cons, ih htag.2, htag.1]
      rcases eq_or_ne p.1 i with hi | hne
      · simp [hi, elementsOf]
      · simp [hne, hk.ne hne, elementsOf]

end Merge
