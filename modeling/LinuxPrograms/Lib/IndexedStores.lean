import Mathlib.Data.List.Induction
import Mathlib.Algebra.Order.Ring.Int

/-!
# Stores through a computed index

A loop that fills an array makes one store after the other, each at an index it has computed and
compares with nothing. A store whose index lies in the array replaces one of its elements. What a
store beside the array destroys is not said; the array itself it leaves alone.

- `storesOf`: the stores of a loop over some data, with the index of each round.
- `allInside_storesOf_iff`: when all of them lie in the array.
- `perform_storesOf`, `forall_mem_perform_storesOf`: what a loop over less data than the array has
  room for leaves in it, and one over more.
-/

namespace IndexedStores

variable {α : Type*}

/-- The index lies in an array of `n` elements. -/
def Inside (n : ℕ) (i : ℤ) : Prop := 0 ≤ i ∧ i < n

instance (n : ℕ) (i : ℤ) : Decidable (Inside n i) := inferInstanceAs (Decidable (0 ≤ i ∧ i < n))

/-- The array after a store. -/
def put (xs : List α) (st : ℤ × α) : List α :=
  if Inside xs.length st.1 then xs.set st.1.toNat st.2 else xs

/-- The array after stores in their order. -/
def perform (xs : List α) (stores : List (ℤ × α)) : List α := stores.foldl put xs

/-- No store lies beside an array of `n` elements. -/
def AllInside (n : ℕ) (stores : List (ℤ × α)) : Prop := ∀ st ∈ stores, Inside n st.1

/-- The stores of a loop over `data`, where `index k` is the index in the round `k`. -/
def storesOf (index : ℕ → ℤ) (data : List α) : List (ℤ × α) := data.mapIdx fun k x => (index k, x)

section Perform

variable {xs : List α} {stores : List (ℤ × α)} {P : α → Prop}

@[simp]
theorem length_put (xs : List α) (st : ℤ × α) : (put xs st).length = xs.length := by
  rw [put]
  split_ifs
  · rw [List.length_set]
  · rfl

@[simp]
theorem length_perform (xs : List α) (stores : List (ℤ × α)) :
    (perform xs stores).length = xs.length := by
  induction stores generalizing xs with
  | nil => rfl
  | cons st rest ih =>
      rw [perform, List.foldl_cons, ← perform, ih, length_put]

theorem perform_append (xs : List α) (stores₁ stores₂ : List (ℤ × α)) :
    perform xs (stores₁ ++ stores₂) = perform (perform xs stores₁) stores₂ :=
  List.foldl_append

/-- What holds of the elements and of all that is stored holds of the elements afterwards. -/
theorem forall_mem_perform (hxs : ∀ x ∈ xs, P x) (hstores : ∀ st ∈ stores, P st.2) :
    ∀ x ∈ perform xs stores, P x := by
  induction stores generalizing xs with
  | nil => exact hxs
  | cons st rest ih =>
      rw [List.forall_mem_cons] at hstores
      refine ih ?_ hstores.2
      intro x hx
      rw [put] at hx
      split_ifs at hx
      · rcases List.mem_or_eq_of_mem_set hx with hx | rfl
        · exact hxs x hx
        · exact hstores.1
      · exact hxs x hx

end Perform

section Scan

variable {index : ℕ → ℤ} {n : ℕ} {xs data : List α} {P : α → Prop}

/-- A loop that counts its rounds stays in the array exactly if it has no more rounds than the array
has elements. -/
theorem allInside_storesOf_iff (hindex : ∀ k ≤ n, index k = k) :
    AllInside n (storesOf index data) ↔ data.length ≤ n := by
  constructor
  · intro hin
    by_contra hlong
    rw [Nat.not_le] at hlong
    -- The round `n` stores right behind the array.
    have hmem : (index n, data[n]) ∈ storesOf index data :=
      List.mem_mapIdx.mpr ⟨n, hlong, rfl⟩
    have hlt : index n < n := (hin _ hmem).2
    rw [hindex n le_rfl] at hlt
    exact lt_irrefl _ hlt
  · intro hlen st hst
    obtain ⟨k, hk, rfl⟩ := List.mem_mapIdx.mp hst
    rw [Inside, hindex k (by omega)]
    omega

/-- The data then replaces the first elements. -/
theorem perform_storesOf (hindex : ∀ k < xs.length, index k = k) (hlen : data.length ≤ xs.length) :
    perform xs (storesOf index data) = data ++ xs.drop data.length := by
  -- Round by round, the last one of `data` last.
  induction data using List.reverseRecOn with
  | nil => rfl
  | append_singleton data x ih =>
      rw [List.length_append, List.length_singleton] at hlen
      have hin : Inside (perform xs (storesOf index data)).length (index data.length) := by
        rw [Inside, length_perform, hindex _ (by omega)]
        omega
      have hnat : (index data.length).toNat = data.length := by
        rw [hindex _ (by omega), Int.toNat_natCast]
      rw [storesOf, List.mapIdx_concat, ← storesOf, perform_append]
      calc perform (perform xs (storesOf index data)) [(index data.length, x)]
          = (perform xs (storesOf index data)).set data.length x := by
            rw [perform, List.foldl_cons, List.foldl_nil, put, if_pos hin, hnat]
        _ = (data ++ xs.drop data.length).set data.length x := by rw [ih (by omega)]
        _ = data ++ (xs.drop data.length).set 0 x := by
            rw [List.set_append_right _ _ le_rfl, Nat.sub_self]
        _ = data ++ [x] ++ xs.drop (data ++ [x]).length := by
            rw [List.drop_eq_getElem_cons (by omega), List.set_cons_zero, List.append_assoc,
              List.length_append, List.length_singleton, List.singleton_append]

/-- Nothing is left of an array shorter than the data, wherever the later rounds store. -/
theorem forall_mem_perform_storesOf (hindex : ∀ k < xs.length, index k = k)
    (hlen : xs.length ≤ data.length) (hdata : ∀ x ∈ data, P x) :
    ∀ x ∈ perform xs (storesOf index data), P x := by
  have htake : (data.take xs.length).length = xs.length := by
    rw [List.length_take, Nat.min_eq_left hlen]
  -- The first rounds replace the whole array.
  have hfirst : perform xs (storesOf index (data.take xs.length)) = data.take xs.length := by
    rw [perform_storesOf hindex htake.le, htake, List.drop_length, List.append_nil]
  rw [← List.take_append_drop xs.length data, storesOf, List.mapIdx_append, ← storesOf,
    perform_append, hfirst]
  refine forall_mem_perform (fun x hx => hdata x (List.mem_of_mem_take hx)) ?_
  intro st hst
  obtain ⟨k, hk, rfl⟩ := List.mem_mapIdx.mp hst
  exact hdata _ (List.mem_of_mem_drop (List.getElem_mem hk))

end Scan

end IndexedStores
