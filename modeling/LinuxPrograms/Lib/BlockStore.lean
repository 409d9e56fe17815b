import Mathlib.Data.List.GetD
import Mathlib.Tactic.ByContra
import Mathlib.Tactic.SplitIfs

/-!
# Blocks written into a store

A store of cells, written block by block. A cell holds what the last block that covers it has
there.

- `contents`: the cells after some blocks.
- `contents_of_last`: the last block that covers a cell decides.
- `read_block`: a block is read back while nobody has written over it.
- `getElem?_splice`, `take_drop_eq_map`: the same for a list that holds the cells.
-/

namespace BlockStore

variable {α : Type*}

/-- A block of cells, from the cell `off` on. -/
structure Block (α : Type*) where
  off : ℕ
  data : List α

namespace Block

/-- The cell lies in the block. -/
def Covers (b : Block α) (j : ℕ) : Prop := b.off ≤ j ∧ j < b.off + b.data.length

/-- The blocks have no cell in common. -/
def Disjoint (b b' : Block α) : Prop := ∀ j, b.Covers j → ¬ b'.Covers j

end Block

/-- The cells after a block is written. -/
def write (c : ℕ → α) (b : Block α) (j : ℕ) : α :=
  if b.off ≤ j then b.data.getD (j - b.off) (c j) else c j

/-- The cells after blocks are written in their order. -/
def contents (c : ℕ → α) (bs : List (Block α)) : ℕ → α := bs.foldl write c

section Contents

variable {c : ℕ → α} {b : Block α} {bs pre post : List (Block α)} {j : ℕ}

@[simp]
theorem contents_nil (c : ℕ → α) : contents c [] = c := rfl

@[simp]
theorem contents_append (c : ℕ → α) (bs bs' : List (Block α)) :
    contents c (bs ++ bs') = contents (contents c bs) bs' := List.foldl_append

@[simp]
theorem contents_cons (c : ℕ → α) (b : Block α) (bs : List (Block α)) :
    contents c (b :: bs) = contents (write c b) bs := rfl

/-- Cells outside the block stay. -/
theorem write_of_not_covers (h : ¬ b.Covers j) : write c b j = c j := by
  rw [write]
  split_ifs with hj
  · have hlen : b.data.length ≤ j - b.off := by
      by_contra hlt
      exact h ⟨hj, by omega⟩
    rw [List.getD_eq_default _ _ hlen]
  · rfl

/-- Cells of the block take its data. -/
theorem write_add {k : ℕ} (hk : k < b.data.length) : write c b (b.off + k) = b.data[k] := by
  rw [write, if_pos (Nat.le_add_right ..), Nat.add_sub_cancel_left, List.getD_eq_getElem _ _ hk]

/-- Cells that no block covers stay. -/
theorem contents_of_not_covers (h : ∀ b ∈ bs, ¬ b.Covers j) : contents c bs j = c j := by
  induction bs generalizing c with
  | nil => rfl
  | cons b bs ih =>
      rw [contents_cons, ih fun b' hb' => h b' (List.mem_cons_of_mem b hb')]
      exact write_of_not_covers (h b List.mem_cons_self)

/-- The last block that covers a cell decides. -/
theorem contents_of_last {k : ℕ} (hk : k < b.data.length)
    (hpost : ∀ b' ∈ post, ¬ b'.Covers (b.off + k)) :
    contents c (pre ++ b :: post) (b.off + k) = b.data[k] := by
  rw [contents_append, contents_cons, contents_of_not_covers hpost]
  exact write_add hk

/-- A block is read back as long as it has no cell in common with those written behind it. -/
theorem read_block (hpost : ∀ b' ∈ post, b.Disjoint b') :
    (List.range b.data.length).map (fun k => contents c (pre ++ b :: post) (b.off + k)) =
      b.data := by
  apply List.ext_getElem
  · rw [List.length_map, List.length_range]
  · intro k hk hk'
    rw [List.getElem_map, List.getElem_range]
    refine contents_of_last hk' fun b' hb' => hpost b' hb' _ ⟨?_, ?_⟩ <;> omega

end Contents

/-! ### Stores that are lists -/

section Splice

variable {c : ℕ → α} {b : Block α} {cells : List α}

/-- A list in which the place of a block is replaced by its data holds what the store does after
the block is written. -/
theorem getElem?_splice (hcells : ∀ j < cells.length, cells[j]? = some (c j))
    (hfit : b.off + b.data.length ≤ cells.length) {j : ℕ} (hj : j < cells.length) :
    (cells.take b.off ++ b.data ++ cells.drop (b.off + b.data.length))[j]? =
      some (write c b j) := by
  have htake : (cells.take b.off).length = b.off := by
    rw [List.length_take]
    omega
  by_cases hbefore : j < b.off
  · rw [List.append_assoc, List.getElem?_append_left (by omega), List.getElem?_take_of_lt hbefore,
      hcells j hj, write_of_not_covers fun h => absurd h.1 (by omega)]
  · obtain ⟨k, rfl⟩ := Nat.exists_eq_add_of_le (Nat.not_lt.mp hbefore)
    rw [List.append_assoc, List.getElem?_append_right (by omega), htake, Nat.add_sub_cancel_left]
    by_cases hin : k < b.data.length
    · rw [List.getElem?_append_left hin, List.getElem?_eq_getElem hin, write_add hin]
    · rw [List.getElem?_append_right (by omega), List.getElem?_drop,
        write_of_not_covers fun h => absurd h.2 (by omega), ← hcells _ hj]
      congr 1
      omega

/-- The cells from `o` on, as far as they go. -/
theorem take_drop_eq_map (hcells : ∀ j < cells.length, cells[j]? = some (c j)) {o n : ℕ}
    (hfit : o + n ≤ cells.length) :
    (cells.drop o).take n = (List.range n).map fun k => c (o + k) := by
  apply List.ext_getElem?
  intro k
  by_cases hk : k < n
  · rw [List.getElem?_take_of_lt hk, List.getElem?_drop, hcells _ (by omega), List.getElem?_map,
      List.getElem?_range hk, Option.map_some]
  · rw [List.getElem?_eq_none (by rw [List.length_take]; omega),
      List.getElem?_eq_none (by rw [List.length_map, List.length_range]; omega)]

end Splice

end BlockStore
