import Mathlib.Data.List.Basic

/-!
# Traversals in sessions

A sequence handed out by an iterator of two operations: `start` finds the object at a position,
`next` goes from an object to the one behind it and may move the position. A reader with little room
gets the sequence in sessions. Each one starts at the position saved by the one before, and shows as
many objects as there is room for, one at least; the traversal ends with a session whose `start`
finds nothing.

The layer that runs the sessions looks at the position before and after each call of `next` and goes
on at `advance before after`.

- `Walks`: the operations walk a list.
- `traversal_eq`: then every list of sessions shows the list once, in order, and the traversal ends.
-/

namespace SeqTraversal

variable {α : Type*}

/-- The operations of an iterator. -/
structure SeqOps (α : Type*) where
  /-- The object at a position. -/
  start : ℕ → Option α
  /-- The object behind this one, and the position afterwards. -/
  next : α → ℕ → Option α × ℕ

variable (advance : ℕ → ℕ → ℕ) (ops : SeqOps α)

/-- The objects shown behind `v`, where there is room for `room` more, and the position saved. -/
def fill : ℕ → α → ℕ → List α × ℕ
  | 0, v, pos => ([], advance pos (ops.next v pos).2)
  | room + 1, v, pos =>
      let saved := advance pos (ops.next v pos).2
      match (ops.next v pos).1 with
      | none => ([], saved)
      | some w => (w :: (fill room w saved).1, (fill room w saved).2)

/-- A session at `pos` with room for `room + 1` objects; `none` if there is no object. -/
def session (room pos : ℕ) : Option (List α × ℕ) :=
  (ops.start pos).map fun v =>
    (v :: (fill advance ops room v pos).1, (fill advance ops room v pos).2)

/-- What is shown by sessions from `pos` on with the room `cut 0`, `cut 1` and so on; `none` if the
traversal has not ended after `m` of them. -/
def traversal : ℕ → (ℕ → ℕ) → ℕ → Option (List α)
  | 0, _, _ => none
  | m + 1, cut, pos =>
      match session advance ops (cut 0) pos with
      | none => some []
      | some (shown, saved) => (traversal m (fun i => cut (i + 1)) saved).map (shown ++ ·)

/-- However the sessions are cut, the traversal ends and has shown the objects of `l`, each once and
in order. -/
def Traverses (l : List α) : Prop := ∀ cut : ℕ → ℕ, ∃ m, traversal advance ops m cut 0 = some l

/-- The operations find the elements of `l` at their positions, and the layer goes on one by one. -/
structure Walks (l : List α) : Prop where
  start : ∀ i, ops.start i = l[i]?
  next : ∀ i v, l[i]? = some v →
    (ops.next v i).1 = l[i + 1]? ∧ advance i (ops.next v i).2 = i + 1

variable {advance ops} {l : List α}

/-- A session goes on behind an element as far as there is room. -/
theorem Walks.fill_eq (h : Walks advance ops l) {i : ℕ} {v : α} (hv : l[i]? = some v) (room : ℕ) :
    fill advance ops room v i =
      ((l.drop (i + 1)).take room, i + 1 + ((l.drop (i + 1)).take room).length) := by
  induction room generalizing i v with
  | zero => simp [fill, (h.next i v hv).2]
  | succ room ih =>
      obtain ⟨hnext, hadv⟩ := h.next i v hv
      rw [fill, hnext, hadv]
      cases hw : l[i + 1]? with
      | none => simp [List.drop_of_length_le (List.getElem?_eq_none_iff.mp hw)]
      | some w =>
          obtain ⟨hlt, rfl⟩ := List.getElem?_eq_some_iff.mp hw
          simp only [ih hw, List.drop_eq_getElem_cons hlt, List.take_succ_cons, List.length_cons,
            Prod.mk.injEq, true_and]
          omega

/-- From every position the sessions show what is left of the list. -/
theorem Walks.traversal_eq (h : Walks advance ops l) (m : ℕ) (cut : ℕ → ℕ) (i : ℕ)
    (hm : l.length - i < m) : traversal advance ops m cut i = some (l.drop i) := by
  induction m generalizing cut i with
  | zero => exact absurd hm (Nat.not_lt_zero _)
  | succ m ih =>
      rw [traversal, session, h.start]
      cases hv : l[i]? with
      | none =>
          rw [List.drop_of_length_le (List.getElem?_eq_none_iff.mp hv)]
          rfl
      | some v =>
          obtain ⟨hlt, rfl⟩ := List.getElem?_eq_some_iff.mp hv
          rw [Option.map_some, h.fill_eq hv]
          show Option.map _ (traversal advance ops m _ _) = _
          -- What the session shows and what is left behind it make up the list.
          have hrest : l.drop (i + 1 + ((l.drop (i + 1)).take (cut 0)).length) =
              (l.drop (i + 1)).drop (cut 0) := by
            rw [← List.drop_drop, List.length_take, ← List.drop_eq_drop_min]
          rw [ih _ _ (by omega), hrest, Option.map_some, List.drop_eq_getElem_cons hlt,
            List.cons_append, List.take_append_drop]

/-- An iterator that walks a list traverses it. -/
theorem Walks.traverses (h : Walks advance ops l) : Traverses advance ops l :=
  fun cut => ⟨l.length + 1, h.traversal_eq _ cut 0 (by omega)⟩

end SeqTraversal
