import LinuxPrograms.Driver.Scull
import LinuxPrograms.Lib.SeqTraversal

/-!
# Scull: the iterator of the proc file

`mydrv_seq_start` and `mydrv_seq_next` on the circular list behind the proc file. A pointer the
iterator hands out is the address of a `struct list_head`, which is the first member of a node;
that of `mydrv_list_head` itself belongs to no node.

- `listForEachEntry_eq_head`: the empty loop of `mydrv_seq_start` ends at the head.
- `start_eq_iff`, `next_eq`: what the two operations make of a position and of a node.
- `seq_iterator`: for which lists and positions that is what the sequence layer asks for, and which
  lists are shown whole.
-/

namespace Scull.SeqFile

open SeqTraversal

/-- The address of a `struct list_head`: `mydrv_list_head`, or the member `list` of the node with
this number. -/
inductive Link
  | head
  | node (i : ℕ)
  deriving DecidableEq

/-- The member `next` in the circular list of the nodes. -/
def Link.next (nodes : List ProcDebugStruct) : Link → Link
  | head => if 0 < nodes.length then node 0 else head
  | node i => if i + 1 < nodes.length then node (i + 1) else head

/-- Where `list_for_each_entry(p, &mydrv_list_head, list)` with an empty body leaves a `p` that
stands at this link, after at most so many rounds. -/
def listForEachEntry (nodes : List ProcDebugStruct) : ℕ → Link → Link
  | 0, p => p
  | rounds + 1, p => if p = .head then p else listForEachEntry nodes rounds (p.next nodes)

/-- `mydrv_seq_start`. -/
def mydrvSeqStart (nodes : List ProcDebugStruct) (pos : ℕ) : Option Link :=
  -- The loop leaves `p` at the head whatever the position is.
  let p := listForEachEntry nodes (nodes.length + 1) (Link.head.next nodes)
  if pos = 0 then some (p.next nodes) else none

/-- `mydrv_seq_next`: the pointer returned and `*pos`, which is not touched. -/
def mydrvSeqNext (nodes : List ProcDebugStruct) (v : Link) (pos : ℕ) : Option Link × ℕ :=
  let pListHead := v.next nodes
  (if pListHead ≠ .head then some pListHead else none, pos)

/-- `scull_seq_ops`. -/
def scullSeqOps (nodes : List ProcDebugStruct) : SeqOps Link where
  start := mydrvSeqStart nodes
  next := mydrvSeqNext nodes

/-- The nodes in the order of the list. -/
def links (nodes : List ProcDebugStruct) : List Link := (List.range nodes.length).map .node

/-- What the sequence layer asks of the operations: `start` finds the node at a position, and `next`
the one behind a node, and moves the position on. -/
structure Contract (nodes : List ProcDebugStruct) : Prop where
  start : ∀ i, mydrvSeqStart nodes i = (links nodes)[i]?
  next : ∀ i, i < nodes.length → mydrvSeqNext nodes (.node i) i = ((links nodes)[i + 1]?, i + 1)

section Iterator

variable {nodes : List ProcDebugStruct} {advance : ℕ → ℕ → ℕ} {i : ℕ}

theorem length_links (nodes : List ProcDebugStruct) : (links nodes).length = nodes.length := by
  rw [links, List.length_map, List.length_range]

theorem getElem?_links (nodes : List ProcDebugStruct) (i : ℕ) :
    (links nodes)[i]? = if i < nodes.length then some (.node i) else none := by
  rw [links, List.getElem?_map]
  split_ifs with hi
  · rw [List.getElem?_range hi, Option.map_some]
  · rw [List.getElem?_eq_none (by rw [List.length_range]; omega), Option.map_none]

/-- From a node the loop comes to the head. -/
theorem listForEachEntry_node (rounds : ℕ) (hi : nodes.length ≤ i + rounds) :
    listForEachEntry nodes (rounds + 1) (.node i) = .head := by
  -- The rounds left are as many as the nodes behind this one.
  induction rounds generalizing i with
  | zero => rw [listForEachEntry, if_neg nofun, listForEachEntry, Link.next, if_neg (by omega)]
  | succ rounds ih =>
      rw [listForEachEntry, if_neg nofun, Link.next]
      split_ifs
      · exact ih (by omega)
      · rw [listForEachEntry, if_pos rfl]

/-- The loop of `mydrv_seq_start` ends, at the head. -/
theorem listForEachEntry_eq_head (nodes : List ProcDebugStruct) :
    listForEachEntry nodes (nodes.length + 1) (Link.head.next nodes) = .head := by
  rw [Link.next]
  split_ifs
  · exact listForEachEntry_node _ (by omega)
  · rw [listForEachEntry, if_pos rfl]

theorem mydrvSeqStart_eq (nodes : List ProcDebugStruct) (i : ℕ) :
    mydrvSeqStart nodes i = if i = 0 then some (Link.head.next nodes) else none := by
  simp only [mydrvSeqStart, listForEachEntry_eq_head]

/-- `mydrv_seq_start` finds the first node of a list that has one, and nothing at the positions
behind the list. -/
theorem start_eq_iff (nodes : List ProcDebugStruct) (i : ℕ) :
    mydrvSeqStart nodes i = (links nodes)[i]? ↔
      i = 0 ∧ 0 < nodes.length ∨ i ≠ 0 ∧ nodes.length ≤ i := by
  rw [mydrvSeqStart_eq, getElem?_links]
  rcases eq_or_ne i 0 with rfl | hi
  · rw [if_pos rfl, Link.next]
    split_ifs with hlt <;> simp [hlt]
  · rw [if_neg hi]
    split_ifs with hlt
    · simp [hi, hlt]
    · simp [hi, Nat.le_of_not_lt hlt]

/-- `mydrv_seq_next` finds the node behind one, and leaves the position alone. -/
theorem next_eq (nodes : List ProcDebugStruct) (i pos : ℕ) :
    mydrvSeqNext nodes (.node i) pos = ((links nodes)[i + 1]?, pos) := by
  rw [getElem?_links]
  simp only [mydrvSeqNext, Link.next]
  split_ifs <;> simp_all

/-- The operations keep the contract for no list. -/
theorem not_contract (nodes : List ProcDebugStruct) : ¬ Contract nodes := by
  intro h
  by_cases hpos : 0 < nodes.length
  · -- In a list with a node the position stays behind.
    have hnext := congrArg Prod.snd (h.next 0 hpos)
    rw [next_eq] at hnext
    cases hnext
  · -- In an empty list the head is taken for a node.
    rcases (start_eq_iff nodes 0).mp (h.start 0) with ⟨-, hlt⟩ | ⟨hne, -⟩
    · exact hpos hlt
    · exact hne rfl

/-- A list of one node is walked, as the layer moves the position on where `next` does not. -/
theorem walks_of_length_eq_one (hlayer : ∀ pos, advance pos pos = pos + 1)
    (hone : nodes.length = 1) : Walks advance (scullSeqOps nodes) (links nodes) where
  start i := (start_eq_iff nodes i).mpr (by omega)
  next i v hv := by
    rw [getElem?_links] at hv
    split_ifs at hv
    obtain rfl := Option.some.inj hv
    have hnext : (scullSeqOps nodes).next (.node i) i = ((links nodes)[i + 1]?, i) := next_eq ..
    exact ⟨by rw [hnext], by rw [hnext, hlayer]⟩

/-- Sessions with room for one node show the first one, and then find nothing. -/
theorem traversal_of_cut_zero (hlayer : ∀ pos, advance pos pos = pos + 1) {shown : List Link}
    {m : ℕ} (h : traversal advance (scullSeqOps nodes) m (fun _ => 0) 0 = some shown) :
    shown = [Link.head.next nodes] := by
  have hfirst : session advance (scullSeqOps nodes) 0 0 =
      some ([Link.head.next nodes], 1) := by
    show (mydrvSeqStart nodes 0).map _ = _
    rw [mydrvSeqStart_eq, if_pos rfl]
    simp [fill, scullSeqOps, mydrvSeqNext, hlayer]
  -- The layer has moved the position to 1, where nothing is found.
  have hsecond : session advance (scullSeqOps nodes) 0 1 = none := by
    show (mydrvSeqStart nodes 1).map _ = _
    rw [mydrvSeqStart_eq, if_neg Nat.one_ne_zero]
    rfl
  cases m with
  | zero => cases h
  | succ m =>
      rw [traversal, hfirst] at h
      cases m with
      | zero => cases h
      | succ m =>
          simp only [traversal, hsecond, Option.map_some, Option.some.injEq] at h
          exact h.symm

/-- However the sessions are cut, the nodes are shown each once and in order, exactly if there is
one node. -/
theorem traverses_iff (hlayer : ∀ pos, advance pos pos = pos + 1)
    (nodes : List ProcDebugStruct) :
    Traverses advance (scullSeqOps nodes) (links nodes) ↔ nodes.length = 1 := by
  constructor
  · -- The smallest sessions show one node whatever the list is.
    intro h
    obtain ⟨m, hm⟩ := h fun _ => 0
    rw [← length_links, traversal_of_cut_zero hlayer hm, List.length_singleton]
  · exact fun hone => (walks_of_length_eq_one hlayer hone).traverses

end Iterator

/-- For every circular list: the positions at which `mydrv_seq_start` is right; `mydrv_seq_next`
finds the node behind but never moves the position; so the contract of the layer is never kept, and
a list is shown whole by sessions of every size exactly if it has one node. `advance` is how the
layer moves the position. -/
theorem seq_iterator {advance : ℕ → ℕ → ℕ} (hlayer : ∀ pos, advance pos pos = pos + 1)
    (nodes : List ProcDebugStruct) :
    ¬ Contract nodes ∧
      (∀ i, mydrvSeqStart nodes i = (links nodes)[i]? ↔
        i = 0 ∧ 0 < nodes.length ∨ i ≠ 0 ∧ nodes.length ≤ i) ∧
      (∀ i, (mydrvSeqNext nodes (.node i) i).1 = (links nodes)[i + 1]? ∧
        (mydrvSeqNext nodes (.node i) i).2 ≠ i + 1) ∧
      (Traverses advance (scullSeqOps nodes) (links nodes) ↔ nodes.length = 1) := by
  refine ⟨not_contract nodes, start_eq_iff nodes, fun i => ?_, traverses_iff hlayer nodes⟩
  rw [next_eq]
  exact ⟨rfl, Nat.ne_of_lt (Nat.lt_succ_self i)⟩

/-- On the one node of the module `mydrv_seq_next` leaves the position at 0. -/
theorem not_seq_iterator : ¬ Contract setupCharModule.mydrvList := by
  intro h
  have hnext := h.next 0 (by decide)
  exact absurd hnext (by decide +kernel)

/-- The list of the module and the sequence layer, which moves the position on by one where `next`
has left it. -/
theorem seq_iterator_one :
    (Traverses (fun pos pos' => if pos = pos' then pos + 1 else pos')
      (scullSeqOps setupCharModule.mydrvList) [.node 0]) ∧
      mydrvSeqStart setupCharModule.mydrvList 0 = some (.node 0) := by
  have h := @seq_iterator (fun pos pos' => if pos = pos' then pos + 1 else pos')
    (fun pos => if_pos rfl) setupCharModule.mydrvList
  exact ⟨h.2.2.2.mpr rfl, (h.2.1 0).mpr (.inl ⟨rfl, Nat.one_pos⟩)⟩

end Scull.SeqFile
