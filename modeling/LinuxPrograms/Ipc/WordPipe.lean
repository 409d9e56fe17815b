import LinuxPrograms.Lib.FrameRelay
import LinuxPrograms.Lib.Scanf

/-!
# Words over a pipe

`parent_child_pipe.c`: the parent writes each word it is given to a pipe, as the 20 bytes of its
array, and leaves behind the word "end"; the child prints the string of each 20 bytes it reads until
that is "end". At the end of the input the parent writes the last word again and again, and at the
end of the file the child prints the last string again and again.

Words have fewer than 20 characters: a longer one runs over the end of the array.

- `parent`, `child`: the two loops, on a pipe of some capacity.
- `step_iff`: they are a relay of the arrays the parent writes.
- `prints_typed`: what the child has printed, in every run.
- `stops_iff_end`: both stop exactly if "end" is among the words, and then every word up to it has
  been printed once.
-/

namespace WordPipe

open CString LabelledSystem Scanf Relay

/-- Parent and child: the words still to be typed and `write_buf`, whether the parent has exited,
the bytes in the pipe, `read_buf`, what it was each time it was printed, and whether the child has
exited. -/
abbrev State := FifoState (Typing 20) (CBuffer 20) UInt8

/-- After `fork`. -/
def init (words : List (Word 20)) : State where
  sender := { words, buf := .zero 20 }
  left := false
  fifo := []
  buf := .zero 20
  acted := []
  ended := false

/-- The strings the child has printed. -/
def printed (s : State) : List (List UInt8) := s.acted.map CBuffer.str

/-- `0 == strcmp("end", buf)`. -/
def isEnd (buf : CBuffer 20) : Bool := buf.str = text "end"

/-- How a `write` returns. -/
inductive Write
  | ok
  | fail
  deriving DecidableEq

/-- A round of the parent's loop. It waits while the pipe has no room, and a failed write ends it
just as the word "end" does; its memory is then gone. -/
def parent (capacity : ℕ) (s : State) (ret : Write) : Option (State × Label (CBuffer 20)) :=
  let sender := s.sender.scan
  let writeBuf := sender.buf
  if s.left then none
  else if ret = .fail then some ({ s with left := true }, .leave)
  -- `SIGPIPE` ends the parent when nobody can read any more.
  else if s.ended then some ({ s with left := true }, .brokenPipe)
  else if s.fifo.length + 20 ≤ capacity then
    some ({ s with sender, fifo := s.fifo ++ writeBuf.bytes, left := isEnd writeBuf },
      .send writeBuf)
  else none

/-- A round of the child's loop. It waits while the pipe is empty and the parent there; the return
value of the read is not looked at. -/
def child (s : State) : Option (State × Label (CBuffer 20)) :=
  if s.ended then none
  else if s.fifo = [] then
    if s.left then
      -- The read returns 0 and leaves the array as it is.
      some ({ s with acted := s.acted ++ [s.buf], ended := isEnd s.buf }, .again s.buf)
    else none
  else
    let readBuf := s.buf.store (s.fifo.take 20)
    some ({ s with
      fifo := s.fifo.drop 20
      buf := readBuf
      acted := s.acted ++ [readBuf]
      ended := isEnd readBuf }, .take readBuf)

/-- Who goes through its loop. -/
inductive Act
  | parent (ret : Write)
  | child

/-- One step. -/
def step (capacity : ℕ) (s : State) : Act → Option (State × Label (CBuffer 20))
  | .parent ret => parent capacity s ret
  | .child => child s

/-- With these words typed, the labels `tr` lead to `s`. -/
abbrev Reaches (capacity : ℕ) (words : List (Word 20)) (tr : List (Label (CBuffer 20)))
    (s : State) : Prop :=
  Run (StepOf (step capacity)) (init words) tr s

/-- The arrays the parent writes, each a frame, with the word "end" for both. -/
def pipe (capacity : ℕ) (hcap : 20 ≤ capacity) (words : List (Word 20)) :
    FifoSpec (Typing 20) (CBuffer 20) UInt8 where
  encode := CBuffer.bytes
  size := 20
  size_pos := by decide
  length_encode := CBuffer.length_eq
  load := CBuffer.store
  load_encode b m := CBuffer.store_of_length_eq b m.length_eq
  next t := (t.scan, t.scan.buf)
  quits := isEnd
  ends := isEnd
  quits_ends _ h := h
  start := { words, buf := .zero 20 }
  blank := .zero 20
  ends_blank := by decide
  capacity := capacity
  size_le := hcap

section Results

variable {capacity : ℕ} {hcap : 20 ≤ capacity} {words : List (Word 20)} {s s' : State}
  {l : Label (CBuffer 20)} {tr : List (Label (CBuffer 20))}

/-- The two loops are sender and receiver on the pipe. -/
theorem step_iff : StepOf (step capacity) s l s' ↔ (pipe capacity hcap words).Step s l s' := by
  constructor
  · rintro ⟨a, ha⟩
    cases a with
    | parent ret =>
        simp only [step, parent] at ha
        split_ifs at ha with hleft hret hended hroom
        all_goals
          rw [Bool.not_eq_true] at hleft
          obtain ⟨rfl, rfl⟩ := Prod.mk.inj (Option.some.inj ha)
        · exact .leave hleft
        · exact .brokenPipe hleft hended
        · rw [Bool.not_eq_true] at hended
          exact .send hleft hended hroom
    | child =>
        simp only [step, child] at ha
        split_ifs at ha with hended hempty hleft
        all_goals
          rw [Bool.not_eq_true] at hended
          obtain ⟨rfl, rfl⟩ := Prod.mk.inj (Option.some.inj ha)
        · exact .again hended hleft hempty
        · exact .take _ rfl hended hempty
  · intro h
    cases h with
    | send hleft hended hroom =>
        have hroom' : s.fifo.length + 20 ≤ capacity := hroom
        exact ⟨.parent .ok, by simp [step, parent, pipe, hleft, hended, hroom']⟩
    | leave hleft => exact ⟨.parent .fail, by simp [step, parent, hleft]⟩
    | brokenPipe hleft hended => exact ⟨.parent .ok, by simp [step, parent, hleft, hended]⟩
    | take m hm hended hne =>
        subst hm
        exact ⟨.child, by simp [step, child, pipe, hended, hne]⟩
    | again hended hleft hempty =>
        exact ⟨.child, by simp [step, child, pipe, hended, hleft, hempty]⟩

/-- A run is one of sender and receiver on the pipe. -/
theorem reaches_pipe_iff (hcap : 20 ≤ capacity) :
    Reaches capacity words tr s ↔
      Run (pipe capacity hcap words).Step (pipe capacity hcap words).init tr s := by
  have heq : StepOf (step capacity) = (pipe capacity hcap words).Step := by
    ext s l s'
    exact step_iff
  rw [Reaches, heq]
  rfl

/-- The array the parent writes in the round `k` holds the last word typed. -/
theorem str_src (k : ℕ) :
    ((pipe capacity hcap words).relay.src k).str = typedAfter [] words (k + 1) := by
  have hafter : ∀ k, (pipe capacity hcap words).senderAfter k =
      Typing.scan^[k] { words, buf := .zero 20 } := by
    intro k
    induction k with
    | zero => rfl
    | succ k ih => rw [Function.iterate_succ_apply', ← ih]; rfl
  have hsrc : (pipe capacity hcap words).relay.src k =
      (Typing.scan^[k + 1] { words, buf := .zero 20 }).buf := by
    rw [Function.iterate_succ_apply', ← hafter]
    rfl
  rw [hsrc, str_scans]
  rfl

/-- What the child holds after `k` reads is the last word typed by then. -/
theorem str_heldAfter (k : ℕ) :
    ((pipe capacity hcap words).relay.heldAfter k).str = typedAfter [] words k := by
  cases k with
  | zero => rfl
  | succ k => exact str_src k

theorem isEnd_heldAfter (k : ℕ) :
    isEnd ((pipe capacity hcap words).relay.heldAfter k) = true ↔
      typedAfter [] words k = text "end" := by
  rw [isEnd, decide_eq_true_iff, str_heldAfter]

/-- The strings of the arrays written are what was typed. -/
theorem map_str_firsts (n : ℕ) :
    ((pipe capacity hcap words).relay.firsts n).map CBuffer.str =
      (List.range n).map fun i => typedAfter [] words (i + 1) := by
  rw [Spec.firsts, List.map_map]
  exact List.map_congr_left fun i _ => str_src i

/-- In every run the child has printed what was typed, each word once and in the order typed (the
last word again and again where the input is at its end), up to the first "end", which ends it; or,
once the parent is gone and all it has written is read, if "end" was not written, the last of these
strings again and again. -/
theorem prints_typed (hcap : 20 ≤ capacity) (h : Reaches capacity words tr s) :
    ∃ n k, printed s = (List.range n).map (fun i => typedAfter [] words (i + 1)) ++
        List.replicate k (typedAfter [] words n) ∧
      (0 < k → s.left = true ∧ s.fifo = [] ∧ s.ended = false ∧
        ∀ buf, .send buf ∈ tr → buf.str ≠ text "end") ∧
      (s.ended = true ↔ typedAfter [] words n = text "end") ∧
      ∀ i < n, typedAfter [] words i ≠ text "end" := by
  rw [reaches_pipe_iff hcap] at h
  obtain ⟨n, k, hacted, hagain, hended, hbefore⟩ := FifoSpec.acted_eq h
  refine ⟨n, k, ?_, fun hk => ?_, ?_, fun i hi hend => ?_⟩
  · rw [printed, hacted, List.map_append, List.map_replicate, map_str_firsts, str_heldAfter]
  · obtain ⟨hleft, hempty, hgoes, hsent⟩ := hagain hk
    exact ⟨hleft, hempty, hgoes, fun buf hbuf => of_decide_eq_false (hsent buf hbuf)⟩
  · rw [hended]
    exact isEnd_heldAfter n
  · have hnot : isEnd ((pipe capacity hcap words).relay.heldAfter i) = false := hbefore i hi
    rw [(isEnd_heldAfter i).mpr hend] at hnot
    cases hnot

/-- As long as no write fails, both processes stop, in every order of their steps, exactly if "end"
is among the words; and where they have, the child has printed every word up to the first "end"
once. -/
theorem stops_iff_end (hcap : 20 ≤ capacity) (words : List (Word 20)) :
    ((∃ N, ∀ tr s, Reaches capacity words tr s → (∀ l ∈ tr, l ≠ .leave) → tr.length ≤ N) ↔
      ∃ word ∈ words, word.bytes = text "end") ∧
    ∀ tr s, Reaches capacity words tr s → (∀ l ∈ tr, l ≠ .leave) →
      (∀ l s', StepOf (step capacity) s l s' → l = .leave) →
      s.left = true ∧ s.ended = true ∧
        printed s = (words.take (words.findIdx (fun word => word.bytes = text "end") + 1)).map
          Word.bytes := by
  have hne : words ≠ [] ∨ ([] : List UInt8) ≠ text "end" := .inr (by decide)
  constructor
  · rw [← exists_typedAfter_iff hne]
    simp only [reaches_pipe_iff hcap]
    rw [(pipe capacity hcap words).realizes.stops_iff]
    exact exists_congr fun k => isEnd_heldAfter (k + 1)
  · intro tr s h hno hstuck
    rw [reaches_pipe_iff hcap] at h
    obtain ⟨hleft, hended, k, hk, hfirst, hacted⟩ := FifoSpec.acted_of_stuck h hno
      fun l s' hstep => hstuck l s' (step_iff.mpr hstep)
    refine ⟨hleft, hended, ?_⟩
    rw [printed, hacted, map_str_firsts]
    refine map_typedAfter_findIdx hne ((isEnd_heldAfter (k + 1)).mp hk) fun i hi hend => ?_
    have hnot : isEnd ((pipe capacity hcap words).relay.heldAfter (i + 1)) = false := hfirst i hi
    rw [(isEnd_heldAfter (i + 1)).mpr hend] at hnot
    cases hnot

/-- Two words before "end", the second shorter than the first. -/
def threeWords : List (Word 20) :=
  [⟨text "hello", by decide, by decide⟩, ⟨text "hi", by decide, by decide⟩,
    ⟨text "end", by decide, by decide⟩]

/-- Of the longer word nothing is left behind the shorter one. -/
theorem prints_typed_two :
    ∃ tr s, Reaches 65536 threeWords tr s ∧ printed s = [text "hello", text "hi"] ∧
      ∃ n k, printed s = (List.range n).map (fun i => typedAfter [] threeWords (i + 1)) ++
        List.replicate k (typedAfter [] threeWords n) := by
  have hrun := run_play (step 65536) (init threeWords)
    [.parent .ok, .parent .ok, .child, .child]
  obtain ⟨n, k, hprinted, -⟩ := prints_typed (by decide) hrun
  exact ⟨_, _, hrun, by decide, n, k, hprinted⟩

/-- With "end" typed the two stop. -/
theorem stops_iff_end_three :
    ∃ N, ∀ tr s, Reaches 65536 threeWords tr s → (∀ l ∈ tr, l ≠ .leave) → tr.length ≤ N :=
  (stops_iff_end (by decide) threeWords).1.mpr
    ⟨_, List.mem_cons_of_mem _ (List.mem_cons_of_mem _ List.mem_cons_self), rfl⟩

end Results

end WordPipe
