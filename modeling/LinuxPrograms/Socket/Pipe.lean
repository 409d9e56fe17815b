import LinuxPrograms.Lib.LabelledSystem
import LinuxPrograms.Lib.Merge
import LinuxPrograms.Socket.ReadThread
import Mathlib.Data.Fin.VecNotation

/-!
# Multi-client server: the pipe

All readers write to one pipe, and `server_action_thread` reads from it. A write of one payload is
not mixed with others, and a read takes what the pipe holds up to the size of a payload; reads and
writes follow one another in any order.

- `step`, `Reaches`: the readers, each with the payloads it passes to `send_message`, and
  `server_action_thread`.
- `processed_merge`: what is processed is the beginning of a merge of those payloads.
- `processed_of_client`: those of one client come in their order.
-/

namespace SocketServer.Pipe

open CString FrameStream LabelledSystem Merge

variable {n : ℕ}

/-- The payloads each reader has yet to pass to `send_message`, the bytes in the pipe, and `buff` of
`server_action_thread`. -/
structure State (n : ℕ) where
  todo : Fin n → List PipePayload
  pipe : List UInt8
  buff : CBuffer 28

/-- What a step does. -/
inductive Label (n : ℕ)
  | sent (reader : Fin n) (p : PipePayload)
  | processed (p : PipePayload)

/-- `send_message` of a reader, or a round of `server_action_thread`. -/
inductive Act (n : ℕ)
  | send (reader : Fin n)
  | process

/-- One step. A read of the empty pipe waits. -/
def step (s : State n) : Act n → Option (State n × Label n)
  | .send reader =>
      match s.todo reader with
      | [] => none
      | p :: rest =>
          some ({ s with
            todo := Function.update s.todo reader rest
            pipe := s.pipe ++ p.encode }, .sent reader p)
  | .process =>
      if s.pipe = [] then none
      else
        let buff := s.buff.store (s.pipe.take 28)
        some ({ s with pipe := s.pipe.drop 28, buff }, .processed (.decode buff))

/-- From the empty pipe, with the payloads `seqs` to send, the labels `tr` lead to `s`. -/
abbrev Reaches (seqs : Fin n → List PipePayload) (buff : CBuffer 28) (tr : List (Label n))
    (s : State n) : Prop :=
  Run (StepOf step) ⟨seqs, [], buff⟩ tr s

/-- The payload this reader sends. -/
def Label.sentBy (reader : Fin n) : Label n → Option PipePayload
  | sent i p => if i = reader then some p else none
  | processed _ => none

/-- What this reader has sent so far. -/
def sentBy (tr : List (Label n)) (reader : Fin n) : List PipePayload :=
  tr.filterMap (Label.sentBy reader)

/-- The payload `server_action_thread` prints. -/
def Label.printed : Label n → Option PipePayload
  | sent _ _ => none
  | processed p => some p

/-- What `server_action_thread` has printed so far. -/
def processed (tr : List (Label n)) : List PipePayload := tr.filterMap Label.printed

section Runs

variable {seqs : Fin n → List PipePayload} {buff : CBuffer 28} {tr : List (Label n)} {s t : State n}
  {l : Label n}

/-- The pipe holds whole payloads, and they follow what was processed in a merge of what was
sent. -/
structure Aligned (seqs : Fin n → List PipePayload) (tr : List (Label n)) (s : State n)
    (pending : List PipePayload) : Prop where
  pipe : s.pipe = stream PipePayload.encode pending
  merge : IsMerge (sentBy tr) (processed tr ++ pending)
  todo : ∀ i, sentBy tr i ++ s.todo i = seqs i

/-- A payload that is sent goes behind the pending ones. -/
theorem Aligned.send {pending rest : List PipePayload} {p : PipePayload} {reader : Fin n}
    (h : Aligned seqs tr s pending) (htodo : s.todo reader = p :: rest) :
    Aligned seqs (tr ++ [.sent reader p])
      { s with todo := Function.update s.todo reader rest, pipe := s.pipe ++ p.encode }
      (pending ++ [p]) := by
  have hreader : sentBy (tr ++ [.sent reader p]) reader = sentBy tr reader ++ [p] := by
    rw [sentBy, filterMap_snoc, Label.sentBy, if_pos rfl]
    rfl
  have hother : ∀ i, i ≠ reader → sentBy (tr ++ [.sent reader p]) i = sentBy tr i := by
    intro i hi
    rw [sentBy, filterMap_snoc, Label.sentBy, if_neg hi.symm]
    exact List.append_nil _
  have hprocessed : processed (tr ++ [.sent reader p]) = processed tr := by
    rw [processed, filterMap_snoc]
    exact List.append_nil _
  refine ⟨?_, ?_, fun i => ?_⟩
  · rw [stream_append_singleton, ← h.pipe]
  · rw [hprocessed, ← List.append_assoc]
    exact h.merge.snoc hreader hother
  · show sentBy (tr ++ [.sent reader p]) i ++ Function.update s.todo reader rest i = seqs i
    rcases eq_or_ne i reader with rfl | hi
    · rw [hreader, Function.update_self, ← h.todo i, htodo, List.append_assoc,
        List.singleton_append]
    · rw [hother i hi, Function.update_of_ne hi, h.todo i]

/-- A read takes the first of the pending payloads. -/
theorem Aligned.process {pending : List PipePayload} {p : PipePayload}
    (h : Aligned seqs tr s (p :: pending)) :
    (s.buff.store (s.pipe.take 28)) = ⟨p.encode, p.length_encode⟩ ∧
      Aligned seqs (tr ++ [.processed p])
        { s with pipe := s.pipe.drop 28, buff := s.buff.store (s.pipe.take 28) } pending := by
  have hsent : sentBy (tr ++ [.processed p]) = sentBy tr := by
    funext i
    rw [sentBy, filterMap_snoc]
    exact List.append_nil _
  have hprocessed : processed (tr ++ [.processed p]) = processed tr ++ [p] := by
    rw [processed, filterMap_snoc]
    rfl
  refine ⟨?_, ?_, ?_, ?_⟩
  · rw [h.pipe, take_stream_cons PipePayload.length_encode,
      CBuffer.store_of_length_eq _ p.length_encode]
  · show s.pipe.drop 28 = _
    rw [h.pipe, drop_stream_cons PipePayload.length_encode]
  · rw [hsent, hprocessed, List.append_assoc, List.singleton_append]
    exact h.merge
  · rw [hsent]
    exact h.todo

/-- The pipe holds whole payloads after every run. -/
theorem aligned_of_reaches (h : Reaches seqs buff tr s) : ∃ pending, Aligned seqs tr s pending := by
  refine h.history (P := fun tr s => ∃ pending, Aligned seqs tr s pending) ?_ ?_
  · exact ⟨[], rfl, .nil, fun _ => rfl⟩
  · rintro tr t l u - ⟨pending, ht⟩ ⟨a, hstep⟩
    cases a with
    | send reader =>
        rw [step] at hstep
        split at hstep
        · cases hstep
        next p rest htodo =>
          obtain ⟨rfl, rfl⟩ := Prod.mk.inj (Option.some.inj hstep)
          exact ⟨_, ht.send htodo⟩
    | process =>
        rw [step] at hstep
        split_ifs at hstep with hempty
        obtain ⟨rfl, rfl⟩ := Prod.mk.inj (Option.some.inj hstep)
        cases pending with
        | nil => exact absurd ht.pipe hempty
        | cons p pending =>
            obtain ⟨hbuff, hnext⟩ := ht.process
            rw [hbuff] at hnext ⊢
            rw [PipePayload.decode_encode]
            exact ⟨pending, hnext⟩

/-- With what is still to be sent, in some order, it is a merge of all payloads. -/
theorem Aligned.exists_isMerge {pending : List PipePayload} (h : Aligned seqs tr s pending) :
    ∃ l, IsMerge seqs l ∧ processed tr <+: l := by
  obtain ⟨rest, hrest⟩ := Merge.exists_isMerge s.todo
  have hall := h.merge.append hrest
  rw [funext h.todo, List.append_assoc] at hall
  exact ⟨_, hall, List.prefix_append _ _⟩

/-- What was processed is the beginning of a merge of the payloads the readers pass to
`send_message`. What is in the pipe are whole payloads, and with them it is a merge of the payloads
sent so far, which are the first ones of each reader. -/
theorem processed_merge (h : Reaches seqs buff tr s) :
    (∃ l, IsMerge seqs l ∧ processed tr <+: l) ∧
    ∃ pending, s.pipe = stream PipePayload.encode pending ∧
      IsMerge (sentBy tr) (processed tr ++ pending) ∧ ∀ i, sentBy tr i <+: seqs i := by
  obtain ⟨pending, ht⟩ := aligned_of_reaches h
  exact ⟨ht.exists_isMerge, pending, ht.pipe, ht.merge, fun i => ⟨s.todo i, ht.todo i⟩⟩

/-- Two readers: the second sends first, and the payload of the first is still in the pipe. -/
theorem processed_merge_two :
    ∃ (tr : List (Label 2)) (s : State 2) (seqs : Fin 2 → List PipePayload),
      Reaches seqs (.zero 28) tr s ∧ (processed tr).map PipePayload.clientId = [5] ∧
      s.pipe.length = 28 ∧ ∃ l, IsMerge seqs l ∧ processed tr <+: l := by
  let seqs : Fin 2 → List PipePayload := ![[⟨1, 4, .zero 20⟩], [⟨1, 5, .zero 20⟩]]
  have hrun := run_play step ⟨seqs, [], .zero 28⟩ [.send 1, .send 0, .process]
  exact ⟨_, _, seqs, hrun, by decide, by decide, (processed_merge hrun).1⟩

/-- If the payloads are those of `read_thread`s with different descriptors, then the processed ones
with the descriptor of one client are the first ones of that client. -/
theorem processed_of_client {thread : Fin n → ReadThread} {reads : Fin n → List ReadResult}
    (hfd : Function.Injective fun i => (thread i).clSocFd)
    (h : Reaches (fun i => (readThread (thread i) (reads i)).2) buff tr s) (i : Fin n) :
    (processed tr).filter (fun p => p.clientId = (thread i).clSocFd) <+:
      (readThread (thread i) (reads i)).2 := by
  obtain ⟨pending, ht⟩ := aligned_of_reaches h
  obtain ⟨l, hmerge, hpre⟩ := ht.exists_isMerge
  rw [← hmerge.filter_eq hfd (fun j p hp => clientId_of_mem_readThread hp) i]
  exact hpre.filter _

end Runs

end SocketServer.Pipe
