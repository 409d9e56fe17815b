import LinuxPrograms.Lib.LabelledSystem
import Mathlib.Data.Int.Notation
import Mathlib.Data.List.Nodup

/-!
# Multi-client server: one reader for each connection

The accept loop of `main` and the start of its `read_thread`s. The descriptor travels through the
variable `cl_soc_fd` of `main`: `pthread_create` hands on its address, and the new thread copies it
whenever it gets to run.

- `step`, `Reaches`: `main` and the new threads in any order.
- `Served`: every connection whose thread has started is served, by one reader.
- `served_iff`: it is so throughout a run exactly if each thread copies the variable before the next
  `accept`, no thread is created behind a failed one, and there are at most 20 rounds.
-/

namespace SocketServer

open LabelledSystem

/-! ## The loop and the threads -/

/-- Where `main` stands in its loop. Behind a store past the end of `thread_id_arr` it has no
further step. -/
inductive MainPos
  | accept
  | create
  | store
  | overran
  deriving DecidableEq

/-- A `read_thread`: the value of `cl_soc_fd` when it was created, the number of `accept` calls that
went before, and its own `cl_soc_fd`. -/
structure Reader where
  connection : ℤ
  round : ℕ
  clSocFd : Option ℤ
  deriving DecidableEq

/-- The server. -/
structure Server where
  /-- `cl_soc_fd` of `main`. -/
  clSocFd : ℤ
  /-- How many times `accept` has returned. -/
  round : ℕ
  /-- The descriptors of the accepted connections. -/
  accepted : List ℤ
  main : MainPos
  readers : List Reader
  threadIdFlag : ℕ
  deriving DecidableEq

/-- The server before its first `accept`. -/
def Server.init : Server where
  clSocFd := 0
  round := 0
  accepted := []
  main := .accept
  readers := []
  threadIdFlag := 0

/-- What a step does. -/
inductive ServerLabel
  | accepted (fd : ℤ)
  | acceptFailed
  /-- A thread is created while `cl_soc_fd` is `fd`. -/
  | created (fd : ℤ)
  | createFailed
  /-- `thread_id_arr[i]` is set. -/
  | stored (i : ℕ)
  /-- A thread copies `cl_soc_fd`, `late` calls of `accept` after the one before its creation. -/
  | copied (thread late : ℕ)
  deriving DecidableEq

/-- What takes its next step, and what the kernel makes of it. -/
inductive ServerAct
  | accept (fd : Option ℤ)
  | create (ok : Bool)
  | store
  | copy (thread : ℕ)
  deriving DecidableEq

/-- One step. -/
def serverStep (s : Server) : ServerAct → Option (Server × ServerLabel)
  | .accept (some fd) =>
      -- A new connection has a descriptor of its own.
      if s.main = .accept ∧ 0 ≤ fd ∧ fd ∉ s.accepted then
        some ({ s with
          clSocFd := fd, round := s.round + 1, accepted := s.accepted ++ [fd], main := .create },
          .accepted fd)
      else none
  | .accept none =>
      -- The error is printed, and `main` goes on.
      if s.main = .accept then
        some ({ s with clSocFd := -1, round := s.round + 1, main := .create }, .acceptFailed)
      else none
  | .create true =>
      if s.main = .create then
        some ({ s with readers := s.readers ++ [⟨s.clSocFd, s.round, none⟩], main := .store },
          .created s.clSocFd)
      else none
  | .create false =>
      if s.main = .create then some ({ s with main := .store }, .createFailed) else none
  | .store =>
      if s.main = .store then
        if s.threadIdFlag < 20 then
          some ({ s with threadIdFlag := s.threadIdFlag + 1, main := .accept },
            .stored s.threadIdFlag)
        else some ({ s with main := .overran }, .stored s.threadIdFlag)
      else none
  | .copy thread => do
      let r ← s.readers[thread]?
      if r.clSocFd = none then
        some ({ s with readers := s.readers.set thread { r with clSocFd := some s.clSocFd } },
          .copied thread (s.round - r.round))
      else none

/-- The labels `tr` lead from the start to `s`. -/
abbrev ServerReaches (tr : List ServerLabel) (s : Server) : Prop :=
  Run (StepOf serverStep) .init tr s

/-- Each connection has its reader. -/
structure Served (s : Server) : Prop where
  /-- No two readers hold one descriptor. -/
  distinct : ∀ (i j : ℕ) (r r' : Reader) (fd : ℤ),
    s.readers[i]? = some r → s.readers[j]? = some r' →
      r.clSocFd = some fd → r'.clSocFd = some fd → i = j
  /-- The connection whose thread has started is served. -/
  served : ∀ r ∈ s.readers, r.clSocFd ≠ none → ∃ r' ∈ s.readers, r'.clSocFd = some r.connection
  /-- No reader is started behind a failed `accept`. -/
  connected : ∀ r ∈ s.readers, r.connection ≠ -1
  /-- Every thread identifier is stored in `thread_id_arr`. -/
  inArray : s.main ≠ .overran

/-- The step is in time: a thread copies before the next `accept` returns, it is created behind an
`accept` that succeeded, and its identifier has a place in the array. -/
def ServerLabel.InTime : ServerLabel → Prop
  | created fd => fd ≠ -1
  | stored i => i < 20
  | copied _ late => late = 0
  | _ => True

instance : DecidablePred ServerLabel.InTime := fun l =>
  match l with
  | .created fd => inferInstanceAs (Decidable (fd ≠ -1))
  | .stored i => inferInstanceAs (Decidable (i < 20))
  | .copied _ late => inferInstanceAs (Decidable (late = 0))
  | .accepted _ => isTrue trivial
  | .acceptFailed => isTrue trivial
  | .createFailed => isTrue trivial

/-! ## What a step can do -/

/-- The steps, with what each needs. -/
inductive ServerMove (s : Server) : ServerLabel → Server → Prop
  | accepted {fd : ℤ} (hmain : s.main = .accept) (hpos : 0 ≤ fd) (hfresh : fd ∉ s.accepted) :
      ServerMove s (.accepted fd) { s with
        clSocFd := fd, round := s.round + 1, accepted := s.accepted ++ [fd], main := .create }
  | acceptFailed (hmain : s.main = .accept) :
      ServerMove s .acceptFailed { s with clSocFd := -1, round := s.round + 1, main := .create }
  | created (hmain : s.main = .create) :
      ServerMove s (.created s.clSocFd)
        { s with readers := s.readers ++ [⟨s.clSocFd, s.round, none⟩], main := .store }
  | createFailed (hmain : s.main = .create) : ServerMove s .createFailed { s with main := .store }
  | stored (hmain : s.main = .store) (hroom : s.threadIdFlag < 20) :
      ServerMove s (.stored s.threadIdFlag)
        { s with threadIdFlag := s.threadIdFlag + 1, main := .accept }
  | overran (hmain : s.main = .store) (hroom : ¬ s.threadIdFlag < 20) :
      ServerMove s (.stored s.threadIdFlag) { s with main := .overran }
  | copied {thread : ℕ} {r : Reader} (hr : s.readers[thread]? = some r) (hnew : r.clSocFd = none) :
      ServerMove s (.copied thread (s.round - r.round))
        { s with readers := s.readers.set thread { r with clSocFd := some s.clSocFd } }

/-- Every step is one of these. -/
theorem serverMove_of_step {s t : Server} {l : ServerLabel} (h : StepOf serverStep s l t) :
    ServerMove s l t := by
  obtain ⟨a, h⟩ := h
  cases a with
  | accept fd =>
      cases fd with
      | none =>
          rw [serverStep] at h
          split_ifs at h with hmain
          obtain ⟨rfl, rfl⟩ := Prod.mk.inj (Option.some.inj h)
          exact .acceptFailed hmain
      | some fd =>
          rw [serverStep] at h
          split_ifs at h with hcond
          obtain ⟨hmain, hpos, hfresh⟩ := hcond
          obtain ⟨rfl, rfl⟩ := Prod.mk.inj (Option.some.inj h)
          exact .accepted hmain hpos hfresh
  | create ok =>
      cases ok with
      | false =>
          rw [serverStep] at h
          split_ifs at h with hmain
          obtain ⟨rfl, rfl⟩ := Prod.mk.inj (Option.some.inj h)
          exact .createFailed hmain
      | true =>
          rw [serverStep] at h
          split_ifs at h with hmain
          obtain ⟨rfl, rfl⟩ := Prod.mk.inj (Option.some.inj h)
          exact .created hmain
  | store =>
      rw [serverStep] at h
      split_ifs at h with hmain hroom
      · obtain ⟨rfl, rfl⟩ := Prod.mk.inj (Option.some.inj h)
        exact .stored hmain hroom
      · obtain ⟨rfl, rfl⟩ := Prod.mk.inj (Option.some.inj h)
        exact .overran hmain hroom
  | copy thread =>
      obtain ⟨r, hr, h⟩ := Option.bind_eq_some_iff.mp h
      split_ifs at h with hnew
      obtain ⟨rfl, rfl⟩ := Prod.mk.inj (Option.some.inj h)
      exact .copied hr hnew

/-! ## Readers and connections -/

/-- As long as every step was in time: the readers are created for different connections, and those
that have copied the descriptor hold the one of their own connection. -/
structure Linked (s : Server) : Prop where
  /-- What a reader holds is its own connection. -/
  own : ∀ r ∈ s.readers, ∀ fd, r.clSocFd = some fd → fd = r.connection
  distinct : (s.readers.map Reader.connection).Nodup
  connected : ∀ r ∈ s.readers, r.connection ≠ -1
  known : ∀ r ∈ s.readers, r.connection ∈ s.accepted
  /-- The variable holds the connection of the last round and no earlier one. -/
  current : ∀ r ∈ s.readers, r.round ≤ s.round ∧ (r.connection = s.clSocFd ↔ r.round = s.round)
  /-- Behind `accept` there is no reader of the round yet. -/
  ahead : s.main = .accept ∨ s.main = .store ∨
    s.main = .create ∧ (s.clSocFd = -1 ∨ s.clSocFd ∈ s.accepted) ∧
      ∀ r ∈ s.readers, r.round ≠ s.round

namespace Linked

variable {s t : Server} {l : ServerLabel}

/-- Such readers serve their connections. -/
theorem served (hs : Linked s) : Served s where
  distinct := by
    intro i j r r' fd hr hr' hfd hfd'
    have hconn := (hs.own r (List.mem_of_getElem? hr) fd hfd).symm.trans
      (hs.own r' (List.mem_of_getElem? hr') fd hfd')
    have hi : (s.readers.map Reader.connection)[i]? = some r.connection := by
      rw [List.getElem?_map, hr, Option.map_some]
    have hj : (s.readers.map Reader.connection)[j]? = some r.connection := by
      rw [List.getElem?_map, hr', Option.map_some, hconn]
    obtain ⟨hlt, -⟩ := List.getElem?_eq_some_iff.mp hi
    exact (List.getElem?_inj hlt hs.distinct).mp (hi.trans hj.symm)
  served := by
    intro r hr hcopied
    obtain ⟨fd, hfd⟩ := Option.ne_none_iff_exists'.mp hcopied
    exact ⟨r, hr, by rw [hfd, hs.own r hr fd hfd]⟩
  connected := hs.connected
  inArray := by
    rcases hs.ahead with h | h | ⟨h, -⟩ <;> rw [h] <;> decide

/-- Copying leaves the connections as they are. -/
theorem map_connection_set {readers : List Reader} {thread : ℕ} {r : Reader} {fd : ℤ}
    (hr : readers[thread]? = some r) :
    (readers.set thread { r with clSocFd := some fd }).map Reader.connection =
      readers.map Reader.connection := by
  obtain ⟨hlt, rfl⟩ := List.getElem?_eq_some_iff.mp hr
  have hlt' : thread < (readers.map Reader.connection).length := by rwa [List.length_map]
  have hsame : (readers.map Reader.connection)[thread] = readers[thread].connection :=
    List.getElem_map _
  rw [List.map_set, ← hsame, List.set_getElem_self]

/-- No reader is of the round that begins. -/
theorem round_ne_succ (hs : Linked s) : ∀ r ∈ s.readers, r.round ≠ s.round + 1 := by
  intro r hr
  have hle := (hs.current r hr).1
  omega

/-- A step in time keeps the readers linked. -/
theorem step (hs : Linked s) (h : ServerMove s l t) (hl : l.InTime) : Linked t := by
  cases h with
  | @accepted fd hmain hpos hfresh =>
      have hround := hs.round_ne_succ
      refine ⟨hs.own, hs.distinct, hs.connected, ?_, ?_, ?_⟩
      · exact fun r hr => List.mem_append_left _ (hs.known r hr)
      · intro r hr
        refine ⟨Nat.le_succ_of_le (hs.current r hr).1, iff_of_false ?_ (hround r hr)⟩
        rintro rfl
        exact hfresh (hs.known r hr)
      · exact .inr (.inr ⟨rfl, .inr (List.mem_append_right _ (List.mem_singleton_self fd)), hround⟩)
  | acceptFailed hmain =>
      have hround := hs.round_ne_succ
      refine ⟨hs.own, hs.distinct, hs.connected, hs.known, ?_, ?_⟩
      · intro r hr
        exact ⟨Nat.le_succ_of_le (hs.current r hr).1,
          iff_of_false (hs.connected r hr) (hround r hr)⟩
      · exact .inr (.inr ⟨rfl, .inl rfl, hround⟩)
  | created hmain =>
      obtain ⟨hfd, hround⟩ : (s.clSocFd = -1 ∨ s.clSocFd ∈ s.accepted) ∧
          ∀ r ∈ s.readers, r.round ≠ s.round := by
        rcases hs.ahead with h | h | ⟨-, h⟩
        · rw [hmain] at h
          cases h
        · rw [hmain] at h
          cases h
        · exact h
      have hnew : s.clSocFd ∉ s.readers.map Reader.connection := by
        intro hmem
        obtain ⟨r, hr, hconn⟩ := List.mem_map.mp hmem
        exact hround r hr ((hs.current r hr).2.mp hconn)
      refine ⟨?_, ?_, ?_, ?_, ?_, .inr (.inl rfl)⟩
      · rw [List.forall_mem_append, List.forall_mem_singleton]
        exact ⟨hs.own, nofun⟩
      · rw [List.map_append, List.map_singleton, ← List.concat_eq_append]
        exact hs.distinct.concat hnew
      · rw [List.forall_mem_append, List.forall_mem_singleton]
        exact ⟨hs.connected, hl⟩
      · rw [List.forall_mem_append, List.forall_mem_singleton]
        exact ⟨hs.known, hfd.resolve_left hl⟩
      · rw [List.forall_mem_append, List.forall_mem_singleton]
        exact ⟨hs.current, Nat.le_refl _, iff_of_true rfl rfl⟩
  | createFailed hmain =>
      exact ⟨hs.own, hs.distinct, hs.connected, hs.known, hs.current, .inr (.inl rfl)⟩
  | stored hmain hroom =>
      exact ⟨hs.own, hs.distinct, hs.connected, hs.known, hs.current, .inl rfl⟩
  | overran hmain hroom => exact absurd hl hroom
  | @copied thread r hr hnew =>
      have hmem := List.mem_of_getElem? hr
      obtain ⟨hle, hiff⟩ := hs.current r hmem
      have hlate : s.round - r.round = 0 := hl
      have hown : r.connection = s.clSocFd := hiff.mpr (by omega)
      -- The reader that has copied differs from the old one in its own variable only.
      have hset : ∀ {P : Reader → Prop}, (∀ r ∈ s.readers, P r) →
          P { r with clSocFd := some s.clSocFd } →
          ∀ r' ∈ s.readers.set thread { r with clSocFd := some s.clSocFd }, P r' := by
        intro P hold hnew r' hr'
        rcases List.mem_or_eq_of_mem_set hr' with hr' | rfl
        · exact hold r' hr'
        · exact hnew
      refine ⟨?_, ?_, ?_, ?_, ?_, ?_⟩
      · refine hset hs.own ?_
        rintro fd hfd
        exact (Option.some.inj hfd).symm.trans hown.symm
      · rw [map_connection_set hr]
        exact hs.distinct
      · exact hset hs.connected (hs.connected r hmem)
      · exact hset hs.known (hs.known r hmem)
      · exact hset hs.current (hs.current r hmem)
      · refine hs.ahead.imp_right (Or.imp_right ?_)
        rintro ⟨hmain, hfd, hround⟩
        exact ⟨hmain, hfd, hset hround (hround r hmem)⟩

/-- A step not in time leaves a connection unserved. -/
theorem inTime_of_served (hs : Linked s) (h : ServerMove s l t) (ht : Served t) : l.InTime := by
  cases h with
  | created hmain => exact ht.connected _ (List.mem_append_right _ (List.mem_singleton_self _))
  | stored hmain hroom => exact hroom
  | overran hmain hroom => exact absurd rfl ht.inArray
  | @copied thread r hr hnew =>
      obtain ⟨hlt, hget⟩ := List.getElem?_eq_some_iff.mp hr
      have hmem := List.mem_of_getElem? hr
      obtain ⟨hle, hiff⟩ := hs.current r hmem
      obtain ⟨r', hr', hfd⟩ := ht.served { r with clSocFd := some s.clSocFd }
        (List.mem_set hlt _) (by simp)
      have hsame : r.connection = s.clSocFd := by
        rcases List.mem_or_eq_of_mem_set hr' with hr' | rfl
        · -- A reader that holds the connection of this one is this one, and it has not copied.
          have hconn := hs.own r' hr' _ hfd
          obtain rfl : r' = r := (List.inj_on_of_nodup_map hs.distinct hmem hr' hconn).symm
          rw [hnew] at hfd
          cases hfd
        · exact (Option.some.inj hfd).symm
      show s.round - r.round = 0
      rw [hiff.mp hsame, Nat.sub_self]
  | accepted => trivial
  | acceptFailed => trivial
  | createFailed => trivial

end Linked

/-- In a run whose steps are in time, the readers are linked to their connections. -/
theorem linked_of_inTime {tr : List ServerLabel} {s : Server} (h : ServerReaches tr s)
    (hl : ∀ l ∈ tr, l.InTime) : Linked s := by
  refine h.invariant (P := Linked) hl ?_ fun t l u ht hstep hl =>
    ht.step (serverMove_of_step hstep) hl
  constructor <;> simp [Server.init]

/-- Throughout a run every connection whose thread has started is served, by one reader, if and only
if each thread copies the descriptor before the next `accept`, none is created behind a failed one,
and at most 20 identifiers are stored. -/
theorem served_iff {tr : List ServerLabel} {s : Server} (h : ServerReaches tr s) :
    (∀ t, Passes (StepOf serverStep) .init tr s t → Served t) ↔ ∀ l ∈ tr, l.InTime := by
  constructor
  · refine h.history (P := fun tr s =>
      (∀ t, Passes (StepOf serverStep) .init tr s t → Served t) → ∀ l ∈ tr, l.InTime) ?_ ?_
    · exact fun _ => nofun
    · intro tr t l u hrun ih hstep hserved
      have hbefore := ih fun t' ht' => hserved t' (ht'.snoc hstep)
      rw [List.forall_mem_append, List.forall_mem_singleton]
      have hlinked := linked_of_inTime hrun hbefore
      exact ⟨hbefore, hlinked.inTime_of_served (serverMove_of_step hstep)
        (hserved u (.last (hrun.snoc hstep)))⟩
  · rintro hl t ⟨pre, post, rfl, hpre, -⟩
    exact (linked_of_inTime hpre fun l hmem => hl l (List.mem_append_left _ hmem)).served

/-- Two clients, the second of which connects before the thread of the first has run: both threads
read from the second. -/
theorem not_served : ¬ ∀ tr s, ServerReaches tr s → Served s := by
  intro h
  have hrun := run_play serverStep .init [.accept (some 4), .create true, .store, .accept (some 5),
    .create true, .store, .copy 0, .copy 1]
  have hboth := (h _ _ hrun).distinct 0 1 ⟨4, 1, some 5⟩ ⟨5, 2, some 5⟩ 5 (by decide) (by decide)
    rfl rfl
  exact absurd hboth (by decide)

/-- The thread of the first client runs before the second client connects. -/
theorem served_iff_two :
    ∃ tr s, ServerReaches tr s ∧ s.readers.length = 2 ∧
      ∀ t, Passes (StepOf serverStep) .init tr s t → Served t := by
  have hrun := run_play serverStep .init [.accept (some 4), .create true, .copy 0, .store,
    .accept (some 5), .create true, .store, .copy 1]
  exact ⟨_, _, hrun, by decide, (served_iff hrun).mpr (by decide)⟩

end SocketServer
