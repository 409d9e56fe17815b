import LinuxPrograms.Ipc.Messages
import LinuxPrograms.Lib.Observation
import Mathlib.Tactic.SplitIfs

/-!
# Any number of clients, served one by one

`socket_client.c` and `socket_server.c` of `normal_socket`, once the server listens. Each client
connects and writes its argument once; the server takes the connections in the order they were made,
prints what it reads from each, and exits behind "end". A client that is gone without a message
leaves `soc_payload` of the server as it was. Every process may be killed at any time. An argument
of 20 characters, which the check lets pass, counts as the 20 bytes of its payload.

- `clientStep`, `serverStep`, `step`: the two programs.
- `step_move`: all that a step can do.
- `Served`: what the server has printed, and which connections it has taken.
- `Clients`: what each connection holds, and why a client is gone.
-/

namespace OneByOne

open CString Ipc LabelledSystem

/-- The arguments of the clients, and how many connections may wait for `accept`. -/
structure Setup (n : ℕ) where
  args : Fin n → Option (List UInt8)
  room : ℕ

/-- Where a client is. -/
inductive Client
  | start
  /-- Behind `connect`, with the bytes it will write. -/
  | connected (bytes : List UInt8)
  | exited

/-- Where the server is. -/
inductive Server (n : ℕ)
  | accepting
  /-- In the `read` from the connection of a client. -/
  | reading (i : Fin n)
  | exited

/-- `soc_payload` of both programs at first. -/
def blank : SocPayload := ⟨0, .zero 20⟩

/-- The processes, `soc_payload` of the server, the clients whose connections wait, and what was
written to each connection. -/
structure State (n : ℕ) where
  server : Server n
  socPayload : SocPayload
  backlog : List (Fin n)
  clients : Fin n → Client
  written : Fin n → List UInt8

/-- What a step shows. -/
inductive Label (n : ℕ)
  /-- A call of `accept`, or an exit behind a check or a call that failed. -/
  | quiet
  | connected (i : Fin n)
  | wrote (i : Fin n)
  /-- What the server printed behind its `read` from a connection. -/
  | served (i : Fin n) (socPayload : SocPayload)
  | killedClient (i : Fin n)
  | killedServer

variable {n : ℕ}

/-- The server listens, and no client has started. -/
def init : State n := ⟨.accepting, blank, [], fun _ => .start, fun _ => []⟩

/-- A client goes on to `p`. -/
def State.client (s : State n) (i : Fin n) (p : Client) : State n :=
  { s with clients := Function.update s.clients i p }

/-- The server has not exited. -/
def State.up (s : State n) : Bool :=
  match s.server with
  | .exited => false
  | _ => true

section Programs

variable (c : Setup n) (s : State n)

/-- The next call of a client. -/
def clientStep (i : Fin n) : Option (State n × Label n) :=
  match s.clients i with
  | .start =>
      match socketClient blank (c.args i) with
      -- Without an argument, or with too long a one, it exits.
      | none => some (s.client i .exited, .quiet)
      | some (_, bytes) =>
          if s.up then
            -- `connect` waits for room in the backlog.
            if s.backlog.length < c.room then
              some ({ s.client i (.connected bytes) with backlog := s.backlog ++ [i] },
                .connected i)
            else none
          else some (s.client i .exited, .quiet)
  | .connected bytes =>
      if s.up then
        some ({ s.client i .exited with written := Function.update s.written i bytes }, .wrote i)
      -- The `write` meets a closed connection.
      else some (s.client i .exited, .quiet)
  | .exited => none

/-- The next call of the server. -/
def serverStep : Option (State n × Label n) :=
  match s.server with
  | .accepting =>
      match s.backlog with
      | [] => none
      | i :: rest => some ({ s with server := .reading i, backlog := rest }, .quiet)
  | .reading i =>
      -- The `read` waits for bytes or for the end of the client.
      match s.written i, s.clients i with
      | [], .start => none
      | [], .connected _ => none
      | bytes, _ =>
          let (socPayload, ends) := socketServer s.socPayload bytes
          some ({ s with server := if ends then .exited else .accepting, socPayload },
            .served i socPayload)
  | .exited => none

/-- Who goes on, or is killed. -/
inductive Act (n : ℕ)
  | client (i : Fin n)
  | server
  | killClient (i : Fin n)
  | killServer

/-- One step. -/
def step : Act n → Option (State n × Label n)
  | .client i => clientStep c s i
  | .server => serverStep s
  | .killClient i => some (s.client i .exited, .killedClient i)
  | .killServer => some ({ s with server := .exited }, .killedServer)

end Programs

/-- The labels `tr` lead to `s`. -/
abbrev Reaches (c : Setup n) (tr : List (Label n)) (s : State n) : Prop :=
  Run (StepOf (step c)) init tr s

/-! ## What is connected and printed -/

/-- What a client writes. -/
def Setup.payload (c : Setup n) (i : Fin n) : SocPayload where
  msgNo := 1
  str := (CBuffer.zero 20).strcpy ((c.args i).getD [])

/-- The check of the client lets its argument pass. -/
def Setup.Accepts (c : Setup n) (i : Fin n) : Prop := checked (c.args i) ≠ none

/-- The argument of a client is "end". -/
def Setup.SendsEnd (c : Setup n) (i : Fin n) : Prop := (c.args i).map cstr = some (text "end")

instance (c : Setup n) : DecidablePred c.SendsEnd :=
  fun i => inferInstanceAs (Decidable ((c.args i).map cstr = some (text "end")))

/-- `0 == strcmp(soc_payload.str, "end")`. -/
def IsEnd (p : SocPayload) : Prop := p.str.str = text "end"

instance (p : SocPayload) : Decidable (IsEnd p) :=
  inferInstanceAs (Decidable (p.str.str = text "end"))

namespace Label

/-- The client that connects. -/
def connector : Label n → Option (Fin n)
  | connected i => some i
  | _ => none

/-- The client whose connection is served. -/
def client : Label n → Option (Fin n)
  | served i _ => some i
  | _ => none

/-- What the server prints. -/
def printed : Label n → Option SocPayload
  | served _ socPayload => some socPayload
  | _ => none

/-- A process is killed. -/
def isKilled : Label n → Bool
  | killedClient _ | killedServer => true
  | _ => false

end Label

/-- The connections not served yet, in the order they were made. -/
def State.pending (s : State n) : List (Fin n) :=
  match s.server with
  | .reading i => i :: s.backlog
  | _ => s.backlog

section Moves

variable {c : Setup n} {s s' : State n} {l : Label n} {tr : List (Label n)} {i i' : Fin n}
  {p : Client}

@[simp]
theorem client_clients : (s.client i p).clients i' = if i' = i then p else s.clients i' := by
  simp [State.client, Function.update_apply]

@[simp]
theorem client_server : (s.client i p).server = s.server := rfl

@[simp]
theorem client_up : (s.client i p).up = s.up := rfl

/-- What a client whose argument passes writes is its payload. -/
theorem socketClient_eq (i : Fin n) (h : c.Accepts i) :
    ∃ k, socketClient blank (c.args i) = some (k, (c.payload i).encode) := by
  obtain ⟨arg, harg⟩ := Option.ne_none_iff_exists'.mp h
  obtain ⟨hargs, -⟩ := str_strcpy_of_checked (CBuffer.zero 20) harg
  refine ⟨strcpySize arg, ?_⟩
  rw [socketClient, harg, Option.map_some, Setup.payload, hargs]
  rfl

/-- The payload of a client is "end" exactly if its argument is. -/
theorem isEnd_payload (h : c.Accepts i) : IsEnd (c.payload i) ↔ c.SendsEnd i := by
  obtain ⟨arg, harg⟩ := Option.ne_none_iff_exists'.mp h
  obtain ⟨hargs, hstr⟩ := str_strcpy_of_checked (CBuffer.zero 20) harg
  rw [IsEnd, Setup.payload, Setup.SendsEnd, hargs, Option.getD_some, hstr, Option.map_some,
    Option.some.injEq]

/-- What the processes can do. -/
inductive Move (c : Setup n) (s : State n) : Label n → State n → Prop
  | exit (i : Fin n) (l : Label n)
      (h : l = .killedClient i ∨
        l = .quiet ∧ s.clients i ≠ .exited ∧ (¬ c.Accepts i ∨ s.up = false)) :
      Move c s l (s.client i .exited)
  | connect (i : Fin n) (hp : s.clients i = .start) (haccept : c.Accepts i) (hup : s.up = true)
      (hroom : s.backlog.length < c.room) :
      Move c s (.connected i)
        { s.client i (.connected (c.payload i).encode) with backlog := s.backlog ++ [i] }
  | write (i : Fin n) (bytes : List UInt8) (hp : s.clients i = .connected bytes)
      (hup : s.up = true) :
      Move c s (.wrote i)
        { s.client i .exited with written := Function.update s.written i bytes }
  | accept (i : Fin n) (rest : List (Fin n)) (hserver : s.server = .accepting)
      (hbacklog : s.backlog = i :: rest) :
      Move c s .quiet { s with server := .reading i, backlog := rest }
  | serve (i : Fin n) (p : SocPayload) (hserver : s.server = .reading i)
      (hready : s.written i ≠ [] ∨ s.clients i = .exited)
      (hp : p = s.socPayload.load ((s.written i).take 24)) :
      Move c s (.served i p)
        { s with server := if IsEnd p then .exited else .accepting, socPayload := p }
  | stop : Move c s .killedServer { s with server := .exited }

theorem clientStep_move (h : clientStep c s i = some (s', l)) : Move c s l s' := by
  unfold clientStep at h
  cases hp : s.clients i with
  | start =>
      have hne : s.clients i ≠ .exited := by simp [hp]
      simp only [hp] at h
      by_cases haccept : c.Accepts i
      · obtain ⟨k, hk⟩ := socketClient_eq i haccept
        simp only [hk] at h
        split_ifs at h with hup hroom
        · obtain ⟨rfl, rfl⟩ := Prod.mk.inj (Option.some.inj h)
          exact .connect i hp haccept hup hroom
        · obtain ⟨rfl, rfl⟩ := Prod.mk.inj (Option.some.inj h)
          exact .exit i _ (.inr ⟨rfl, hne, .inr (by simpa using hup)⟩)
      · have hnone : socketClient blank (c.args i) = none := by
          rw [socketClient, not_not.mp haccept, Option.map_none]
        simp only [hnone] at h
        obtain ⟨rfl, rfl⟩ := Prod.mk.inj (Option.some.inj h)
        exact .exit i _ (.inr ⟨rfl, hne, .inl haccept⟩)
  | connected bytes =>
      have hne : s.clients i ≠ .exited := by simp [hp]
      simp only [hp] at h
      split_ifs at h with hup
      · obtain ⟨rfl, rfl⟩ := Prod.mk.inj (Option.some.inj h)
        exact .write i bytes hp hup
      · obtain ⟨rfl, rfl⟩ := Prod.mk.inj (Option.some.inj h)
        exact .exit i _ (.inr ⟨rfl, hne, .inr (by simpa using hup)⟩)
  | exited => simp [hp] at h

theorem serverStep_move (h : serverStep s = some (s', l)) : Move c s l s' := by
  unfold serverStep at h
  cases hserver : s.server with
  | accepting =>
      simp only [hserver] at h
      cases hbacklog : s.backlog with
      | nil => simp [hbacklog] at h
      | cons i rest =>
          simp only [hbacklog] at h
          obtain ⟨rfl, rfl⟩ := Prod.mk.inj (Option.some.inj h)
          exact .accept i rest hserver hbacklog
  | reading i =>
      simp only [hserver, socketServer] at h
      have hready : s.written i ≠ [] ∨ s.clients i = .exited := by
        by_contra hnot
        rw [not_or, not_not] at hnot
        cases hp : s.clients i with
        | start => simp [hnot.1, hp] at h
        | connected bytes => simp [hnot.1, hp] at h
        | exited => exact hnot.2 hp
      split at h
      · cases h
      · cases h
      · obtain ⟨rfl, rfl⟩ := Prod.mk.inj (Option.some.inj h)
        simp only [decide_eq_true_eq]
        exact .serve i _ hserver hready rfl
  | exited => simp [hserver] at h

/-- A step is one of the moves. -/
theorem step_move (h : StepOf (step c) s l s') : Move c s l s' := by
  obtain ⟨a, ha⟩ := h
  cases a with
  | client i => exact clientStep_move ha
  | server => exact serverStep_move ha
  | killClient i =>
      obtain ⟨rfl, rfl⟩ := Prod.mk.inj (Option.some.inj ha)
      exact .exit i _ (.inl rfl)
  | killServer =>
      obtain ⟨rfl, rfl⟩ := Prod.mk.inj (Option.some.inj ha)
      exact .stop

end Moves

section Invariants

variable {c : Setup n} {s s' : State n} {l : Label n} {tr : List (Label n)} {i : Fin n}

theorem pending_of_not_reading (h : ∀ i, s.server ≠ .reading i) : s.pending = s.backlog := by
  unfold State.pending
  split
  · rename_i i hserver
    exact absurd hserver (h i)
  · rfl

theorem pending_reading (h : s.server = .reading i) : s.pending = i :: s.backlog := by
  simp [State.pending, h]

/-- A new connection waits behind the others. -/
theorem pending_append (s : State n) (i : Fin n) :
    ({ s with backlog := s.backlog ++ [i] } : State n).pending = s.pending ++ [i] := by
  unfold State.pending
  cases s.server <;> rfl

/-- What the server has printed, and which connections it has taken. -/
structure Served (tr : List (Label n)) (s : State n) : Prop where
  payload : s.socPayload = (tr.filterMap Label.printed).getLastD blank
  order : ∃ rest, tr.filterMap Label.connector = tr.filterMap Label.client ++ rest ∧
    (s.up = true → rest = s.pending)
  goesOn : s.up = true → ∀ p ∈ tr.filterMap Label.printed, ¬ IsEnd p
  left : s.up = false → .killedServer ∈ tr ∨ ∃ ps p, tr.filterMap Label.printed = ps ++ [p] ∧
    IsEnd p ∧ ∀ p' ∈ ps, ¬ IsEnd p'

theorem Served.init : Served [] (init : State n) where
  payload := rfl
  order := ⟨[], rfl, fun _ => rfl⟩
  goesOn _ _ h := absurd h List.not_mem_nil
  left h := by cases h

/-- A step by which nothing is connected or printed. -/
theorem Served.silent (h : Served tr s) (hconnector : l.connector = none)
    (hclient : l.client = none) (hprinted : l.printed = none)
    (hpayload : s'.socPayload = s.socPayload)
    (hup : s'.up = true → s.up = true ∧ s'.pending = s.pending)
    (hdown : s'.up = false → s.up = false ∨ l = .killedServer) : Served (tr ++ [l]) s' := by
  have hps : (tr ++ [l]).filterMap Label.printed = tr.filterMap Label.printed :=
    filterMap_snoc_of_none tr hprinted
  obtain ⟨rest, hrest, hpending⟩ := h.order
  refine ⟨?_, ⟨rest, ?_, fun hs => ?_⟩, fun hs => ?_, fun hs => ?_⟩
  · rw [hps, hpayload]
    exact h.payload
  · rw [filterMap_snoc_of_none tr hconnector, filterMap_snoc_of_none tr hclient, hrest]
  · obtain ⟨hold, heq⟩ := hup hs
    rw [heq]
    exact hpending hold
  · rw [hps]
    exact h.goesOn (hup hs).1
  · rw [hps]
    rcases hdown hs with hold | rfl
    · exact (h.left hold).imp_left (List.mem_append_left _)
    · exact .inl (List.mem_append_right _ List.mem_cons_self)

theorem Served.step (h : Served tr s) (hm : Move c s l s') : Served (tr ++ [l]) s' := by
  cases hm with
  | exit i l hl =>
      have hquiet : l = .killedClient i ∨ l = .quiet := hl.imp_right And.left
      refine h.silent ?_ ?_ ?_ rfl (fun hs => ⟨hs, rfl⟩) .inl
      · rcases hquiet with rfl | rfl <;> rfl
      · rcases hquiet with rfl | rfl <;> rfl
      · rcases hquiet with rfl | rfl <;> rfl
  | connect i hp haccept hup hroom =>
      obtain ⟨rest, hrest, hpending⟩ := h.order
      have hps : (tr ++ [Label.connected i]).filterMap Label.printed = tr.filterMap Label.printed :=
        filterMap_snoc_of_none tr rfl
      refine ⟨?_, ⟨rest ++ [i], ?_, fun _ => ?_⟩, fun _ => ?_, fun hs => ?_⟩
      · rw [hps]
        exact h.payload
      · rw [filterMap_snoc_of_some (f := Label.connector) tr rfl, filterMap_snoc_of_none tr rfl,
          hrest, List.append_assoc]
      · rw [hpending hup]
        exact (pending_append _ i).symm
      · rw [hps]
        exact h.goesOn hup
      · have hdown : s.up = false := hs
        rw [hup] at hdown
        cases hdown
  | write i bytes hp hup => exact h.silent rfl rfl rfl rfl (fun hs => ⟨hs, rfl⟩) .inl
  | accept i rest hserver hbacklog =>
      refine h.silent rfl rfl rfl rfl (fun _ => ⟨?_, ?_⟩) fun hs => ?_
      · simp [State.up, hserver]
      · -- The connection taken is the next to be served.
        rw [pending_reading rfl, pending_of_not_reading (s := s) (by simp [hserver]), hbacklog]
      · cases hs
  | serve i p hserver hready hp =>
      obtain ⟨rest, hrest, hpending⟩ := h.order
      have hup : s.up = true := by simp [State.up, hserver]
      have hps : (tr ++ [Label.served i p]).filterMap Label.printed =
          tr.filterMap Label.printed ++ [p] := filterMap_snoc_of_some tr rfl
      rw [hpending hup, pending_reading hserver] at hrest
      refine ⟨?_, ⟨s.backlog, ?_, fun hs => ?_⟩, fun hs => ?_, fun hs => .inr ?_⟩
      · rw [hps, List.getLastD_concat]
      · rw [filterMap_snoc_of_none tr rfl, filterMap_snoc_of_some (f := Label.client) tr rfl, hrest,
          List.append_assoc, List.singleton_append]
      · rw [pending_of_not_reading]
        intro i'
        show (if IsEnd p then Server.exited else Server.accepting) ≠ _
        split_ifs <;> simp
      · rw [hps, List.forall_mem_append, List.forall_mem_singleton]
        refine ⟨h.goesOn hup, fun hend => ?_⟩
        simp [State.up, hend] at hs
      · refine ⟨_, p, hps, ?_, h.goesOn hup⟩
        by_contra hend
        simp [State.up, hend] at hs
  | stop => exact h.silent rfl rfl rfl rfl (fun hs => by cases hs) fun _ => .inr rfl

/-- What each connection holds, and why a client is gone. -/
structure Clients (c : Setup n) (tr : List (Label n)) (s : State n) : Prop where
  bytes : ∀ i bytes, s.clients i = .connected bytes →
    bytes = (c.payload i).encode ∧ i ∈ tr.filterMap Label.connector
  wrote : ∀ i, .wrote i ∈ tr → s.written i = (c.payload i).encode
  silent : ∀ i, .wrote i ∉ tr → s.written i = []
  started : ∀ i ∈ tr.filterMap Label.connector, s.clients i ≠ .start ∧ c.Accepts i
  gone : ∀ i ∈ tr.filterMap Label.connector, s.clients i = .exited →
    .wrote i ∈ tr ∨ .killedClient i ∈ tr ∨ s.up = false
  refused : ∀ i, s.clients i = .exited → c.Accepts i →
    i ∈ tr.filterMap Label.connector ∨ .killedClient i ∈ tr ∨ s.up = false

theorem Clients.init (c : Setup n) : Clients c [] init where
  bytes _ _ h := by cases h
  wrote _ h := absurd h List.not_mem_nil
  silent _ _ := rfl
  started _ h := absurd h List.not_mem_nil
  gone _ h := absurd h List.not_mem_nil
  refused _ h := by cases h

/-- A step of the server, by which no client goes on. -/
theorem Clients.server (h : Clients c tr s) (hconnector : l.connector = none)
    (hwrote : ∀ i, l ≠ .wrote i) (hclients : s'.clients = s.clients)
    (hwritten : s'.written = s.written) (hup : s.up = false → s'.up = false) :
    Clients c (tr ++ [l]) s' := by
  have hcon : (tr ++ [l]).filterMap Label.connector = tr.filterMap Label.connector :=
    filterMap_snoc_of_none tr hconnector
  have hmem : ∀ i, Label.wrote i ∈ tr ++ [l] ↔ .wrote i ∈ tr := by
    intro i
    rw [List.mem_append, List.mem_singleton, or_iff_left (hwrote i).symm]
  refine ⟨?_, fun i hi => ?_, fun i hi => ?_, ?_, fun i hi hexited => ?_,
    fun i hexited haccept => ?_⟩
  · rw [hclients, hcon]
    exact h.bytes
  · rw [hwritten]
    exact h.wrote i ((hmem i).mp hi)
  · rw [hwritten]
    exact h.silent i fun hold => hi ((hmem i).mpr hold)
  · rw [hcon, hclients]
    exact h.started
  · rw [hcon] at hi
    rw [hclients] at hexited
    exact (h.gone i hi hexited).imp (hmem i).mpr (Or.imp (List.mem_append_left _) hup)
  · rw [hclients] at hexited
    rw [hcon]
    exact (h.refused i hexited haccept).imp_right (Or.imp (List.mem_append_left _) hup)

/-- A step by which the client `i` exits. -/
theorem Clients.exit (h : Clients c tr s) (i : Fin n) (written : Fin n → List UInt8)
    (hconnector : l.connector = none)
    (hwrote : ∀ i', .wrote i' ∈ tr ++ [l] → written i' = (c.payload i').encode)
    (hsilent : ∀ i', .wrote i' ∉ tr ++ [l] → written i' = [])
    (hwhy : c.Accepts i → .wrote i ∈ tr ++ [l] ∧ i ∈ tr.filterMap Label.connector ∨
      .killedClient i ∈ tr ++ [l] ∨ s.up = false) :
    Clients c (tr ++ [l]) { s.client i .exited with written } := by
  have hcon : (tr ++ [l]).filterMap Label.connector = tr.filterMap Label.connector :=
    filterMap_snoc_of_none tr hconnector
  have hexit : ∀ i', (s.client i .exited).clients i' =
      if i' = i then .exited else s.clients i' := fun i' => client_clients
  refine ⟨fun i' bytes hp => ?_, hwrote, hsilent, fun i' hi' => ?_, fun i' hi' hexited => ?_,
    fun i' hexited haccept => ?_⟩
  · rw [show _ = _ from hexit i'] at hp
    split_ifs at hp
    rw [hcon]
    exact h.bytes i' bytes hp
  · rw [hcon] at hi'
    obtain ⟨hstart, haccept⟩ := h.started i' hi'
    refine ⟨?_, haccept⟩
    rw [show _ = _ from hexit i']
    split_ifs
    · exact Client.noConfusion
    · exact hstart
  · rw [hcon] at hi'
    rw [show _ = _ from hexit i'] at hexited
    split_ifs at hexited with heq
    · subst heq
      exact (hwhy (h.started i' hi').2).imp_left And.left
    · exact (h.gone i' hi' hexited).imp (List.mem_append_left _)
        (Or.imp_left (List.mem_append_left _))
  · rw [show _ = _ from hexit i'] at hexited
    rw [hcon]
    split_ifs at hexited with heq
    · subst heq
      exact (hwhy haccept).imp_left And.right
    · exact (h.refused i' hexited haccept).imp_right (Or.imp_left (List.mem_append_left _))

/-- The client `i` is connected, and gets ready to write its payload. -/
theorem Clients.connect (h : Clients c tr s) {i : Fin n} (haccept : c.Accepts i)
    {backlog : List (Fin n)} : Clients c (tr ++ [.connected i])
      { s.client i (.connected (c.payload i).encode) with backlog } := by
  have hcon : (tr ++ [Label.connected i]).filterMap Label.connector =
      tr.filterMap Label.connector ++ [i] := filterMap_snoc_of_some tr rfl
  have hmem : ∀ i', Label.wrote i' ∈ tr ++ [.connected i] ↔ .wrote i' ∈ tr := by simp
  have hclient : ∀ i', (s.client i (.connected (c.payload i).encode)).clients i' =
      if i' = i then .connected (c.payload i).encode else s.clients i' := fun i' =>
    client_clients
  refine ⟨fun i' bytes hp' => ?_, fun i' hi' => h.wrote i' ((hmem i').mp hi'),
    fun i' hi' => h.silent i' fun hold => hi' ((hmem i').mpr hold), fun i' hi' => ?_,
    fun i' hi' hexited => ?_, fun i' hexited haccept' => ?_⟩
  · rw [show _ = _ from hclient i'] at hp'
    rw [hcon]
    split_ifs at hp' with heq
    · subst heq
      exact ⟨(Client.connected.inj hp').symm, List.mem_append_right _ List.mem_cons_self⟩
    · exact (h.bytes i' bytes hp').imp_right (List.mem_append_left _)
  · rw [hcon, List.mem_append, List.mem_singleton] at hi'
    rw [show _ = _ from hclient i']
    rcases hi' with hold | rfl
    · obtain ⟨hstart, haccept'⟩ := h.started i' hold
      refine ⟨?_, haccept'⟩
      split_ifs
      · exact Client.noConfusion
      · exact hstart
    · rw [if_pos rfl]
      exact ⟨Client.noConfusion, haccept⟩
  · rw [show _ = _ from hclient i'] at hexited
    rw [hcon, List.mem_append, List.mem_singleton] at hi'
    split_ifs at hexited with heq
    exact (h.gone i' (hi'.resolve_right heq) hexited).imp (List.mem_append_left _)
      (Or.imp_left (List.mem_append_left _))
  · rw [show _ = _ from hclient i'] at hexited
    rw [hcon]
    split_ifs at hexited with heq
    exact (h.refused i' hexited haccept').imp (List.mem_append_left _)
      (Or.imp_left (List.mem_append_left _))

theorem Clients.step (h : Clients c tr s) (hm : Move c s l s') : Clients c (tr ++ [l]) s' := by
  cases hm with
  | exit i l hl =>
      have hquiet : l = .killedClient i ∨ l = .quiet := hl.imp_right And.left
      have hmem : ∀ i', Label.wrote i' ∈ tr ++ [l] ↔ .wrote i' ∈ tr := by
        intro i'
        rw [List.mem_append, List.mem_singleton, or_iff_left]
        rcases hquiet with rfl | rfl <;> simp
      refine h.exit i s.written ?_ (fun i' hi' => h.wrote i' ((hmem i').mp hi'))
        (fun i' hi' => h.silent i' fun hold => hi' ((hmem i').mpr hold)) fun haccept => ?_
      · rcases hquiet with rfl | rfl <;> rfl
      · rcases hl with rfl | ⟨rfl, -, hnot | hdown⟩
        · exact .inr (.inl (List.mem_append_right _ List.mem_cons_self))
        · exact absurd haccept hnot
        · exact .inr (.inr hdown)
  | connect i hp haccept hup hroom => exact h.connect haccept
  | write i bytes hp hup =>
      obtain ⟨rfl, hi⟩ := h.bytes i bytes hp
      have hmem : ∀ i', Label.wrote i' ∈ tr ++ [.wrote i] ↔ .wrote i' ∈ tr ∨ i' = i := by simp
      refine h.exit i _ rfl (fun i' hi' => ?_) (fun i' hi' => ?_) fun _ => .inl ⟨?_, hi⟩
      · rw [Function.update_apply]
        split_ifs with heq
        · rw [heq]
        · exact h.wrote i' (((hmem i').mp hi').resolve_right heq)
      · rw [hmem, not_or] at hi'
        rw [Function.update_of_ne hi'.2]
        exact h.silent i' hi'.1
      · exact List.mem_append_right _ List.mem_cons_self
  | accept i rest hserver hbacklog =>
      refine h.server rfl (by simp) rfl rfl fun hdown => ?_
      simp [State.up, hserver] at hdown
  | serve i p hserver hready hp =>
      refine h.server rfl (by simp) rfl rfl fun hdown => ?_
      simp [State.up, hserver] at hdown
  | stop => exact h.server rfl (by simp) rfl rfl fun _ => rfl

/-- What the server has printed and what the connections hold. -/
structure Inv (c : Setup n) (tr : List (Label n)) (s : State n) : Prop extends
  Served tr s, Clients c tr s

theorem Reaches.inv (h : Reaches c tr s) : Inv c tr s :=
  h.history (P := Inv c) ⟨.init, .init c⟩ fun _ _ _ _ _ ih hstep =>
    ⟨ih.toServed.step (step_move hstep), ih.toClients.step (step_move hstep)⟩

end Invariants

end OneByOne
