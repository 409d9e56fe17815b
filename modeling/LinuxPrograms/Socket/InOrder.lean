import LinuxPrograms.Socket.OneByOne
import Mathlib.Algebra.BigOperators.Fin
import Mathlib.Algebra.Order.BigOperators.Group.Finset

/-!
# What the server prints

The runs of the clients and the server of `OneByOne`.

- `printed_in_order`: connections are served in the order they were made, and what is printed for
  each.
- `serves_all`: unless processes are killed, what is printed are the arguments up to the first
  "end".
-/

namespace OneByOne

open CString Ipc LabelledSystem

variable {n : ℕ} {c : Setup n} {s s' : State n} {l : Label n} {tr : List (Label n)} {i : Fin n}

/-! ## In order -/

/-- A client that has started has done so for good. -/
theorem Move.not_start (hm : Move c s l s') (h : s.clients i ≠ .start) :
    s'.clients i ≠ .start := by
  cases hm with
  | exit i' l hl =>
      rw [client_clients]
      split_ifs
      · exact Client.noConfusion
      · exact h
  | connect i' hp haccept hup hroom =>
      show (s.client i' _).clients i ≠ _
      rw [client_clients]
      split_ifs
      · exact Client.noConfusion
      · exact h
  | write i' bytes hp hup =>
      show (s.client i' _).clients i ≠ _
      rw [client_clients]
      split_ifs
      · exact Client.noConfusion
      · exact h
  | accept | serve | stop => exact h

theorem Move.of_connector (hm : Move c s l s') (hl : l.connector = some i) :
    s.clients i = .start ∧ s'.clients i ≠ .start := by
  cases hm with
  | exit i' l hor => rcases hor with rfl | ⟨rfl, -⟩ <;> cases hl
  | connect i' hp haccept hup hroom =>
      obtain rfl : i' = i := Option.some.inj hl
      refine ⟨hp, ?_⟩
      show (s.client i' _).clients i' ≠ _
      rw [client_clients, if_pos rfl]
      exact Client.noConfusion
  | write | accept | serve | stop => cases hl

/-- Nobody connects twice. -/
theorem Reaches.nodup_connectors (h : Reaches c tr s) :
    (tr.filterMap Label.connector).Nodup :=
  (h.once (P := fun i s => s.clients i ≠ .start)
    (fun _ _ _ _ hstep hi => (step_move hstep).not_start hi)
    fun t l u i hstep hl => by
      obtain ⟨hbefore, hafter⟩ := (step_move hstep).of_connector hl
      exact ⟨not_not.mpr hbefore, hafter⟩).1

/-- What is printed for a connection: the argument of its client if that has written it; otherwise
what was printed last once more, and that only if this client has been killed. Nothing is printed
behind "end". -/
def Printed (c : Setup n) (before : List (Label n)) (l : Label n) : Prop :=
  ∀ i p, l = .served i p →
    (.wrote i ∈ before → p = c.payload i) ∧
    (.wrote i ∉ before →
      p = (before.filterMap Label.printed).getLastD blank ∧ .killedClient i ∈ before) ∧
    ∀ p' ∈ before.filterMap Label.printed, ¬ IsEnd p'

theorem Inv.printed (h : Inv c tr s) (hm : Move c s l s') : Printed c tr l := by
  rintro i p rfl
  cases hm with
  | serve i p hserver hready hp =>
      have hup : s.up = true := by simp [State.up, hserver]
      refine ⟨fun hwrote => ?_, fun hsilent => ⟨?_, ?_⟩, h.goesOn hup⟩
      · rw [hp, h.wrote i hwrote, SocPayload.load_encode]
      · rw [hp, h.silent i hsilent, List.take_nil, SocPayload.load_nil, h.payload]
      · -- The client is gone without a message, while the server was there.
        have hexited := hready.resolve_left (not_not.mpr (h.silent i hsilent))
        have hi : i ∈ tr.filterMap Label.connector := by
          obtain ⟨rest, hrest, hpending⟩ := h.order
          rw [hrest, hpending hup, pending_reading hserver]
          exact List.mem_append_right _ List.mem_cons_self
        rcases h.gone i hi hexited with hwrote | hkilled | hdown
        · exact absurd hwrote hsilent
        · exact hkilled
        · rw [hup] at hdown
          cases hdown
  | exit i' l hor => rcases hor with hl | ⟨hl, -⟩ <;> cases hl

/-- In every run, whoever is killed, nobody connects twice, connections are served in the order they
were made, and for each is printed what its client wrote, or, if the client was killed before its
write, what was printed last. -/
theorem printed_in_order (h : Reaches c tr s) :
    (tr.filterMap Label.connector).Nodup ∧
    tr.filterMap Label.client <+: tr.filterMap Label.connector ∧
    Throughout (Printed c) tr := by
  refine ⟨h.nodup_connectors, ?_, ?_⟩
  · obtain ⟨rest, hrest, -⟩ := h.inv.order
    exact ⟨rest, hrest.symm⟩
  · refine h.history (P := fun tr _ => Throughout (Printed c) tr) .nil ?_
    intro tr t l u hreach ih hstep
    exact ih.snoc ((Reaches.inv hreach).printed (step_move hstep))

/-- Three clients, the second with "end". -/
def withEnd : Setup 3 where
  args i := if i.val = 0 then some (text "hello") else if i.val = 1 then some (text "end") else
    some (text "hi")
  room := 11

/-- For a client killed behind its `connect` the server prints again what it printed before. -/
theorem printed_in_order_killed :
    ∃ tr s, Reaches withEnd tr s ∧ tr.filterMap Label.client = [0, 1] ∧
      tr.filterMap Label.printed = [withEnd.payload 0, withEnd.payload 0] ∧
      .killedClient 1 ∈ tr ∧ Throughout (Printed withEnd) tr := by
  have hrun := run_play (step withEnd) init
    [.client 0, .client 1, .server, .client 0, .server, .killClient 1, .server, .server]
  have hkilled : .killedClient 1 ∈ (play (step withEnd) init
      [.client 0, .client 1, .server, .client 0, .server, .killClient 1, .server, .server]).2 :=
    List.mem_of_getElem? (i := 5) rfl
  exact ⟨_, _, hrun, by decide, rfl, hkilled, (printed_in_order hrun).2.2⟩

/-! ## Without kills -/

/-- Unless processes are killed, what is printed is what the clients write. -/
theorem Reaches.printed_eq (h : Reaches c tr s) (hno : ∀ l ∈ tr, l.isKilled = false) :
    tr.filterMap Label.printed = (tr.filterMap Label.client).map c.payload := by
  refine h.history (P := fun tr _ => (∀ l ∈ tr, l.isKilled = false) →
    tr.filterMap Label.printed = (tr.filterMap Label.client).map c.payload) (fun _ => rfl) ?_ hno
  intro tr t l u hreach ih hstep hno'
  rw [List.forall_mem_append, List.forall_mem_singleton] at hno'
  have hold := ih hno'.1
  cases hl : l.printed with
  | none =>
      have hclient : l.client = none := by cases l <;> first | rfl | cases hl
      rw [filterMap_snoc_of_none tr hl, filterMap_snoc_of_none tr hclient, hold]
  | some p =>
      have hlabel : ∃ i, l = .served i p := by
        cases l with
        | served i p' =>
            obtain rfl : p' = p := Option.some.inj hl
            exact ⟨i, rfl⟩
        | quiet | connected | wrote | killedClient | killedServer => cases hl
      obtain ⟨i, rfl⟩ := hlabel
      obtain ⟨hwrote, hsilent, -⟩ := (Reaches.inv hreach).printed (step_move hstep) i p rfl
      have hp : p = c.payload i := by
        by_cases hi : .wrote i ∈ tr
        · exact hwrote hi
        · cases hno'.1 _ (hsilent hi).2
      rw [filterMap_snoc_of_some (f := Label.printed) tr rfl,
        filterMap_snoc_of_some (f := Label.client) tr rfl, hold, List.map_append, hp]
      rfl

theorem backlog_of_pending (h : s.pending = []) : s.backlog = [] := by
  unfold State.pending at h
  split at h
  · cases h
  · exact h

/-- Where the server cannot go on, it has exited, or waits for a connection or for a client. -/
theorem server_of_stuck (h : serverStep s = none) :
    s.up = false ∨ s.pending = [] ∨
      ∃ i ∈ s.pending, s.clients i ≠ .exited := by
  unfold serverStep at h
  cases hserver : s.server with
  | accepting =>
      refine .inr (.inl ?_)
      rw [pending_of_not_reading (by simp [hserver])]
      cases hbacklog : s.backlog with
      | nil => rfl
      | cons i rest => simp [hserver, hbacklog] at h
  | reading i =>
      refine .inr (.inr ⟨i, ?_, fun hexited => ?_⟩)
      · rw [pending_reading hserver]
        exact List.mem_cons_self
      · simp [hserver, hexited] at h
  | exited => exact .inl (by simp [State.up, hserver])

/-- Where a client cannot go on although the server is there, it has exited or waits for room. -/
theorem client_of_stuck (hup : s.up = true) (h : clientStep c s i = none) :
    s.clients i = .exited ∨ s.clients i = .start ∧ c.room ≤ s.backlog.length := by
  unfold clientStep at h
  cases hp : s.clients i with
  | start =>
      refine .inr ⟨rfl, ?_⟩
      simp only [hp, hup, if_true] at h
      split at h
      · cases h
      · split_ifs at h with hroom
        exact Nat.le_of_not_lt hroom
  | connected bytes => simp [hp, hup] at h
  | exited => exact .inl rfl

/-- In a list the first element of a kind is the one with none before it. -/
theorem take_findIdx {α : Type*} {p : α → Bool} {xs rest : List α} {x : α}
    (hxs : ∀ y ∈ xs, p y = false) (hx : p x = true) :
    (xs ++ x :: rest).take ((xs ++ x :: rest).findIdx p + 1) = xs ++ [x] := by
  have hidx : (xs ++ x :: rest).findIdx p = xs.length := by
    have hnone := List.findIdx_eq_length_of_false hxs
    rw [List.findIdx_append, if_neg (by omega), List.findIdx_cons, hx]
    exact Nat.zero_add _
  rw [hidx, ← List.singleton_append, ← List.append_assoc, List.take_left']
  simp

/-! ## Runs are bounded -/

/-- How many steps a client is still good for, its own and those of the server for it. -/
def Client.weight : Client → ℕ
  | .start => 4
  | .connected _ => 1
  | .exited => 0

/-- How many steps there are still at most. -/
def State.total (s : State n) : ℕ :=
  ∑ i, (s.clients i).weight + 2 * s.backlog.length +
    match s.server with
    | .reading _ => 1
    | _ => 0

theorem total_init : (init : State n).total = 4 * n := by
  simp [State.total, init, Client.weight, Nat.mul_comm]

/-- A client that goes on loses the difference of the weights. -/
theorem sum_client (s : State n) (i : Fin n) (p : Client) :
    ∑ i', ((s.client i p).clients i').weight + (s.clients i).weight =
      ∑ i', (s.clients i').weight + p.weight := by
  have hrest : ∑ i' ∈ Finset.univ.erase i, ((s.client i p).clients i').weight =
      ∑ i' ∈ Finset.univ.erase i, (s.clients i').weight := by
    refine Finset.sum_congr rfl fun i' hi' => ?_
    rw [client_clients, if_neg (Finset.ne_of_mem_erase hi')]
  rw [← Finset.add_sum_erase _ _ (Finset.mem_univ i), hrest,
    ← Finset.add_sum_erase Finset.univ (fun i' => (s.clients i').weight) (Finset.mem_univ i),
    client_clients, if_pos rfl]
  omega

theorem Move.total_lt (hm : Move c s l s') (hl : l.isKilled = false) : s'.total < s.total := by
  cases hm with
  | exit i l hor =>
      have hsum := sum_client s i .exited
      have hpos : 0 < (s.clients i).weight := by
        rcases hor with rfl | ⟨-, hne, -⟩
        · cases hl
        · cases hp : s.clients i with
          | start => exact Nat.zero_lt_succ 3
          | connected => exact Nat.one_pos
          | exited => exact absurd hp hne
      have hexited : Client.exited.weight = 0 := rfl
      unfold State.total
      show ∑ i', ((s.client i .exited).clients i').weight + 2 * s.backlog.length + _ < _
      simp only [client_server]
      omega
  | connect i hp haccept hup hroom =>
      have hsum := sum_client s i (.connected (c.payload i).encode)
      rw [hp] at hsum
      have hstart : Client.start.weight = 4 := rfl
      have hconnected : (Client.connected (c.payload i).encode).weight = 1 := rfl
      unfold State.total
      show ∑ i', ((s.client i _).clients i').weight + 2 * (s.backlog ++ [i]).length + _ < _
      rw [List.length_append, List.length_singleton]
      simp only [client_server]
      omega
  | write i bytes hp hup =>
      have hsum := sum_client s i .exited
      rw [hp] at hsum
      have hconnected : (Client.connected bytes).weight = 1 := rfl
      have hexited : Client.exited.weight = 0 := rfl
      unfold State.total
      show ∑ i', ((s.client i .exited).clients i').weight + 2 * s.backlog.length + _ < _
      simp only [client_server]
      omega
  | accept i rest hserver hbacklog =>
      simp only [State.total, hserver, hbacklog, List.length_cons]
      omega
  | serve i p hserver hready hp =>
      simp only [State.total, hserver]
      split_ifs <;> simp
  | stop => cases hl

theorem Reaches.length_le (h : Reaches c tr s) (hno : ∀ l ∈ tr, l.isKilled = false) :
    tr.length ≤ 4 * n := by
  have hle : tr.length + s.total ≤ 4 * n := by
    refine h.history (P := fun tr s => (∀ l ∈ tr, l.isKilled = false) → tr.length + s.total ≤ 4 * n)
      (fun _ => ?_) ?_ hno
    · rw [List.length_nil, Nat.zero_add, total_init]
    · intro tr t l u _ ih hstep hno'
      rw [List.forall_mem_append, List.forall_mem_singleton] at hno'
      have hlt := (step_move hstep).total_lt hno'.2
      have hold := ih hno'.1
      rw [List.length_append, List.length_singleton]
      omega
  omega

/-! ## Up to the first "end" -/

/-- Once the server has exited, what it has printed are the arguments up to the first "end". -/
theorem Reaches.printed_of_down (h : Reaches c tr s) (hno : ∀ l ∈ tr, l.isKilled = false)
    (hdown : s.up = false) :
    ∃ i ∈ tr.filterMap Label.connector, c.SendsEnd i ∧ tr.filterMap Label.client =
      (tr.filterMap Label.connector).take
        ((tr.filterMap Label.connector).findIdx (fun i => c.SendsEnd i) + 1) := by
  have hinv := h.inv
  obtain ⟨rest, hrest, -⟩ := hinv.order
  obtain ⟨ps, p, hprinted, hp, hps⟩ := (hinv.left hdown).resolve_left
    fun hmem => by cases hno _ hmem
  rw [h.printed_eq hno] at hprinted
  obtain ⟨is, js, hclient, rfl, hjs⟩ := List.map_eq_append_iff.mp hprinted
  obtain ⟨i, rfl, rfl⟩ := List.map_eq_singleton_iff.mp hjs
  rw [hclient, List.append_assoc, List.singleton_append] at hrest
  have haccepts : ∀ j ∈ is ++ i :: rest, c.Accepts j := by
    intro j hj
    rw [← hrest] at hj
    exact (hinv.started j hj).2
  have hi : c.SendsEnd i := by
    refine (isEnd_payload (haccepts i ?_)).mp hp
    exact List.mem_append_right _ List.mem_cons_self
  refine ⟨i, ?_, hi, ?_⟩
  · rw [hrest]
    exact List.mem_append_right _ List.mem_cons_self
  · rw [hclient, hrest, take_findIdx (p := fun i => decide (c.SendsEnd i)) (fun j hj => ?_)
      (decide_eq_true hi)]
    refine decide_eq_false fun hend => hps (c.payload j) (List.mem_map_of_mem hj) ?_
    exact (isEnd_payload (haccepts j (List.mem_append_left _ hj))).mpr hend

/-- Unless processes are killed, all comes to rest; and where no process can make a call, the server
has printed the arguments of the clients in the order they connected, up to the first "end"; if
there is none among them, every client whose argument passes has connected. -/
theorem serves_all (hroom : 0 < c.room) :
    (∀ tr s, Reaches c tr s → (∀ l ∈ tr, l.isKilled = false) → tr.length ≤ 4 * n) ∧
    ∀ tr s, Reaches c tr s → (∀ l ∈ tr, l.isKilled = false) → serverStep s = none →
      (∀ i, clientStep c s i = none) →
      tr.filterMap Label.printed = ((tr.filterMap Label.connector).take
        ((tr.filterMap Label.connector).findIdx (fun i => c.SendsEnd i) + 1)).map c.payload ∧
      ((∀ i ∈ tr.filterMap Label.connector, ¬ c.SendsEnd i) →
        ∀ i, c.Accepts i → i ∈ tr.filterMap Label.connector) := by
  refine ⟨fun tr s h hno => h.length_le hno, fun tr s h hno hserver hclients => ?_⟩
  have hinv := h.inv
  rw [h.printed_eq hno]
  cases hup : s.up with
  | false =>
      obtain ⟨i, hi, hend, hclient⟩ := h.printed_of_down hno hup
      rw [hclient]
      exact ⟨rfl, fun hnone => absurd hend (hnone i hi)⟩
  | true =>
      obtain ⟨rest, hrest, hpending⟩ := hinv.order
      obtain rfl := hpending hup
      -- Whoever is connected has written, so the server waits for nobody.
      have hempty : s.pending = [] := by
        rcases server_of_stuck hserver with hdown | hempty | ⟨i, hi, hne⟩
        · rw [hup] at hdown
          cases hdown
        · exact hempty
        · have hi' : i ∈ tr.filterMap Label.connector := by
            rw [hrest]
            exact List.mem_append_right _ hi
          rcases client_of_stuck hup (hclients i) with hexited | ⟨hstart, -⟩
          · exact absurd hexited hne
          · exact absurd hstart (hinv.started i hi').1
      rw [hempty, List.append_nil] at hrest
      have hnone : ∀ i ∈ tr.filterMap Label.connector, ¬ c.SendsEnd i := by
        intro i hi hend
        refine hinv.goesOn hup (c.payload i) ?_ ((isEnd_payload (hinv.started i hi).2).mpr hend)
        rw [h.printed_eq hno, ← hrest]
        exact List.mem_map_of_mem hi
      refine ⟨?_, fun _ i haccept => ?_⟩
      · rw [List.findIdx_eq_length_of_false fun i hi => decide_eq_false (hnone i hi),
          List.take_of_length_le (Nat.le_succ _), hrest]
      · rcases client_of_stuck hup (hclients i) with hexited | ⟨-, hfull⟩
        · rcases hinv.refused i hexited haccept with hi | hmem | hdown
          · exact hi
          · cases hno _ hmem
          · rw [hup] at hdown
            cases hdown
        · rw [backlog_of_pending hempty, List.length_nil] at hfull
          omega

/-- Behind "end" nothing is printed. -/
theorem serves_all_three :
    ∃ tr s, Reaches withEnd tr s ∧ tr.filterMap Label.connector = [0, 1, 2] ∧
      tr.filterMap Label.printed = [withEnd.payload 0, withEnd.payload 1] := by
  have hrun := run_play (step withEnd) init
    [.client 0, .client 1, .client 2, .server, .client 1, .client 0, .client 2, .server, .server,
      .server]
  have hclients : ∀ i, clientStep withEnd (play (step withEnd) init
      [.client 0, .client 1, .client 2, .server, .client 1, .client 0, .client 2, .server, .server,
        .server]).1 i = none := by
    intro i
    match i with
    | 0 => rfl
    | 1 => rfl
    | 2 => rfl
  obtain ⟨hprinted, -⟩ := (serves_all (c := withEnd) (by decide)).2 _ _ hrun (by decide) rfl
    hclients
  refine ⟨_, _, hrun, by decide, ?_⟩
  rw [hprinted]
  rfl

end OneByOne
