import LinuxPrograms.Lib.SharedCounters

/-!
# Counting under a mutex

The threads of `SharedCounters` when each round is one critical section.

- `locked`: lock, the additions, unlock.
- `Exclusive`: at most the owner of the mutex is inside, what it has loaded is up to date, and
  each variable and the additions to come make up one sum throughout.
- `Exclusive.exists_step`: the threads are never stuck before the end.
- `locked_run`, `exists_run_finished`: every run can be carried on to the end, and then nothing has
  been lost.
-/

namespace SharedCounters

open LabelledSystem Function

variable {ι V : Type*}

/-- A round that is one critical section. -/
def locked (vs : List V) : List (Statement V) := .lock :: (vs.map .add ++ [.unlock])

/-- The thread has locked the mutex and not unlocked it. -/
def Inside (th : Thread V) : Prop :=
  ∃ left post, th = .ready left (List.map .add post ++ [.unlock]) ∨
    ∃ v tmp, th = .loaded left (List.map .add post ++ [.unlock]) v tmp

/-- The thread is between two rounds or about to lock the mutex. -/
def Outside (vs : List V) (th : Thread V) : Prop :=
  ∃ left, th = .ready left [] ∨ th = .ready left (locked vs)

theorem Outside.not_inside {vs : List V} {th : Thread V} (h : Outside vs th) : ¬ Inside th := by
  rintro ⟨left', post, rfl | ⟨v, tmp, rfl⟩⟩
  · obtain ⟨left, h | h⟩ := h
    · cases post <;> simp at h
    · cases post <;> simp [locked] at h
  · obtain ⟨left, h | h⟩ := h <;> cases h

theorem locked_count [DecidableEq V] (vs : List V) (v : V) :
    (locked vs).count (.add v) = vs.count v := by
  simp [locked, List.count_map_of_injective _ _ fun _ _ h => Statement.add.inj h]

variable [DecidableEq V] [Fintype ι] {P : Program ι V} {vs : List V} {total : V → ℤ}
  {s t : State ι V} {i : ι}

/-- Only the owner of the mutex is inside, and no addition has been lost. -/
structure Exclusive (P : Program ι V) (vs : List V) (total : V → ℤ) (s : State ι V) : Prop where
  inside : ∀ i, s.owner = some i → Inside (s.threads i)
  outside : ∀ i, s.owner ≠ some i → Outside vs (s.threads i)
  fresh : ∀ i left todo v tmp, s.threads i = .loaded left todo v tmp → tmp = s.vars v
  sum : ∀ v, s.vars v + P.due P.change v s = total v

namespace Exclusive

/-- A thread that is inside owns the mutex. -/
theorem owner_of_inside (hs : Exclusive P vs total s) (h : Inside (s.threads i)) :
    s.owner = some i := by
  by_contra hne
  exact (hs.outside i hne).not_inside h

/-- While nobody owns the mutex, a variable lacks just the rounds not begun. -/
theorem free (hs : Exclusive P vs total s) (hbody : P.body = locked vs) (hfree : s.owner = none) :
    ∃ rest : ι → ℕ, ∀ v, s.vars v + vs.count v * ∑ i, P.change i * rest i = total v := by
  have hout : ∀ i, ∃ rest : ℕ, ∀ v, P.pending v (s.threads i) = rest * vs.count v := by
    intro i
    obtain ⟨left, h | h⟩ := hs.outside i (by rw [hfree]; nofun)
    · exact ⟨left, fun v => by rw [h]; simp [Program.pending, hbody, locked_count]⟩
    · refine ⟨left + 1, fun v => ?_⟩
      rw [h]
      simp only [Program.pending, hbody, locked_count]
      ring
  choose rest hrest using hout
  refine ⟨rest, fun v => ?_⟩
  rw [← hs.sum v, Program.due, Finset.mul_sum]
  congr 1
  refine Finset.sum_congr rfl fun i _ => ?_
  rw [hrest i v]
  push_cast
  ring

variable [DecidableEq ι]

/-- Before the end there is always a thread that can go on: the owner, or any if there is none. -/
theorem exists_step (hs : Exclusive P vs total s)
    (hfin : ¬ Finished s) : ∃ i t, Step P s i t := by
  cases howner : s.owner with
  | some i =>
      -- Inside, every statement can be carried out.
      obtain ⟨left, post, h | ⟨v, tmp, h⟩⟩ := hs.inside i howner
      · cases post with
        | nil => exact ⟨i, _, step_iff.mpr (.unlock h)⟩
        | cons v post => exact ⟨i, _, step_iff.mpr (.load h)⟩
      · exact ⟨i, _, step_iff.mpr (.store h)⟩
  | none =>
      obtain ⟨i, hi⟩ := not_forall.mp hfin
      obtain ⟨left, h | h⟩ := hs.outside i (by rw [howner]; nofun)
      · cases left with
        | zero => exact absurd h hi
        | succ left => exact ⟨i, _, step_iff.mpr (.begin h)⟩
      · exact ⟨i, _, step_iff.mpr (.lock h howner)⟩

/-- Nothing is lost by a step: the thread that stores has loaded the value in the variable. -/
theorem sum_step (hs : Exclusive P vs total s) (h : Move P s i t) (v : V) :
    t.vars v + P.due P.change v t = total v := by
  rw [h.due]
  rcases h.effect v with ⟨left, todo, tmp, hth, -, hvar, hpend⟩ | ⟨hvar, hpend, -⟩
  · obtain rfl := hs.fresh i left todo v tmp hth
    rw [hvar, hpend, ← hs.sum v]
    push_cast
    ring
  · rw [hvar, hpend, sub_self, mul_zero, add_zero]
    exact hs.sum v

/-- Thread `i` goes on at `th`, and only the owner may store. -/
theorem update (hs : Exclusive P vs total s) {u : State ι V} {th : Thread V}
    (hthreads : u.threads = Function.update s.threads i th)
    (howner : ∀ j, j ≠ i → (u.owner = some j ↔ s.owner = some j))
    (hin : u.owner = some i → Inside th) (hout : u.owner ≠ some i → Outside vs th)
    (hfresh : ∀ left todo v tmp, th = .loaded left todo v tmp → tmp = u.vars v)
    (hvars : u.vars = s.vars ∨ s.owner = some i)
    (hsum : ∀ v, u.vars v + P.due P.change v u = total v) : Exclusive P vs total u := by
  refine ⟨fun j hj => ?_, fun j hj => ?_, fun j left todo v tmp hj => ?_, hsum⟩
  · by_cases hji : j = i
    · subst hji
      rw [hthreads, update_self]
      exact hin hj
    · rw [hthreads, update_of_ne hji]
      exact hs.inside j ((howner j hji).mp hj)
  · by_cases hji : j = i
    · subst hji
      rw [hthreads, update_self]
      exact hout hj
    · rw [hthreads, update_of_ne hji]
      exact hs.outside j fun h => hj ((howner j hji).mpr h)
  · by_cases hji : j = i
    · subst hji
      rw [hthreads, update_self] at hj
      exact hfresh left todo v tmp hj
    · rw [hthreads, update_of_ne hji] at hj
      rcases hvars with hvars | hvars
      · rw [hvars]
        exact hs.fresh j left todo v tmp hj
      · -- The owner stores: nobody else is between a load and a store.
        obtain ⟨l, h | h⟩ := hs.outside j fun h => hji (Option.some.inj (h.symm.trans hvars))
        · rw [hj] at h
          cases h
        · rw [hj] at h
          cases h

/-- Before a statement other than `lock` a thread is inside. -/
theorem inside_of_ready (hs : Exclusive P vs total s) {left : ℕ} {st : Statement V}
    {todo : List (Statement V)} (h : s.threads i = .ready left (st :: todo)) (hst : st ≠ .lock) :
    s.owner = some i ∧ ∃ post, st :: todo = List.map .add post ++ [.unlock] := by
  have howner : s.owner = some i := by
    by_contra howner
    obtain ⟨l, hout | hout⟩ := hs.outside i howner
    · rw [h] at hout
      cases hout
    · rw [h] at hout
      exact hst (List.cons.inj (Thread.ready.inj hout).2).1
  refine ⟨howner, ?_⟩
  obtain ⟨l, post, hin | ⟨v, tmp, hin⟩⟩ := hs.inside i howner
  · rw [h] at hin
    exact ⟨post, (Thread.ready.inj hin).2⟩
  · rw [h] at hin
    cases hin

/-- Between a load and its store a thread is inside. -/
theorem inside_of_loaded (hs : Exclusive P vs total s) {left : ℕ} {todo : List (Statement V)}
    {v : V} {tmp : ℤ} (h : s.threads i = .loaded left todo v tmp) :
    s.owner = some i ∧ ∃ post, todo = List.map .add post ++ [.unlock] := by
  have howner : s.owner = some i := by
    by_contra howner
    obtain ⟨l, hout | hout⟩ := hs.outside i howner <;> rw [h] at hout <;> cases hout
  refine ⟨howner, ?_⟩
  obtain ⟨l, post, hin | ⟨v, tmp, hin⟩⟩ := hs.inside i howner
  · rw [h] at hin
    cases hin
  · rw [h] at hin
    exact ⟨post, (Thread.loaded.inj hin).2.1⟩

theorem step (hs : Exclusive P vs total s) (hbody : P.body = locked vs) (h : Step P s i t) :
    Exclusive P vs total t := by
  have hmove := step_iff.mp h
  have hsum := hs.sum_step hmove
  cases hmove with
  | @begin left hth =>
      have howner : s.owner ≠ some i := fun howner =>
        Outside.not_inside (show Outside vs _ from ⟨left + 1, .inl hth⟩) (hs.inside i howner)
      exact hs.update rfl (fun _ _ => Iff.rfl) (fun h => absurd h howner)
        (fun _ => ⟨left, .inr (by rw [hbody])⟩) (fun _ _ _ _ h => by cases h) (.inl rfl) hsum
  | @lock left todo hth hfree =>
      -- Outside, the lock is that of a whole round.
      have htodo : todo = vs.map .add ++ [.unlock] := by
        obtain ⟨l, hout | hout⟩ := hs.outside i (by rw [hfree]; nofun)
        · rw [hth] at hout
          cases hout
        · rw [hth] at hout
          exact (List.cons.inj (Thread.ready.inj hout).2).2
      refine hs.update rfl (fun j hji => ?_) (fun _ => ⟨left, vs, .inl (by rw [htodo])⟩)
        (fun h => absurd rfl h) (fun _ _ _ _ h => by cases h) (.inl rfl) hsum
      rw [hfree]
      exact ⟨fun h => absurd (Option.some.inj h).symm hji, nofun⟩
  | @unlock left todo hth =>
      obtain ⟨howner, post, hpost⟩ := hs.inside_of_ready hth nofun
      have htodo : todo = [] := by
        cases post with
        | nil => exact (List.cons.inj hpost).2
        | cons => cases hpost
      refine hs.update rfl (fun j hji => ?_) nofun (fun _ => ⟨left, .inl (by rw [htodo])⟩)
        (fun _ _ _ _ h => by cases h) (.inl rfl) hsum
      rw [howner]
      exact ⟨nofun, fun h => absurd (Option.some.inj h).symm hji⟩
  | @load left todo v hth =>
      obtain ⟨howner, post, hpost⟩ := hs.inside_of_ready hth nofun
      have htodo : ∃ post, todo = List.map .add post ++ [.unlock] := by
        cases post with
        | nil => cases hpost
        | cons v' post => exact ⟨post, (List.cons.inj hpost).2⟩
      obtain ⟨post, rfl⟩ := htodo
      refine hs.update rfl (fun _ _ => Iff.rfl) (fun _ => ⟨left, post, .inr ⟨v, s.vars v, rfl⟩⟩)
        (fun h => absurd howner h) (fun l todo' v' tmp h => ?_) (.inl rfl) hsum
      cases h
      rfl
  | @store left todo v tmp hth =>
      obtain ⟨howner, post, rfl⟩ := hs.inside_of_loaded hth
      exact hs.update rfl (fun _ _ => Iff.rfl) (fun _ => ⟨left, post, .inl rfl⟩)
        (fun h => absurd howner h) (fun _ _ _ _ h => by cases h) (.inr howner) hsum

end Exclusive

section Run

variable [DecidableEq ι] {vars : V → ℤ} {tr : List ι}

omit [DecidableEq ι] in
theorem Exclusive.init (hbody : P.body = locked vs) :
    Exclusive P vs (fun v => vars v + (∑ i, P.change i) * (P.rounds * vs.count v))
      (init P vars) := by
  refine ⟨nofun, fun i _ => ⟨P.rounds, .inl rfl⟩, nofun, fun v => ?_⟩
  rw [due_init, hbody, locked_count]
  rfl

/-- The invariant holds throughout. -/
theorem exclusive_of_run (hbody : P.body = locked vs) (h : Run (Step P) (init P vars) tr t) :
    Exclusive P vs (fun v => vars v + (∑ i, P.change i) * (P.rounds * vs.count v)) t :=
  h.invariant (Q := fun _ => True) (fun _ _ => trivial) (Exclusive.init hbody)
    fun _ _ _ hs hstep _ => hs.step hbody hstep

/-- A run that cannot go on has come to the end, and has counted every round of every thread. -/
theorem locked_run (hbody : P.body = locked vs) (h : Run (Step P) (init P vars) tr t)
    (hstuck : ∀ i, move P t i = none) :
    Finished t ∧ ∀ v, t.vars v = vars v + (∑ i, P.change i) * (P.rounds * vs.count v) := by
  have hs := exclusive_of_run hbody h
  have hfin : Finished t := by
    by_contra hfin
    obtain ⟨i, u, hstep⟩ := hs.exists_step hfin
    rw [Step, hstuck i] at hstep
    cases hstep
  refine ⟨hfin, fun v => ?_⟩
  have hsum := hs.sum v
  rwa [due_finished hfin, add_zero] at hsum

/-- Every run can be carried on to the end. -/
theorem exists_run_finished (hbody : P.body = locked vs) (h : Run (Step P) (init P vars) tr t) :
    ∃ tr' u, Run (Step P) t tr' u ∧ Finished u := by
  have hs := exclusive_of_run hbody h
  refine Run.exists_of_measure (fun s => (P.totalWork s).toNat) (fun s hs hfin => ?_) hs
  obtain ⟨i, u, hstep⟩ := hs.exists_step hfin
  refine ⟨i, u, hstep, hs.step hbody hstep, ?_⟩
  have hwork := (step_iff.mp hstep).work
  have hnonneg : 0 ≤ P.totalWork u := Finset.sum_nonneg fun _ _ => Int.natCast_nonneg _
  omega

end Run

end SharedCounters
