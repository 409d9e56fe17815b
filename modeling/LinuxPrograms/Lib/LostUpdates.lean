import LinuxPrograms.Lib.SharedCounters
import Mathlib.Algebra.BigOperators.Group.Finset.Piecewise
import Mathlib.Order.Interval.Set.Basic

/-!
# Lost updates

What the variables of `SharedCounters` can hold in the end when no mutex keeps the threads apart.
The schedules are put together from two rules, in which only one variable is looked at.

- `Leads`: a schedule takes the threads, and the variable with them, from here to there.
- `Leads.rounds`: rounds run one after the other all count.
- `Leads.window`: a thread that loads, lets the others run and then stores wipes out their rounds.
- `final_iff`: counting up and down, every value between the extremes can come out.
- `final_iff_of_increments`: counting up only, all but the lowest can.
-/

namespace SharedCounters

open LabelledSystem Function

variable {ι V : Type*} [DecidableEq ι] [DecidableEq V]

/-- From every state with the threads at `T` and `x` in `v`, a run leads to one with the threads
at `T'` and `x'` in `v`. -/
def Leads (P : Program ι V) (v : V) (T : ι → Thread V) (x : ℤ) (T' : ι → Thread V) (x' : ℤ) :
    Prop :=
  ∀ s : State ι V, s.threads = T → s.vars v = x →
    ∃ tr t, Run (Step P) s tr t ∧ t.threads = T' ∧ t.vars v = x'

/-- The threads between two rounds, with `r` rounds left. -/
def idle (r : ι → ℕ) : ι → Thread V := fun i => .ready (r i) []

namespace Leads

variable {P : Program ι V} {v : V} {T T' T'' : ι → Thread V} {x x' x'' y : ℤ} {i : ι} {left : ℕ}
  {todo : List (Statement V)}

theorem refl : Leads P v T x T x := fun s hT hx => ⟨[], s, .nil, hT, hx⟩

theorem trans (h₁ : Leads P v T x T' x') (h₂ : Leads P v T' x' T'' x'') :
    Leads P v T x T'' x'' := by
  intro s hT hx
  obtain ⟨tr₁, t, hrun₁, hT', hx'⟩ := h₁ s hT hx
  obtain ⟨tr₂, u, hrun₂, hT'', hx''⟩ := h₂ t hT' hx'
  exact ⟨tr₁ ++ tr₂, u, hrun₁.append hrun₂, hT'', hx''⟩

/-- A single step. -/
theorem of_move (h : ∀ s : State ι V, s.threads = T → s.vars v = x →
    ∃ t, Move P s i t ∧ t.threads = T' ∧ t.vars v = x') : Leads P v T x T' x' := by
  intro s hT hx
  obtain ⟨t, hmove, hT', hx'⟩ := h s hT hx
  exact ⟨[i], t, .single (step_iff.mpr hmove), hT', hx'⟩

theorem begin (h : T i = .ready (left + 1) []) :
    Leads P v T x (update T i (.ready left P.body)) x := by
  refine of_move (i := i) fun s hT hx => ?_
  subst hT
  exact ⟨_, .begin h, rfl, hx⟩

theorem load (h : T i = .ready left (.add v :: todo)) :
    Leads P v T x (update T i (.loaded left todo v x)) x := by
  refine of_move (i := i) fun s hT hx => ?_
  subst hT hx
  exact ⟨_, .load h, rfl, rfl⟩

theorem store (h : T i = .loaded left todo v y) :
    Leads P v T x (update T i (.ready left todo)) (y + P.change i) := by
  refine of_move (i := i) fun s hT hx => ?_
  subst hT
  exact ⟨_, .store h, rfl, update_self ..⟩

/-- The load and the store of another variable. -/
theorem add_of_ne {v' : V} (hne : v' ≠ v) (h : T i = .ready left (.add v' :: todo)) :
    Leads P v T x (update T i (.ready left todo)) x := by
  intro s hT hx
  subst hT
  let u := s.put i (.loaded left todo v' (s.vars v'))
  have hload : Step P s i u := step_iff.mpr (.load h)
  have hstore := step_iff.mpr
    (Move.store (P := P) (s := u) (i := i) (by exact update_self ..))
  refine ⟨[i] ++ [i], _, (Run.single hload).append (.single hstore), ?_, ?_⟩
  · simp [u]
  · simpa [u, hne.symm] using hx

/-- A load of `v` with the store right behind it. -/
theorem add_self (h : T i = .ready left (.add v :: todo)) :
    Leads P v T x (update T i (.ready left todo)) (x + P.change i) := by
  have hloaded : update T i (.loaded left todo v x) i = .loaded left todo v x := update_self ..
  have hstore : Leads P v (update T i (.loaded left todo v x)) x
      (update (update T i (.loaded left todo v x)) i (.ready left todo)) (x + P.change i) :=
    store hloaded
  rw [update_idem] at hstore
  exact (load h).trans hstore

/-- The statements of a round from one on, up to another. -/
theorem adds {vs : List V} {rest : List (Statement V)}
    (h : T i = .ready left (vs.map .add ++ rest)) :
    Leads P v T x (update T i (.ready left rest)) (x + vs.count v * P.change i) := by
  induction vs generalizing T x with
  | nil =>
      rw [List.map_nil, List.nil_append] at h
      rw [← h, update_eq_self]
      simpa using refl
  | cons v' vs ih =>
      have htail := fun x => ih (T := update T i (.ready left (vs.map .add ++ rest))) (x := x)
        (update_self ..)
      simp only [update_idem] at htail
      rcases eq_or_ne v' v with rfl | hne
      · have hall := (add_self h).trans (htail (x + P.change i))
        rw [List.count_cons_self, Nat.cast_succ, add_mul, one_mul, ← add_assoc, add_right_comm]
        exact hall
      · rw [List.count_cons_of_ne hne]
        exact (add_of_ne hne h).trans (htail x)

/-- A whole round. -/
theorem round {vs : List V} (hbody : P.body = vs.map .add) (h : T i = .ready (left + 1) []) :
    Leads P v T x (update T i (.ready left [])) (x + vs.count v * P.change i) := by
  have hbegun : update T i (.ready left P.body) i = .ready left (vs.map .add ++ []) := by
    rw [update_self, hbody, List.append_nil]
  have hadds : Leads P v (update T i (.ready left P.body)) x
      (update (update T i (.ready left P.body)) i (.ready left []))
      (x + vs.count v * P.change i) := adds hbegun
  rw [update_idem] at hadds
  exact (begin h).trans hadds

/-- `k` rounds of one thread. -/
theorem thread_rounds {vs : List V} (hbody : P.body = vs.map .add) (hv : vs.count v = 1) (k : ℕ)
    (h : T i = .ready (left + k) []) :
    Leads P v T x (update T i (.ready left [])) (x + k * P.change i) := by
  induction k generalizing T x with
  | zero =>
      have hidle : update T i (.ready left []) = T := update_eq_iff.mpr ⟨h.symm, fun _ _ => rfl⟩
      rw [hidle]
      simpa using refl
  | succ k ih =>
      have hfirst : Leads P v T x (update T i (.ready (left + k) []))
          (x + vs.count v * P.change i) := round hbody h
      have hrest := ih (T := update T i (.ready (left + k) [])) (x := x + P.change i)
        (update_self ..)
      rw [update_idem] at hrest
      rw [hv, Nat.cast_one, one_mul] at hfirst
      convert hfirst.trans hrest using 1
      push_cast
      ring

/-- Of the threads in `S` each runs its share `f` of rounds, one thread after the other. -/
theorem rounds_of_mem {vs : List V} (hbody : P.body = vs.map .add) (hv : vs.count v = 1)
    (S : Finset ι) (r f : ι → ℕ) (h : ∀ i ∈ S, T i = .ready (r i + f i) []) :
    Leads P v T x (fun i => if i ∈ S then .ready (r i) [] else T i)
      (x + ∑ i ∈ S, f i * P.change i) := by
  induction S using Finset.induction_on with
  | empty => simpa using refl
  | insert a S ha ih =>
      have hS := ih fun i hi => h i (Finset.mem_insert_of_mem hi)
      have ha' := thread_rounds (T := fun i => if i ∈ S then .ready (r i) [] else T i)
        (x := x + ∑ i ∈ S, f i * P.change i) hbody hv (f a)
        (by rw [if_neg ha]; exact h a (Finset.mem_insert_self a S))
      convert hS.trans ha' using 1
      · ext i
        by_cases hi : i = a
        · subst hi; simp
        · simp [hi]
      · rw [Finset.sum_insert ha]
        ring

variable [Fintype ι]

/-- Rounds that nobody disturbs all count. -/
theorem rounds {vs : List V} (hbody : P.body = vs.map .add) (hv : vs.count v = 1)
    {r r' : ι → ℕ} (f : ι → ℕ) (hr : ∀ i, r i = r' i + f i) :
    Leads P v (idle r) x (idle r') (x + ∑ i, f i * P.change i) := by
  have h := rounds_of_mem (T := idle r) (x := x) hbody hv Finset.univ r' f
    fun i _ => by rw [idle, hr i]
  simp only [Finset.mem_univ, if_true] at h
  exact h

/-- Thread `a` loads, the others run the rounds they have more in `r` than in `r'`, and then `a`
stores. -/
theorem window {vs : List V} (hbody : P.body = vs.map .add) (hv : vs.count v = 1) {r r' : ι → ℕ}
    (a : ι) (hr : ∀ i, r' i ≤ r i) (ha : r a = r' a + 1) :
    Leads P v (idle r) x (idle r') (x + P.change a) := by
  obtain ⟨pre, post, rfl, hpre⟩ := List.eq_append_cons_of_mem (List.count_pos_iff.mp (hv ▸ one_pos))
  have hpost : post.count v = 0 := by
    rw [List.count_append, List.count_cons_self] at hv
    omega
  -- Up to the load of `v`, nothing happens to it.
  have hopen : Leads P v (idle r) x
      (update (idle r) a (.loaded (r' a) (post.map .add) v x)) x := by
    have hidle : idle r a = Thread.ready (V := V) (r' a + 1) [] := by rw [idle, ha]
    have hbegun : update (idle r) a (.ready (r' a) P.body) a =
        .ready (r' a) (pre.map .add ++ .add v :: post.map .add) := by
      rw [update_self, hbody, List.map_append, List.map_cons]
    have hadds : Leads P v (update (idle r) a (.ready (r' a) P.body)) x
        (update (update (idle r) a (.ready (r' a) P.body)) a
          (.ready (r' a) (.add v :: post.map .add))) (x + pre.count v * P.change a) := adds hbegun
    rw [update_idem, List.count_eq_zero.mpr hpre, Nat.cast_zero, zero_mul, add_zero] at hadds
    have hreached : update (idle r) a (.ready (r' a) (.add v :: post.map .add)) a =
        .ready (r' a) (.add v :: post.map .add) := update_self ..
    have hload : Leads P v (update (idle r) a (.ready (r' a) (.add v :: post.map .add))) x
        (update (update (idle r) a (.ready (r' a) (.add v :: post.map .add))) a
          (.loaded (r' a) (post.map .add) v x)) x := load hreached
    rw [update_idem] at hload
    exact ((begin hidle).trans hadds).trans hload
  -- What the others do meanwhile is lost with the store.
  let T : ι → Thread V := fun i => if i ∈ Finset.univ.erase a then .ready (r' i) [] else
    update (idle r) a (.loaded (r' a) (post.map .add) v x) i
  have hothers : Leads P v (update (idle r) a (.loaded (r' a) (post.map .add) v x)) x T
      (x + ∑ i ∈ Finset.univ.erase a, ((r i - r' i : ℕ) : ℤ) * P.change i) := by
    refine rounds_of_mem hbody hv (Finset.univ.erase a) r' (fun i => r i - r' i) fun i hi => ?_
    rw [update_of_ne (Finset.ne_of_mem_erase hi), idle, Nat.add_sub_cancel' (hr i)]
  have hwaiting : T a = .loaded (r' a) (post.map .add) v x := by simp [T]
  have hstored : update T a (.ready (r' a) (post.map .add)) a =
      .ready (r' a) (post.map .add ++ []) := by rw [update_self, List.append_nil]
  have hclose : Leads P v (update T a (.ready (r' a) (post.map .add))) (x + P.change a)
      (update (update T a (.ready (r' a) (post.map .add))) a (.ready (r' a) []))
      (x + P.change a + post.count v * P.change a) := adds hstored
  convert ((hopen.trans hothers).trans (store hwaiting)).trans hclose using 1
  · ext i
    by_cases hi : i = a
    · subst hi; simp [idle]
    · simp [hi, idle, T]
  · rw [hpost]
    ring

end Leads

/-! ### What can come out -/

omit [DecidableEq ι] in
theorem count_body {P : Program ι V} {v : V} {vs : List V} (hbody : P.body = vs.map .add)
    (hv : vs.count v = 1) :
    P.body.count (.add v) = 1 := by
  rw [hbody, List.count_map_of_injective _ _ fun _ _ h => Statement.add.inj h, hv]

/-- The threads can end with `x` in `v`. -/
def Final (P : Program ι V) (vars : V → ℤ) (v : V) (x : ℤ) : Prop :=
  ∃ tr t, Run (Step P) (init P vars) tr t ∧ Finished t ∧ t.vars v = x

/-- Thread `i` can have ended and find `x` in `v`, while the others may still be running. -/
def Found (P : Program ι V) (vars : V → ℤ) (v : V) (i : ι) (x : ℤ) : Prop :=
  ∃ tr t, Run (Step P) (init P vars) tr t ∧ t.threads i = .ready 0 [] ∧ t.vars v = x

theorem Final.found {P : Program ι V} {vars : V → ℤ} {v : V} {x : ℤ} (h : Final P vars v x)
    (i : ι) : Found P vars v i x := by
  obtain ⟨tr, t, hrun, hfin, hx⟩ := h
  exact ⟨tr, t, hrun, hfin i, hx⟩

omit [DecidableEq V] in
/-- A number can be spread over the members of `S`, at most `n` for each, if it is not too great
for that. -/
theorem exists_sum_eq (S : Finset ι) (n k : ℕ) (hk : k ≤ S.card * n) :
    ∃ f : ι → ℕ, (∀ i, f i ≤ n) ∧ (∀ i ∉ S, f i = 0) ∧ ∑ i ∈ S, f i = k := by
  induction S using Finset.induction_on generalizing k with
  | empty =>
      refine ⟨fun _ => 0, fun _ => n.zero_le, fun _ _ => rfl, ?_⟩
      rw [Finset.card_empty, zero_mul] at hk
      simpa using (Nat.le_zero.mp hk).symm
  | insert a S ha ih =>
      rw [Finset.card_insert_of_notMem ha, add_mul, one_mul] at hk
      obtain ⟨f, hf, hS, hsum⟩ := ih (k - min n k) (by omega)
      refine ⟨update f a (min n k), fun i => ?_, fun i hi => ?_, ?_⟩
      · rcases eq_or_ne i a with rfl | hia
        · rw [update_self]
          exact min_le_left ..
        · rw [update_of_ne hia]
          exact hf i
      · rw [Finset.mem_insert, not_or] at hi
        rw [update_of_ne hi.1]
        exact hS i hi.2
      · rw [Finset.sum_insert ha, update_self, Finset.sum_update_of_notMem ha, hsum]
        omega

section Final

variable {P : Program ι V} {v : V} {vars : V → ℤ} {vs : List V} {ε : ℤ}

theorem Leads.final {x : ℤ} (h : Leads P v (idle fun _ => P.rounds) (vars v) (idle fun _ => 0) x) :
    Final P vars v x := by
  obtain ⟨tr, t, hrun, hT, hx⟩ := h (init P vars) rfl rfl
  exact ⟨tr, t, hrun, fun i => by rw [hT, idle], hx⟩

variable [Fintype ι]

/-- All rounds of thread `b` count, and of the other threads' with the same change as many as one
likes: in its last round `b` wipes out what is left of the others'. -/
theorem final_far (vars : V → ℤ) (hbody : P.body = vs.map .add) (hv : vs.count v = 1)
    (hn : 0 < P.rounds) {S : Finset ι} {b : ι} (hb : b ∈ S) (hS : ∀ i ∈ S, P.change i = ε) {k : ℕ}
    (hlow : P.rounds ≤ k) (hhigh : k ≤ S.card * P.rounds) : Final P vars v (vars v + k * ε) := by
  have hcard := Finset.card_erase_add_one hb
  obtain ⟨f, hf, hf0, hsum⟩ := exists_sum_eq (S.erase b) P.rounds (k - P.rounds) (by
    rw [← hcard, add_mul, one_mul] at hhigh
    omega)
  have hfb : f b = 0 := hf0 b (Finset.notMem_erase b S)
  -- Before the last round of `b`: all of its other rounds, and the share of the others.
  have hbefore : Leads P v (idle fun _ => P.rounds) (vars v)
      (idle fun i => P.rounds - update f b (P.rounds - 1) i)
      (vars v + ∑ i, (update f b (P.rounds - 1) i : ℤ) * P.change i) := by
    refine Leads.rounds hbody hv (update f b (P.rounds - 1)) fun i => ?_
    rcases eq_or_ne i b with rfl | hi
    · rw [update_self]
      omega
    · rw [update_of_ne hi]
      exact (Nat.sub_add_cancel (hf i)).symm
  have hafter : Leads P v (idle fun i => P.rounds - update f b (P.rounds - 1) i)
      (vars v + ∑ i, (update f b (P.rounds - 1) i : ℤ) * P.change i) (idle fun _ => 0)
      (vars v + ∑ i, (update f b (P.rounds - 1) i : ℤ) * P.change i + P.change b) := by
    refine Leads.window hbody hv b (fun i => Nat.zero_le _) ?_
    rw [update_self]
    omega
  -- The sum of these rounds.
  have hbsum : ∑ i, (update f b (P.rounds - 1) i : ℤ) * P.change i = (k - 1 : ℤ) * ε := by
    rw [sum_update (fun i (c : ℕ) => (c : ℤ) * P.change i), hfb, hS b hb]
    have hmem : ∑ i ∈ S.erase b, (f i : ℤ) * P.change i = ∑ i, (f i : ℤ) * P.change i :=
      Finset.sum_subset (Finset.subset_univ _) fun i _ hi => by rw [hf0 i hi]; simp
    have hconst : ∑ i ∈ S.erase b, (f i : ℤ) * P.change i = (∑ i ∈ S.erase b, (f i : ℤ)) * ε := by
      rw [Finset.sum_mul]
      exact Finset.sum_congr rfl fun i hi => by rw [hS i (Finset.mem_of_mem_erase hi)]
    rw [← hmem, hconst, ← Nat.cast_sum, hsum, Nat.cast_sub hlow, Nat.cast_sub hn]
    push_cast
    ring
  have h := (hbefore.trans hafter).final
  rw [hbsum, hS b hb] at h
  convert h using 1
  ring

/-- Thread `d` wipes out first what `b` has done, and `b` in its last round what all others have. -/
theorem final_near (vars : V → ℤ) (hbody : P.body = vs.map .add) (hv : vs.count v = 1) {b d : ι}
    (hbd : b ≠ d)
    (hb : P.change b = ε) {k : ℕ} (hk : k < P.rounds) :
    Final P vars v (vars v + P.change d + (k + 1) * ε) := by
  -- `d` loads, `b` runs all rounds but `k + 1`, and `d` stores.
  have hfirst : Leads P v (idle fun _ => P.rounds) (vars v)
      (idle (update (update (fun _ => P.rounds) d (P.rounds - 1)) b (k + 1)))
      (vars v + P.change d) := by
    refine Leads.window hbody hv d (fun i => ?_) ?_
    · rcases eq_or_ne i b with rfl | hi
      · rw [update_self]
        omega
      · rw [update_of_ne hi]
        rcases eq_or_ne i d with rfl | hi'
        · rw [update_self]
          omega
        · rw [update_of_ne hi']
    · rw [update_of_ne hbd.symm, update_self]
      omega
  -- Then `k` rounds of `b`, which nobody disturbs.
  have hsecond : Leads P v (idle (update (update (fun _ => P.rounds) d (P.rounds - 1)) b (k + 1)))
      (vars v + P.change d) (idle (update (update (fun _ => P.rounds) d (P.rounds - 1)) b 1))
      (vars v + P.change d + ∑ i, (update (fun _ => 0) b k i : ℤ) * P.change i) := by
    refine Leads.rounds hbody hv (update (fun _ => 0) b k) fun i => ?_
    rcases eq_or_ne i b with rfl | hi
    · rw [update_self, update_self, update_self]
      omega
    · rw [update_of_ne hi, update_of_ne hi, update_of_ne hi, add_zero]
  have hlast : Leads P v (idle (update (update (fun _ => P.rounds) d (P.rounds - 1)) b 1))
      (vars v + P.change d + ∑ i, (update (fun _ => 0) b k i : ℤ) * P.change i) (idle fun _ => 0)
      (vars v + P.change d + ∑ i, (update (fun _ => 0) b k i : ℤ) * P.change i + P.change b) :=
    Leads.window hbody hv b (fun i => Nat.zero_le _) (by rw [update_self])
  have hsum : ∑ i, (update (fun _ => 0) b k i : ℤ) * P.change i = k * ε := by
    rw [sum_update (fun i (c : ℕ) => (c : ℤ) * P.change i), hb]
    simp
  have h := ((hfirst.trans hsecond).trans hlast).final
  rw [hsum, hb] at h
  convert h using 1
  ring

/-- Whatever the schedule, `v` stays between all rounds down and all rounds up. -/
theorem mem_range (hbody : P.body = vs.map .add) (hv : vs.count v = 1)
    (hc : ∀ i, P.change i = 1 ∨ P.change i = -1) {tr : List ι} {t : State ι V}
    (h : Run (Step P) (init P vars) tr t) :
    vars v - ((Finset.univ.filter fun i => P.change i = -1).card * P.rounds : ℕ) ≤ t.vars v ∧
      t.vars v ≤ vars v + ((Finset.univ.filter fun i => P.change i = 1).card * P.rounds : ℕ) := by
  have hweight : ∀ c : ℤ, ∀ i, 0 ≤ if P.change i = c then (1 : ℤ) else 0 := by
    intro c i
    split <;> omega
  have hupper := (bound (P := P) (v := v) (σ := 1) (hweight 1)
    (fun i => by rcases hc i with h | h <;> rw [h] <;> simp) h).var
  have hlower := (bound (P := P) (v := v) (σ := -1) (hweight (-1))
    (fun i => by rcases hc i with h | h <;> rw [h] <;> simp) h).var
  have hdue₁ := due_nonneg (P := P) (v := v) (s := t) (hweight 1)
  have hdue₂ := due_nonneg (P := P) (v := v) (s := t) (hweight (-1))
  rw [count_body hbody hv, Finset.sum_boole] at hupper hlower
  push_cast at hupper hlower ⊢
  constructor <;> linarith

/-- With threads that count up and threads that count down, what can come out are the values
between all rounds of the ones and all rounds of the others. -/
theorem final_iff (hbody : P.body = vs.map .add) (hv : vs.count v = 1) (hn : 0 < P.rounds)
    (hc : ∀ i, P.change i = 1 ∨ P.change i = -1) (hup : ∃ i, P.change i = 1)
    (hdown : ∃ i, P.change i = -1) (x : ℤ) :
    Final P vars v x ↔
      vars v - ((Finset.univ.filter fun i => P.change i = -1).card * P.rounds : ℕ) ≤ x ∧
      x ≤ vars v + ((Finset.univ.filter fun i => P.change i = 1).card * P.rounds : ℕ) := by
  constructor
  · rintro ⟨tr, t, hrun, -, rfl⟩
    exact mem_range hbody hv hc hrun
  · rintro ⟨hlow, hhigh⟩
    obtain ⟨b, hb⟩ := hup
    obtain ⟨d, hd⟩ := hdown
    have hbd : b ≠ d := by
      rintro rfl
      rw [hb] at hd
      cases hd
    -- Above the start `b` stores last, and below it `d` does.
    rcases le_total (vars v) x with hx | hx
    · obtain ⟨k, rfl⟩ := Int.le.dest hx
      rcases lt_or_ge k P.rounds with hk | hk
      · have h := final_near vars hbody hv hbd hb hk
        rw [hd] at h
        convert h using 1
        ring
      · have h := final_far vars (ε := 1) hbody hv hn
          (S := Finset.univ.filter fun i => P.change i = 1) (b := b) (by simpa using hb)
          (fun i hi => by simpa using hi) hk (by omega)
        rwa [mul_one] at h
    · obtain ⟨k, hk⟩ := Int.le.dest hx
      obtain rfl : x = vars v - k := by omega
      rcases lt_or_ge k P.rounds with hk' | hk'
      · have h := final_near vars hbody hv hbd.symm hd hk'
        rw [hb] at h
        convert h using 1
        ring
      · have h := final_far vars (ε := -1) hbody hv hn
          (S := Finset.univ.filter fun i => P.change i = -1) (b := d) (by simpa using hd)
          (fun i hi => by simpa using hi) hk' (by omega)
        convert h using 1
        ring

/-- A thread that has ended can find in `v` what can come out in the end. -/
theorem found_iff (hbody : P.body = vs.map .add) (hv : vs.count v = 1) (hn : 0 < P.rounds)
    (hc : ∀ i, P.change i = 1 ∨ P.change i = -1) (hup : ∃ i, P.change i = 1)
    (hdown : ∃ i, P.change i = -1) (i : ι) (x : ℤ) :
    Found P vars v i x ↔
      vars v - ((Finset.univ.filter fun i => P.change i = -1).card * P.rounds : ℕ) ≤ x ∧
      x ≤ vars v + ((Finset.univ.filter fun i => P.change i = 1).card * P.rounds : ℕ) := by
  constructor
  · rintro ⟨tr, t, hrun, -, rfl⟩
    exact mem_range hbody hv hc hrun
  · intro hx
    exact ((final_iff hbody hv hn hc hup hdown x).mpr hx).found i

end Final

/-! ### Counting up only -/

section Increments

variable {P : Program ι V} {v : V} {vars : V → ℤ} {vs : List V} {s t : State ι V} {i : ι}

/-- Who has stored before sees at least one store, and when nobody stores any more there have been
two of which one saw the other. -/
structure Climbs (P : Program ι V) (v : V) (x : ℤ) (s : State ι V) : Prop where
  base : x ≤ s.vars v
  loaded : ∀ i left todo tmp, s.threads i = .loaded left todo v tmp → x ≤ tmp
  one : (∃ i, P.pending v (s.threads i) < P.rounds) → x + 1 ≤ s.vars v
  again : ∀ i left todo tmp, s.threads i = .loaded left todo v tmp →
    P.pending v (s.threads i) < P.rounds → x + 1 ≤ tmp
  two : (∀ i, P.pending v (s.threads i) = 0) → x + 2 ≤ s.vars v

theorem Climbs.step {x : ℤ} (hn : 2 ≤ P.rounds) (hc : ∀ i, P.change i = 1)
    (hs : Climbs P v x s) (h : Step P s i t) : Climbs P v x t := by
  have hmove := step_iff.mp h
  rcases hmove.effect v with ⟨left, todo, tmp, hth, hth', hvar, hpend⟩ | ⟨hvar, hpend, hload⟩
  · -- A store: what the others have loaded stays.
    rw [hc i] at hvar
    have hbase := hs.loaded i left todo tmp hth
    have hother : ∀ j left todo tmp, t.threads j = .loaded left todo v tmp →
        t.threads j = s.threads j := by
      intro j left' todo' tmp' hj
      refine hmove.threads_of_ne ?_
      rintro rfl
      rw [hth'] at hj
      cases hj
    refine ⟨by omega, ?_, fun _ => by omega, ?_, fun hall => ?_⟩
    · intro j left' todo' tmp' hj
      exact hs.loaded j left' todo' tmp' (hother j _ _ _ hj ▸ hj)
    · intro j left' todo' tmp' hj hlt
      have heq := hother j _ _ _ hj
      rw [heq] at hj hlt
      exact hs.again j left' todo' tmp' hj hlt
    · -- The last store of all: its thread has stored before.
      have hlast := hs.again i left todo tmp hth (by rw [hpend, hall i]; omega)
      omega
  · have hsame : ∀ j, P.pending v (t.threads j) = P.pending v (s.threads j) := by
      intro j
      rcases eq_or_ne j i with rfl | hne
      · exact hpend
      · rw [hmove.threads_of_ne hne]
    refine ⟨hvar ▸ hs.base, ?_, fun hex => ?_, ?_, fun hall => ?_⟩
    · intro j left todo tmp hj
      by_cases hji : j = i
      · subst hji
        obtain ⟨rfl, -⟩ := hload left todo tmp hj
        exact hs.base
      · rw [hmove.threads_of_ne hji] at hj
        exact hs.loaded j left todo tmp hj
    · simp only [hsame] at hex
      exact hvar ▸ hs.one hex
    · intro j left todo tmp hj hlt
      rw [hsame] at hlt
      by_cases hji : j = i
      · -- It loads now, so what it loads is in the variable.
        subst hji
        obtain ⟨rfl, -⟩ := hload left todo tmp hj
        exact hs.one ⟨j, hlt⟩
      · rw [hmove.threads_of_ne hji] at hj
        exact hs.again j left todo tmp hj hlt
    · simp only [hsame] at hall
      exact hvar ▸ hs.two hall

omit [DecidableEq ι] in
theorem Climbs.init [Nonempty ι] (hcount : P.body.count (.add v) = 1) (hn : 2 ≤ P.rounds) :
    Climbs P v (vars v) (init P vars) := by
  have hpend : ∀ i : ι, P.pending v ((SharedCounters.init P vars).threads i) = P.rounds := by
    intro i
    simp [SharedCounters.init, Program.pending, hcount]
  refine ⟨le_refl _, fun i left todo tmp hi => ?_, fun hex => ?_, fun i left todo tmp hi => ?_,
    fun hall => ?_⟩
  · cases hi
  · obtain ⟨i, hi⟩ := hex
    rw [hpend] at hi
    exact absurd hi (lt_irrefl _)
  · cases hi
  · have h := hall (Classical.arbitrary ι)
    rw [hpend] at h
    omega

section Two

variable [Fintype ι]

/-- Counting up only, `v` stays below all rounds together, and a thread that has ended finds at
least one more than there was in the beginning, or two more if all have. -/
theorem mem_range_of_increments [Nonempty ι] (hbody : P.body = vs.map .add)
    (hv : vs.count v = 1) (hn : 2 ≤ P.rounds) (hc : ∀ i, P.change i = 1) {tr : List ι}
    (h : Run (Step P) (init P vars) tr t) :
    Climbs P v (vars v) t ∧ t.vars v ≤ vars v + (Fintype.card ι * P.rounds : ℕ) := by
  refine ⟨h.invariant (Q := fun _ => True) (fun _ _ => trivial)
    (Climbs.init (count_body hbody hv) hn) fun _ _ _ hs hstep _ => hs.step hn hc hstep, ?_⟩
  have hweight : ∀ i : ι, (0 : ℤ) ≤ 1 := fun _ => zero_le_one
  have hupper := (bound (P := P) (v := v) (σ := 1) hweight (fun i => by rw [hc i, mul_one]) h).var
  have hdue := due_nonneg (P := P) (v := v) (s := t) hweight
  rw [count_body hbody hv, Finset.sum_const, Finset.card_univ] at hupper
  simp only [nsmul_eq_mul] at hupper
  push_cast at hupper ⊢
  linarith

/-- With at least two threads that all count up for at least two rounds, what can come out are the
values from two rounds to all of them. -/
theorem final_iff_of_increments (hbody : P.body = vs.map .add) (hv : vs.count v = 1)
    (hn : 2 ≤ P.rounds) (hc : ∀ i, P.change i = 1) (hι : ∃ b d : ι, b ≠ d) (x : ℤ) :
    Final P vars v x ↔ vars v + 2 ≤ x ∧ x ≤ vars v + (Fintype.card ι * P.rounds : ℕ) := by
  obtain ⟨b, d, hbd⟩ := hι
  constructor
  · rintro ⟨tr, t, hrun, hfin, rfl⟩
    have : Nonempty ι := ⟨b⟩
    obtain ⟨hclimbs, hupper⟩ := mem_range_of_increments hbody hv hn hc hrun
    exact ⟨hclimbs.two fun i => by rw [hfin i]; simp [Program.pending], hupper⟩
  · rintro ⟨hlow, hhigh⟩
    obtain ⟨k, hk⟩ := Int.le.dest hlow
    obtain rfl : x = vars v + 2 + k := hk.symm
    rcases lt_or_ge (k + 2) P.rounds with hk' | hk'
    · have h := final_near vars (k := k) hbody hv hbd (hc b) (by omega)
      rw [hc d] at h
      convert h using 1
      ring
    · have h := final_far vars (ε := 1) hbody hv (by omega) (S := Finset.univ) (b := b)
        (Finset.mem_univ b) (fun i _ => hc i) hk' (by rw [Finset.card_univ]; omega)
      convert h using 1
      push_cast
      ring

/-- A thread that has ended before the others can find one less: another one may have stored its
first round last. -/
theorem found_iff_of_increments (hbody : P.body = vs.map .add) (hv : vs.count v = 1)
    (hn : 2 ≤ P.rounds) (hc : ∀ i, P.change i = 1) {i d : ι} (hid : i ≠ d) (x : ℤ) :
    Found P vars v i x ↔ vars v + 1 ≤ x ∧ x ≤ vars v + (Fintype.card ι * P.rounds : ℕ) := by
  constructor
  · rintro ⟨tr, t, hrun, hi, rfl⟩
    have : Nonempty ι := ⟨i⟩
    obtain ⟨hclimbs, hupper⟩ := mem_range_of_increments hbody hv hn hc hrun
    refine ⟨hclimbs.one ⟨i, ?_⟩, hupper⟩
    rw [hi]
    simp only [Program.pending, zero_mul, List.count_nil, add_zero]
    omega
  · rintro ⟨hlow, hhigh⟩
    rcases eq_or_lt_of_le hlow with rfl | hlow
    · -- `d` loads first, `i` runs all its rounds, and `d` stores.
      have hwindow : Leads P v (idle fun _ => P.rounds) (vars v)
          (idle (update (update (fun _ => P.rounds) d (P.rounds - 1)) i 0))
          (vars v + P.change d) := by
        refine Leads.window hbody hv d (fun j => ?_) ?_
        · rcases eq_or_ne j i with rfl | hj
          · rw [update_self]
            exact Nat.zero_le _
          · rw [update_of_ne hj]
            rcases eq_or_ne j d with rfl | hj'
            · rw [update_self]
              omega
            · rw [update_of_ne hj']
        · rw [update_of_ne hid.symm, update_self]
          omega
      obtain ⟨tr, t, hrun, hT, hx⟩ := hwindow (init P vars) rfl rfl
      refine ⟨tr, t, hrun, ?_, by rw [hx, hc d]⟩
      rw [hT, idle, update_self]
    · have hfinal := (final_iff_of_increments hbody hv hn hc ⟨i, d, hid⟩ x).mpr ⟨by omega, hhigh⟩
      exact Final.found hfinal i

end Two

end Increments

end SharedCounters
