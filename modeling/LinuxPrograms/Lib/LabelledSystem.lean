import Mathlib.Data.List.Basic

/-!
# Labelled systems

Runs of a labelled step relation `Step : σ → L → σ → Prop`, and the rules the developments
over it use.

- `Run Step s tr t`: from `s` the labels `tr`, in order, lead to `t`.
- `Run.history`: the induction rule for a property of the labels so far and the state reached.
- `Run.invariant`: the same for a property of the state alone, when every label satisfies `Q`.
- `Run.simulates`: a step-by-step simulation carries over to runs, label for label.
- `Run.comparable`: a system whose steps are determined by its inputs has, on inputs of one
  common sequence, traces of which one is a prefix of the other.
- `Since`, `Throughout`: a label of one kind and behind it only labels of another; a property of
  every label and those before it, with the rules `Run.since` and `Run.throughout`.
- `play`: a partial step function run along a list of actions; `run_play` is its run.
-/

namespace LabelledSystem

variable {σ τ L I α : Type*}

/-- What a projection sees of a trace with one more label. -/
theorem filterMap_snoc {β : Type*} (f : L → Option β) (tr : List L) (l : L) :
    (tr ++ [l]).filterMap f = tr.filterMap f ++ (f l).toList := by
  cases hl : f l <;> simp [hl]

theorem filterMap_snoc_of_none {β : Type*} {f : L → Option β} {l : L} (tr : List L)
    (h : f l = none) : (tr ++ [l]).filterMap f = tr.filterMap f := by
  rw [filterMap_snoc, h, Option.toList_none, List.append_nil]

theorem filterMap_snoc_of_some {β : Type*} {f : L → Option β} {l : L} {b : β} (tr : List L)
    (h : f l = some b) : (tr ++ [l]).filterMap f = tr.filterMap f ++ [b] := by
  rw [filterMap_snoc, h]
  rfl

/-- Where no label before `l'` satisfies `p` and `l` does, `l'` stands before `l` or is `l`. -/
theorem mem_or_eq_of_first {p : L → Prop} {mid mid' rest' tr : List L} {l l' : L}
    (h : tr = mid ∨ ∃ rest, tr = mid ++ l :: rest) (h' : tr = mid' ++ l' :: rest') (hl : p l)
    (hmid' : ∀ x ∈ mid', ¬ p x) : l' ∈ mid ∨ l' = l := by
  rcases h with rfl | ⟨rest, rfl⟩
  · exact .inl (by simp [h'])
  · rcases List.append_eq_append_iff.mp h' with ⟨c, rfl, hc⟩ | ⟨c, rfl, hc⟩
    · cases c with
      | nil => exact .inr (List.cons_eq_cons.mp hc).1.symm
      | cons x c =>
          obtain ⟨rfl, -⟩ := List.cons_eq_cons.mp hc
          exact absurd hl (hmid' _ (by simp))
    · cases c with
      | nil => exact .inr (List.cons_eq_cons.mp hc).1
      | cons x c =>
          obtain ⟨rfl, -⟩ := List.cons_eq_cons.mp hc
          exact .inl (by simp)

section Run

/-- From `s`, the labels `tr` in order lead to the last argument. -/
inductive Run (Step : σ → L → σ → Prop) (s : σ) : List L → σ → Prop
  | nil : Run Step s [] s
  | snoc {tr : List L} {t u : σ} {l : L} :
      Run Step s tr t → Step t l u → Run Step s (tr ++ [l]) u

variable {Step : σ → L → σ → Prop} {s t u : σ} {tr tr₁ tr₂ : List L} {l : L}

namespace Run

/-- A single step is a run of one label. -/
theorem single (h : Step s l t) : Run Step s [l] t := by
  rw [← List.nil_append [l]]
  exact snoc nil h

/-- Runs compose. -/
theorem append (h₁ : Run Step s tr₁ t) (h₂ : Run Step t tr₂ u) :
    Run Step s (tr₁ ++ tr₂) u := by
  induction h₂ with
  | nil => simpa using h₁
  | snoc _ hstep ih =>
      rw [← List.append_assoc]
      exact snoc ih hstep

/-- A run can be cut at any point of its trace. -/
theorem split (h : Run Step s (tr₁ ++ tr₂) u) :
    ∃ t, Run Step s tr₁ t ∧ Run Step t tr₂ u := by
  generalize htr : tr₁ ++ tr₂ = tr at h
  induction h generalizing tr₂ with
  | nil =>
      obtain ⟨rfl, rfl⟩ := List.append_eq_nil_iff.mp htr
      exact ⟨s, nil, nil⟩
  | @snoc tr' t' u' l' hrun hstep ih =>
      rcases List.eq_nil_or_concat tr₂ with rfl | ⟨tr₃, l₃, rfl⟩
      · rw [List.append_nil] at htr
        exact ⟨u', htr ▸ snoc hrun hstep, nil⟩
      · rw [List.concat_eq_append, ← List.append_assoc] at htr
        obtain ⟨hpre, hlast⟩ := List.append_inj' htr rfl
        obtain ⟨t, h₁, h₂⟩ := ih hpre
        obtain rfl : l₃ = l' := by simpa using hlast
        exact ⟨t, h₁, by rw [List.concat_eq_append]; exact snoc h₂ hstep⟩

theorem nil_iff : Run Step s [] t ↔ s = t := by
  constructor
  · intro h
    generalize htr : ([] : List L) = tr at h
    cases h with
    | nil => rfl
    | snoc => simp at htr
  · rintro rfl
    exact nil

/-- The last step of a nonempty run. -/
theorem snoc_iff : Run Step s (tr ++ [l]) u ↔ ∃ t, Run Step s tr t ∧ Step t l u := by
  constructor
  · intro h
    generalize htr : tr ++ [l] = tr' at h
    cases h with
    | nil => simp at htr
    | snoc hrun hstep =>
        obtain ⟨rfl, hl⟩ := List.append_inj' htr rfl
        obtain rfl := List.singleton_inj.mp hl
        exact ⟨_, hrun, hstep⟩
  · rintro ⟨t, hrun, hstep⟩
    exact snoc hrun hstep

theorem single_iff : Run Step s [l] u ↔ Step s l u := by
  rw [← List.nil_append [l], snoc_iff]
  constructor
  · rintro ⟨t, h, hstep⟩
    obtain rfl := nil_iff.mp h
    exact hstep
  · exact fun h => ⟨s, nil, h⟩

/-- The first step of a nonempty run. -/
theorem cons_iff : Run Step s (l :: tr) u ↔ ∃ t, Step s l t ∧ Run Step t tr u := by
  constructor
  · intro h
    rw [← List.singleton_append] at h
    obtain ⟨t, h₁, h₂⟩ := split h
    exact ⟨t, single_iff.mp h₁, h₂⟩
  · rintro ⟨t, hstep, hrun⟩
    exact append (single hstep) hrun

/-- The step at a label in the middle of a trace. -/
theorem step_at {pre post : List L} (h : Run Step s (pre ++ l :: post) u) :
    ∃ t t', Run Step s pre t ∧ Step t l t' ∧ Run Step t' post u := by
  obtain ⟨t, hpre, hrest⟩ := split h
  obtain ⟨t', hstep, hpost⟩ := cons_iff.mp hrest
  exact ⟨t, t', hpre, hstep, hpost⟩

/-- Induction along a run: a property of the trace so far and the state reached holds at the
end if it holds at the start and every further step keeps it. -/
theorem history {P : List L → σ → Prop} (h : Run Step s tr t) (h0 : P [] s)
    (hstep : ∀ tr t l u, Run Step s tr t → P tr t → Step t l u → P (tr ++ [l]) u) :
    P tr t := by
  induction h with
  | nil => exact h0
  | snoc hrun hlast ih => exact hstep _ _ _ _ hrun ih hlast

/-- A state property kept by every step whose label satisfies `Q` holds after every run all of
whose labels satisfy `Q`. -/
theorem invariant {Q : L → Prop} {P : σ → Prop} (h : Run Step s tr t)
    (hQ : ∀ l ∈ tr, Q l) (h0 : P s) (hstep : ∀ t l u, P t → Step t l u → Q l → P u) :
    P t := by
  refine history (P := fun tr t => (∀ l ∈ tr, Q l) → P t) h (fun _ => h0) ?_ hQ
  intro tr t l u _ ih hlast hQ'
  rw [List.forall_mem_append, List.forall_mem_singleton] at hQ'
  exact hstep t l u (ih hQ'.1) hlast hQ'.2

/-- A simulation of the steps whose label satisfies `Q` is a simulation of the runs all of
whose labels satisfy `Q`. -/
theorem simulates {Step' : τ → L → τ → Prop} {R : σ → τ → Prop} {Q : L → Prop} {q : τ}
    (h : Run Step s tr t) (hQ : ∀ l ∈ tr, Q l) (h0 : R s q)
    (hstep : ∀ t q l u, R t q → Step t l u → Q l → ∃ q', Step' q l q' ∧ R u q') :
    ∃ q', Run Step' q tr q' ∧ R t q' := by
  refine history (P := fun tr t => (∀ l ∈ tr, Q l) → ∃ q', Run Step' q tr q' ∧ R t q')
    h (fun _ => ⟨q, nil, h0⟩) ?_ hQ
  intro tr t l u _ ih hlast hQ'
  rw [List.forall_mem_append, List.forall_mem_singleton] at hQ'
  obtain ⟨q₁, hrun, hR⟩ := ih hQ'.1
  obtain ⟨q₂, hq, hR'⟩ := hstep t q₁ l u hR hlast hQ'.2
  exact ⟨q₂, snoc hrun hq, hR'⟩

/-- Steps satisfying `Q` that the predicate `keep` rejects leave the state alone: dropping
their labels leaves a run. -/
theorem filter {Step' : σ → L → σ → Prop} {Q : L → Prop} {keep : L → Bool}
    (h : Run Step s tr t) (hQ : ∀ l ∈ tr, Q l)
    (hkeep : ∀ t l u, Step t l u → Q l → keep l = true → Step' t l u)
    (hdrop : ∀ t l u, Step t l u → Q l → keep l = false → u = t) :
    Run Step' s (tr.filter keep) t := by
  refine history (P := fun tr t => (∀ l ∈ tr, Q l) → Run Step' s (tr.filter keep) t)
    h (fun _ => nil) ?_ hQ
  intro tr t l u _ ih hlast hQ'
  rw [List.forall_mem_append, List.forall_mem_singleton] at hQ'
  rw [List.filter_append]
  cases hl : keep l with
  | true => simpa [hl] using snoc (ih hQ'.1) (hkeep t l u hlast hQ'.2 hl)
  | false =>
      obtain rfl := hdrop t l u hlast hQ'.2 hl
      simpa [hl] using ih hQ'.1

/-- Where each step takes off the front of a FIFO what it hands out and appends what it puts in, so
does a run: what was in it and what was put in is what was handed out and what is left. -/
theorem fifo {β : Type*} (put got : L → Option β) (contents : σ → List β) (h : Run Step s tr t)
    (hstep : ∀ t l u, Step t l u →
      contents t ++ (put l).toList = (got l).toList ++ contents u) :
    contents s ++ tr.filterMap put = tr.filterMap got ++ contents t := by
  refine history (P := fun tr t => contents s ++ tr.filterMap put = tr.filterMap got ++ contents t)
    h (by simp) ?_
  intro tr t l u _ ih hlast
  rw [filterMap_snoc, filterMap_snoc, ← List.append_assoc, ih, List.append_assoc,
    hstep t l u hlast, List.append_assoc]

/-- Where every state satisfying `P` is `Done` or has a step to another such state of smaller
measure, a run leads from each of them to one that is `Done`. -/
theorem exists_of_measure {P Done : σ → Prop} (f : σ → ℕ)
    (hstep : ∀ s, P s → ¬ Done s → ∃ l t, Step s l t ∧ P t ∧ f t < f s) (h : P s) :
    ∃ tr t, Run Step s tr t ∧ Done t := by
  induction hf : f s using Nat.strongRecOn generalizing s with
  | ind k ih =>
      by_cases hd : Done s
      · exact ⟨[], s, nil, hd⟩
      · obtain ⟨l, t, hst, hP, hlt⟩ := hstep s h hd
        obtain ⟨tr, u, hrun, hu⟩ := ih (f t) (hf ▸ hlt) hP rfl
        exact ⟨l :: tr, u, cons_iff.mpr ⟨t, hst, hrun⟩, hu⟩

end Run

/-- In the trace there is a label satisfying `start` behind which all satisfy `quiet`. -/
def Since (start quiet : L → Prop) (tr : List L) : Prop :=
  ∃ a l b, tr = a ++ l :: b ∧ start l ∧ ∀ l' ∈ b, quiet l'

namespace Since

variable {start quiet : L → Prop} {tr : List L} {l : L}

/-- A label that satisfies `start` begins anew. -/
theorem self (tr : List L) (hl : start l) : Since start quiet (tr ++ [l]) :=
  ⟨tr, l, [], rfl, hl, nofun⟩

/-- A quiet label goes on. -/
theorem snoc (h : Since start quiet tr) (hl : quiet l) : Since start quiet (tr ++ [l]) := by
  obtain ⟨a, l₀, b, rfl, hl₀, hb⟩ := h
  refine ⟨a, l₀, b ++ [l], by simp, hl₀, ?_⟩
  rw [List.forall_mem_append, List.forall_mem_singleton]
  exact ⟨hb, hl⟩

/-- Less may be asked of the quiet labels. -/
theorem mono {quiet' : L → Prop} (h : Since start quiet tr) (hq : ∀ l, quiet l → quiet' l) :
    Since start quiet' tr := by
  obtain ⟨a, l₀, b, rfl, hl₀, hb⟩ := h
  exact ⟨a, l₀, b, rfl, hl₀, fun l hl => hq l (hb l hl)⟩

/-- What does not satisfy `quiet` is not passed over. -/
theorem exists_mem_of_not_quiet {pre post : List L} (h : Since start quiet (pre ++ l :: post))
    (hl : ¬ quiet l) : start l ∨ ∃ l' ∈ post, start l' := by
  obtain ⟨a, l₀, b, htr, hl₀, hb⟩ := h
  rcases List.append_eq_append_iff.mp htr with ⟨c, rfl, hc⟩ | ⟨c, rfl, hc⟩
  · -- The start lies at `l` or behind it.
    rcases List.cons_eq_append_iff.mp hc with ⟨rfl, hc⟩ | ⟨c', rfl, rfl⟩
    · obtain ⟨rfl, -⟩ := List.cons_eq_cons.mp hc
      exact .inl hl₀
    · exact .inr ⟨l₀, by simp, hl₀⟩
  · -- The start lies before `l`, which then is among the quiet ones.
    rcases List.cons_eq_append_iff.mp hc with ⟨rfl, hc⟩ | ⟨c', rfl, rfl⟩
    · obtain ⟨rfl, -⟩ := List.cons_eq_cons.mp hc
      exact .inl hl₀
    · exact absurd (hb l (by simp)) hl

end Since

/-- What a `start` step establishes and the `quiet` steps keep holds at the end. -/
theorem Run.since {start quiet : L → Prop} {P : σ → Prop} (h : Run Step s tr t)
    (hsince : Since start quiet tr) (hstart : ∀ t l u, Step t l u → start l → P u)
    (hquiet : ∀ t l u, P t → Step t l u → quiet l → P u) : P t := by
  obtain ⟨a, l, b, rfl, hl, hb⟩ := hsince
  obtain ⟨u₀, u, -, hstep, hrun⟩ := step_at h
  exact invariant hrun hb (hstart u₀ l u hstep hl) hquiet

/-- Every label of the trace satisfies `P` together with the labels before it. -/
def Throughout (P : List L → L → Prop) (tr : List L) : Prop :=
  ∀ pre l post, tr = pre ++ l :: post → P pre l

namespace Throughout

variable {P : List L → L → Prop} {tr : List L} {l : L}

theorem nil : Throughout P [] := by
  intro pre l post htr
  simp at htr

theorem snoc (h : Throughout P tr) (hl : P tr l) : Throughout P (tr ++ [l]) := by
  intro pre l' post htr
  rcases List.eq_nil_or_concat post with rfl | ⟨post', l₂, rfl⟩
  · obtain ⟨rfl, hlast⟩ := List.append_inj' htr rfl
    obtain rfl : l = l' := by simpa using hlast
    exact hl
  · rw [List.concat_eq_append, ← List.cons_append, ← List.append_assoc] at htr
    obtain ⟨hpre, -⟩ := List.append_inj' htr rfl
    exact h pre l' post' hpre

theorem init (h : Throughout P (tr ++ [l])) : Throughout P tr := by
  rintro pre l' post rfl
  exact h pre l' (post ++ [l]) (by simp)

theorem last (h : Throughout P (tr ++ [l])) : P tr l := h tr l [] rfl

end Throughout

/-- A property of each label and the labels before it, read off an invariant of the labels so far
and the state reached; `Q` may be assumed of each label and those before it. -/
theorem Run.throughout {P Q : List L → L → Prop} {J : List L → σ → Prop} (h : Run Step s tr t)
    (hQ : Throughout Q tr) (h0 : J [] s)
    (hstep : ∀ tr t l u, J tr t → Step t l u → Q tr l → P tr l ∧ J (tr ++ [l]) u) :
    Throughout P tr ∧ J tr t := by
  refine history (P := fun tr t => Throughout Q tr → Throughout P tr ∧ J tr t) h
    (fun _ => ⟨Throughout.nil, h0⟩) ?_ hQ
  intro tr t l u _ ih hlast hQ'
  -- The assumption on the longer trace is one on the trace so far and one on the last label.
  obtain ⟨hP, hJ⟩ := ih hQ'.init
  obtain ⟨hPl, hJ'⟩ := hstep tr t l u hJ hlast hQ'.last
  exact ⟨hP.snoc hPl, hJ'⟩

/-- The run from `s` to `u` with the labels `tr` passes through `t`. -/
def Passes (Step : σ → L → σ → Prop) (s : σ) (tr : List L) (u t : σ) : Prop :=
  ∃ pre post, tr = pre ++ post ∧ Run Step s pre t ∧ Run Step t post u

namespace Passes

/-- A run passes through the state it ends in. -/
theorem last (h : Run Step s tr t) : Passes Step s tr t t := ⟨tr, [], by simp, h, .nil⟩

/-- A longer run passes through the states of the shorter one. -/
theorem snoc {v : σ} (h : Passes Step s tr t v) (hstep : Step t l u) :
    Passes Step s (tr ++ [l]) u v := by
  obtain ⟨pre, post, rfl, hpre, hpost⟩ := h
  exact ⟨pre, post ++ [l], by rw [List.append_assoc], hpre, hpost.snoc hstep⟩

end Passes

/-- The input a label consumes decides which step is taken: two steps from one state either
both consume an input or both consume none, and agree when the inputs agree. -/
def InputDetermined (Step : σ → L → σ → Prop) (input : L → Option I) : Prop :=
  ∀ ⦃s l₁ l₂ s₁ s₂⦄, Step s l₁ s₁ → Step s l₂ s₂ →
    ((input l₁).isSome = (input l₂).isSome) ∧ (input l₁ = input l₂ → l₁ = l₂ ∧ s₁ = s₂)

/-- Two runs of an input-determined system whose inputs are prefixes of one sequence: the trace
of one is a prefix of the trace of the other. -/
theorem Run.comparable {input : L → Option I} (hdet : InputDetermined Step input)
    {is : List I} {t₁ t₂ : σ} (h₁ : Run Step s tr₁ t₁) (h₂ : Run Step s tr₂ t₂)
    (hi₁ : tr₁.filterMap input <+: is) (hi₂ : tr₂.filterMap input <+: is) :
    tr₁ <+: tr₂ ∨ tr₂ <+: tr₁ := by
  induction tr₁ generalizing s tr₂ is with
  | nil => exact Or.inl (List.nil_prefix)
  | cons l₁ tr₁ ih =>
      cases tr₂ with
      | nil => exact Or.inr (List.nil_prefix)
      | cons l₂ tr₂ =>
          obtain ⟨s₁, hs₁, hr₁⟩ := cons_iff.mp h₁
          obtain ⟨s₂, hs₂, hr₂⟩ := cons_iff.mp h₂
          obtain ⟨hsome, hagree⟩ := hdet hs₁ hs₂
          -- The heads consume the same input, so they are the same step.
          have hsame : input l₁ = input l₂ := by
            cases hin₁ : input l₁ with
            | none =>
                rw [hin₁] at hsome
                exact (Option.isNone_iff_eq_none.mp (Option.isSome_eq_false_iff.mp hsome.symm)).symm
            | some i₁ =>
                rw [hin₁] at hsome
                obtain ⟨i₂, hin₂⟩ := Option.isSome_iff_exists.mp hsome.symm
                rw [List.filterMap_cons_some hin₁] at hi₁
                rw [List.filterMap_cons_some hin₂] at hi₂
                obtain ⟨r₁, rfl⟩ := hi₁
                have hhead := (List.cons_prefix_cons.mp hi₂).1
                rw [hin₂, hhead]
          obtain ⟨rfl, rfl⟩ := hagree hsame
          have htail : ∃ is', tr₁.filterMap input <+: is' ∧ tr₂.filterMap input <+: is' := by
            cases hin : input l₁ with
            | none =>
                rw [List.filterMap_cons_none hin] at hi₁ hi₂
                exact ⟨is, hi₁, hi₂⟩
            | some i =>
                rw [List.filterMap_cons_some hin] at hi₁ hi₂
                obtain ⟨r, rfl⟩ := hi₁
                exact ⟨tr₁.filterMap input ++ r, List.prefix_append _ _,
                  (List.cons_prefix_cons.mp hi₂).2⟩
          obtain ⟨is', hi₁', hi₂'⟩ := htail
          rcases ih hr₁ hr₂ hi₁' hi₂' with h | h
          · exact Or.inl (List.cons_prefix_cons.mpr ⟨rfl, h⟩)
          · exact Or.inr (List.cons_prefix_cons.mpr ⟨rfl, h⟩)

end Run

/-! ### Executing a partial step function -/

section Exec

/-- The labelled step relation of a partial step function. -/
def StepOf (step : σ → α → Option (σ × L)) (s : σ) (l : L) (t : σ) : Prop :=
  ∃ a, step s a = some (t, l)

/-- Run the actions in order, collecting the labels. -/
def exec (step : σ → α → Option (σ × L)) : σ → List α → Option (σ × List L)
  | s, [] => some (s, [])
  | s, a :: as =>
      match step s a with
      | none => none
      | some (t, l) => (exec step t as).map fun r => (r.1, l :: r.2)

/-- A successful execution is a run. -/
theorem run_of_exec {step : σ → α → Option (σ × L)} {s t : σ} {as : List α} {tr : List L}
    (h : exec step s as = some (t, tr)) : Run (StepOf step) s tr t := by
  induction as generalizing s tr with
  | nil =>
      obtain ⟨rfl, rfl⟩ : s = t ∧ [] = tr := by simpa [exec] using h
      exact .nil
  | cons a as ih =>
      unfold exec at h
      split at h
      · cases h
      next u l hstep =>
        obtain ⟨⟨t', tr'⟩, hrest, hpair⟩ := Option.map_eq_some_iff.mp h
        obtain ⟨rfl, rfl⟩ : t' = t ∧ l :: tr' = tr := by simpa using hpair
        exact Run.cons_iff.mpr ⟨u, ⟨a, hstep⟩, ih hrest⟩

/-- The state and the labels after the actions, or nothing done if they get stuck. -/
def play (step : σ → α → Option (σ × L)) (s : σ) (as : List α) : σ × List L :=
  (exec step s as).getD (s, [])

/-- Playing actions is a run. -/
theorem run_play (step : σ → α → Option (σ × L)) (s : σ) (as : List α) :
    Run (StepOf step) s (play step s as).2 (play step s as).1 := by
  unfold play
  cases h : exec step s as with
  | none => exact .nil
  | some r => exact run_of_exec h

end Exec

end LabelledSystem
