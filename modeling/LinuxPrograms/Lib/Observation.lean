import LinuxPrograms.Lib.LabelledSystem

/-!
# Observations of a system

A system whose labels are shown in part: `obs l` is what a label shows, if it shows anything. Two
rules compare what its runs show with the runs of a system on the shown labels alone.

- `Run.observed`: if every step is matched by a step with the shown label, or by none where nothing
  is shown, then what a run shows is a run of the other system.
- `Run.realized`: if every step of the other system is what some run shows, then so is every run.

A third says that what can be done only before something holds, and makes it hold for good, is done
at most once: `Run.once`.
-/

namespace LabelledSystem

variable {σ τ L M : Type*} {Step : σ → L → σ → Prop} {Step' : τ → M → τ → Prop}
  {obs : L → Option M} {R : σ → τ → Prop} {Q : L → Prop} {s t : σ} {q q' : τ}

/-- What a run shows is a run. -/
theorem Run.observed {tr : List L} (h : Run Step s tr t) (hQ : ∀ l ∈ tr, Q l) (h0 : R s q)
    (hstep : ∀ t q l u, R t q → Step t l u → Q l →
      ∃ q', Run Step' q (obs l).toList q' ∧ R u q') :
    ∃ q', Run Step' q (tr.filterMap obs) q' ∧ R t q' := by
  refine h.history (P := fun tr t => (∀ l ∈ tr, Q l) →
    ∃ q', Run Step' q (tr.filterMap obs) q' ∧ R t q') (fun _ => ⟨q, .nil, h0⟩) ?_ hQ
  intro tr t l u _ ih hlast hQ'
  rw [List.forall_mem_append, List.forall_mem_singleton] at hQ'
  obtain ⟨q₁, hrun, hR⟩ := ih hQ'.1
  obtain ⟨q₂, hshown, hR'⟩ := hstep t q₁ l u hR hlast hQ'.2
  refine ⟨q₂, ?_, hR'⟩
  rw [filterMap_snoc]
  exact hrun.append hshown

/-- Every run is what some run shows. -/
theorem Run.realized {tr : List M} (h : Run Step' q tr q') (h0 : R s q)
    (hstep : ∀ s q m q', R s q → Step' q m q' → ∃ tr s', Run Step s tr s' ∧
      tr.filterMap obs = [m] ∧ (∀ l ∈ tr, Q l) ∧ R s' q') :
    ∃ tr' s', Run Step s tr' s' ∧ tr'.filterMap obs = tr ∧ (∀ l ∈ tr', Q l) ∧ R s' q' := by
  refine h.history (P := fun tr q' => ∃ tr' s', Run Step s tr' s' ∧ tr'.filterMap obs = tr ∧
    (∀ l ∈ tr', Q l) ∧ R s' q') ⟨[], s, .nil, rfl, by simp, h0⟩ ?_
  rintro tr q m q' - ⟨tr₁, s₁, hrun, hobs, hQ, hR⟩ hlast
  obtain ⟨tr₂, s₂, hnext, hobs', hQ', hR'⟩ := hstep s₁ q m q' hR hlast
  refine ⟨tr₁ ++ tr₂, s₂, hrun.append hnext, ?_, ?_, hR'⟩
  · rw [List.filterMap_append, hobs, hobs']
  · rw [List.forall_mem_append]
    exact ⟨hQ, hQ'⟩

/-- If showing `b` needs that `P b` does not hold yet, and makes it hold for good, then a run shows
`b` at most once. -/
theorem Run.once {β : Type*} {f : L → Option β} {P : β → σ → Prop} {tr : List L}
    (h : Run Step s tr t) (hstays : ∀ t l u b, Step t l u → P b t → P b u)
    (hdoes : ∀ t l u b, Step t l u → f l = some b → ¬ P b t ∧ P b u) :
    (tr.filterMap f).Nodup ∧ ∀ b ∈ tr.filterMap f, P b t := by
  refine h.history (P := fun tr t => (tr.filterMap f).Nodup ∧ ∀ b ∈ tr.filterMap f, P b t)
    ⟨List.nodup_nil, fun b hb => absurd hb List.not_mem_nil⟩ ?_
  rintro tr t l u - ⟨hnodup, hP⟩ hlast
  have hP' : ∀ b ∈ tr.filterMap f, P b u := fun b hb => hstays t l u b hlast (hP b hb)
  cases hl : f l with
  | none =>
      rw [filterMap_snoc_of_none tr hl]
      exact ⟨hnodup, hP'⟩
  | some b =>
      obtain ⟨hbefore, hafter⟩ := hdoes t l u b hlast hl
      rw [filterMap_snoc_of_some tr hl]
      refine ⟨?_, fun b' hb' => ?_⟩
      · refine List.nodup_append.mpr ⟨hnodup, by simp, ?_⟩
        rintro b' hb' b'' hnew rfl
        obtain rfl := List.mem_singleton.mp hnew
        exact hbefore (hP b' hb')
      · rcases List.mem_append.mp hb' with hold | hnew
        · exact hP' b' hold
        · obtain rfl := List.mem_singleton.mp hnew
          exact hafter

end LabelledSystem
