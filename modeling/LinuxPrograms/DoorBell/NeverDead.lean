import LinuxPrograms.DoorBell.Steady

/-!
# Door bell: when the activity is lost

With every call succeeding, the one step that hands the activity to nobody is a door reading
after a ring that is neither `DOOR_OPEN` nor `DOOR_CLOSED`: the `case` has no `else`. So the
process always has something in flight exactly if there is no such reading (`never_dead_iff`).
-/

namespace DoorBell

open CString LabelledSystem

/-- The door is read open or closed. -/
def ReadData.DoorKnown (data : ReadData) : Prop :=
  data.value = doorOpen ∨ data.value = doorClosed

/-- The door reading loses the activity exactly if it is neither open nor closed. -/
theorem doorPlace_eq_lost_iff (data : ReadData) : doorPlace data = .lost ↔ ¬ data.DoorKnown := by
  unfold doorPlace ReadData.DoorKnown
  by_cases ho : data.value = doorOpen
  · simp [ho]
  · by_cases hc : data.value = doorClosed
    · rw [hc] at ho
      simp [hc, ho]
    · simp [ho, hc]

/-- The activity is lost only at a door reading that is neither open nor closed. -/
theorem Steady.eq_door_of_lost {q q' : Activity} {l : Label} (h : Steady q l q')
    (hq : q.place ≠ .lost) (hq' : q'.place = .lost) :
    ∃ data : ReadData, l = .getValue .door (some data) ∧ ¬ data.DoorKnown := by
  obtain ⟨hadv, hl, hout⟩ := h
  cases hadv with
  -- A call hands the activity on unless it fails.
  | send ok | post ok | start ok =>
      obtain rfl : ok = true := hl
      cases hq'
  | door data => exact ⟨data, rfl, (doorPlace_eq_lost_iff data).mp hq'⟩
  -- Unlike the reading after a ring, the poll of an open door has an `else`.
  | poll data =>
      simp only [pollPlace] at hq'
      split_ifs at hq'
  | execlFail => cases hl
  | outside h => exact absurd (by rw [← hq', hout h]) hq
  | _ => cases hq'

/-- While every door reading is open or closed, the activity is not lost. -/
theorem place_ne_lost_of_doorKnown {tr : List Label} {q : Activity} (h : Run Steady .init tr q)
    (hdoor : ∀ data ∈ tr.filterMap Label.doorReading, data.DoorKnown) : q.place ≠ .lost := by
  refine Run.invariant (Q := fun l => ∀ data : ReadData, l = .getValue .door (some data) →
    data.DoorKnown) (P := fun q => q.place ≠ .lost) h ?_ nofun ?_
  · rintro l hl data rfl
    exact hdoor data (mem_doorReadings_iff.mpr hl)
  · intro q l q' hq hstep hl hq'
    obtain ⟨data, rfl, hdata⟩ := hstep.eq_door_of_lost hq hq'
    exact hdata (hl data rfl)

/-- In a run in which every call succeeds, something is in flight in every state the run passes
through, exactly if every door reading after a ring is open or closed. -/
theorem never_dead_iff {tr : List Label} {s : State} (h : Reaches tr s)
    (hok : ∀ l ∈ tr, l.succeeds = true) :
    (∀ t, Passes Step .init tr s t → 1 ≤ t.inFlight) ↔
      ∀ data ∈ tr.filterMap Label.doorReading, data.DoorKnown := by
  constructor
  · intro hlive data hmem
    rw [mem_doorReadings_iff] at hmem
    -- After a reading that is neither, the state the run passes through has nothing in flight.
    by_contra hdata
    obtain ⟨pre, post, rfl⟩ := List.append_of_mem hmem
    rw [← List.singleton_append, ← List.append_assoc] at h
    obtain ⟨t, hpre, hpost⟩ := Run.split h
    have ht := hlive t ⟨pre ++ [.getValue .door (some data)], post, by simp, hpre, hpost⟩
    obtain ⟨q, hq, hshape, -⟩ := Reaches.steady hpre fun l hl => hok l (by
      rw [List.mem_append, List.mem_singleton] at hl
      rcases hl with hl | rfl
      · exact List.mem_append_left _ hl
      · exact hmem)
    obtain ⟨q₀, -, hadv, -, -⟩ := Run.snoc_iff.mp hq
    have hlost : q.place = .lost := by
      rw [hadv.eq_of_door.2]
      exact (doorPlace_eq_lost_iff data).mpr hdata
    rw [hshape.inFlight_eq, if_pos hlost] at ht
    omega
  · -- Every state passed through ends a run of its own, with no more readings.
    rintro hdoor t ⟨pre, post, rfl, hpre, -⟩
    obtain ⟨q, hq, hshape, -⟩ := Reaches.steady hpre fun l hl => hok l (List.mem_append_left _ hl)
    have hplace := place_ne_lost_of_doorKnown hq fun data hmem => hdoor data (by
      rw [List.filterMap_append]
      exact List.mem_append_left _ hmem)
    rw [hshape.inFlight_eq, if_neg hplace]

section Examples

open Schedule

/-- The door's sensor file starts with `2`: after the ring all four threads wait, nothing is
left for them, and no timer runs. -/
theorem not_never_dead :
    ¬ ∀ tr s, Reaches tr s → (∀ l ∈ tr, l.succeeds = true) →
      (∀ site, .getValue site none ∉ tr) → 1 ≤ s.inFlight := by
  intro hlive
  have hone := hlive _ _ (run_play step .init (startUp ++ motion ++ distance ++ ring ++
    [.run .monitor (sensor 2 0)])) (by decide +kernel) (by
      rintro (_ | _ | _ | _) <;> decide +kernel)
  revert hone
  decide +kernel

/-- A visit with a closed door meets the condition. -/
theorem never_dead_iff_closed :
    ∃ tr s, Reaches tr s ∧ tr.filterMap Label.doorReading = [⟨1, 0⟩] ∧
      ((∀ t, Passes Step .init tr s t → 1 ≤ t.inFlight) ↔
        ∀ data ∈ tr.filterMap Label.doorReading, data.DoorKnown) := by
  have hrun := run_play step .init (startUp ++ motion ++ distance ++ ring ++ waitClosed)
  refine ⟨_, _, hrun, ?_, never_dead_iff hrun ?_⟩
  · decide +kernel
  · decide +kernel

end Examples

end DoorBell
