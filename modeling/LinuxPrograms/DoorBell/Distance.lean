import LinuxPrograms.DoorBell.System

/-!
# Door bell: the distance file

`get_value` takes the byte at offset 0 for the value and the byte at offset 2 for the status. In a
file with a numeral on its first line and the status on the second these are the first digit and,
depending on the length of the numeral, the status, the end of the line or the third digit.

- `getValue_distanceFile`: what is read.
- `distance_iff`: for which numbers the distance thread gives the right answer.
-/

namespace DoorBell

open CString

/-! ## Numerals -/

/-- The digit of `n` at the place `k`, counted from the left. -/
def digit (n k : ℕ) : Option ℕ := (Nat.toDigits 10 n)[k]?.map fun c => c.toNat - 48

/-- Each digit is one byte of the numeral. -/
theorem getElem?_text_repr (n k : ℕ) :
    (text n.repr)[k]? = (digit n k).map fun d => .ofNat (48 + d) := by
  rw [text, Nat.toList_repr, List.getElem?_map, digit, Option.map_map]
  cases hc : (Nat.toDigits 10 n)[k]? with
  | none => rfl
  | some c =>
      have hdigit := Char.isDigit_iff_toNat.mp
        (Nat.isDigit_of_mem_toDigits (by decide) (by decide) (List.mem_of_getElem? hc))
      have hlow : 48 ≤ c.toNat := hdigit.1
      simp only [Option.map_some, Function.comp_apply, Option.some.injEq]
      rw [Nat.add_sub_cancel' hlow]

theorem digit_le {n k d : ℕ} (h : digit n k = some d) : d ≤ 9 := by
  obtain ⟨c, hc, rfl⟩ := Option.map_eq_some_iff.mp h
  have hdigit := Char.isDigit_iff_toNat.mp
    (Nat.isDigit_of_mem_toDigits (by decide) (by decide) (List.mem_of_getElem? hc))
  have hhigh : c.toNat ≤ 57 := hdigit.2
  omega

/-- A number below 100 has no third digit. -/
theorem digit_eq_none {n : ℕ} (h : n < 100) : digit n 2 = none := by
  have hlen : (Nat.toDigits 10 n).length ≤ 2 :=
    (Nat.length_toDigits_le_iff (by decide) (by decide)).mpr h
  rw [digit, Option.map_eq_none_iff, List.getElem?_eq_none_iff]
  exact hlen

theorem digit_zero_of_lt {n : ℕ} (h : n < 10) : digit n 0 = some n := by
  rw [digit, Nat.toDigits_of_lt_base h]
  revert h
  revert n
  decide

/-- The byte of a digit, read as a digit. -/
theorem toNat_ofNat_sub {d : ℕ} (h : d ≤ 9) : ((UInt8.ofNat (48 + d)).toNat : ℤ) - 48 = d := by
  rw [UInt8.toNat_ofNat_of_lt' (by rw [UInt8.size]; omega)]
  omega

/-! ## The file -/

/-- The distance file with the numeral of `n` on its first line and the status on the second: `0`
where the sensor works, `1` where it does not. Nothing fails when it is read. -/
def distanceFile (n : ℕ) (working : Bool) (rest : List UInt8) : SensorFile where
  content := some (text n.repr ++ 10 :: (if working then 48 else 49) :: rest)
  fseek := true
  fclose := true

/-- What the byte at offset 2 makes of the status: it is the third digit, the end of the line behind
two digits, or the status. -/
def statusRead (n : ℕ) (working : Bool) : ℤ :=
  (digit n 2).elim (if 10 ≤ n then 10 - 48 else if working then 0 else 1) fun d => d

section File

variable {n : ℕ} {working : Bool} {rest : List UInt8}

/-- The byte at offset 2. -/
theorem getElem?_two (n : ℕ) (working : Bool) (rest : List UInt8) :
    ∃ b : UInt8, (text n.repr ++ 10 :: (if working then 48 else 49) :: rest)[2]? = some b ∧
      (b.toNat : ℤ) - 48 = statusRead n working := by
  rw [statusRead]
  cases hd : digit n 2 with
  | some d =>
      -- The numeral reaches beyond the offset.
      have hbyte := getElem?_text_repr n 2
      rw [hd, Option.map_some] at hbyte
      obtain ⟨hlt, -⟩ := List.getElem?_eq_some_iff.mp hbyte
      exact ⟨_, by rw [List.getElem?_append_left hlt, hbyte], toNat_ofNat_sub (digit_le hd)⟩
  | none =>
      have hlen := length_text_repr n
      have htwo : (Nat.toDigits 10 n).length ≤ 2 := by
        rw [digit, Option.map_eq_none_iff, List.getElem?_eq_none_iff] at hd
        exact hd
      have hone : (Nat.toDigits 10 n).length ≤ 1 ↔ n < 10 :=
        Nat.length_toDigits_le_iff (by decide) (by decide)
      have hpos : 0 < (Nat.toDigits 10 n).length := Nat.length_toDigits_pos
      rw [List.getElem?_append_right (by rw [hlen]; exact htwo), hlen]
      -- The numeral has one digit or two.
      by_cases hn : n < 10
      · -- Behind one digit and the end of the line stands the status.
        have hlen1 : (Nat.toDigits 10 n).length = 1 := by omega
        have hshort : ¬ 10 ≤ n := by omega
        simp only [hlen1, if_neg hshort]
        cases working with
        | true => exact ⟨48, rfl, rfl⟩
        | false => exact ⟨49, rfl, rfl⟩
      · -- Behind two digits stands the end of the line.
        have hlen2 : (Nat.toDigits 10 n).length = 2 := by omega
        have hlong : 10 ≤ n := by omega
        simp only [hlen2, if_pos hlong]
        exact ⟨10, rfl, rfl⟩

/-- The value read is the first digit. -/
theorem getValue_distanceFile (n : ℕ) (working : Bool) (rest : List UInt8) :
    ∃ d, digit n 0 = some d ∧
      getValue (distanceFile n working rest) = some ⟨d, statusRead n working⟩ := by
  obtain ⟨d, hd⟩ : ∃ d, digit n 0 = some d := by
    rw [← Option.isSome_iff_exists, digit, Option.isSome_map]
    simp [Nat.length_toDigits_pos]
  have hzero : (text n.repr)[0]? = some (.ofNat (48 + d)) := by
    rw [getElem?_text_repr, hd, Option.map_some]
  obtain ⟨hlt, -⟩ := List.getElem?_eq_some_iff.mp hzero
  obtain ⟨b, htwo, hstatus⟩ := getElem?_two n working rest
  refine ⟨d, hd, ?_⟩
  rw [getValue, distanceFile]
  simp only [List.getElem?_append_left hlt, hzero, htwo, hstatus, toNat_ofNat_sub (digit_le hd)]
  rfl

end File

/-! ## The answer -/

/-- What the ReadMe asks for where the sensor works. -/
def classified (n : ℕ) : Event := if 4 ≤ n ∧ n ≤ 8 then .validDistance else .invalidDistance

/-- What the ReadMe asks for: the status decides, and behind it the distance. -/
def rightAnswer (n : ℕ) (working : Bool) : Event :=
  if working then classified n else .ecuNotWorking

theorem classified_ne (n : ℕ) : classified n ≠ .ecuNotWorking := by
  rw [classified]
  split <;> rintro ⟨⟩

theorem classified_eq_iff {n d : ℕ} :
    classified n = classified d ↔ (4 ≤ n ∧ n ≤ 8 ↔ 4 ≤ d ∧ d ≤ 8) := by
  rw [classified, classified]
  by_cases hn : 4 ≤ n ∧ n ≤ 8 <;> by_cases hd : 4 ≤ d ∧ d ≤ 8 <;> simp [hn, hd]

/-- The thread classifies the value it read as the ReadMe does the number. -/
theorem distanceEvent_of_working {d : ℕ} {status : ℤ} (h : status = 0) :
    distanceEvent ⟨d, status⟩ = classified d := by
  have hmin : (4 : ℤ) ≤ d ↔ 4 ≤ d := by omega
  have hmax : (d : ℤ) ≤ 8 ↔ d ≤ 8 := by omega
  simp only [distanceEvent, classified, ecuWorking, minDistance, maxDistance, h, if_true, hmin,
    hmax]

theorem distanceEvent_of_failed {value status : ℤ} (h : status ≠ 0) :
    distanceEvent ⟨value, status⟩ = .ecuNotWorking :=
  if_neg h

/-- Given this file for `CALC_DISTANCE`, the distance thread goes on to post `e`. -/
def DistanceAnswers (s : State) (file : SensorFile) (e : Event) : Prop :=
  ∃ data, distanceCalculatorThread s (.file file) =
    some (s.setWorkerPos .distance (.post e), .getValue .distance (some data))

/-- The numbers for which the answer is right: those of one digit; of the others, where the sensor
works, those whose third digit is 0 and whose first is no distance in the range, and where it does
not work, those whose third digit is not 0. -/
def Readable (n : ℕ) (working : Bool) : Prop :=
  if working then n < 10 ∨ digit n 2 = some 0 ∧ ∀ d, digit n 0 = some d → ¬ (4 ≤ d ∧ d ≤ 8)
  else digit n 2 ≠ some 0

section Answer

variable {s : State} {n : ℕ} {working : Bool} {rest : List UInt8} {e : Event}

/-- The thread posts what it decides on the reading. -/
theorem answers_iff (hpos : (s.worker .distance).pos = .switch .calcDistance) {file : SensorFile}
    {data : ReadData} (hread : getValue file = some data) :
    DistanceAnswers s file e ↔ e = distanceEvent data := by
  simp only [DistanceAnswers, distanceCalculatorThread, hpos, hread]
  constructor
  · -- The event can be read off the position behind the step.
    rintro ⟨data', h⟩
    have hworker := congrArg State.worker (Prod.mk.inj (Option.some.inj h)).1
    have hself := congrArg WorkerThread.pos (congrFun hworker .distance)
    simp only [State.setWorkerPos, Function.update_self] at hself
    exact (WorkerPos.post.inj hself).symm
  · rintro rfl
    exact ⟨data, rfl⟩

/-- Where the value and the status are read as they are written, the decision is right. -/
theorem distanceEvent_of_lt (hn : n < 10) :
    distanceEvent ⟨n, statusRead n working⟩ = rightAnswer n working := by
  have hthree : digit n 2 = none := digit_eq_none (by omega)
  have hshort : ¬ 10 ≤ n := by omega
  simp only [statusRead, hthree, if_neg hshort, rightAnswer]
  cases working with
  | true => exact distanceEvent_of_working rfl
  | false => exact distanceEvent_of_failed (by decide)

/-- The decision, digit by digit. -/
theorem distanceEvent_eq_iff {d : ℕ} (hd : digit n 0 = some d) :
    rightAnswer n working = distanceEvent ⟨d, statusRead n working⟩ ↔ Readable n working := by
  by_cases hn : n < 10
  · have hthree : digit n 2 = none := digit_eq_none (by omega)
    obtain rfl : n = d := Option.some.inj ((digit_zero_of_lt hn).symm.trans hd)
    simp [distanceEvent_of_lt hn, Readable, hthree, hn]
  · have hfar : ¬ (4 ≤ n ∧ n ≤ 8) := by omega
    -- Which event is decided depends on the status read being that of a working sensor.
    have hzero : statusRead n working = 0 ↔ digit n 2 = some 0 := by
      cases ht : digit n 2 with
      | some t => simp [statusRead, ht]
      | none => simp [statusRead, ht, Nat.not_lt.mp hn]
    by_cases ht : digit n 2 = some 0
    · rw [distanceEvent_of_working (hzero.mpr ht)]
      cases working with
      | true => simp [rightAnswer, Readable, classified_eq_iff, hfar, hn, ht, hd]
      | false => simp [rightAnswer, Readable, ht, (classified_ne d).symm]
    · rw [distanceEvent_of_failed (fun h => ht (hzero.mp h))]
      cases working with
      | true => simp [rightAnswer, Readable, ht, hn, classified_ne]
      | false => simp [rightAnswer, Readable, ht]

/-- For which numbers and statuses the distance thread gives the right answer. -/
theorem distance_iff (hpos : (s.worker .distance).pos = .switch .calcDistance) (n : ℕ)
    (working : Bool) (rest : List UInt8) :
    DistanceAnswers s (distanceFile n working rest) (rightAnswer n working) ↔
      Readable n working := by
  obtain ⟨d, hd, hread⟩ := getValue_distanceFile n working rest
  rw [answers_iff hpos hread, distanceEvent_eq_iff hd]

/-- At five units from the door the thread answers `VALID_DISTANCE`. -/
theorem distance_iff_five :
    DistanceAnswers (State.init.setWorkerPos .distance (.switch .calcDistance))
        (distanceFile 5 true []) .validDistance ↔ Readable 5 true :=
  distance_iff (by simp [State.setWorkerPos]) 5 true []

/-- At five hundred units the first and the third digit are read as a working sensor and a visitor
five units away; at twelve the end of the first line is read as a failed sensor. -/
theorem not_distance :
    let s := State.init.setWorkerPos .distance (.switch .calcDistance)
    ¬ DistanceAnswers s (distanceFile 500 true []) (rightAnswer 500 true) ∧
      DistanceAnswers s (distanceFile 500 true []) .validDistance ∧
      ¬ DistanceAnswers s (distanceFile 12 true []) (rightAnswer 12 true) ∧
      DistanceAnswers s (distanceFile 12 true []) .ecuNotWorking := by
  intro s
  have hpos : (s.worker .distance).pos = .switch .calcDistance := by simp [s, State.setWorkerPos]
  have hfar : getValue (distanceFile 500 true []) = some ⟨5, 0⟩ := by decide
  have htwelve : getValue (distanceFile 12 true []) = some ⟨1, 10 - 48⟩ := by decide
  simp only [answers_iff hpos hfar, answers_iff hpos htwelve]
  decide

end Answer

end DoorBell
