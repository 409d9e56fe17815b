import LinuxPrograms.CondVar.Rotation

/-!
# Progress of the three threads

A signal nobody waits for is lost, and so may be the last one meant for a thread: if a thread
begins its last wait behind the last signals of the two others, nobody wakes it any more.

- `Ring`: what holds in every run of the positions of the three threads.
- `Timely`: the second of the last signals on a condition variable finds its thread in its last
  wait or past it. `SafeStep`: a step that is timely.
- `completes_iff`: the runs of timely steps are those behind which every thread can complete its
  rounds and return, and they do not deadlock.
-/

namespace CondRotation

open LabelledSystem

/-! ## What holds in every run -/

/-- The positions of the three threads and the owner of the mutex. -/
structure Ring (n : ℕ) (s : State) : Prop where
  ok : ∀ i, (s.pos i).Ok n
  mutex : ∀ i, s.lock = some i ↔ (s.pos i).Holds
  /-- A thread about to wait has woken the next one. -/
  awake : ∀ i j, s.pos i = .wait j → ∀ k, s.pos i.next ≠ .asleep k
  some_awake : ∃ i, ∀ k, s.pos i ≠ .asleep k
  /-- A wait is ended by a signal of the loop of the thread before, or by a last signal. -/
  answered : ∀ i, (s.pos i).woke n ≤ (s.pos i.prev).signals n +
    (s.pos i.prev).finals i.fn.waits + (s.pos i.next).finals i.fn.waits
  /-- When a thread leaves its loop, no thread is more than a wait behind. -/
  near : ∀ i j, (s.pos i).Left → n ≤ (s.pos j).begun n + 1
  near_final : ∀ i j, 0 < (s.pos i).finals j.fn.waits → n ≤ (s.pos j).woke n + 1
  /-- The first thread to leave its loop finds the thread before it in its last wait. -/
  served : ∀ i, (s.pos i).Left → n ≤ (s.pos i.prev).begun n ∨ (s.pos i.next).Left
  served_final : ∀ i, 0 < (s.pos i).finals i.prev.fn.waits →
    n ≤ (s.pos i.prev).woke n ∨ (s.pos i.next).Left

namespace Ring

variable {n : ℕ} {s u : State} {i j : Thread} {sig : Option Cond}

/-- One thread holds the mutex. -/
theorem eq_of_holds (h : Ring n s) (hi : (s.pos i).Holds) (hj : (s.pos j).Holds) : i = j :=
  Option.some.inj (((h.mutex i).mpr hi).symm.trans ((h.mutex j).mpr hj))

theorem finals_eq_zero {p : Pos} (hp : ¬ p.Left) (c : Cond) : p.finals c = 0 := by
  by_contra hne
  exact hp (Pos.left_of_finals (Nat.pos_of_ne_zero hne))

theorem not_left_of_holds {p : Pos} (hp : p.Holds) : ¬ p.Left := by
  cases p <;> first | exact id | exact hp.elim

/-- A thread with the mutex that has been through all its waits, and the thread before it. -/
theorem begun_prev (h : Ring n s) (hi : (s.pos i).Holds) (hwoke : (s.pos i).woke n = n) :
    n ≤ (s.pos i.prev).begun n + 1 ∧
      (n ≤ (s.pos i.prev).begun n ∨ (s.pos i.next).Left) := by
  have hans := h.answered i
  have hfinal := Pos.finals_le_one i.fn.waits (s.pos i.next)
  by_cases hprev : (s.pos i.prev).Left
  · have hle := Pos.woke_le_begun n (s.pos i.prev)
    rw [Pos.woke_of_left hprev] at hle
    omega
  · -- The thread before is asleep or after the mutex, so it has begun a wait for each signal.
    have hfree : ¬ (s.pos i.prev).Holds := fun hp => i.prev_ne (h.eq_of_holds hp hi)
    rw [hwoke, finals_eq_zero hprev, ← Pos.begun_of_not_holds hfree] at hans
    by_cases hnext : (s.pos i.next).Left
    · exact ⟨by omega, .inr hnext⟩
    · rw [finals_eq_zero hnext] at hans
      omega

/-- The same and the thread behind it. -/
theorem begun_next (h : Ring n s) (hi : (s.pos i).Holds) (hwoke : (s.pos i).woke n = n) :
    n ≤ (s.pos i.next).begun n + 1 := by
  by_cases hnext : (s.pos i.next).Left
  · have hle := Pos.woke_le_begun n (s.pos i.next)
    rw [Pos.woke_of_left hnext] at hle
    omega
  -- The thread before has been woken by the one behind, for all its rounds but one.
  have hprev : n ≤ (s.pos i.prev).woke n + 1 := by
    have hbegun := (h.begun_prev hi hwoke).2.resolve_right hnext
    have hsucc := Pos.begun_le_woke_succ n (s.pos i.prev)
    omega
  have hans := h.answered i.prev
  have hfree : ¬ (s.pos i.next).Holds := fun hp => i.next_ne (h.eq_of_holds hp hi)
  rw [Thread.prev_prev, Thread.next_prev, finals_eq_zero hnext,
    finals_eq_zero (not_left_of_holds hi), ← Pos.begun_of_not_holds hfree] at hans
  omega

/-- A thread that leaves its loop, and every other. -/
theorem begun_of_left (h : Ring n s) (hi : (s.pos i).Holds) (hwoke : (s.pos i).woke n = n)
    (j : Thread) : n ≤ (s.pos j).begun n + 1 := by
  rcases Thread.eq_or i j with rfl | rfl | rfl
  · have hle := Pos.woke_le_begun n (s.pos j)
    omega
  · exact h.begun_next hi hwoke
  · exact (h.begun_prev hi hwoke).1

/-! ### Moves -/

theorem mutex_moves (h : Ring n s) (m : Moves n s u i sig) (hlock : LockMoves s u i)
    (j : Thread) : u.lock = some j ↔ (u.pos j).Holds := by
  have hother : j ≠ i → ((u.pos j).Holds ↔ (s.pos j).Holds) := by
    intro hj
    rcases m.other_cases hj with hpos | ⟨-, hpos⟩ <;> simp [hpos]
  rcases hlock with ⟨hs, hu, hi⟩ | ⟨hi, hu, hi'⟩ | ⟨hu, hi⟩
  · -- The mutex was free, so nobody else holds it.
    rcases eq_or_ne j i with rfl | hj
    · simp [hu, hi]
    · rw [hother hj, ← h.mutex j, hs, hu]
      simp [hj.symm]
  · rcases eq_or_ne j i with rfl | hj
    · simp [hu, hi']
    · rw [hother hj, hu]
      exact ⟨nofun, fun hp => absurd (h.eq_of_holds hp hi) hj⟩
  · rw [hu, h.mutex j]
    rcases eq_or_ne j i with rfl | hj
    · exact hi.symm
    · exact (hother hj).symm

theorem awake_moves (h : Ring n s) (m : Moves n s u i sig) (j : Thread) (r : ℕ)
    (hj : u.pos j = .wait r) (k : ℕ) : u.pos j.next ≠ .asleep k := by
  rcases eq_or_ne j i with rfl | hne
  · -- The thread has just signalled the next one.
    have hself := m.self
    rw [hj] at hself
    rw [m.other j.next j.next_ne, if_pos hself.of_wait]
    exact Pos.wake_ne_asleep _ _
  · have hs : s.pos j = .wait r := by
      rcases m.other_cases hne with hpos | ⟨-, hpos⟩
      · rw [← hpos, hj]
      · rw [hj] at hpos
        cases hp : s.pos j <;> rw [hp] at hpos <;> cases hpos
        rfl
    intro hasleep
    rcases eq_or_ne j.next i with rfl | hne'
    · -- Two threads would be about to wait, with one mutex.
      have hself := m.self
      rw [hasleep] at hself
      have hhold : (s.pos j).Holds := by rw [hs]; trivial
      have hhold' : (s.pos j.next).Holds := by rw [hself.of_asleep]; trivial
      exact j.next_ne (h.eq_of_holds hhold' hhold)
    · rcases m.other_cases hne' with hpos | ⟨-, hpos⟩
      · exact h.awake j r hs k (hpos ▸ hasleep)
      · exact Pos.wake_ne_asleep _ k (hpos ▸ hasleep)

theorem some_awake_moves (h : Ring n s) (m : Moves n s u i sig) :
    ∃ j, ∀ k, u.pos j ≠ .asleep k := by
  by_cases hi : ∃ k, u.pos i = .asleep k
  · -- The thread that falls asleep leaves the next one awake.
    obtain ⟨k, hk⟩ := hi
    have hself := m.self
    rw [hk] at hself
    refine ⟨i.next, fun r hr => ?_⟩
    rcases m.other_cases i.next_ne with hpos | ⟨-, hpos⟩
    · exact h.awake i k hself.of_asleep r (hpos ▸ hr)
    · exact Pos.wake_ne_asleep _ r (hpos ▸ hr)
  · exact ⟨i, not_exists.mp hi⟩

theorem answered_moves (h : Ring n s) (m : Moves n s u i sig) (j : Thread) :
    (u.pos j).woke n ≤ (u.pos j.prev).signals n + (u.pos j.prev).finals j.fn.waits +
      (u.pos j.next).finals j.fn.waits := by
  have hans := h.answered j
  have hsignals := m.signals_le h.ok j.prev
  have hprev := m.finals_le j.fn.waits j.prev
  have hnext := m.finals_le j.fn.waits j.next
  by_cases hj : j = i ∨ sig ≠ some j.fn.waits
  · rw [m.woke_eq h.ok hj]
    omega
  obtain ⟨hne, hsig⟩ := not_or.mp hj
  obtain rfl := not_not.mp hsig
  -- The signal counts on the right as the wait it ends does on the left.
  have hsucc := Pos.begun_le_woke_succ n (s.pos j)
  rw [m.woke_of_signal hne rfl]
  rcases m.self.of_signal (h.ok i) with ⟨hc, hcount, -⟩ | ⟨hzero, hone, -⟩
  · obtain rfl := Thread.waits_inj.mp hc
    have hi : i.next.prev = i := by cases i <;> rfl
    rw [hi] at hans hsignals hprev ⊢
    omega
  · -- It is a last signal of one of the two others.
    rcases Thread.eq_or j i with rfl | rfl | rfl
    · exact absurd rfl hne
    · omega
    · omega

theorem near_moves (h : Ring n s) (m : Moves n s u i sig) (k j : Thread)
    (hk : (u.pos k).Left) : n ≤ (u.pos j).begun n + 1 := by
  have hbegun := m.begun_le h.ok j
  by_cases hleft : (s.pos k).Left
  · have hnear := h.near k j hleft
    omega
  -- The thread leaves its loop with this step, holding the mutex.
  obtain rfl := (m.of_left hk).resolve_left hleft
  obtain ⟨hwoke, hhold | hzero⟩ := m.self.of_left (h.ok k) hleft hk
  · have hnear := h.begun_of_left hhold hwoke j
    omega
  · omega

theorem near_final_moves (h : Ring n s) (m : Moves n s u i sig) (k j : Thread)
    (hk : 0 < (u.pos k).finals j.fn.waits) : n ≤ (u.pos j).woke n + 1 := by
  have hwoke := m.woke_le h.ok j
  by_cases hold : 0 < (s.pos k).finals j.fn.waits
  · have hnear := h.near_final k j hold
    omega
  -- The last signal is sent with this step, and ends the wait that has begun.
  obtain ⟨rfl, hsig, hleft⟩ := m.of_finals_lt (Nat.lt_of_le_of_lt (Nat.le_of_not_lt hold) hk)
  rcases eq_or_ne j k with rfl | hne
  · rw [Pos.woke_of_left hleft] at hwoke
    omega
  · rw [m.woke_of_signal hne hsig]
    exact h.near k j hleft

theorem served_moves (h : Ring n s) (m : Moves n s u i sig) (k : Thread)
    (hk : (u.pos k).Left) : n ≤ (u.pos k.prev).begun n ∨ (u.pos k.next).Left := by
  have hbegun := m.begun_le h.ok k.prev
  have hserved : n ≤ (s.pos k.prev).begun n ∨ (s.pos k.next).Left := by
    by_cases hleft : (s.pos k).Left
    · exact h.served k hleft
    · obtain rfl := (m.of_left hk).resolve_left hleft
      obtain ⟨hwoke, hhold | hzero⟩ := m.self.of_left (h.ok k) hleft hk
      · exact (h.begun_prev hhold hwoke).2
      · exact .inl (by omega)
  exact hserved.imp (fun hle => hle.trans hbegun) m.left

theorem served_final_moves (h : Ring n s) (m : Moves n s u i sig) (k : Thread)
    (hk : 0 < (u.pos k).finals k.prev.fn.waits) :
    n ≤ (u.pos k.prev).woke n ∨ (u.pos k.next).Left := by
  have hwoke := m.woke_le h.ok k.prev
  by_cases hold : 0 < (s.pos k).finals k.prev.fn.waits
  · exact (h.served_final k hold).imp (fun hle => hle.trans hwoke) m.left
  obtain ⟨rfl, hsig, hleft⟩ := m.of_finals_lt (Nat.lt_of_le_of_lt (Nat.le_of_not_lt hold) hk)
  refine (h.served k hleft).imp (fun hle => ?_) m.left
  rw [m.woke_of_signal k.prev_ne hsig]
  exact hle

/-- A move keeps it all. -/
theorem moves (h : Ring n s) (m : Moves n s u i sig) (hlock : LockMoves s u i) : Ring n u where
  ok := m.ok h.ok
  mutex := h.mutex_moves m hlock
  awake := h.awake_moves m
  some_awake := h.some_awake_moves m
  answered := h.answered_moves m
  near := h.near_moves m
  near_final := h.near_final_moves m
  served := h.served_moves m
  served_final := h.served_final_moves m

end Ring

/-- The threads that `main` has still to create are those not created. -/
structure Started (s : State) : Prop where
  suffix : s.main <:+ mainCalls
  create_iff : ∀ i, .create i ∈ s.main ↔ s.pos i = .idle

/-! ## Timely signals -/

/-- The thread `k` may send its last signal on `c`: if it is the second of the two others, then the
thread that waits on `c` has begun its last wait. -/
def Timely (n : ℕ) (s : State) (k : Thread) (c : Cond) : Prop :=
  ∀ i, i.fn.waits = c → i ≠ k → (∀ j, j ≠ i → j ≠ k → 0 < (s.pos j).finals c) →
    n ≤ (s.pos i).begun n

/-- A step whose last signal, if it sends one, is timely. -/
def SafeStep (n : ℕ) (s : State) (l : Label) (u : State) : Prop :=
  Step n s l u ∧ ∀ k c, l = .lastSignal k c → Timely n s k c

/-- The two others have sent their last signals on the condition variable of `i`, which has a wait
to come. -/
def Stranded (n : ℕ) (s : State) (i : Thread) : Prop :=
  (∀ j, j ≠ i → 0 < (s.pos j).finals i.fn.waits) ∧ (s.pos i).woke n < n

section Timely

variable {n : ℕ} {s u : State} {i k : Thread} {c : Cond} {sig : Option Cond}

/-- A last signal that is not timely leaves a thread stranded. -/
theorem stranded_of_not_timely (h : Ring n s) (m : Moves n s u k (some c))
    (hleft : (s.pos k).Left) (hnot : ¬ Timely n s k c) : ∃ i, Stranded n u i := by
  simp only [Timely, not_forall] at hnot
  obtain ⟨i, rfl, hik, hfinals, hbegun⟩ := hnot
  refine ⟨i, fun j hj => ?_, ?_⟩
  · -- Of the two others one had sent its last signal, and the other sends it now.
    rcases eq_or_ne j k with rfl | hjk
    · rcases m.self.of_signal (h.ok j) with ⟨-, -, r, hr⟩ | ⟨-, hone, -⟩
      · have hleft' := m.left hleft
        rw [hr] at hleft'
        exact hleft'.elim
      · omega
    · exact Nat.lt_of_lt_of_le (hfinals j hj hjk) (m.finals_le _ j)
  · rw [m.woke_of_signal hik rfl]
    exact Nat.lt_of_not_le hbegun

/-- A stranded thread stays stranded. -/
theorem Stranded.moves (hs : Stranded n s i) (h : Ring n s) (m : Moves n s u k sig) :
    Stranded n u i := by
  obtain ⟨hfinals, hwoke⟩ := hs
  refine ⟨fun j hj => Nat.lt_of_lt_of_le (hfinals j hj) (m.finals_le _ j), ?_⟩
  by_cases hi : i = k ∨ sig ≠ some i.fn.waits
  · rwa [m.woke_eq h.ok hi]
  -- Nobody is left to signal the thread.
  obtain ⟨hne, hsig⟩ := not_or.mp hi
  obtain rfl := not_not.mp hsig
  have hfinal := hfinals k fun heq => hne heq.symm
  rcases m.self.of_signal (h.ok k) with ⟨-, -, r, hr⟩ | ⟨hzero, -⟩
  · have hleft := m.left (Pos.left_of_finals hfinal)
    rw [hr] at hleft
    exact hleft.elim
  · omega

/-- A thread that all others have sent their last signals to has been woken from its last wait. -/
def Served (n : ℕ) (s : State) : Prop :=
  ∀ i, (∀ j, j ≠ i → 0 < (s.pos j).finals i.fn.waits) → n ≤ (s.pos i).woke n

theorem Served.moves (hs : Served n s) (h : Ring n s) (m : Moves n s u k sig)
    (htimely : ∀ c, sig = some c → (s.pos k).Left → Timely n s k c) : Served n u := by
  intro i hfinals
  by_cases hold : ∀ j, j ≠ i → 0 < (s.pos j).finals i.fn.waits
  · exact (hs i hold).trans (m.woke_le h.ok i)
  simp only [not_forall] at hold
  obtain ⟨j, hj, hzero⟩ := hold
  -- The step sends the second of the last signals.
  obtain ⟨rfl, rfl, hleft⟩ :=
    m.of_finals_lt (Nat.lt_of_le_of_lt (Nat.le_of_not_lt hzero) (hfinals j hj))
  rw [m.woke_of_signal hj.symm rfl]
  refine htimely _ rfl hleft i rfl hj.symm fun r hr hrj => ?_
  by_contra hr0
  obtain ⟨rfl, -⟩ := m.of_finals_lt (Nat.lt_of_le_of_lt (Nat.le_of_not_lt hr0) (hfinals r hr))
  exact hrj rfl

end Timely

/-! ## Steps -/

section Steps

variable {n : ℕ} {s u : State} {i : Thread} {l : Label} {sig : Option Cond}

/-- What holds in every run. -/
structure Inv (n : ℕ) (s : State) : Prop where
  ring : Ring n s
  started : Started s

theorem inv_init (n : ℕ) : Inv n .init where
  ring := {
    ok := fun _ => trivial
    mutex := fun _ => ⟨nofun, fun h => h.elim⟩
    awake := fun _ _ h => nomatch h
    some_awake := ⟨.t1, nofun⟩
    answered := fun _ => Nat.zero_le _
    near := fun _ _ h => h.elim
    near_final := fun _ _ h => absurd h (Nat.lt_irrefl _)
    served := fun _ h => h.elim
    served_final := fun _ h => absurd h (Nat.lt_irrefl _) }
  started := by
    refine ⟨List.suffix_rfl, fun i => ?_⟩
    cases i <;> simp [State.init, mainCalls]

/-- What a step does: `main` joins a thread, or a thread moves. -/
theorem step_cases (h : Inv n s) (hstep : Step n s l u) :
    (∃ i rest, s.main = .join i :: rest ∧ u = { s with main := rest } ∧ l = .joined i) ∨
      ∃ i sig, Moves n s u i sig ∧ LockMoves s u i ∧
        (u.main = s.main ∧ s.pos i ≠ .idle ∨ s.main = .create i :: u.main) ∧
        ∀ k c, l = .lastSignal k c ↔ k = i ∧ sig = some c ∧ (s.pos i).Left := by
  obtain ⟨a, ha⟩ := hstep
  cases a with
  | run i =>
      obtain ⟨sig, m, hlock, hmain, hlabel⟩ := stepThread_cases ha
      refine .inr ⟨i, sig, m, hlock, .inl ⟨hmain, fun hidle => ?_⟩, hlabel⟩
      simp [step, stepThread, hidle] at ha
  | main =>
      rw [step, stepMain] at ha
      split at ha
      next i rest hmain =>
        obtain ⟨rfl, rfl⟩ := Prod.mk.inj (Option.some.inj ha)
        have hidle : s.pos i = .idle := (h.started.create_iff i).mp (by simp [hmain])
        refine .inr ⟨i, none, moves_goto (hidle ▸ .create) rfl, .inr (.inr ⟨rfl, ?_⟩),
          .inr hmain, by simp⟩
        have hloop := loop_not_holds n 0
        simpa [State.goto, hidle, Pos.Holds] using hloop
      next i rest hmain =>
        split_ifs at ha
        obtain ⟨rfl, rfl⟩ := Prod.mk.inj (Option.some.inj ha)
        exact .inl ⟨i, rest, hmain, rfl, rfl⟩
      · cases ha

/-- `main` has created exactly the threads that run. -/
theorem Started.moves (h : Started s) (m : Moves n s u i sig)
    (hmain : u.main = s.main ∧ s.pos i ≠ .idle ∨ s.main = .create i :: u.main) : Started u := by
  have hother : ∀ j, j ≠ i → (u.pos j = .idle ↔ s.pos j = .idle) := by
    intro j hj
    rcases m.other_cases hj with hpos | ⟨-, hpos⟩ <;> rw [hpos]
    cases s.pos j <;> simp [Pos.wake]
  rcases hmain with ⟨hmain, hidle⟩ | hmain
  · refine ⟨hmain ▸ h.suffix, fun j => ?_⟩
    rw [hmain, h.create_iff]
    rcases eq_or_ne j i with rfl | hj
    · simp [hidle, m.self.ne_idle]
    · exact (hother j hj).symm
  · refine ⟨(List.suffix_cons _ _).trans (hmain ▸ h.suffix), fun j => ?_⟩
    have hnodup : s.main.Nodup := List.Nodup.sublist h.suffix.sublist (by decide)
    rw [hmain, List.nodup_cons] at hnodup
    have hiff := h.create_iff j
    rw [hmain, List.mem_cons] at hiff
    rcases eq_or_ne j i with rfl | hj
    · simp [hnodup.1, m.self.ne_idle]
    · simpa [hj, hother j hj] using hiff

theorem Inv.step (h : Inv n s) (hstep : Step n s l u) : Inv n u := by
  rcases step_cases h hstep with ⟨i, rest, hmain, rfl, -⟩ | ⟨i, sig, m, hlock, hmain, -⟩
  · obtain ⟨hring, hstarted⟩ := h
    refine ⟨⟨hring.ok, hring.mutex, hring.awake, hring.some_awake, hring.answered, hring.near,
      hring.near_final, hring.served, hring.served_final⟩, ?_, fun j => ?_⟩
    · exact (List.suffix_cons _ _).trans (hmain ▸ hstarted.suffix)
    · simpa [hmain] using hstarted.create_iff j
  · exact ⟨h.ring.moves m hlock, h.started.moves m hmain⟩

theorem Served.step (hs : Served n s) (h : Inv n s) (hstep : SafeStep n s l u) : Served n u := by
  rcases step_cases h hstep.1 with ⟨i, rest, -, rfl, -⟩ | ⟨i, sig, m, -, -, hlabel⟩
  · exact hs
  · refine hs.moves h.ring m fun c hsig hleft => hstep.2 i c ?_
    exact (hlabel i c).mpr ⟨rfl, hsig, hleft⟩

theorem Stranded.step (hs : Stranded n s i) (h : Inv n s) (hstep : Step n s l u) :
    Stranded n u i := by
  rcases step_cases h hstep with ⟨k, rest, -, rfl, -⟩ | ⟨k, sig, m, -, -, -⟩
  · exact hs
  · exact hs.moves h.ring m

/-- A step that is not safe leaves a thread stranded. -/
theorem stranded_of_not_safe (h : Inv n s) (hstep : Step n s l u) (hnot : ¬ SafeStep n s l u) :
    ∃ i, Stranded n u i := by
  obtain ⟨k, c, rfl, htimely⟩ : ∃ k c, l = .lastSignal k c ∧ ¬ Timely n s k c := by
    by_contra hall
    refine hnot ⟨hstep, fun k c hl => ?_⟩
    by_contra htimely
    exact hall ⟨k, c, hl, htimely⟩
  rcases step_cases h hstep with ⟨i, rest, -, -, hl⟩ | ⟨i, sig, m, -, -, hlabel⟩
  · cases hl
  · obtain ⟨rfl, rfl, hleft⟩ := (hlabel k c).mp rfl
    exact stranded_of_not_timely h.ring m hleft htimely

/-- A stranded thread has not returned. -/
theorem Stranded.not_done (hs : Stranded n s i) : ¬ Done s := by
  rintro ⟨hall, -⟩
  have hwoke := hs.2
  rw [hall i] at hwoke
  exact Nat.lt_irrefl _ hwoke

/-! ### Enabled steps -/

/-- A thread can go on unless it is not created, asleep or returned, or after a mutex that another
thread holds. -/
theorem exists_stepThread (hidle : s.pos i ≠ .idle) (hasleep : ∀ j, s.pos i ≠ .asleep j)
    (hret : s.pos i ≠ .returned) (hlock : s.lock = none ∨ (s.pos i).Holds) :
    ∃ l u, Step n s l u ∧ ∀ k c, l = .lastSignal k c → k = i ∧ (s.pos i).Left := by
  obtain ⟨⟨u, l⟩, hstep⟩ : ∃ r, stepThread n s i = some r := by
    cases hpos : s.pos i with
    | idle => exact absurd hpos hidle
    | asleep j => exact absurd hpos (hasleep j)
    | returned => exact absurd hpos hret
    | lock j | woken j =>
        have hfree : s.lock = none := hlock.resolve_right (by rw [hpos]; exact id)
        exact ⟨_, by rw [stepThread, hpos]; exact if_pos hfree⟩
    | signal j | wait j | unlock j => exact ⟨_, by rw [stepThread, hpos]⟩
    | last todo => cases todo <;> exact ⟨_, by rw [stepThread, hpos]⟩
  obtain ⟨sig, -, -, -, hlabel⟩ := stepThread_cases hstep
  refine ⟨l, u, ⟨.run i, hstep⟩, fun k c hl => ?_⟩
  obtain ⟨rfl, -, hleft⟩ := (hlabel k c).mp hl
  exact ⟨rfl, hleft⟩

/-- `main` creates the three threads before it joins one. -/
theorem mainCalls_tails : ∀ calls ∈ mainCalls.tails,
    (∃ i, calls.head? = some (.create i)) ∨ ∀ i, .create i ∉ calls := by
  decide

/-- Where every thread is asleep or has returned, all have returned. -/
theorem returned_of_quiet (h : Ring n s) (hs : Served n s)
    (hquiet : ∀ i, (∃ j, s.pos i = .asleep j) ∨ s.pos i = .returned) (i : Thread) :
    s.pos i = .returned := by
  by_contra hi
  obtain ⟨j, hj⟩ := (hquiet i).resolve_right hi
  have hlt : j < n := by
    have hok := h.ok i
    rwa [hj] at hok
  have hfinals : ∀ k c, s.pos k = .returned → 0 < (s.pos k).finals c := by
    intro k c hk
    rw [hk]
    exact Nat.one_pos
  -- An asleep thread has a wait to come and has not left its loop.
  have hbehind : ∀ k r, s.pos k = .asleep r → ¬ n ≤ (s.pos k).woke n ∧ ¬ (s.pos k).Left := by
    intro k r hk
    have hok := h.ok k
    rw [hk] at hok ⊢
    exact ⟨Nat.not_le_of_lt hok, id⟩
  rcases hquiet i.next with ⟨r, hnext⟩ | hnext <;> rcases hquiet i.prev with ⟨q, hprev⟩ | hprev
  · -- All three are asleep.
    obtain ⟨k, hk⟩ := h.some_awake
    rcases Thread.eq_or i k with rfl | rfl | rfl
    · exact hk j hj
    · exact hk r hnext
    · exact hk q hprev
  · have hserved := h.served_final i.prev (hfinals _ _ hprev)
    rw [Thread.prev_prev, Thread.next_prev] at hserved
    exact hserved.elim (hbehind _ r hnext).1 (hbehind i j hj).2
  · have hserved := h.served_final i.next (hfinals _ _ hnext)
    rw [Thread.prev_next, Thread.next_next] at hserved
    exact hserved.elim (hbehind i j hj).1 (hbehind _ q hprev).2
  · -- The other two have sent all their signals.
    refine (hbehind i j hj).1 (hs i fun k hk => ?_)
    rcases Thread.eq_or i k with rfl | rfl | rfl
    · exact absurd rfl hk
    · exact hfinals _ _ hnext
    · exact hfinals _ _ hprev

/-- Before all have returned, a safe step is enabled. -/
theorem exists_safeStep (h : Inv n s) (hs : Served n s) (hd : ¬ Done s) :
    ∃ l u, SafeStep n s l u := by
  rcases mainCalls_tails _ ((List.mem_tails _ _).mpr h.started.suffix) with ⟨i, hhead⟩ | hnone
  · obtain ⟨rest, hmain⟩ : ∃ rest, s.main = .create i :: rest := List.head?_eq_some_iff.mp hhead
    exact ⟨.created i, _, ⟨.main, by rw [step, stepMain, hmain]⟩, nofun⟩
  have hidle : ∀ i, s.pos i ≠ .idle := fun i hi => hnone i ((h.started.create_iff i).mpr hi)
  -- A thread that is not asleep and holds the mutex or can take it goes on.
  by_cases hrun : ∃ i, (∀ j, s.pos i ≠ .asleep j) ∧ ¬ (s.pos i).Left ∧
      (s.lock = none ∨ (s.pos i).Holds)
  · obtain ⟨i, hasleep, hleft, hlock⟩ := hrun
    have hret : s.pos i ≠ .returned := by
      intro hret
      rw [hret] at hleft
      exact hleft trivial
    obtain ⟨l, u, hstep, hlabel⟩ := exists_stepThread (hidle i) hasleep hret hlock
    exact ⟨l, u, hstep, fun k c hl => absurd (hlabel k c hl).2 hleft⟩
  have hlock : s.lock = none := by
    by_contra hsome
    obtain ⟨i, hi⟩ := Option.ne_none_iff_exists'.mp hsome
    have hhold := (h.ring.mutex i).mp hi
    refine hrun ⟨i, fun j hj => ?_, Ring.not_left_of_holds hhold, .inr hhold⟩
    rw [hj] at hhold
    exact hhold
  have hrest : ∀ i, (∃ j, s.pos i = .asleep j) ∨ (s.pos i).Left := by
    intro i
    by_contra hnot
    obtain ⟨hasleep, hleft⟩ := not_or.mp hnot
    exact hrun ⟨i, not_exists.mp hasleep, hleft, .inl hlock⟩
  by_cases hlast : ∃ i todo, s.pos i = .last todo
  · -- A thread behind its loop sends its signals: who sleeps sleeps in its last wait.
    obtain ⟨i, todo, hi⟩ := hlast
    have hi' : ∀ p, p ≠ .last todo → s.pos i ≠ p := fun p hp heq => hp (heq ▸ hi)
    obtain ⟨l, u, hstep, hlabel⟩ := exists_stepThread (n := n) (hidle i) (fun j => hi' _ nofun)
      (hi' _ nofun) (.inl hlock)
    refine ⟨l, u, hstep, fun k c hl => ?_⟩
    obtain ⟨rfl, -⟩ := hlabel k c hl
    rintro r rfl hrk hfinals
    rcases hrest r with ⟨j, hj⟩ | hleft
    · obtain ⟨x, hxr, hxk⟩ := Thread.exists_ne r k
      have hnear := h.ring.near_final x r (hfinals x hxr hxk)
      rw [hj] at hnear ⊢
      exact hnear
    · exact (Pos.woke_of_left hleft).ge.trans (Pos.woke_le_begun n _)
  · -- All have returned, and `main` joins one.
    have hreturned : ∀ i, s.pos i = .returned := by
      refine returned_of_quiet h.ring hs fun i => (hrest i).imp id fun hleft => ?_
      cases hpos : s.pos i with
      | returned => rfl
      | last todo => exact absurd ⟨i, todo, hpos⟩ hlast
      | idle | lock | signal | wait | asleep | woken | unlock =>
          rw [hpos] at hleft
          exact hleft.elim
    cases hmain : s.main with
    | nil => exact absurd ⟨hreturned, hmain⟩ hd
    | cons call rest =>
        cases call with
        | create i => exact absurd (by simp [hmain]) (hnone i)
        | join i =>
            exact ⟨.joined i, _, ⟨.main, by rw [step, stepMain, hmain]; exact if_pos (hreturned i)⟩,
              nofun⟩

end Steps

/-! ## Runs -/

/-- All can still complete their rounds and return. -/
def CanComplete (n : ℕ) (s : State) : Prop := ∃ tr t, Run (Step n) s tr t ∧ Done t

/-- A step is enabled unless all have returned, and all can still do so. -/
def Progress (n : ℕ) (s : State) : Prop := (¬ Done s → ∃ l u, Step n s l u) ∧ CanComplete n s

section Runs

variable {n : ℕ} {s t u : State} {i : Thread} {l : Label} {tr : List Label}

theorem inv_of_run (hrun : Run (Step n) s tr t) (h : Inv n s) : Inv n t :=
  hrun.history (P := fun _ t => Inv n t) h fun _ _ _ _ _ h hstep => h.step hstep

/-- Behind timely steps nobody waits for a signal that does not come. -/
theorem served_of_run (h : Run (SafeStep n) .init tr s) : Inv n s ∧ Served n s := by
  refine h.history (P := fun _ s => Inv n s ∧ Served n s) ⟨inv_init n, fun i hfinals => ?_⟩ ?_
  · exact absurd (hfinals i.next i.next_ne) (Nat.lt_irrefl _)
  · rintro _ t l u - ⟨h, hs⟩ hstep
    exact ⟨h.step hstep.1, hs.step h hstep⟩

/-- The steps all have to go. -/
def toGo (n : ℕ) (s : State) : ℕ :=
  (s.pos .t1).toGo n + (s.pos .t2).toGo n + (s.pos .t3).toGo n + s.main.length

/-- Every step is one of them. -/
theorem toGo_lt (h : Inv n s) (hstep : Step n s l u) : toGo n u < toGo n s := by
  rcases step_cases h hstep with ⟨i, rest, hmain, rfl, -⟩ | ⟨i, sig, m, -, hmain, -⟩
  · simp [toGo, hmain]
  have hself := m.self.toGo_lt (h.ring.ok i)
  have hother : ∀ j, j ≠ i → (u.pos j).toGo n = (s.pos j).toGo n := by
    intro j hj
    rcases m.other_cases hj with hpos | ⟨-, hpos⟩ <;> simp [hpos]
  have hlength : u.main.length ≤ s.main.length := by
    rcases hmain with ⟨hmain, -⟩ | hmain <;> simp [hmain]
  rw [toGo, toGo]
  cases i with
  | t1 =>
      rw [hother .t2 nofun, hother .t3 nofun]
      omega
  | t2 =>
      rw [hother .t1 nofun, hother .t3 nofun]
      omega
  | t3 =>
      rw [hother .t1 nofun, hother .t2 nofun]
      omega

/-- Behind timely steps all can complete their rounds. -/
theorem canComplete_of_served (h : Inv n s) (hs : Served n s) : CanComplete n s := by
  refine Run.exists_of_measure (P := fun s => Inv n s ∧ Served n s) (toGo n) ?_ ⟨h, hs⟩
  rintro s ⟨h, hs⟩ hd
  obtain ⟨l, u, hstep⟩ := exists_safeStep h hs hd
  exact ⟨l, u, hstep.1, ⟨h.step hstep.1, hs.step h hstep⟩, toGo_lt h hstep.1⟩

/-- A stranded thread never returns. -/
theorem Stranded.not_canComplete (hs : Stranded n s i) (h : Inv n s) : ¬ CanComplete n s := by
  rintro ⟨tr, t, hrun, hd⟩
  have hst : Inv n t ∧ Stranded n t i :=
    hrun.history (P := fun _ t => Inv n t ∧ Stranded n t i) ⟨h, hs⟩
      fun _ _ _ _ _ h hstep => ⟨h.1.step hstep, h.2.step h.1 hstep⟩
  exact hst.2.not_done hd

/-- What can complete goes on. -/
theorem CanComplete.progress (h : CanComplete n s) : Progress n s := by
  refine ⟨fun hd => ?_, h⟩
  obtain ⟨tr, t, hrun, ht⟩ := h
  cases tr with
  | nil =>
      rw [Run.nil_iff.mp hrun] at hd
      exact absurd ht hd
  | cons l tr =>
      obtain ⟨u, hstep, -⟩ := Run.cons_iff.mp hrun
      exact ⟨l, u, hstep⟩

/-- A run goes by timely steps exactly if all can complete at its end. -/
theorem safe_iff_canComplete (h : Reaches n tr s) :
    Run (SafeStep n) .init tr s ↔ CanComplete n s := by
  constructor
  · intro hsafe
    obtain ⟨hinv, hserved⟩ := served_of_run hsafe
    exact canComplete_of_served hinv hserved
  · refine h.history (P := fun tr s => CanComplete n s → Run (SafeStep n) .init tr s)
      (fun _ => .nil) ?_
    intro tr t l u hrun ih hstep hcomplete
    have hinv := inv_of_run hrun (inv_init n)
    -- What can be completed behind the step can be before it.
    by_cases hsafe : SafeStep n t l u
    · obtain ⟨tr', v, hrun', hd⟩ := hcomplete
      exact .snoc (ih ⟨l :: tr', v, Run.cons_iff.mpr ⟨u, hstep, hrun'⟩, hd⟩) hsafe
    · obtain ⟨i, hi⟩ := stranded_of_not_safe hinv hstep hsafe
      exact absurd hcomplete (hi.not_canComplete (hinv.step hstep))

/-- For any number of rounds and any order of steps: in all states of a run a step is enabled before
all have returned, and all can still return, exactly if the run goes by timely steps. -/
theorem completes_iff (h : Reaches n tr s) :
    Run (SafeStep n) .init tr s ↔ ∀ t, Passes (Step n) .init tr s t → Progress n t := by
  rw [safe_iff_canComplete h]
  constructor
  · rintro ⟨tr', v, hrun, hd⟩ t ⟨pre, post, -, -, hpost⟩
    exact CanComplete.progress ⟨post ++ tr', v, hpost.append hrun, hd⟩
  · intro hall
    exact (hall s (Passes.last h)).2

end Runs

/-- `pthread_mutex_lock`, `pthread_cond_signal` and the beginning of `pthread_cond_wait`. -/
def turn (i : Thread) : List Act := [.run i, .run i, .run i]

/-- The end of `pthread_cond_wait` and `pthread_mutex_unlock`. -/
def back (i : Thread) : List Act := [.run i, .run i]

/-- Ten rounds, with `t2` the last to get the mutex. It is a round behind when `t1` leaves its loop,
and begins its last wait behind the last signal of `t3`. -/
def lateSchedule : List Act :=
  [.main, .main, .main] ++ turn .t1 ++ turn .t3 ++ back .t1 ++ turn .t1 ++ turn .t2 ++
    back .t3 ++ turn .t3 ++
    (List.replicate 8 (back .t1 ++ turn .t1 ++ back .t2 ++ turn .t2 ++ back .t3 ++
      turn .t3)).flatten ++
    back .t1 ++ List.replicate 4 (.run .t1) ++ back .t2 ++ back .t3 ++
    List.replicate 4 (.run .t3) ++ turn .t2 ++ [.main]

/-- The ten rounds of the code deadlock. -/
theorem not_completes : ¬ ∀ n, 1 ≤ n → ∀ tr s, Reaches n tr s → ¬ Done s → ∃ l u, Step n s l u := by
  intro hall
  have hrun := run_play (step 10) .init lateSchedule
  obtain ⟨h1, h2, h3, hmain⟩ : (play (step 10) .init lateSchedule).1.pos .t1 = .returned ∧
      (play (step 10) .init lateSchedule).1.pos .t2 = .asleep 9 ∧
      (play (step 10) .init lateSchedule).1.pos .t3 = .returned ∧
      (play (step 10) .init lateSchedule).1.main = [.join .t2, .join .t1] := by
    decide +kernel
  obtain ⟨l, u, a, hstep⟩ := hall 10 (by decide) _ _ hrun fun hd => by
    rw [hd.2] at hmain
    cases hmain
  cases a with
  | run i => cases i <;> simp [step, stepThread, h1, h2, h3] at hstep
  | main => simp [step, stepMain, hmain, h2] at hstep

/-- One round in the usual order of the threads, to the end. -/
def oneRound : List Act :=
  [.main, .main, .main] ++ turn .t1 ++ turn .t2 ++ turn .t3 ++
    back .t1 ++ List.replicate 4 (.run .t1) ++ back .t2 ++ List.replicate 4 (.run .t2) ++
    back .t3 ++ List.replicate 4 (.run .t3) ++ [.main, .main, .main]

/-- In the usual order the last signals on the condition variable of `t3` are timely. -/
theorem completes_iff_one : ∃ tr s, Reaches 1 tr s ∧ .lastSignal .t1 .cond3 ∈ tr ∧
    .lastSignal .t2 .cond3 ∈ tr ∧ Done s ∧ Run (SafeStep 1) .init tr s := by
  have hrun := run_play (step 1) .init oneRound
  have hdone : Done (play (step 1) .init oneRound).1 := by
    refine ⟨fun i => ?_, rfl⟩
    cases i <;> decide +kernel
  refine ⟨_, _, hrun, by decide +kernel, by decide +kernel, hdone,
    (completes_iff hrun).mpr fun t ht => ?_⟩
  -- From every state of the run its end can be reached.
  obtain ⟨pre, post, -, -, hpost⟩ := ht
  exact CanComplete.progress ⟨post, _, hpost, hdone⟩

end CondRotation
