import LinuxPrograms.Lib.LabelledSystem
import Mathlib.Data.Fin.VecNotation
import Mathlib.Data.Fintype.Card
import Mathlib.Algebra.BigOperators.Fin
import Mathlib.Tactic.FinCases

/-!
# Three threads in rotation

`main.c`, in which `t1`, `t2` and `t3` take turns: each waits for its own semaphore and posts the
one of the next. `0`, `1` and `2` stand for the three threads and for `sema1`, `sema2` and `sema3`.

- `step`, `Reaches`: the three threads, started in any order, for any number of rounds.
- `AtTurn`: the state in terms of the turns taken so far; `AtTurn.step`: what a step does to it.
- `rotation_kept`: the lines, the one token, a step that is enabled and the semaphores at the end.
-/

namespace ThreadRotation

open LabelledSystem

/-! ## The threads -/

/-- What a thread function waits for and posts. -/
structure ThreadFn where
  waits : Fin 3
  posts : Fin 3
  deriving DecidableEq

/-- `t1`. -/
def t1 : ThreadFn := ⟨0, 1⟩

/-- `t2`. -/
def t2 : ThreadFn := ⟨1, 2⟩

/-- `t3`. -/
def t3 : ThreadFn := ⟨2, 0⟩

/-- The function of each thread. -/
def threadFn : Fin 3 → ThreadFn := ![t1, t2, t3]

/-- Where a thread stands: not created, before one of the steps of the round `j`, behind its loop,
or behind the line it prints when it returns. -/
inductive Pos
  | idle
  | wait (j : ℕ)
  | print (j : ℕ)
  | post (j : ℕ)
  | leave
  | finished
  deriving DecidableEq

/-- The head of the loop of `n` rounds. -/
def loop (n j : ℕ) : Pos := if j < n then .wait j else .leave

/-- The semaphores and the threads. -/
structure State where
  sema : Fin 3 → ℕ
  pos : Fin 3 → Pos

/-- After the `sem_init` calls of `main`. -/
def State.init : State := ⟨![1, 0, 0], fun _ => .idle⟩

/-- What a step does. -/
inductive Label
  | created (i : Fin 3)
  | waited (i : Fin 3)
  | printed (i : Fin 3)
  | posted (i : Fin 3)
  | returned (i : Fin 3)
  deriving DecidableEq

/-- A thread is created, or takes its next step. -/
inductive Act
  | create (i : Fin 3)
  | run (i : Fin 3)
  deriving DecidableEq

/-- One step, with loops of `n` rounds. -/
def step (n : ℕ) (s : State) : Act → Option (State × Label)
  | .create i =>
      if s.pos i = .idle then
        some ({ s with pos := Function.update s.pos i (loop n 0) }, .created i)
      else none
  | .run i =>
      match s.pos i with
      | .idle => none
      | .wait j =>
          let sem := (threadFn i).waits
          -- `sem_wait` blocks on 0.
          if s.sema sem = 0 then none
          else some (⟨Function.update s.sema sem (s.sema sem - 1),
            Function.update s.pos i (.print j)⟩, .waited i)
      | .print j => some ({ s with pos := Function.update s.pos i (.post j) }, .printed i)
      | .post j =>
          let sem := (threadFn i).posts
          some (⟨Function.update s.sema sem (s.sema sem + 1),
            Function.update s.pos i (loop n (j + 1))⟩, .posted i)
      | .leave => some ({ s with pos := Function.update s.pos i .finished }, .returned i)
      | .finished => none

/-- The labels `tr` lead from the start to `s`. -/
abbrev Reaches (n : ℕ) (tr : List Label) (s : State) : Prop := Run (StepOf (step n)) .init tr s

/-- The thread whose line `Thread 1`, `Thread 2` or `Thread 3` a step prints. -/
def Label.line : Label → Option (Fin 3)
  | printed i => some i
  | _ => none

/-- The lines the loops have printed. -/
def lines (tr : List Label) : List (Fin 3) := tr.filterMap Label.line

/-- The thread is between its `sem_wait` and its `sem_post`. -/
def Pos.inside : Pos → Bool
  | print _ | post _ => true
  | _ => false

/-- Every thread waits for its own semaphore and posts the next. -/
theorem threadFn_eq (i : Fin 3) : threadFn i = ⟨i, i + 1⟩ := by
  revert i
  decide

/-! ## Turns -/

/-- How far the current turn has come. -/
inductive Stage
  | free
  | waited
  | printed
  deriving DecidableEq

/-- The turns that the thread `j` has taken among the first `t`. -/
def turns (j : Fin 3) (t : ℕ) : ℕ := (t + 2 - j) / 3

/-- The thread that the turn `t` belongs to. -/
def whose (t : ℕ) : Fin 3 := Fin.ofNat 3 t

/-- A thread that has been through `k` of its `n` rounds and is not inside a further one. -/
def Outside (n k : ℕ) (p : Pos) : Prop :=
  p = .idle ∧ k = 0 ∨ p = loop n k ∨ p = .finished ∧ k = n

/-- After `t` whole turns and with the next one at `stage`. -/
structure AtTurn (n : ℕ) (s : State) (out : List (Fin 3)) (t : ℕ) (stage : Stage) : Prop where
  bound : t ≤ 3 * n ∧ (stage ≠ .free → t < 3 * n)
  sema : s.sema = fun j => if stage = .free ∧ j = whose t then 1 else 0
  current : (stage = .waited → s.pos (whose t) = .print (t / 3)) ∧
    (stage = .printed → s.pos (whose t) = .post (t / 3))
  others : ∀ j, (j ≠ whose t ∨ stage = .free) → Outside n (turns j t) (s.pos j)
  out : out = (List.range (t + if stage = .printed then 1 else 0)).map whose

section Turns

variable {n t : ℕ} {s u : State} {out : List (Fin 3)} {stage : Stage} {i j : Fin 3}

theorem val_whose (t : ℕ) : (whose t : ℕ) = t % 3 := rfl

/-- The thread whose turn it is has taken a third of the turns. -/
theorem turns_whose (t : ℕ) : turns (whose t) t = t / 3 := by
  rw [turns, val_whose]
  omega

/-- A turn counts for the thread it belongs to. -/
theorem turns_succ (j : Fin 3) (t : ℕ) :
    turns j (t + 1) = turns j t + if j = whose t then 1 else 0 := by
  have hj := j.isLt
  rw [turns, turns]
  split_ifs with h
  · have hval : (j : ℕ) = t % 3 := congrArg Fin.val h
    omega
  · have hval : (j : ℕ) ≠ t % 3 := fun hval => h (Fin.ext hval)
    omega

theorem whose_succ (t : ℕ) : whose (t + 1) = whose t + 1 := by
  ext
  rw [Fin.val_add, val_whose, val_whose, Fin.val_one]
  omega

/-- What a thread outside its turn may be about to do. -/
theorem Outside.cases {k : ℕ} {p : Pos} (h : Outside n k p) :
    p = .idle ∧ k = 0 ∨ p = .wait k ∧ k < n ∨ p = .leave ∧ n ≤ k ∨ p = .finished ∧ k = n := by
  rcases h with h | rfl | h
  · exact .inl h
  · rw [loop]
    split_ifs with hk
    · exact .inr (.inl ⟨rfl, hk⟩)
    · exact .inr (.inr (.inl ⟨rfl, Nat.le_of_not_lt hk⟩))
  · exact .inr (.inr (.inr h))

theorem Outside.not_inside {k : ℕ} {p : Pos} (h : Outside n k p) : p.inside = false := by
  rcases h.cases with ⟨rfl, -⟩ | ⟨rfl, -⟩ | ⟨rfl, -⟩ | ⟨rfl, -⟩ <;> rfl

/-- A thread that is not created has been through no round. -/
theorem Outside.of_idle {k : ℕ} (h : Outside n k .idle) : k = 0 := by
  rcases h.cases with ⟨-, hk⟩ | ⟨hp, -⟩ | ⟨hp, -⟩ | ⟨hp, -⟩
  · exact hk
  all_goals cases hp

/-- A thread waits in one of its rounds. -/
theorem Outside.of_wait {k j : ℕ} (h : Outside n k (.wait j)) : j = k ∧ k < n := by
  rcases h.cases with ⟨hp, -⟩ | ⟨hp, hk⟩ | ⟨hp, -⟩ | ⟨hp, -⟩
  case inr.inl => exact ⟨Pos.wait.inj hp, hk⟩
  all_goals cases hp

/-- A thread leaves its loop behind all its rounds. -/
theorem Outside.of_leave {k : ℕ} (h : Outside n k .leave) : n ≤ k := by
  rcases h.cases with ⟨hp, -⟩ | ⟨hp, -⟩ | ⟨-, hk⟩ | ⟨hp, -⟩
  case inr.inr.inl => exact hk
  all_goals cases hp

/-- A thread that has returned has been through all its rounds. -/
theorem Outside.of_finished {k : ℕ} (h : Outside n k .finished) : k = n := by
  rcases h.cases with ⟨hp, -⟩ | ⟨hp, -⟩ | ⟨hp, -⟩ | ⟨-, hk⟩
  case inr.inr.inr => exact hk
  all_goals cases hp

namespace AtTurn

variable {p : Pos}

/-- A thread inside its turn is the one whose turn it is. -/
theorem eq_whose (h : AtTurn n s out t stage) (hin : (s.pos i).inside = true) :
    i = whose t ∧ stage ≠ .free := by
  by_contra hnot
  have hout := (h.others i (by tauto)).not_inside
  rw [hin] at hout
  cases hout

/-- If the thread whose turn it is is not inside, then the turn has not begun. -/
theorem free_of_not_inside (h : AtTurn n s out t stage) (hin : (s.pos (whose t)).inside = false) :
    stage = .free := by
  cases stage with
  | free => rfl
  | waited =>
      rw [h.current.1 rfl] at hin
      cases hin
  | printed =>
      rw [h.current.2 rfl] at hin
      cases hin

/-- A thread not inside its turn is outside. -/
theorem outside (h : AtTurn n s out t stage) (hin : (s.pos i).inside = false) :
    Outside n (turns i t) (s.pos i) := by
  apply h.others
  rcases eq_or_ne i (whose t) with rfl | hne
  · exact .inr (h.free_of_not_inside hin)
  · exact .inl hne

/-- The same for a thread at a place given. -/
theorem outside_of_pos (h : AtTurn n s out t stage) (hpos : s.pos i = p)
    (hin : p.inside = false) : Outside n (turns i t) p := by
  subst hpos
  exact h.outside hin

/-- No thread takes more than `n` turns. -/
theorem turns_le (h : AtTurn n s out t stage) (i : Fin 3) : turns i t ≤ n := by
  have hbound := h.bound.1
  rw [turns]
  omega

/-- A thread outside its turn goes on outside it. -/
theorem setOutside (h : AtTurn n s out t stage) (hin : (s.pos i).inside = false)
    (hp : Outside n (turns i t) p) :
    AtTurn n { s with pos := Function.update s.pos i p } out t stage := by
  -- The thread inside its turn, if there is one, is another.
  have hother : ∀ {q : Pos}, s.pos (whose t) = q → q.inside = true →
      Function.update s.pos i p (whose t) = q := by
    rintro q rfl hq
    apply Function.update_of_ne
    rintro rfl
    rw [hin] at hq
    cases hq
  refine ⟨h.bound, h.sema, ⟨?_, ?_⟩, fun j hj => ?_, h.out⟩
  · exact fun hstage => hother (h.current.1 hstage) rfl
  · exact fun hstage => hother (h.current.2 hstage) rfl
  · show Outside n (turns j t) (Function.update s.pos i p j)
    rcases eq_or_ne j i with rfl | hne
    · rwa [Function.update_self]
    · rw [Function.update_of_ne hne]
      exact h.others j hj

/-- `sem_wait` begins the next turn. -/
theorem wait (h : AtTurn n s out t stage) {k : ℕ} (hpos : s.pos i = .wait k)
    (hsema : s.sema i ≠ 0) :
    AtTurn n ⟨Function.update s.sema i (s.sema i - 1), Function.update s.pos i (.print k)⟩ out t
      .waited := by
  obtain ⟨rfl, rfl⟩ : stage = .free ∧ i = whose t := by
    by_contra hnot
    rw [h.sema] at hsema
    exact hsema (if_neg hnot)
  obtain ⟨hk, hlt⟩ := (h.outside_of_pos hpos rfl).of_wait
  rw [turns_whose] at hk hlt
  -- The token goes from the semaphore to the thread.
  refine ⟨⟨h.bound.1, fun _ => by omega⟩, ?_, ⟨fun _ => ?_, nofun⟩, fun j hj => ?_, h.out⟩
  · funext j
    rw [h.sema]
    rcases eq_or_ne j (whose t) with rfl | hne
    · simp
    · simp [hne]
  · show Function.update s.pos (whose t) (.print k) (whose t) = _
    rw [Function.update_self, hk]
  · have hne : j ≠ whose t := hj.resolve_right nofun
    show Outside n (turns j t) (Function.update s.pos (whose t) (.print k) j)
    rw [Function.update_of_ne hne]
    exact h.others j (.inl hne)

/-- The line of the turn. -/
theorem print (h : AtTurn n s out t stage) {k : ℕ} (hpos : s.pos i = .print k) :
    AtTurn n { s with pos := Function.update s.pos i (.post k) } (out ++ [i]) t .printed := by
  obtain ⟨rfl, hfree⟩ := h.eq_whose (i := i) (by rw [hpos]; rfl)
  obtain rfl : stage = .waited := by
    cases stage with
    | free => exact absurd rfl hfree
    | waited => rfl
    | printed =>
        have hcur := h.current.2 rfl
        rw [hpos] at hcur
        cases hcur
  obtain rfl : k = t / 3 := Pos.print.inj (hpos.symm.trans (h.current.1 rfl))
  refine ⟨⟨h.bound.1, fun _ => h.bound.2 nofun⟩, ?_, ⟨nofun, fun _ => ?_⟩, fun j hj => ?_, ?_⟩
  · rw [h.sema]
    rfl
  · exact Function.update_self ..
  · have hne : j ≠ whose t := hj.resolve_right nofun
    show Outside n (turns j t) (Function.update s.pos (whose t) (.post (t / 3)) j)
    rw [Function.update_of_ne hne]
    exact h.others j (.inl hne)
  · rw [h.out, if_neg nofun, if_pos rfl, Nat.add_zero, List.range_succ, List.map_append,
      List.map_singleton]

/-- `sem_post` ends the turn. -/
theorem post (h : AtTurn n s out t stage) {k : ℕ} (hpos : s.pos i = .post k) :
    AtTurn n ⟨Function.update s.sema (i + 1) (s.sema (i + 1) + 1),
      Function.update s.pos i (loop n (k + 1))⟩ out (t + 1) .free := by
  obtain ⟨rfl, hfree⟩ := h.eq_whose (i := i) (by rw [hpos]; rfl)
  obtain rfl : stage = .printed := by
    cases stage with
    | free => exact absurd rfl hfree
    | printed => rfl
    | waited =>
        have hcur := h.current.1 rfl
        rw [hpos] at hcur
        cases hcur
  obtain rfl : k = t / 3 := Pos.post.inj (hpos.symm.trans (h.current.2 rfl))
  have hlt := h.bound.2 nofun
  -- The semaphore posted is that of the thread whose turn is next.
  refine ⟨⟨hlt, fun hne => absurd rfl hne⟩, ?_, ⟨nofun, nofun⟩, fun j _ => ?_, ?_⟩
  · funext j
    rw [h.sema, whose_succ]
    rcases eq_or_ne j (whose t + 1) with rfl | hne
    · simp
    · simp [hne]
  · show Outside n (turns j (t + 1)) (Function.update s.pos (whose t) (loop n (t / 3 + 1)) j)
    rw [turns_succ]
    rcases eq_or_ne j (whose t) with rfl | hne
    · rw [Function.update_self, if_pos rfl, turns_whose]
      exact .inr (.inl rfl)
    · rw [Function.update_of_ne hne, if_neg hne]
      exact h.others j (.inl hne)
  · rw [h.out, if_pos rfl, if_neg nofun, Nat.add_zero]

/-- Every step leads to a turn, the next line printed if it prints one. -/
theorem step (h : AtTurn n s out t stage) {l : Label} (hstep : StepOf (step n) s l u) :
    ∃ t' stage', AtTurn n u (out ++ l.line.toList) t' stage' := by
  obtain ⟨a, hstep⟩ := hstep
  cases a with
  | create i =>
      rw [ThreadRotation.step] at hstep
      split_ifs at hstep with hidle
      obtain ⟨rfl, rfl⟩ := Prod.mk.inj (Option.some.inj hstep)
      have hin : (s.pos i).inside = false := by rw [hidle]; rfl
      have hzero : turns i t = 0 := (h.outside_of_pos hidle rfl).of_idle
      refine ⟨t, stage, ?_⟩
      simp only [Label.line, Option.toList_none, List.append_nil]
      exact h.setOutside hin (.inr (.inl (by rw [hzero])))
  | run i =>
      rw [ThreadRotation.step] at hstep
      split at hstep
      · cases hstep
      next k hpos =>
        simp only [threadFn_eq] at hstep
        split_ifs at hstep with hsema
        obtain ⟨rfl, rfl⟩ := Prod.mk.inj (Option.some.inj hstep)
        exact ⟨t, .waited, by simpa [Label.line] using h.wait hpos hsema⟩
      next k hpos =>
        obtain ⟨rfl, rfl⟩ := Prod.mk.inj (Option.some.inj hstep)
        exact ⟨t, .printed, h.print hpos⟩
      next k hpos =>
        simp only [threadFn_eq] at hstep
        obtain ⟨rfl, rfl⟩ := Prod.mk.inj (Option.some.inj hstep)
        exact ⟨t + 1, .free, by simpa [Label.line] using h.post hpos⟩
      next hpos =>
        obtain ⟨rfl, rfl⟩ := Prod.mk.inj (Option.some.inj hstep)
        have hin : (s.pos i).inside = false := by rw [hpos]; rfl
        have hall : turns i t = n :=
          Nat.le_antisymm (h.turns_le i) (h.outside_of_pos hpos rfl).of_leave
        refine ⟨t, stage, ?_⟩
        simp only [Label.line, Option.toList_none, List.append_nil]
        exact h.setOutside hin (.inr (.inr ⟨rfl, hall⟩))
      · cases hstep

/-- There is one token: a semaphore is 1, or a thread is inside its turn. -/
theorem token (h : AtTurn n s out t stage) :
    ∑ i, s.sema i + (Finset.univ.filter fun i => (s.pos i).inside).card = 1 := by
  by_cases hfree : stage = .free
  · have hnone : (Finset.univ.filter fun i => (s.pos i).inside) = ∅ := by
      rw [Finset.filter_eq_empty_iff]
      intro i _
      rw [(h.others i (.inr hfree)).not_inside]
      exact nofun
    simp [hnone, h.sema, hfree]
  · have hone : (Finset.univ.filter fun i => (s.pos i).inside) = {whose t} := by
      ext i
      rw [Finset.mem_filter, Finset.mem_singleton]
      constructor
      · exact fun hin => (h.eq_whose hin.2).1
      · rintro rfl
        refine ⟨Finset.mem_univ _, ?_⟩
        cases stage with
        | free => exact absurd rfl hfree
        | waited => rw [h.current.1 rfl, Pos.inside]
        | printed => rw [h.current.2 rfl, Pos.inside]
    simp [hone, h.sema, hfree]

/-- A thread that has not returned can go on, except at its `sem_wait`. -/
theorem enabled_of_pos (hfin : s.pos i ≠ .finished)
    (hwait : ∀ k, s.pos i = .wait k → s.sema i ≠ 0) :
    ∃ a, (ThreadRotation.step n s a).isSome := by
  cases hpos : s.pos i with
  | idle => exact ⟨.create i, by rw [ThreadRotation.step, if_pos hpos]; rfl⟩
  | wait k =>
      refine ⟨.run i, ?_⟩
      simp only [ThreadRotation.step, hpos, threadFn_eq, if_neg (hwait k hpos)]
      rfl
  | print k => exact ⟨.run i, by simp only [ThreadRotation.step, hpos]; rfl⟩
  | post k => exact ⟨.run i, by simp only [ThreadRotation.step, hpos]; rfl⟩
  | leave => exact ⟨.run i, by simp only [ThreadRotation.step, hpos]; rfl⟩
  | finished => exact absurd hpos hfin

/-- Where all turns are taken no thread waits. -/
theorem not_wait (h : AtTurn n s out t stage) (hall : t = 3 * n) (k : ℕ) : s.pos i ≠ .wait k := by
  intro hpos
  have hturns : turns i t = n := by
    have hi := i.isLt
    rw [turns]
    omega
  have hlt := (h.outside_of_pos hpos rfl).of_wait.2
  omega

/-- As long as a thread has not returned, a step is enabled. -/
theorem enabled (h : AtTurn n s out t stage) (hfin : s.pos i ≠ .finished) :
    ∃ a, (ThreadRotation.step n s a).isSome := by
  rcases Nat.lt_or_eq_of_le h.bound.1 with hlt | hall
  · -- The thread whose turn it is can go on.
    refine enabled_of_pos (i := whose t) ?_ fun k hpos => ?_
    · intro hdone
      have hturns := (h.outside_of_pos hdone rfl).of_finished
      rw [turns_whose] at hturns
      omega
    · have hfree : stage = .free := h.free_of_not_inside (by rw [hpos]; rfl)
      simp [h.sema, hfree]
  · -- No thread waits any more, so the one that has not returned goes on.
    exact enabled_of_pos hfin fun k hpos => absurd hpos (h.not_wait hall k)

/-- When all threads have returned, all turns are taken and the token is where it was. -/
theorem sema_of_finished (h : AtTurn n s out t stage) (hfin : ∀ i, s.pos i = .finished) :
    s.sema = ![1, 0, 0] := by
  have hfree : stage = .free := h.free_of_not_inside (by rw [hfin]; rfl)
  -- The last of the three has taken all its turns.
  have hturns : turns 2 t = n := (h.outside_of_pos (hfin 2) rfl).of_finished
  have hall : t = 3 * n := by
    have hbound := h.bound.1
    rw [turns, Fin.val_two] at hturns
    omega
  have hwhose : whose t = 0 := by
    apply Fin.ext
    rw [val_whose, hall]
    exact Nat.mul_mod_right 3 n
  rw [h.sema, hwhose]
  funext j
  fin_cases j <;> simp [hfree]

end AtTurn

end Turns

/-! ## Runs -/

/-- The lines of `n` rounds. -/
def rotation (n : ℕ) : List (Fin 3) := (List.replicate n [0, 1, 2]).flatten

/-- The lines of `n` rounds are those of `3 * n` turns. -/
theorem rotation_eq (n : ℕ) : rotation n = (List.range (3 * n)).map whose := by
  induction n with
  | zero => rfl
  | succ n ih =>
      have hturns : (List.range 3).map (fun i => whose (3 * n + i)) = [0, 1, 2] := by
        simp [List.range_succ, whose, Fin.ofNat, Nat.add_mod]
      rw [rotation, List.replicate_succ', List.flatten_append, ← rotation, ih, Nat.mul_succ,
        List.range_add, List.map_append, List.map_map, Function.comp_def, hturns]
      rfl

/-- The lines of the turns so far are a prefix of the lines of `n` rounds. -/
theorem AtTurn.prefix_rotation {n t : ℕ} {s : State} {out : List (Fin 3)} {stage : Stage}
    (h : AtTurn n s out t stage) : out <+: rotation n := by
  rw [h.out, rotation_eq]
  apply List.IsPrefix.map
  rw [List.prefix_iff_eq_take, List.take_range, List.length_range, Nat.min_eq_left]
  split_ifs with hprinted
  · exact h.bound.2 (by rw [hprinted]; exact nofun)
  · exact h.bound.1

theorem lines_snoc (tr : List Label) (l : Label) :
    lines (tr ++ [l]) = lines tr ++ l.line.toList := by
  rw [lines, List.filterMap_append, ← lines]
  cases l <;> rfl

/-- Every run leads to a turn. -/
theorem atTurn_of_reaches {n : ℕ} {tr : List Label} {s : State} (h : Reaches n tr s) :
    ∃ t stage, AtTurn n s (lines tr) t stage := by
  refine h.history (P := fun tr s => ∃ t stage, AtTurn n s (lines tr) t stage) ⟨0, .free, ?_⟩ ?_
  · refine ⟨⟨Nat.zero_le _, nofun⟩, ?_, ⟨nofun, nofun⟩, fun j _ => .inl ⟨rfl, ?_⟩, rfl⟩
    · funext j
      fin_cases j <;> rfl
    · have hj := j.isLt
      rw [turns]
      omega
  · rintro tr s l u - ⟨t, stage, hturn⟩ hstep
    rw [lines_snoc]
    exact hturn.step hstep

/-- For any number of rounds, any order of creation and any order of steps: the lines are in
rotation, there is one token, the threads do not get stuck, and at the end the semaphores are as
they were at the start. -/
theorem rotation_kept {n : ℕ} {tr : List Label} {s : State} (h : Reaches n tr s) :
    lines tr <+: rotation n ∧
      ∑ i, s.sema i + (Finset.univ.filter fun i => (s.pos i).inside).card = 1 ∧
      ((∃ i, s.pos i ≠ .finished) → ∃ a, (step n s a).isSome) ∧
      ((∀ i, s.pos i = .finished) → s.sema = ![1, 0, 0]) := by
  obtain ⟨t, stage, hturn⟩ := atTurn_of_reaches h
  refine ⟨hturn.prefix_rotation, hturn.token, ?_, hturn.sema_of_finished⟩
  rintro ⟨i, hi⟩
  exact hturn.enabled hi

/-- Two rounds, `t3` created first and `t1` last. -/
theorem rotation_kept_two :
    ∃ tr s, Reaches 2 tr s ∧ lines tr = [0, 1] ∧ lines tr <+: rotation 2 ∧
      ∑ i, s.sema i + (Finset.univ.filter fun i => (s.pos i).inside).card = 1 ∧
      ((∃ i, s.pos i ≠ .finished) → ∃ a, (step 2 s a).isSome) ∧
      ((∀ i, s.pos i = .finished) → s.sema = ![1, 0, 0]) := by
  have hrun := run_play (step 2) .init [.create 2, .create 1, .create 0, .run 0, .run 0, .run 0,
    .run 1, .run 1]
  exact ⟨_, _, hrun, by decide, rotation_kept hrun⟩

end ThreadRotation
