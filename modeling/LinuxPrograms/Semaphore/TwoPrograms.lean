import LinuxPrograms.Lib.LabelledSystem
import LinuxPrograms.Lib.Permits
import LinuxPrograms.Semaphore.SharedStruct
import Mathlib.Tactic.Linarith

/-!
# Two programs and one semaphore

`sema_proc1.c` and `sema_proc2.c`, which add 1 to three variables in shared memory and take it away
again, each while it holds the semaphore under the key 3333. The first program sets the semaphore to
1 before it waits for it, whoever holds it by then.

- `step`, `Reaches`: the two programs, started in any order, for any number of iterations.
- `Timely`, `TimelyReaches`: runs in which nobody holds the semaphore when it is set.
- `Inv`: the permits of the semaphore and what the variables count.
- `kept_iff`: when the programs exclude each other and leave the variables as they were.
-/

namespace TwoPrograms

open LabelledSystem Permits SharedMemory SysVSem

variable {w : ℕ}

/-! ## The programs -/

/-- The two processes. -/
inductive Proc
  | semaProc1
  | semaProc2
  deriving DecidableEq

instance : Fintype Proc where
  elems := {.semaProc1, .semaProc2}
  complete p := by cases p <;> decide

/-- `SEM_IPC_KEY`. -/
def semIpcKey : ℤ := 3333

/-- What the programs differ in: what they add to the variables, and whether they set the semaphore.
-/
structure Program where
  change : ℤ
  setsVal : Bool

/-- `main` of `sema_proc1.c`. -/
def semaProc1 : Program := ⟨1, true⟩

/-- `main` of `sema_proc2.c`. -/
def semaProc2 : Program := ⟨-1, false⟩

/-- The program of a process. -/
def Proc.program : Proc → Program
  | .semaProc1 => TwoPrograms.semaProc1
  | .semaProc2 => TwoPrograms.semaProc2

/-- How `main` ends: with its last line, or with `exit(EXIT_FAILURE)`. -/
inductive Ending
  | returned
  | failed
  deriving DecidableEq

/-- Where a process stands: not started, before one of its calls, at an access to the variables in
the iteration `i`, behind `main`, or gone. `id` is `sem_set_identifier`. -/
inductive Pos (w : ℕ)
  | idle
  | semget
  | setval (id : ℕ)
  | wait (id : ℕ)
  | access (id i : ℕ) (a : Access w)
  | signal (id : ℕ)
  | leave (e : Ending)
  | finished (e : Ending)
  deriving DecidableEq

/-- The head of the loop of `k` iterations. -/
def loop (k id i : ℕ) : Pos w := if i < k then .access id i (.load .var1) else .signal id

/-- A step of a process. `ok` says whether there is shared memory for it, where it starts, and room
for a new semaphore, where it calls `semget`. The result of `semop` is not looked at. -/
def procStep (k : ℕ) (p : Proc) (ok : Bool) (sems : Sems Proc) (vars : SharedStruct w) :
    Pos w → Option (Sems Proc × SharedStruct w × Pos w)
  | .idle => some (sems, vars, if ok then .semget else .leave .failed)
  | .semget =>
      match SysVSem.semget sems ok semIpcKey 1 with
      | (sems', some id) =>
          some (sems', vars, if p.program.setsVal then .setval id else .wait id)
      | (sems', none) => some (sems', vars, .leave .failed)
  | .setval id =>
      -- The program does not ask whether it is the creator of the semaphore.
      match SysVSem.setval sems id 0 1 with
      | some sems' => some (sems', vars, .wait id)
      | none => some (sems, vars, .leave .failed)
  | .wait id =>
      match semopUndo sems p id 0 (-1) with
      | .returns sems' => some (sems', vars, loop k id 0)
      -- The loop runs without the semaphore.
      | .fails => some (sems, vars, loop k id 0)
      | .blocks => none
  | .access id i a =>
      let (next, vars') := a.step p.program.change vars
      some (sems, vars', next.elim (loop k id (i + 1)) (.access id i))
  | .signal id =>
      match semopUndo sems p id 0 1 with
      | .returns sems' => some (sems', vars, .leave .returned)
      | .fails => some (sems, vars, .leave .returned)
      | .blocks => none
  -- What `SEM_UNDO` keeps for the process is undone.
  | .leave e => some (SysVSem.exit sems p, vars, .finished e)
  | .finished _ => none

/-- The semaphores of the kernel, the variables in shared memory and the processes. -/
structure State (w : ℕ) where
  sems : Sems Proc
  vars : SharedStruct w
  pos : Proc → Pos w

/-- Before both programs. -/
def State.init (sems : Sems Proc) (vars : SharedStruct w) : State w := ⟨sems, vars, fun _ => .idle⟩

/-- One step, labelled with the process that takes it. -/
def step (k : ℕ) (s : State w) (a : Proc × Bool) : Option (State w × Proc) :=
  (procStep k a.1 a.2 s.sems s.vars (s.pos a.1)).map fun (sems', vars', pos') =>
    (⟨sems', vars', Function.update s.pos a.1 pos'⟩, a.1)

/-- The process is between its `semop` of -1 and its `semop` of 1. -/
def Pos.inside : Pos w → Bool
  | access .. | signal _ => true
  | _ => false

/-- The step of `p` does not set the semaphore while a process is inside. -/
def Timely (s : State w) (p : Proc) : Prop :=
  (∃ id, s.pos p = .setval id) → ∀ q, (s.pos q).inside = false

/-- From `sems` and `vars` the processes get to `s`. -/
abbrev Reaches (k : ℕ) (sems : Sems Proc) (vars : SharedStruct w) (tr : List Proc) (s : State w) :
    Prop := Run (StepOf (step k)) (.init sems vars) tr s

/-- They do so in timely steps. -/
abbrev TimelyReaches (k : ℕ) (sems : Sems Proc) (vars : SharedStruct w) (tr : List Proc)
    (s : State w) : Prop :=
  Run (fun s p u => Timely s p ∧ StepOf (step k) s p u) (.init sems vars) tr s

/-- What earlier runs leave: no semaphore under the key, or one that is 0 or 1. -/
def Left (sems : Sems Proc) : Prop :=
  ∀ id, findKey sems semIpcKey = some id → ∃ val ≤ 1, semAt sems id 0 = some (.ofVal val)

/-- The value of the semaphore under the key. -/
def semVal (sems : Sems Proc) : Option ℕ :=
  (findKey sems semIpcKey).bind fun id => getval sems id 0

/-- At most one process is inside, and when both programs have returned the variables are what they
were. -/
def Kept (vars : SharedStruct w) (s : State w) : Prop :=
  (∀ p q, (s.pos p).inside = true → (s.pos q).inside = true → p = q) ∧
    ((∀ p, s.pos p = .finished .returned) → s.vars = vars)

/-! ## The invariant -/

namespace Pos

/-- The semaphore the process goes by. -/
def semId : Pos w → Option ℕ
  | setval id | wait id | access id _ _ | signal id => some id
  | _ => none

/-- The stores of a process to a variable. -/
def stored (k : ℕ) (v : Var) : Pos w → ℤ
  | access _ i a => i + a.stored v
  | signal _ | leave .returned | finished .returned => k
  | _ => 0

/-- The iteration is one of the loop, and what was loaded is still there. -/
def Valid (k : ℕ) (vars : SharedStruct w) : Pos w → Prop
  | access _ i a => i < k ∧ a.Fresh vars
  | _ => True

/-- The process has not set the semaphore yet. -/
def early : Pos w → Bool
  | idle | semget | setval _ => true
  | _ => false

end Pos

section Loop

variable (k id i : ℕ)

theorem inside_loop : (loop k id i : Pos w).inside = true := by
  rw [loop]
  split_ifs <;> rfl

theorem semId_loop : (loop k id i : Pos w).semId = some id := by
  rw [loop]
  split_ifs <;> rfl

theorem early_loop : (loop k id i : Pos w).early = false := by
  rw [loop]
  split_ifs <;> rfl

theorem valid_loop (vars : SharedStruct w) : (loop k id i : Pos w).Valid k vars := by
  rw [loop]
  split_ifs with hi
  · exact ⟨hi, trivial⟩
  · trivial

variable {k i} in
/-- At the head of the loop all stores of the iterations before are done. -/
theorem stored_loop (hi : i ≤ k) (v : Var) : (loop k id i : Pos w).stored k v = i := by
  rw [loop]
  split_ifs with hlt
  · simp [Pos.stored, Access.stored, Var.index]
  · have heq : i = k := by omega
    rw [heq]
    rfl

end Loop

/-- The processes inside. -/
def State.inside (s : State w) (p : Proc) : Bool := (s.pos p).inside

/-- There are `n` permits for the semaphore under the key, by which the processes go, and the
variables count their stores. Before the semaphore is set there are as many as at the start. -/
structure Inv (k : ℕ) (init : SharedStruct w) (n₀ n : ℕ) (s : State w) : Prop where
  bound : n ≤ 1
  permits : ∀ id, findKey s.sems semIpcKey = some id → Guards s.sems id 0 n s.inside
  absent : findKey s.sems semIpcKey = none → n = 0
  known : ∀ p id, (s.pos p).semId = some id → findKey s.sems semIpcKey = some id
  setter : ∀ p id, s.pos p = .setval id → p = .semaProc1
  early : (s.pos .semaProc1).early = true → n = n₀
  valid : ∀ p, (s.pos p).Valid k s.vars
  vars : ∀ v, s.vars v =
    init v + ((∑ p : Proc, p.program.change * (s.pos p).stored k v : ℤ) : BitVec w)

/-- What a step of `p` does, with the permits after it. -/
structure ProcMove (k n n' : ℕ) (s : State w) (p : Proc) (sems : Sems Proc) (vars : SharedStruct w)
    (pos : Pos w) : Prop where
  bound : n' ≤ 1
  permits : ∀ id, findKey sems semIpcKey = some id →
    Guards sems id 0 n' (Function.update s.inside p pos.inside)
  absent : findKey sems semIpcKey = none → n' = 0
  keeps : ∀ id, findKey s.sems semIpcKey = some id → findKey sems semIpcKey = some id
  known : ∀ id, pos.semId = some id → findKey sems semIpcKey = some id
  setter : ∀ id, pos = .setval id → p = .semaProc1
  early : pos.early = true → (s.pos p).early = true
  set : n' = n ∨ p = .semaProc1 ∧ pos.early = false
  valid : pos.Valid k vars
  others : vars = s.vars ∨ (s.pos p).inside = true
  counts : ∀ v, vars v = s.vars v +
    ((p.program.change * (pos.stored k v - (s.pos p).stored k v) : ℤ) : BitVec w)

section Invariant

variable {k n₀ n n' : ℕ} {init vars : SharedStruct w} {s u : State w} {p q : Proc}
  {sems : Sems Proc} {pos : Pos w}

/-- A process outside has loaded nothing. -/
theorem Pos.Valid.of_not_inside (h : pos.Valid k init) (hout : pos.inside = false) :
    pos.Valid k vars := by
  cases pos with
  | access id i a => cases hout
  | _ => trivial

/-- A process inside goes by the semaphore under the key. -/
theorem Inv.exists_findKey (h : Inv k init n₀ n s) (hin : (s.pos p).inside = true) :
    ∃ id, findKey s.sems semIpcKey = some id := by
  cases hpos : s.pos p with
  | access id i a => exact ⟨id, h.known p id (by rw [hpos]; rfl)⟩
  | signal id => exact ⟨id, h.known p id (by rw [hpos]; rfl)⟩
  | _ =>
      rw [hpos] at hin
      cases hin

/-- Only one process is inside. -/
theorem Inv.exclusive (h : Inv k init n₀ n s) (hp : (s.pos p).inside = true)
    (hq : (s.pos q).inside = true) : p = q := by
  obtain ⟨id, hid⟩ := h.exists_findKey hp
  exact (h.permits id hid).exclusive h.bound hp hq

/-- A step keeps the invariant. -/
theorem Inv.move (h : Inv k init n₀ n s) (hmove : ProcMove k n n' s p sems vars pos) :
    Inv k init n₀ n' ⟨sems, vars, Function.update s.pos p pos⟩ := by
  let u : State w := ⟨sems, vars, Function.update s.pos p pos⟩
  have hself : u.pos p = pos := Function.update_self ..
  have hother : ∀ {q}, q ≠ p → u.pos q = s.pos q := fun hne => Function.update_of_ne hne ..
  have hinside : u.inside = Function.update s.inside p pos.inside :=
    funext fun q => Function.apply_update (fun _ => Pos.inside) s.pos p pos q
  refine ⟨hmove.bound, fun id hid => hinside ▸ hmove.permits id hid, hmove.absent,
    fun q id hq => ?_, fun q id hq => ?_, fun hearly => ?_, fun q => ?_, fun v => ?_⟩
  · change (u.pos q).semId = some id at hq
    rcases eq_or_ne q p with rfl | hne
    · rw [hself] at hq
      exact hmove.known id hq
    · rw [hother hne] at hq
      exact hmove.keeps id (h.known q id hq)
  · change u.pos q = .setval id at hq
    rcases eq_or_ne q p with rfl | hne
    · rw [hself] at hq
      exact hmove.setter id hq
    · rw [hother hne] at hq
      exact h.setter q id hq
  · change (u.pos .semaProc1).early = true at hearly
    rcases eq_or_ne Proc.semaProc1 p with rfl | hne
    · rw [hself] at hearly
      rcases hmove.set with rfl | ⟨-, hlate⟩
      · exact h.early (hmove.early hearly)
      · rw [hlate] at hearly
        cases hearly
    · rw [hother hne] at hearly
      rcases hmove.set with rfl | ⟨heq, -⟩
      · exact h.early hearly
      · exact absurd heq.symm hne
  · show (u.pos q).Valid k vars
    rcases eq_or_ne q p with rfl | hne
    · rw [hself]
      exact hmove.valid
    rw [hother hne]
    -- Either the variables are as they were, or `p` is the one inside.
    rcases hmove.others with rfl | hin
    · exact h.valid q
    · apply (h.valid q).of_not_inside
      by_contra hq
      exact hne (h.exclusive (Bool.eq_true_of_not_eq_false hq) hin)
  · have hsum := sum_update_add (fun q (x : Pos w) => q.program.change * x.stored k v) s.pos p pos
    show vars v = init v +
      ((∑ q : Proc, q.program.change * (Function.update s.pos p pos q).stored k v : ℤ) : BitVec w)
    rw [hmove.counts v, h.vars v, add_assoc, ← Int.cast_add]
    congr 2
    linarith

/-- A step that changes neither the semaphores nor the variables. -/
theorem Inv.quiet {old : Pos w} (h : Inv k init n₀ n s) (hpos : s.pos p = old)
    (hinside : pos.inside = old.inside)
    (hknown : ∀ id, pos.semId = some id → findKey s.sems semIpcKey = some id)
    (hsetter : ∀ id, pos = .setval id → p = .semaProc1)
    (hearly : pos.early = true → old.early = true) (hvalid : pos.Valid k s.vars)
    (hstored : ∀ v, pos.stored k v = old.stored k v) :
    ProcMove k n n s p s.sems s.vars pos := by
  subst hpos
  refine ⟨h.bound, fun id hid => ?_, h.absent, fun _ hid => hid, hknown, hsetter, hearly, .inl rfl,
    hvalid, .inl rfl, fun v => ?_⟩
  · rw [hinside]
    exact (h.permits id hid).update_same rfl
  · rw [hstored, sub_self, mul_zero, Int.cast_zero, add_zero]

/-- A step behind `SETVAL`. -/
theorem Inv.late (h : Inv k init n₀ n s) (hlate : pos.early = false)
    (hkeys : findKey sems semIpcKey = findKey s.sems semIpcKey)
    (hknown : ∀ id, pos.semId = some id → (s.pos p).semId = some id)
    (hpermits : ∀ id, findKey s.sems semIpcKey = some id →
      Guards sems id 0 n (Function.update s.inside p pos.inside))
    (hvalid : pos.Valid k vars) (hothers : vars = s.vars ∨ (s.pos p).inside = true)
    (hcounts : ∀ v, vars v = s.vars v +
      ((p.program.change * (pos.stored k v - (s.pos p).stored k v) : ℤ) : BitVec w)) :
    ProcMove k n n s p sems vars pos := by
  refine ⟨h.bound, fun id hid => hpermits id (hkeys ▸ hid), fun hid => h.absent (hkeys ▸ hid),
    fun id hid => hkeys ▸ hid, fun id hid => hkeys ▸ h.known p id (hknown id hid), ?_, ?_, .inl rfl,
    hvalid, hothers, hcounts⟩
  · rintro id rfl
    cases hlate
  · rw [hlate]
    exact nofun

/-- `semget` returns the semaphore under the key, or creates it with the value 0. -/
theorem Inv.semget {ok : Bool} (h : Inv k init n₀ n s) (hpos : s.pos p = .semget)
    (hstep : procStep k p ok s.sems s.vars .semget = some (sems, vars, pos)) :
    ProcMove k n n s p sems vars pos := by
  have hkey : semIpcKey ≠ ipcPrivate := by decide
  rw [procStep] at hstep
  cases hfind : findKey s.sems semIpcKey with
  | some id =>
      simp only [semget_of_findKey hkey hfind, Option.some.injEq, Prod.mk.injEq] at hstep
      obtain ⟨rfl, rfl, rfl⟩ := hstep
      have hknown : ∀ id', some id = some id' → findKey s.sems semIpcKey = some id' :=
        fun _ heq => hfind.trans heq
      cases p with
      | semaProc1 =>
          exact h.quiet hpos rfl hknown (fun _ _ => rfl) (fun _ => rfl) trivial fun _ => rfl
      | semaProc2 =>
          refine h.quiet hpos rfl hknown ?_ ?_ trivial fun _ => rfl
          · rintro _ ⟨⟩
          · rintro ⟨⟩
  | none =>
      cases ok with
      | false =>
          simp only [semget_of_none hkey hfind, Bool.false_eq_true, if_false, Option.some.injEq,
            Prod.mk.injEq] at hstep
          obtain ⟨rfl, rfl, rfl⟩ := hstep
          refine h.quiet hpos rfl ?_ ?_ ?_ trivial fun _ => rfl
          · rintro _ ⟨⟩
          · rintro _ ⟨⟩
          · rintro ⟨⟩
      | true =>
          have hget := semget_of_none hkey hfind true
          have hnew := findKey_semget hkey hget
          simp only [hget, if_true, Option.some.injEq, Prod.mk.injEq] at hstep
          obtain ⟨rfl, rfl, rfl⟩ := hstep
          -- No process goes by a semaphore yet: the new one has no permit and needs none.
          have hout : ∀ q, s.inside q = false := by
            intro q
            by_contra hq
            obtain ⟨id, hid⟩ := h.exists_findKey (Bool.eq_true_of_not_eq_false hq)
            rw [hfind] at hid
            cases hid
          let sems := s.sems ++ [some (.ofSize semIpcKey 1 Nat.one_ne_zero)]
          have hguards : ∀ id, findKey sems semIpcKey = some id →
              Guards sems id 0 n (Function.update s.inside p false) := by
            intro id hid
            obtain rfl := Option.some.inj (hnew.symm.trans hid)
            rw [h.absent hfind]
            exact (guards_of_ofVal (semAt_ofSize s.sems semIpcKey) hout).update_same (hout p)
          have hkeeps : ∀ id, findKey s.sems semIpcKey = some id →
              findKey sems semIpcKey = some id := by
            intro id hid
            rw [hfind] at hid
            cases hid
          cases p with
          | semaProc1 =>
              exact ⟨h.bound, hguards, fun _ => h.absent hfind, hkeeps, fun _ hid => hnew.trans hid,
                fun _ _ => rfl, fun _ => by rw [hpos]; rfl, .inl rfl, trivial, .inl rfl,
                fun v => by simp [hpos, Pos.stored, Proc.program, TwoPrograms.semaProc1]⟩
          | semaProc2 =>
              refine ⟨h.bound, hguards, fun _ => h.absent hfind, hkeeps,
                fun _ hid => hnew.trans hid, ?_, ?_, .inl rfl, trivial, .inl rfl,
                fun v => by simp [hpos, Pos.stored, Proc.program, TwoPrograms.semaProc2]⟩
              · rintro _ ⟨⟩
              · rintro ⟨⟩

/-- `SETVAL` gives the semaphore its one permit, which nobody holds. -/
theorem Inv.setval {ok : Bool} {id : ℕ} (h : Inv k init n₀ n s) (htimely : Timely s p)
    (hpos : s.pos p = .setval id)
    (hstep : procStep k p ok s.sems s.vars (.setval id) = some (sems, vars, pos)) :
    ProcMove k n 1 s p sems vars pos := by
  have hid := h.known p id (by rw [hpos]; rfl)
  obtain ⟨sem, hsem, -⟩ := h.permits id hid
  have hset : SysVSem.setval s.sems id 0 1 = some (putSem s.sems id 0 (.ofVal 1)) := by
    rw [SysVSem.setval, hsem]
    rfl
  simp only [procStep, hset, Option.some.injEq, Prod.mk.injEq] at hstep
  obtain ⟨rfl, rfl, rfl⟩ := hstep
  have hkeys : findKey (putSem s.sems id 0 (.ofVal 1)) semIpcKey = findKey s.sems semIpcKey :=
    findKey_putSem semIpcKey
  refine ⟨le_rfl, fun id' hid' => ?_, fun hnone => ?_, fun _ hid' => hkeys ▸ hid',
    fun id' hid' => ?_, nofun, nofun, .inr ⟨h.setter p id hpos, rfl⟩, trivial, .inl rfl,
    fun v => ?_⟩
  · rw [hkeys, hid] at hid'
    obtain rfl := Option.some.inj hid'
    -- Here the step has to be timely.
    have hnone : ∀ q, Function.update s.inside p false q = false := by
      intro q
      rcases eq_or_ne q p with rfl | hne
      · exact Function.update_self ..
      · rw [Function.update_of_ne hne]
        exact htimely ⟨id, hpos⟩ q
    exact guards_of_setval hset hnone
  · rw [hkeys, hid] at hnone
    cases hnone
  · rw [hkeys, hid]
    exact hid'
  · simp [hpos, Pos.stored]

/-- The `semop` of -1 takes the permit. -/
theorem Inv.wait {ok : Bool} {id : ℕ} (h : Inv k init n₀ n s) (hpos : s.pos p = .wait id)
    (hstep : procStep k p ok s.sems s.vars (.wait id) = some (sems, vars, pos)) :
    ProcMove k n n s p sems vars pos := by
  have hid := h.known p id (by rw [hpos]; rfl)
  have hguards := h.permits id hid
  have hout : s.inside p = false := by rw [State.inside, hpos]; rfl
  rw [procStep] at hstep
  cases hop : semopUndo s.sems p id 0 (-1) with
  | fails => exact absurd hop (hguards.wait_ne_fails (h.bound.trans (by decide)))
  | blocks =>
      rw [hop] at hstep
      cases hstep
  | returns sems' =>
      simp only [hop, Option.some.injEq, Prod.mk.injEq] at hstep
      obtain ⟨rfl, rfl, rfl⟩ := hstep
      refine h.late (early_loop ..) (findKey_semopUndo hop _) (fun id' hid' => ?_)
        (fun id' hid' => ?_) (valid_loop ..) (.inl rfl) fun v => ?_
      · rw [hpos, ← hid', semId_loop]
        rfl
      · obtain rfl := Option.some.inj (hid.symm.trans hid')
        rw [inside_loop]
        exact (hguards.wait hout hop).2
      · rw [stored_loop id (Nat.zero_le k), hpos]
        simp [Pos.stored]

/-- A load or store of the process inside. -/
theorem Inv.access {ok : Bool} {id i : ℕ} {a : Access w} (h : Inv k init n₀ n s)
    (hpos : s.pos p = .access id i a)
    (hstep : procStep k p ok s.sems s.vars (.access id i a) = some (sems, vars, pos)) :
    ProcMove k n n s p sems vars pos := by
  have hvalid := h.valid p
  rw [hpos] at hvalid
  have hin : (s.pos p).inside = true := by rw [hpos]; rfl
  rw [procStep] at hstep
  generalize hacc : a.step p.program.change s.vars = r at hstep
  obtain ⟨next, vars'⟩ := r
  obtain ⟨rfl, rfl, rfl⟩ := by simpa using hstep
  obtain ⟨hfresh, hcount⟩ := Access.step_spec hvalid.2 hacc
  -- The process stays inside.
  have hguards : ∀ id', findKey s.sems semIpcKey = some id' →
      Guards s.sems id' 0 n (Function.update s.inside p true) :=
    fun id' hid' => (h.permits id' hid').update_same hin
  cases next with
  | none =>
      refine h.late (early_loop ..) rfl (fun id' hid' => ?_) ?_ (valid_loop ..) (.inr hin)
        fun v => ?_
      · rw [hpos, ← hid', Option.elim_none, semId_loop]
        rfl
      · rw [Option.elim_none, inside_loop]
        exact hguards
      · have hnext : (loop k id (i + 1) : Pos w).stored k v = (i + 1 : ℕ) :=
          stored_loop id hvalid.1 v
        rw [hcount v, hpos, Option.elim_none, Option.elim_none, hnext]
        simp [Pos.stored]
  | some a' =>
      refine h.late rfl rfl (fun id' hid' => ?_) hguards ⟨hvalid.1, hfresh a' rfl⟩ (.inr hin)
        fun v => ?_
      · rw [hpos]
        exact hid'
      · rw [hcount v, hpos]
        simp [Pos.stored]

/-- The `semop` of 1 gives the permit back. -/
theorem Inv.signal {ok : Bool} {id : ℕ} (h : Inv k init n₀ n s) (hpos : s.pos p = .signal id)
    (hstep : procStep k p ok s.sems s.vars (.signal id) = some (sems, vars, pos)) :
    ProcMove k n n s p sems vars pos := by
  have hid := h.known p id (by rw [hpos]; rfl)
  have hin : s.inside p = true := by rw [State.inside, hpos]; rfl
  obtain ⟨sems', hop, hguards⟩ := (h.permits id hid).signal (h.bound.trans (by decide)) hin
  simp only [procStep, hop, Option.some.injEq, Prod.mk.injEq] at hstep
  obtain ⟨rfl, rfl, rfl⟩ := hstep
  refine h.late rfl (findKey_semopUndo hop _) nofun (fun id' hid' => ?_) trivial (.inl rfl)
    fun v => ?_
  · obtain rfl := Option.some.inj (hid.symm.trans hid')
    exact hguards
  · simp [hpos, Pos.stored]

/-- What a timely step of a process does. -/
theorem procStep_move {ok : Bool} (h : Inv k init n₀ n s) (htimely : Timely s p)
    (hstep : procStep k p ok s.sems s.vars (s.pos p) = some (sems, vars, pos)) :
    ∃ n', ProcMove k n n' s p sems vars pos := by
  cases hpos : s.pos p <;> rw [hpos] at hstep
  case idle =>
    obtain ⟨rfl, rfl, rfl⟩ := by simpa [procStep] using hstep
    cases ok with
    | false => exact ⟨n, h.quiet hpos rfl nofun nofun nofun trivial fun _ => rfl⟩
    | true => exact ⟨n, h.quiet hpos rfl nofun nofun (fun _ => rfl) trivial fun _ => rfl⟩
  case semget => exact ⟨n, h.semget hpos hstep⟩
  case setval id => exact ⟨1, h.setval htimely hpos hstep⟩
  case wait id => exact ⟨n, h.wait hpos hstep⟩
  case access id i a => exact ⟨n, h.access hpos hstep⟩
  case signal id => exact ⟨n, h.signal hpos hstep⟩
  case leave e =>
    obtain ⟨rfl, rfl, rfl⟩ := by simpa [procStep] using hstep
    refine ⟨n, h.late rfl (findKey_exit ..) nofun (fun id hid => ?_) trivial (.inl rfl) fun v => ?_⟩
    · exact (h.permits id hid).exit (h.bound.trans (by decide))
    · cases e <;> simp [hpos, Pos.stored]
  case finished e => cases hstep

/-- A timely step keeps the invariant. -/
theorem Inv.step (h : Inv k init n₀ n s) (htimely : Timely s p) (hstep : StepOf (step k) s p u) :
    ∃ n', Inv k init n₀ n' u := by
  obtain ⟨⟨q, ok⟩, hstep⟩ := hstep
  obtain ⟨⟨sems, vars, pos⟩, hproc, heq⟩ := Option.map_eq_some_iff.mp hstep
  obtain ⟨rfl, rfl⟩ := Prod.mk.inj heq
  obtain ⟨n', hmove⟩ := procStep_move h htimely hproc
  exact ⟨n', h.move hmove⟩

/-- As long as there is no permit, nobody is inside where the semaphore is set. -/
theorem Inv.timely (h : Inv k init 0 n s) (p : Proc) : Timely s p := by
  rintro ⟨id, hpos⟩ q
  obtain rfl := h.setter p id hpos
  obtain rfl := h.early (by rw [hpos]; rfl)
  obtain ⟨sem, -, hval, -⟩ := h.permits id (h.known _ id (by rw [hpos]; rfl))
  have hnone : holders s.inside = 0 := by omega
  exact holders_eq_zero_iff.mp hnone q

/-- The processes exclude each other, and what they store adds up to nothing. -/
theorem Inv.kept (h : Inv k init n₀ n s) : Kept init s := by
  refine ⟨fun p q hp hq => h.exclusive hp hq, fun hreturned => funext fun v => ?_⟩
  have hnet : ∑ p : Proc, p.program.change * (s.pos p).stored k v = 0 := by
    simp only [hreturned]
    show ∑ p ∈ {Proc.semaProc1, Proc.semaProc2}, p.program.change * (k : ℤ) = 0
    simp [Proc.program, semaProc1, semaProc2]
  rw [h.vars v, hnet, Int.cast_zero, add_zero]

end Invariant

/-! ## Runs -/

section Runs

variable {k : ℕ} {sems : Sems Proc} {vars : SharedStruct w} {tr : List Proc} {s : State w}

/-- What earlier runs leave are as many permits as the value of the semaphore, or none. -/
theorem inv_init (hleft : Left sems) (k : ℕ) (vars : SharedStruct w) :
    Inv k vars ((semVal sems).getD 0) ((semVal sems).getD 0) (.init sems vars) := by
  have hval : ∀ id, findKey sems semIpcKey = some id →
      (semVal sems).getD 0 ≤ 1 ∧ semAt sems id 0 = some (.ofVal ((semVal sems).getD 0)) := by
    intro id hid
    obtain ⟨val, hle, hsem⟩ := hleft id hid
    simp only [semVal, hid, getval, hsem, Option.bind_some, Option.map_some, Option.getD_some]
    exact ⟨hle, rfl⟩
  refine ⟨?_, fun id hid => guards_of_ofVal (hval id hid).2 fun _ => rfl, fun hnone => ?_,
    fun p id hid => ?_, fun p id hset => ?_, fun _ => rfl, fun _ => trivial, fun v => ?_⟩
  · cases hfind : findKey sems semIpcKey with
    | some id => exact (hval id hfind).1
    | none =>
        rw [semVal, hfind]
        exact Nat.zero_le 1
  · rw [semVal, show findKey sems semIpcKey = none from hnone]
    rfl
  · cases hid
  · cases hset
  · simp [State.init, Pos.stored]

/-- The invariant holds in every state of a timely run. -/
theorem inv_of_timely (hleft : Left sems) (h : TimelyReaches k sems vars tr s) :
    ∃ n, Inv k vars ((semVal sems).getD 0) n s := by
  refine h.history (P := fun _ s => ∃ n, Inv k vars ((semVal sems).getD 0) n s)
    ⟨_, inv_init hleft k vars⟩ ?_
  rintro tr s p u - ⟨n, hinv⟩ ⟨htimely, hstep⟩
  exact hinv.step htimely hstep

/-- If there is no permit at the start, then all runs are timely. -/
theorem timely_of_reaches (hleft : Left sems) (hval : semVal sems ≠ some 1)
    (h : Reaches k sems vars tr s) : TimelyReaches k sems vars tr s := by
  have hzero : (semVal sems).getD 0 = 0 := by
    have hbound := (inv_init hleft k vars).bound
    cases hsem : semVal sems with
    | none => rfl
    | some val =>
        rw [hsem] at hval hbound
        have hne : val ≠ 1 := fun heq => hval (congrArg some heq)
        simp only [Option.getD_some] at hbound ⊢
        omega
  refine h.history (P := TimelyReaches k sems vars) .nil ?_
  intro tr s p u _ htimely hstep
  obtain ⟨n, hinv⟩ := inv_of_timely hleft htimely
  rw [hzero] at hinv
  exact htimely.snoc ⟨hinv.timely p, hstep⟩

/-- A run goes on with a step of the process `p`. -/
theorem Reaches.proc {p : Proc} {sems₀ sems' : Sems Proc} {vars₀ vars' : SharedStruct w}
    {old pos : Pos w} (h : Reaches k sems vars tr s)
    (hstep : procStep k p true sems₀ vars₀ old = some (sems', vars', pos))
    (hs : s.sems = sems₀ ∧ s.vars = vars₀ ∧ s.pos p = old) :
    Reaches k sems vars (tr ++ [p]) ⟨sems', vars', Function.update s.pos p pos⟩ := by
  obtain ⟨rfl, rfl, rfl⟩ := hs
  exact h.snoc ⟨(p, true), by rw [step, hstep]; rfl⟩

/-- A semaphore of 1 lets any process in. -/
theorem exists_wait {id : ℕ} (hid : findKey sems semIpcKey = some id)
    (hsem : semAt sems id 0 = some (.ofVal 1)) (p : Proc) :
    ∃ sems' sem, semopUndo sems p id 0 (-1) = .returns sems' ∧
      findKey sems' semIpcKey = some id ∧ semAt sems' id 0 = some sem :=
  ⟨_, _, semopUndo_eq p (by decide) hsem (by decide) (by decide), (findKey_putSem _).trans hid,
    semAt_putSem hsem⟩

/-- `SETVAL` makes it 1 whatever it was. -/
theorem exists_setval {id : ℕ} {sem : Sem Proc} (hid : findKey sems semIpcKey = some id)
    (hsem : semAt sems id 0 = some sem) :
    ∃ sems', setval sems id 0 1 = some sems' ∧ findKey sems' semIpcKey = some id ∧
      semAt sems' id 0 = some (.ofVal 1) := by
  refine ⟨putSem sems id 0 (.ofVal 1), ?_, (findKey_putSem _).trans hid, semAt_putSem hsem⟩
  rw [setval, hsem]
  rfl

/-- If the semaphore is 1 at the start, then `sema_proc2` can get inside, and `sema_proc1`, which
sets the semaphore to 1 again, too. -/
theorem not_kept_of_one (hleft : Left sems) (hval : semVal sems = some 1) (k : ℕ)
    (vars : SharedStruct w) : ∃ tr s, Reaches k sems vars tr s ∧ ¬ Kept vars s := by
  have hkey : semIpcKey ≠ ipcPrivate := by decide
  obtain ⟨id, hid, hget⟩ := Option.bind_eq_some_iff.mp hval
  obtain ⟨val, -, hsem⟩ := hleft id hid
  obtain rfl : val = 1 := by simpa [getval, hsem, Sem.ofVal] using hget
  obtain ⟨sems₁, sem, hwait₂, hid₁, hsem₁⟩ := exists_wait hid hsem .semaProc2
  obtain ⟨sems₂, hset, hid₂, hsem₂⟩ := exists_setval hid₁ hsem₁
  obtain ⟨sems₃, -, hwait₁, -, -⟩ := exists_wait hid₂ hsem₂ .semaProc1
  have semget_eq : ∀ p {sems'}, findKey sems' semIpcKey = some id →
      procStep k p true sems' vars .semget =
        some (sems', vars, if p.program.setsVal then .setval id else .wait id) := by
    intro p sems' hid'
    rw [procStep, semget_of_findKey hkey hid']
  have wait_eq : ∀ {p sems' sems''}, semopUndo sems' p id 0 (-1) = .returns sems'' →
      procStep k p true sems' vars (.wait id) = some (sems'', vars, loop k id 0) := by
    intro p sems' sems'' hwait
    rw [procStep, hwait]
  have setval_eq : procStep k .semaProc1 true sems₁ vars (.setval id) =
      some (sems₂, vars, .wait id) := by
    rw [procStep, hset]
  have idle_eq : ∀ p sems', procStep k p true sems' vars .idle = some (sems', vars, .semget) :=
    fun _ _ => rfl
  -- First `sema_proc2` alone, up to its loop, and then `sema_proc1`.
  have hstart : Reaches k sems vars [] (.init sems vars) := .nil
  have hget₂ := (hstart.proc (idle_eq .semaProc2 _) ⟨rfl, rfl, rfl⟩).proc (semget_eq .semaProc2 hid)
    ⟨rfl, rfl, rfl⟩
  have hin₂ := hget₂.proc (wait_eq hwait₂) ⟨rfl, rfl, rfl⟩
  have hget₁ := (hin₂.proc (idle_eq .semaProc1 _) ⟨rfl, rfl, rfl⟩).proc (semget_eq .semaProc1 hid₁)
    ⟨rfl, rfl, rfl⟩
  have hin₁ := (hget₁.proc setval_eq ⟨rfl, rfl, rfl⟩).proc (wait_eq hwait₁) ⟨rfl, rfl, rfl⟩
  refine ⟨_, _, hin₁, fun hkept => ?_⟩
  have heq := hkept.1 .semaProc1 .semaProc2 (inside_loop ..) (inside_loop ..)
  cases heq

/-- From whatever earlier runs have left: the programs exclude each other and leave the variables as
they were, in every run, if and only if the semaphore was not left with the value 1. In any case
they do so in the runs in which nobody is inside when the semaphore is set. -/
theorem kept_iff (hleft : Left sems) (k : ℕ) (vars : SharedStruct w) :
    ((∀ tr s, Reaches k sems vars tr s → Kept vars s) ↔ semVal sems ≠ some 1) ∧
      ∀ tr s, TimelyReaches k sems vars tr s → Kept vars s := by
  have htimely : ∀ tr s, TimelyReaches k sems vars tr s → Kept vars s := by
    intro tr s h
    obtain ⟨n, hinv⟩ := inv_of_timely hleft h
    exact hinv.kept
  refine ⟨⟨fun hkept hval => ?_, fun hval tr s h => ?_⟩, htimely⟩
  · obtain ⟨tr, s, h, hnot⟩ := not_kept_of_one hleft hval k vars
    exact hnot (hkept tr s h)
  · exact htimely tr s (timely_of_reaches hleft hval h)

end Runs

/-- A run before has left the semaphore with the value 1, `sema_proc2` waits for it first, and
`sema_proc1` sets it to 1 again: with one iteration each, the first variable ends as -1. -/
theorem not_kept :
    ¬ ∀ sems : Sems Proc, Left sems → ∀ (k : ℕ) (vars : SharedStruct 32) (tr : List Proc)
      (s : State 32), Reaches k sems vars tr s → Kept vars s := by
  intro h
  let sems : Sems Proc := [some ⟨3333, [.ofVal 1], nofun⟩]
  have hleft : Left sems := by
    intro id hid
    obtain rfl : 0 = id := Option.some.inj hid
    exact ⟨1, le_rfl, rfl⟩
  have hrun := run_play (step 1) (.init sems (fun _ => 0 : SharedStruct 32))
    ([.semaProc2, .semaProc2, .semaProc2, .semaProc1, .semaProc1, .semaProc1, .semaProc1,
      .semaProc1, .semaProc2, .semaProc1, .semaProc2].map (·, true) ++
      .replicate 6 (.semaProc1, true) ++ .replicate 6 (.semaProc2, true))
  have hvars := (h sems hleft 1 _ _ _ hrun).2 (by decide +kernel)
  exact absurd (congrFun hvars .var1) (by decide +kernel)

/-- The semaphore is left with the value 0, at which `sema_proc2` waits: every run is in order. -/
theorem kept_iff_zero :
    ∃ sems : Sems Proc, semVal sems = some 0 ∧
      ∀ tr s, Reaches 1 sems (fun _ => 0 : SharedStruct 32) tr s → Kept (fun _ => 0) s := by
  let sems : Sems Proc := [some ⟨3333, [.ofVal 0], nofun⟩]
  have hleft : Left sems := by
    intro id hid
    obtain rfl : 0 = id := Option.some.inj hid
    exact ⟨0, Nat.zero_le 1, rfl⟩
  have hval : semVal sems = some 0 := rfl
  refine ⟨sems, hval, (kept_iff hleft 1 _).1.mpr ?_⟩
  rw [hval]
  decide

end TwoPrograms
