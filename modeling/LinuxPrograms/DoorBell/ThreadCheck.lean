import LinuxPrograms.DoorBell.DeadThread
import LinuxPrograms.Lib.IndexedStores

/-!
# Door bell: the arrays of `check_thread_dead`

`check_thread_dead` formats a command into an array of 20 bytes and copies the output of `ps`, of
whatever length, byte by byte into one of 500. Neither length is compared with that of its array.

- `length_cmd`, `cmd_overrun`: how far the command goes beyond its array.
- `listingFits_iff`: which outputs the other array holds as a string.
- `threadCheck_arrays`: both, for every process id and every output.
- `result_of_length_lt`, `result_of_length_ge`: how a call ends.
-/

namespace DoorBell

open CString IndexedStores

/-! ## A call -/

/-- `ps_cmd`. -/
def psCmd : CBuffer 20 := (CBuffer.zero 20).store (text "ps -T -p")

/-- The string `sprintf(cmd, "%s %u >ps_cmd.txt", ps_cmd, process_id)` makes. -/
def cmdText (processId : UInt32) : List UInt8 :=
  psCmd.str ++ text " " ++ text processId.toNat.repr ++ text " >ps_cmd.txt"

/-- The stores of the read loop from `i` on, up to the end of the file. -/
def readLoop : Int32 → List UInt8 → List (ℤ × UInt8)
  | _, [] => []
  | i, fileChar :: rest => (i.toInt, fileChar) :: readLoop (i + 1) rest

/-- How a call ends. -/
inductive CheckResult
  /-- The file cannot be opened. -/
  | exit
  | returned (status : Status)
  /-- No NUL stops `strstr` within `ps_cmd_output`. -/
  | beyond
  deriving DecidableEq

/-- What a call of `check_thread_dead` makes of its arrays. -/
structure ThreadCheck where
  /-- The bytes stored from the start of `cmd` on. -/
  cmd : List UInt8
  /-- The stores to `ps_cmd_output`, each with its index. -/
  stores : List (ℤ × UInt8)
  psCmdOutput : CBuffer 500
  result : CheckResult

/-- `check_thread_dead`, given the process id and what `ps_cmd.txt` then holds. -/
def threadCheck (getpid : Int32) (psCmdTxt : Option (List UInt8)) : ThreadCheck :=
  let processId := getpid.toUInt32
  let cmd := cmdText processId ++ [0]
  match psCmdTxt with
  | none => { cmd, stores := [], psCmdOutput := .zero 500, result := .exit }
  | some out =>
      let stores := readLoop 0 out
      let psCmdOutput : CBuffer 500 :=
        ⟨perform (CBuffer.zero 500).bytes stores, by rw [length_perform, CBuffer.length_eq]⟩
      { cmd, stores, psCmdOutput
        result := if 0 ∈ psCmdOutput.bytes then .returned (checkThreadDead psCmdOutput.bytes)
          else .beyond }

namespace ThreadCheck

/-- The command and its NUL fit in `cmd`. -/
def CmdFits (t : ThreadCheck) : Prop := t.cmd.length ≤ 20

/-- The loop stores at the indices 0 to 498, and a NUL ends what it stored. -/
def ListingFits (t : ThreadCheck) : Prop := AllInside 499 t.stores ∧ 0 ∈ t.psCmdOutput.bytes

/-- The call keeps to both arrays. -/
def KeepsToArrays (t : ThreadCheck) : Prop := t.CmdFits ∧ t.ListingFits

end ThreadCheck

section Call

variable {getpid : Int32} {out : List UInt8}

/-! ## The command -/

/-- The command has 21 characters beside the digits. -/
theorem length_cmd (getpid : Int32) (psCmdTxt : Option (List UInt8)) :
    (threadCheck getpid psCmdTxt).cmd.length =
      (Nat.toDigits 10 getpid.toUInt32.toNat).length + 22 := by
  have hcmd : (threadCheck getpid psCmdTxt).cmd = cmdText getpid.toUInt32 ++ [0] := by
    cases psCmdTxt <;> rfl
  have hpsCmd : psCmd.str = text "ps -T -p" := by decide
  simp only [hcmd, cmdText, hpsCmd, List.length_append, length_text_repr]
  have htext : (text "ps -T -p").length = 8 ∧ (text " ").length = 1 ∧
      (text " >ps_cmd.txt").length = 12 := by decide
  rw [htext.1, htext.2.1, htext.2.2, List.length_singleton]
  omega

/-- The command is 3 to 12 bytes longer than its array. -/
theorem cmd_overrun (getpid : Int32) (psCmdTxt : Option (List UInt8)) :
    23 ≤ (threadCheck getpid psCmdTxt).cmd.length ∧
      (threadCheck getpid psCmdTxt).cmd.length ≤ 32 := by
  have hpos : 0 < (Nat.toDigits 10 getpid.toUInt32.toNat).length := Nat.length_toDigits_pos
  have hten : (Nat.toDigits 10 getpid.toUInt32.toNat).length ≤ 10 :=
    (Nat.length_toDigits_le_iff (by decide) (by decide)).mpr
      (lt_trans getpid.toUInt32.toNat_lt (by decide))
  rw [length_cmd]
  omega

theorem not_cmdFits (getpid : Int32) (psCmdTxt : Option (List UInt8)) :
    ¬ (threadCheck getpid psCmdTxt).CmdFits := by
  have hlong := (cmd_overrun getpid psCmdTxt).1
  rw [ThreadCheck.CmdFits]
  omega

/-! ## The output of `ps` -/

/-- The loop from `i` on: the index goes up by one a round, and beyond the range of `int` around. -/
theorem readLoop_eq (i : Int32) (out : List UInt8) :
    readLoop i out = storesOf (fun k => (i + .ofNat k).toInt) out := by
  induction out generalizing i with
  | nil => rfl
  | cons c rest ih =>
      have hzero : i + Int32.ofNat 0 = i := Int32.add_zero i
      have hsucc : ∀ k, i + 1 + Int32.ofNat k = i + Int32.ofNat (k + 1) := by
        intro k
        rw [Int32.ofNat_add, Int32.add_comm (Int32.ofNat k), ← Int32.add_assoc]
        rfl
      rw [readLoop, ih, storesOf, storesOf, List.mapIdx_cons, hzero]
      simp only [hsucc]

/-- The index in the round `k`. -/
def loopIndex (k : ℕ) : ℤ := ((0 : Int32) + .ofNat k).toInt

theorem readLoop_zero (out : List UInt8) : readLoop 0 out = storesOf loopIndex out :=
  readLoop_eq 0 out

/-- Up to the end of the array the index is the number of the round. -/
theorem loopIndex_eq {k : ℕ} (hk : k ≤ 500) : loopIndex k = k := by
  rw [loopIndex, Int32.zero_add]
  exact Int32.toInt_ofNat_of_lt (by omega)

theorem loopIndex_of_lt : ∀ k < (List.replicate 500 (0 : UInt8)).length, loopIndex k = k := by
  intro k hk
  rw [List.length_replicate] at hk
  exact loopIndex_eq hk.le

theorem allInside_stores_iff :
    AllInside 499 (threadCheck getpid (some out)).stores ↔ out.length < 500 := by
  have hstores : (threadCheck getpid (some out)).stores = readLoop 0 out := rfl
  have hindex : ∀ k ≤ 499, loopIndex k = k := fun k hk => loopIndex_eq (by omega)
  rw [hstores, readLoop_zero, allInside_storesOf_iff hindex]
  omega

/-- What the loop leaves in `ps_cmd_output`. -/
theorem bytes_eq_perform (getpid : Int32) (out : List UInt8) :
    (threadCheck getpid (some out)).psCmdOutput.bytes =
      perform (List.replicate 500 0) (storesOf loopIndex out) := by
  rw [← readLoop_zero]
  rfl

/-- What fits in `ps_cmd_output` stands in it, and the NULs of the array behind. -/
theorem bytes_psCmdOutput (getpid : Int32) (hlen : out.length ≤ 500) :
    (threadCheck getpid (some out)).psCmdOutput.bytes = psCmdOutput out := by
  have harray : (List.replicate 500 (0 : UInt8)).length = 500 := List.length_replicate
  rw [bytes_eq_perform, perform_storesOf loopIndex_of_lt (hlen.trans_eq harray.symm), psCmdOutput,
    CBuffer.bytes_store hlen, CBuffer.zero]

/-- An output shorter than the array leaves a NUL behind it. -/
theorem zero_mem_psCmdOutput (getpid : Int32) (hlen : out.length < 500) :
    0 ∈ (threadCheck getpid (some out)).psCmdOutput.bytes := by
  rw [bytes_psCmdOutput getpid hlen.le, psCmdOutput, CBuffer.bytes_store hlen.le, CBuffer.zero,
    List.drop_replicate, List.mem_append, List.mem_replicate]
  exact .inr ⟨by omega, rfl⟩

/-- A text as long as the array, or longer, leaves none. -/
theorem zero_notMem_psCmdOutput (getpid : Int32) (hout : 0 ∉ out) (hlen : 500 ≤ out.length) :
    0 ∉ (threadCheck getpid (some out)).psCmdOutput.bytes := by
  have harray : (List.replicate 500 (0 : UInt8)).length = 500 := List.length_replicate
  rw [bytes_eq_perform]
  intro hzero
  refine forall_mem_perform_storesOf (P := (· ≠ 0)) loopIndex_of_lt (harray.trans_le hlen) ?_ 0
    hzero rfl
  rintro c hc rfl
  exact hout hc

theorem listingFits_iff :
    (threadCheck getpid (some out)).ListingFits ↔ out.length < 500 := by
  rw [ThreadCheck.ListingFits, allInside_stores_iff]
  exact ⟨And.left, fun hlen => ⟨hlen, zero_mem_psCmdOutput getpid hlen⟩⟩

/-! ## How a call ends -/

/-- The verdict on a shorter output is the one on the whole of it. -/
theorem result_of_length_lt (hlen : out.length < 500) :
    (threadCheck getpid (some out)).result = .returned (checkThreadDead (psCmdOutput out)) := by
  have hresult : (threadCheck getpid (some out)).result =
      if 0 ∈ (threadCheck getpid (some out)).psCmdOutput.bytes then
        .returned (checkThreadDead (threadCheck getpid (some out)).psCmdOutput.bytes)
      else .beyond := rfl
  rw [hresult, if_pos (zero_mem_psCmdOutput getpid hlen), bytes_psCmdOutput getpid hlen.le]

/-- On a longer text there is none. -/
theorem result_of_length_ge (hout : 0 ∉ out) (hlen : 500 ≤ out.length) :
    (threadCheck getpid (some out)).result = .beyond :=
  if_neg (zero_notMem_psCmdOutput getpid hout hlen)

/-- `main` shuts the system down when the call returns `SUCCESS`. -/
theorem shutsDown_iff_result {s : State} (hmain : s.main = .watching) (hlen : out.length < 500) :
    ShutsDown s out ↔ (threadCheck getpid (some out)).result = .returned .success := by
  rw [shutsDown_iff hmain, result_of_length_lt hlen, CheckResult.returned.injEq]

/-! ## Both arrays -/

/-- For no process id and no output of `ps` a call keeps to its arrays: the command never fits, and
the output does exactly if it is shorter than its array. -/
theorem threadCheck_arrays (getpid : Int32) (out : List UInt8) :
    ¬ (threadCheck getpid (some out)).KeepsToArrays ∧
      ¬ (threadCheck getpid (some out)).CmdFits ∧
      ((threadCheck getpid (some out)).ListingFits ↔ out.length < 500) :=
  ⟨fun h => not_cmdFits getpid (some out) h.1, not_cmdFits getpid (some out), listingFits_iff⟩

/-- What `ps -T` prints of a process with twelve threads. -/
def twelveThreads : List UInt8 :=
  text "    PID    SPID TTY          TIME CMD\n" ++
    (List.replicate 12 (text "   4321    4321 pts/0    00:00:00 door_bell\n")).flatten

/-- The command is 26 bytes long with a process id of four digits, and the lines of twelve threads
fill the other array to its end and beyond. -/
theorem not_threadCheck_arrays :
    let t := threadCheck 4321 (some twelveThreads)
    t.cmd.length = 26 ∧ ¬ t.CmdFits ∧ ¬ t.ListingFits ∧ t.result = .beyond ∧
      ¬ t.KeepsToArrays := by
  intro t
  have hlong : 500 ≤ twelveThreads.length := by
    rw [twelveThreads, List.length_append, List.length_flatten, List.map_replicate,
      List.sum_replicate_nat]
    decide
  have htext : 0 ∉ twelveThreads := by
    rw [twelveThreads, List.mem_append, List.mem_flatten]
    rintro (hhead | ⟨line, hline, hzero⟩)
    · exact absurd hhead (by decide)
    · rw [List.eq_of_mem_replicate hline] at hzero
      exact absurd hzero (by decide)
  have hlisting : ¬ t.ListingFits := fun h => Nat.not_lt.mpr hlong (listingFits_iff.mp h)
  refine ⟨?_, not_cmdFits 4321 _, hlisting, result_of_length_ge htext hlong, fun h => hlisting h.2⟩
  rw [length_cmd]
  decide

end Call

end DoorBell
