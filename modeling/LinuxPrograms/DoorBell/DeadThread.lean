import LinuxPrograms.DoorBell.System

/-!
# Door bell: finding a dead thread

`main` shuts the system down when `check_thread_dead` returns `SUCCESS`. That function is meant to
look for the names of the threads in the output of `ps`; it looks for the output in four strings.

- `checkThreadDead_eq_success_iff`: what it returns.
- `watch_eq`: what `main` makes of it.
- `detects_iff`: for which outputs it finds a thread dead exactly if one is missing.
-/

namespace DoorBell

open CString

/-! ## The threads and the listing -/

/-- `thread_list`: the name each thread gives itself. -/
def threadList : List (List UInt8 × Thread) :=
  [(text "monitor_thread", .monitor), (text "motion_thread", .worker .motion),
    (text "Dist_thread", .worker .distance), (text "door_b_Thread", .worker .doorBell)]

/-- The strings `check_thread_dead` hands to `strstr`. -/
def searched : List (List UInt8) :=
  [text "monitor_thread", text "motion_detector_thread", text "Dist_thread", text "door_b_Thread"]

/-- `ps_cmd_output` once the bytes of the file are stored. -/
def psCmdOutput (out : List UInt8) : List UInt8 := ((CBuffer.zero 500).store out).bytes

/-- Every thread of `thread_list` occurs in the text. -/
def AllListed (out : List UInt8) : Prop := ∀ entry ∈ threadList, strstr out entry.1

/-- The whole text is a piece of one of the strings. -/
def Fragment (out : List UInt8) : Prop := ∃ name ∈ searched, strstr name out

instance (out : List UInt8) : Decidable (AllListed out) :=
  inferInstanceAs (Decidable (∀ entry ∈ threadList, strstr out entry.1))

section Text

variable {out : List UInt8}

/-- A file shorter than the array is held by it as a string. -/
theorem cstr_psCmdOutput (hlen : out.length < 500) : cstr (psCmdOutput out) = cstr out := by
  rw [psCmdOutput, CBuffer.bytes_store hlen.le, CBuffer.zero, List.drop_replicate]
  exact cstr_append_replicate_zero out _

/-- `check_thread_dead` finds the text in the strings. -/
theorem checkThreadDead_eq_success_iff (out : List UInt8) :
    checkThreadDead out = .success ↔ Fragment out := by
  simp only [checkThreadDead, Fragment, searched, List.mem_cons, List.not_mem_nil, or_false,
    exists_eq_or_imp, exists_eq_left]
  split_ifs with h1 h2 h3 h4 <;> simp [*]

theorem fragment_psCmdOutput (hlen : out.length < 500) :
    Fragment (psCmdOutput out) ↔ Fragment out := by
  simp only [Fragment, strstr, cstr_psCmdOutput hlen]

/-- A text with all the threads is longer than a name, whatever the name. -/
theorem AllListed.not_fragment (h : AllListed out) : ¬ Fragment out := by
  rintro ⟨name, hname, hpiece⟩
  -- Each of the four strings lacks one of the four names.
  obtain ⟨entry, hentry, hnot⟩ : ∃ entry ∈ threadList, ¬ cstr entry.1 <:+: cstr name := by
    clear hpiece
    revert name
    decide
  have hlisted : cstr entry.1 <:+: cstr out := of_decide_eq_true (h entry hentry)
  exact hnot (hlisted.trans (of_decide_eq_true hpiece))

/-- A listing with its header is no piece of a name. -/
theorem not_fragment_of_header (h : strstr out (text "PID")) : ¬ Fragment out := by
  rintro ⟨name, hname, hpiece⟩
  -- None of the strings contains `PID`.
  have hnot : ¬ cstr (text "PID") <:+: cstr name := by
    clear hpiece
    revert name
    decide
  have hheader : cstr (text "PID") <:+: cstr out := of_decide_eq_true h
  exact hnot (hheader.trans (of_decide_eq_true hpiece))

end Text

/-! ## What `main` does -/

/-- Given this file, `main` leaves its loop for `shutdown`. -/
def ShutsDown (s : State) (out : List UInt8) : Prop :=
  ∃ s' l, mainLoop s (.listing (some (psCmdOutput out))) = some (s', l) ∧
    s'.main = .shutdown shutdownCalls

/-- `check_thread_dead` reports a dead thread, and `main` shuts the system down, exactly if a thread
is missing. -/
def Detects (s : State) (out : List UInt8) : Prop :=
  (checkThreadDead (psCmdOutput out) = .success ↔ ¬ AllListed out) ∧
    (ShutsDown s out ↔ ¬ AllListed out)

section Watch

variable {s : State} {out : List UInt8}

/-- `main` follows `check_thread_dead`. -/
theorem shutsDown_iff (hmain : s.main = .watching) :
    ShutsDown s out ↔ checkThreadDead (psCmdOutput out) = .success := by
  simp only [ShutsDown, mainLoop, hmain]
  cases hdead : checkThreadDead (psCmdOutput out) with
  | success => simp
  | fail => simp [hmain]

/-- For which files a dead thread is found: those that name every thread, where there is none, and
those that are a piece of a name themselves. -/
theorem detects_iff (hmain : s.main = .watching) (hlen : out.length < 500) :
    Detects s out ↔ AllListed out ∨ Fragment out := by
  -- Both halves say the same, since `main` follows the function.
  rw [Detects, shutsDown_iff hmain, and_self, checkThreadDead_eq_success_iff,
    fragment_psCmdOutput hlen]
  constructor
  · intro h
    by_cases hall : AllListed out
    · exact .inl hall
    · exact .inr (h.mpr hall)
  · rintro (hall | hpiece)
    · exact ⟨fun hpiece _ => hall.not_fragment hpiece, fun hmissing => absurd hall hmissing⟩
    · exact ⟨fun _ hall => hall.not_fragment hpiece, fun _ => hpiece⟩

/-- Behind the header of `ps` no thread is missed, whichever are gone. -/
theorem not_shutsDown_of_header (hmain : s.main = .watching) (hlen : out.length < 500)
    (h : strstr out (text "PID")) : ¬ ShutsDown s out := by
  rw [shutsDown_iff hmain, checkThreadDead_eq_success_iff, fragment_psCmdOutput hlen]
  exact not_fragment_of_header h

/-- A listing of the process with all its threads. -/
def wholeListing : List UInt8 :=
  text "PID CMD\n7 monitor_thread\n8 motion_thread\n9 Dist_thread\n10 door_b_Thread\n"

theorem detects_iff_whole :
    Detects State.init wholeListing ↔ AllListed wholeListing ∨ Fragment wholeListing :=
  detects_iff rfl (by decide)

/-- The monitor is gone, its name is not in the listing, and `main` goes on watching. -/
theorem not_detects :
    let out := text "PID CMD\n8 motion_thread\n9 Dist_thread\n10 door_b_Thread\n"
    ¬ AllListed out ∧ checkThreadDead (psCmdOutput out) = .fail ∧ ¬ ShutsDown State.init out ∧
      ¬ Detects State.init out := by
  intro out
  have hmissing : ¬ AllListed out := by decide
  have hdead : ¬ ShutsDown State.init out := not_shutsDown_of_header rfl (by decide) (by decide)
  refine ⟨hmissing, ?_, hdead, fun h => hdead (h.2.mpr hmissing)⟩
  decide

end Watch

end DoorBell
