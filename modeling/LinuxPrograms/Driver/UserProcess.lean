import LinuxPrograms.Driver.Pieces

/-!
# Scull: the user program

`user_process.c`, the program that comes with the drivers: `write` sends a line of its input to the
device, `read` prints what the device holds. What it needs of `stdio` is the parameter `Stdio`.

- `mainProgram`: `main`, with `readFromFile` and `writeToFile`.
- `fread_of_lt`: however its reads are cut, `fread` gets the first bytes of the buffer.
- `write_then_read`: what `write` is given, `read` prints.
-/

namespace Scull

open CString LabelledSystem OpenFiles UserCopy

namespace UserProcess

/-- The library the program is linked with. -/
structure Stdio where
  /-- How many bytes the `n`-th `read` call of an `fread` asks for. -/
  readSize : ℕ → UInt64
  /-- No call asks for nothing. -/
  readSize_pos : ∀ n, 0 < readSize n
  /-- `strerror` of the error of a failed call. -/
  strerror : Int32 → List UInt8

/-- The bytes of `stdin` up to and with the first newline. -/
def line (stdin : List UInt8) : List UInt8 :=
  stdin.takeWhile (· ≠ 10) ++ (stdin.dropWhile (· ≠ 10)).take 1

/-- `fgets(user_buff, n, stdin)`; `none` is the null pointer it returns at the end of the file. -/
def fgets {n : ℕ} (userBuff : CBuffer n) (stdin : List UInt8) : Option (CBuffer n) :=
  if stdin = [] then none else some (userBuff.store ((line stdin).take (n - 1) ++ [0]))

section Program

variable {σ : Type} (io : Stdio) (ops : FileOperations σ)

/-- `fread` of `want` bytes: `read` calls until there are enough, or until one returns no byte.
`got` has arrived in the first `n` calls. -/
def fread (file want : ℕ) : ℕ → ℕ → List UInt8 → State σ → Option (State σ × List UInt8)
  | 0, _, _, _ => none
  | fuel + 1, n, got, s =>
      match step ops s (.read file (io.readSize n) none) with
      | some (t, .read _ _ _ _ ret bytes) =>
          -- What a read returns beyond `want` stays in the buffer of the stream.
          if ret.toInt ≤ 0 ∨ want ≤ (got ++ bytes).length then some (t, (got ++ bytes).take want)
          else fread file want fuel (n + 1) (got ++ bytes) t
      | _ => none

/-- What is printed when `fopen` fails. -/
def fopenError (err : Int32) : List UInt8 := text "fopen Error " ++ io.strerror err ++ text "\n"

/-- `read_from_file`: the device afterwards, what is printed, and `user_buff`, `none` for the null
pointer. -/
def readFromFile (fuel : ℕ) (s : State σ) (userBuff : CBuffer 1024) :
    Option (State σ × List UInt8 × Option (CBuffer 1024)) :=
  match step ops s .openDev with
  | some (t, .opened file) =>
      (fread io ops file (1024 - 1) fuel 0 [] t).map fun (u, bytes) =>
        (u, [], some (userBuff.store bytes))
  | some (t, .openFailed err) => some (t, fopenError io err, none)
  | _ => none

/-- `write_to_file`: the device afterwards, what is printed, and the value returned. The one
`fwrite` is one `write` call; what it returns is not looked at. -/
def writeToFile (s : State σ) (userBuff : CBuffer 1024) : Option (State σ × List UInt8 × ℤ) :=
  match step ops s .openDev with
  | some (t, .opened file) =>
      (step ops t (.write file (userBuff.bytes.take (1024 - 1)) (1024 - 1) none)).map fun (u, _) =>
        (u, [], 0)
  | some (t, .openFailed err) => some (t, fopenError io err, -1)
  | _ => none

/-- `main`: the device afterwards, what is printed and the exit status. Printing the null pointer
that `read_from_file` may return has no result. -/
def mainProgram (fuel : ℕ) (s : State σ) (argv : List (List UInt8)) (stdin : List UInt8) :
    Option (State σ × List UInt8 × ℕ) :=
  let userBuff : CBuffer 1024 := .zero 1024
  match argv with
  | [_, arg] =>
      if cstr arg = text "read" then
        match readFromFile io ops fuel s userBuff with
        -- `%s` prints the buffer up to its first NUL.
        | some (t, _, some buff) => some (t, text "read:" ++ buff.str ++ text "\n", 0)
        | _ => none
      else if cstr arg = text "write" then
        match fgets userBuff stdin with
        | none => some (s, text "Enter Write Data: \n" ++ text "User input Failed", 1)
        | some buff =>
            (writeToFile io ops s buff).map fun (t, out, ret) =>
              if ret = 0 then
                (t, text "Enter Write Data: \n" ++ out ++ text "write succesful\n", 0)
              else (t, text "Enter Write Data: \n" ++ out ++ text "write Failed\n", 1)
      else some (s, [], 0)
  | _ => some (s, text "Wrong Arguments arg1: read/write\n", 1)

end Program

/-! ## What is read -/

section Reading

variable (io : Stdio) {d : Driver} {s : State d.Module} {file : ℕ} {off : Int64}
  {got : List UInt8}

/-- One `read` call of an `fread` gets at least a byte, unless it stands at the end of the
buffer. -/
theorem step_readNext (hpos : s.pos[file]? = some off) (hoff : off.toInt = got.length)
    (hgot : got = (d.drvBuff s.dev).bytes.take got.length) (hlt : got.length < 1024) (n : ℕ) :
    ∃ (off' ret : Int64) (bytes : List UInt8),
      step d.scullFops s (.read file (io.readSize n) none) =
        some (⟨s.dev, s.pos.set file off'⟩,
          .read file (io.readSize n) none off ret bytes) ∧
      0 < ret.toInt ∧ bytes ≠ [] ∧ off'.toInt = (got ++ bytes).length ∧
      got ++ bytes = (d.drvBuff s.dev).bytes.take (got ++ bytes).length := by
  have hin : InBuff off := ⟨by omega, by omega⟩
  have hlen : (d.drvBuff s.dev).bytes.length = 1024 := (d.drvBuff s.dev).length_eq
  have hplace : off.toInt.toNat = got.length := by rw [hoff, Int.toNat_natCast]
  have hpositive : 0 < (io.readSize n).toNat := UInt64.lt_iff_toNat_lt.mp (io.readSize_pos n)
  obtain ⟨r, hread, hdev, hret, hoffp⟩ := d.read_spec s.dev (io.readSize n) none hin rfl
  -- The bytes that arrive are the next ones of the buffer, and there is at least one.
  generalize hsent : across none (((d.drvBuff s.dev).bytes.drop off.toInt.toNat).take
    (wanted (io.readSize n) off)) = sent at hread hret hoffp
  rw [across, hplace] at hsent
  have hsize : sent.length = min (wanted (io.readSize n) off) (1024 - got.length) := by
    rw [← hsent, List.length_take, List.length_drop, hlen]
  have hsome : 0 < sent.length := by
    rw [hsize, wanted, hplace]
    omega
  refine ⟨r.offp, r.ret, sent, ?_, ?_, List.ne_nil_of_length_pos hsome, ?_, ?_⟩
  · simp only [step, hpos, Option.bind_eq_bind, Option.bind_some, hread, hdev]
  · rw [hret]
    exact_mod_cast hsome
  · rw [hoffp, hoff, List.length_append, Int.natCast_add]
  · rw [List.length_append, List.take_add, ← hgot, ← hsent, List.length_take, List.take_eq_take_min]

/-- However its reads are cut, an `fread` that starts at the beginning of the device gets the first
bytes of the buffer. -/
theorem fread_of_lt (want : ℕ) {fuel : ℕ} (got : List UInt8) (hpos : s.pos[file]? = some off)
    (hoff : off.toInt = got.length) (hgot : got = (d.drvBuff s.dev).bytes.take got.length)
    (hlt : got.length < want) (hwant : want ≤ 1024) (hfuel : want ≤ fuel + got.length) (n : ℕ) :
    ∃ t, fread io d.scullFops file want fuel n got s =
      some (t, (d.drvBuff s.dev).bytes.take want) := by
  induction fuel generalizing n got off s with
  | zero => omega
  | succ fuel ih =>
      obtain ⟨off', ret, bytes, hstep, hret, hne, hoff', hgot'⟩ :=
        step_readNext io hpos hoff hgot (by omega) n
      have hlen := List.length_pos_iff.mpr hne
      simp only [fread, hstep]
      split_ifs with hdone
      · have henough : want ≤ (got ++ bytes).length := hdone.resolve_left (by omega)
        have htake : (got ++ bytes).take want = (d.drvBuff s.dev).bytes.take want := by
          conv_lhs => rw [hgot', List.take_take, Nat.min_eq_left henough]
        exact ⟨_, by rw [htake]⟩
      · have hmore : (got ++ bytes).length < want := by omega
        rw [List.length_append] at hmore
        obtain ⟨hfile, -⟩ := List.getElem?_eq_some_iff.mp hpos
        exact ih (s := ⟨s.dev, s.pos.set file off'⟩) _ (List.getElem?_set_self hfile) hoff' hgot'
          (by rwa [List.length_append]) (by rw [List.length_append]; omega) (n + 1)

end Reading

/-! ## The round trip -/

section RoundTrip

variable (io : Stdio) {d : Driver} {stdin : List UInt8}

/-- What `fgets` delivers of a line: its first bytes, and NUL behind them. -/
theorem bytes_fgets (stdin : List UInt8) :
    ((CBuffer.zero 1024).store ((line stdin).take (1024 - 1) ++ [0])).bytes =
      (line stdin).take 1023 ++ List.replicate (1024 - ((line stdin).take 1023).length) 0 := by
  have hlen : ((line stdin).take 1023).length ≤ 1023 := List.length_take_le _ _
  have hsplit : 1024 - ((line stdin).take 1023).length =
      1 + (1024 - (((line stdin).take 1023).length + 1)) := by omega
  change ((CBuffer.zero 1024).store ((line stdin).take 1023 ++ [0])).bytes = _
  rw [CBuffer.bytes_store (by rw [List.length_append, List.length_singleton]; omega),
    List.length_append, List.length_singleton, CBuffer.zero, List.drop_replicate, hsplit,
    List.replicate_add, List.append_assoc]
  rfl

/-- `write_to_file` leaves the whole of `user_buff` in the device, if it ends with NUL. -/
theorem writeToFile_eq (s : State d.Module) {userBuff : CBuffer 1024} {bytes : List UInt8}
    (hbytes : userBuff.bytes = bytes ++ [0]) :
    ∃ t, writeToFile io d.scullFops s userBuff = some (t, [], 0) ∧ d.drvBuff t.dev = userBuff := by
  have hlen : bytes.length = 1023 := by
    have hall := userBuff.length_eq
    rw [hbytes, List.length_append, List.length_singleton] at hall
    omega
  have htake : userBuff.bytes.take (1024 - 1) = bytes := by
    rw [hbytes, List.take_left' hlen]
  have hpos : (s.pos ++ [(0 : Int64)])[s.pos.length]? = some 0 := by simp
  obtain ⟨m, off', e, hstep, hm, -⟩ :=
    step_writePiece (s := ⟨s.dev, s.pos ++ [0]⟩) (o := 0) bytes hpos rfl (by omega)
  rw [hlen] at hstep
  refine ⟨⟨m, (s.pos ++ [0]).set s.pos.length off'⟩, ?_, CBuffer.ext ?_⟩
  · simp only [writeToFile, d.step_openDev, htake]
    change (step d.scullFops ⟨s.dev, s.pos ++ [0]⟩
      (.write s.pos.length bytes (UInt64.ofNat 1023) none)).map _ = _
    rw [hstep]
    rfl
  · rw [hm, placed, hlen, hbytes]
    rfl

/-- `read_from_file` gets the device but for its last byte. -/
theorem readFromFile_eq (s : State d.Module) {fuel : ℕ} (hfuel : 1023 ≤ fuel) :
    ∃ t, readFromFile io d.scullFops fuel s (.zero 1024) =
      some (t, [], some ((CBuffer.zero 1024).store ((d.drvBuff s.dev).bytes.take 1023))) := by
  have hpos : (s.pos ++ [(0 : Int64)])[s.pos.length]? = some 0 := by simp
  obtain ⟨t, hread⟩ := fread_of_lt io (s := ⟨s.dev, s.pos ++ [0]⟩) 1023 [] hpos rfl rfl
    (by decide) (by decide) hfuel 0
  refine ⟨t, ?_⟩
  simp only [readFromFile, d.step_openDev]
  change (fread io d.scullFops s.pos.length 1023 fuel 0 [] ⟨s.dev, s.pos ++ [0]⟩).map _ = _
  rw [hread]
  rfl

end RoundTrip

/-- What the program is given as a line without NUL, it prints when it is run to read: the first
1023 bytes of the line, whatever the device held before. -/
theorem write_then_read (io : Stdio) (d : Driver) (s : State d.Module) (prog : List UInt8)
    (stdin stdin' : List UInt8) (fuel : ℕ) (hline : stdin ≠ []) (hnul : 0 ∉ line stdin)
    (hfuel : 1023 ≤ fuel) :
    ∃ t u,
      mainProgram io d.scullFops fuel s [prog, text "write"] stdin =
        some (t, text "Enter Write Data: \n" ++ text "write succesful\n", 0) ∧
      mainProgram io d.scullFops fuel t [prog, text "read"] stdin' =
        some (u, text "read:" ++ (line stdin).take 1023 ++ text "\n", 0) := by
  -- `user_buff` holds the line as `fgets` cuts it, and NUL up to its end.
  generalize hdelivered : (line stdin).take 1023 = delivered
  have hlen : delivered.length ≤ 1023 := by
    rw [← hdelivered]
    exact List.length_take_le _ _
  have hno : 0 ∉ delivered := by
    rw [← hdelivered]
    exact fun hmem => hnul (List.mem_of_mem_take hmem)
  obtain ⟨k, hk⟩ : ∃ k, 1023 = delivered.length + k := Nat.exists_eq_add_of_le hlen
  have hbuff := bytes_fgets stdin
  rw [hdelivered, show 1024 - delivered.length = k + 1 by omega, List.replicate_succ',
    ← List.append_assoc] at hbuff
  obtain ⟨t, hwrite, hdev⟩ := writeToFile_eq io s hbuff
  obtain ⟨u, hread⟩ := readFromFile_eq io t hfuel
  refine ⟨t, u, ?_, ?_⟩
  · have hget : fgets (.zero 1024) stdin =
        some ((CBuffer.zero 1024).store (delivered ++ [0])) := by
      rw [fgets, if_neg hline, ← hdelivered]
    have harg : cstr (text "write") ≠ text "read" := by decide
    have harg' : cstr (text "write") = text "write" := by decide
    simp only [mainProgram, if_neg harg, if_pos harg', hget, hwrite, Option.map_some]
    simp
  · have harg : cstr (text "read") = text "read" := by decide
    have hstr :
        ((CBuffer.zero 1024).store ((d.drvBuff t.dev).bytes.take 1023)).str = delivered := by
      have htake : (d.drvBuff t.dev).bytes.take 1023 = delivered ++ List.replicate k 0 := by
        rw [hdev, hbuff]
        apply List.take_left'
        rw [List.length_append, List.length_replicate, hk]
      have hrest : (CBuffer.zero 1024).bytes.drop (delivered.length + k) = [0] := by
        rw [CBuffer.zero, List.drop_replicate, ← hk, List.replicate_one]
      rw [htake, CBuffer.str, CBuffer.bytes_store (by simp; omega), List.length_append,
        List.length_replicate, hrest, List.append_assoc, ← List.replicate_succ',
        List.replicate_succ, cstr_append_zero hno]
    simp only [mainProgram, if_pos harg, hread, hstr]

section Examples

/-- A library that reads a byte at a time. -/
def Stdio.bytewise : Stdio where
  readSize _ := 1
  readSize_pos _ := by decide
  strerror _ := []

/-- A line of three characters goes through the module with the proc file. -/
theorem write_then_read_hey :
    ∃ t u,
      mainProgram .bytewise SeqFile.scullFops 1023 (.loaded SeqFile.setupCharModule)
          [text "user_process", text "write"] (text "hey\nyou") =
        some (t, text "Enter Write Data: \n" ++ text "write succesful\n", 0) ∧
      mainProgram .bytewise SeqFile.scullFops 1023 t [text "user_process", text "read"] [] =
        some (u, text "read:" ++ (line (text "hey\nyou")).take 1023 ++ text "\n", 0) ∧
      (line (text "hey\nyou")).take 1023 = text "hey\n" := by
  obtain ⟨t, u, hwrite, hread⟩ := write_then_read .bytewise .seqFileInterface
    (.loaded SeqFile.setupCharModule) (text "user_process") (text "hey\nyou") [] 1023 (by decide)
    (by decide) (by decide)
  exact ⟨t, u, hwrite, hread, by decide⟩

end Examples

end UserProcess

end Scull
