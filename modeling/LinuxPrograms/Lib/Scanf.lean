import LinuxPrograms.Lib.CString
import Mathlib.Logic.Function.Iterate

/-!
# Words typed at a terminal

`scanf("%s", buf)` called again and again: each call stores the next word in the array, and at the
end of the input the array stays as it is.

- `Typing.scan`: one call, on what is still to be typed.
- `str_scans`: after some calls the array holds the last of the words typed.
- `exists_typedAfter_iff`: a string is typed at some time exactly if it is one of the words.
-/

namespace Scanf

open CString

/-- A word that fits an array of `n` bytes. -/
structure Word (n : ℕ) where
  bytes : List UInt8
  noNul : 0 ∉ bytes
  fits : bytes.length < n

/-- The words still to be typed, and the array. -/
structure Typing (n : ℕ) where
  words : List (Word n)
  buf : CBuffer n

variable {n : ℕ}

/-- `scanf("%s", buf)`. -/
def Typing.scan (t : Typing n) : Typing n where
  words := t.words.tail
  buf :=
    match t.words with
    | [] => t.buf
    | word :: _ => t.buf.store (word.bytes ++ [0])

/-- The last of the first `k` words; before the first it is `first`. -/
def typedAfter (first : List UInt8) (words : List (Word n)) (k : ℕ) : List UInt8 :=
  ((words.take k).getLast?.map Word.bytes).getD first

section Typed

variable {first : List UInt8} {words : List (Word n)} {k : ℕ} {word : Word n}

/-- The array holds a word it got whole, whatever was in it before. -/
theorem str_store (buf : CBuffer n) (word : Word n) :
    (buf.store (word.bytes ++ [0])).str = word.bytes := by
  have hfits := word.fits
  rw [CBuffer.str, CBuffer.bytes_store (by rw [List.length_append]; exact hfits),
    List.append_assoc, List.singleton_append, cstr_append_zero word.noNul]

/-- The word typed last is the last of those typed. -/
theorem typedAfter_succ (hk : words[k]? = some word) :
    typedAfter first words (k + 1) = word.bytes := by
  rw [typedAfter, List.take_add_one, hk, Option.toList_some, List.getLast?_append]
  rfl

/-- At the end of the input nothing more is typed. -/
theorem typedAfter_succ_of_none (hk : words[k]? = none) :
    typedAfter first words (k + 1) = typedAfter first words k := by
  rw [typedAfter, typedAfter, List.take_add_one, hk, Option.toList_none, List.append_nil]

theorem words_scans (t : Typing n) (k : ℕ) : (Typing.scan^[k] t).words = t.words.drop k := by
  induction k with
  | zero => rfl
  | succ k ih => rw [Function.iterate_succ_apply', Typing.scan, ih, List.tail_drop]

/-- After some calls the array holds the last of the words typed. -/
theorem str_scans (t : Typing n) (k : ℕ) :
    (Typing.scan^[k] t).buf.str = typedAfter t.buf.str t.words k := by
  induction k with
  | zero => rfl
  | succ k ih =>
      have hwords := words_scans t k
      rw [Function.iterate_succ_apply', Typing.scan]
      cases hk : t.words.drop k with
      | nil =>
          have hnone : t.words[k]? = none := by
            rw [← List.head?_drop, hk]
            rfl
          simp only [hwords, hk]
          rw [ih, typedAfter_succ_of_none hnone]
      | cons word rest =>
          have hsome : t.words[k]? = some word := by
            rw [← List.head?_drop, hk]
            rfl
          simp only [hwords, hk]
          rw [str_store, typedAfter_succ hsome]

/-- Once a word is typed, the array holds one. -/
theorem exists_typedAfter_eq (hne : words ≠ []) (first : List UInt8) (k : ℕ) :
    ∃ word ∈ words, typedAfter first words (k + 1) = word.bytes := by
  cases hlast : (words.take (k + 1)).getLast? with
  | none =>
      rw [List.getLast?_eq_none_iff, List.take_eq_nil_iff] at hlast
      rcases hlast with hzero | hnil
      · cases hzero
      · exact absurd hnil hne
  | some word =>
      refine ⟨word, List.mem_of_mem_take (List.mem_of_getLast? hlast), ?_⟩
      rw [typedAfter, hlast]
      rfl

/-- A string is typed at some time exactly if it is one of the words. -/
theorem exists_typedAfter_iff {s : List UInt8} (hne : words ≠ [] ∨ first ≠ s) :
    (∃ k, typedAfter first words (k + 1) = s) ↔ ∃ word ∈ words, word.bytes = s := by
  constructor
  · rintro ⟨k, hk⟩
    have hwords : words ≠ [] := by
      rcases hne with hne | hne
      · exact hne
      · rintro rfl
        exact hne hk
    obtain ⟨word, hmem, hword⟩ := exists_typedAfter_eq hwords first k
    exact ⟨word, hmem, hword.symm.trans hk⟩
  · rintro ⟨word, hmem, hword⟩
    obtain ⟨k, hk⟩ := List.mem_iff_getElem?.mp hmem
    exact ⟨k, (typedAfter_succ hk).trans hword⟩

/-- While there are words, they are typed one after the other. -/
theorem map_typedAfter (hk : k ≤ words.length) :
    (List.range k).map (fun i => typedAfter first words (i + 1)) =
      (words.take k).map Word.bytes := by
  induction k with
  | zero => rfl
  | succ k ih =>
      have hword : words[k]? = some words[k] := List.getElem?_eq_getElem hk
      rw [List.range_succ, List.map_append, ih (Nat.le_of_succ_le hk), List.take_add_one, hword,
        List.map_append, List.map_singleton, typedAfter_succ hword]
      rfl

/-- Up to the first time the string `s` is typed come the words up to the first that is `s`. -/
theorem map_typedAfter_findIdx {s : List UInt8} (hne : words ≠ [] ∨ first ≠ s)
    (hk : typedAfter first words (k + 1) = s)
    (hfirst : ∀ i < k, typedAfter first words (i + 1) ≠ s) :
    (List.range (k + 1)).map (fun i => typedAfter first words (i + 1)) =
      (words.take (words.findIdx (fun word => word.bytes = s) + 1)).map Word.bytes := by
  have hlt : words.findIdx (fun word => word.bytes = s) < words.length := by
    rw [List.findIdx_lt_length]
    simpa using (exists_typedAfter_iff hne).mp ⟨k, hk⟩
  have hfound : typedAfter first words (words.findIdx (fun word => word.bytes = s) + 1) = s := by
    rw [typedAfter_succ (List.getElem?_eq_getElem hlt)]
    simpa using List.findIdx_getElem (w := hlt)
  -- Both are the first index at which the string is typed.
  have heq : k = words.findIdx (fun word => word.bytes = s) := by
    rcases Nat.lt_trichotomy k (words.findIdx fun word => word.bytes = s) with hlt' | heq | hgt
    · have hword := List.getElem?_eq_getElem (hlt'.trans hlt)
      rw [typedAfter_succ hword] at hk
      have hnot := List.not_of_lt_findIdx hlt'
      simp [hk] at hnot
    · exact heq
    · exact absurd hfound (hfirst _ hgt)
  rw [← heq] at hlt ⊢
  exact map_typedAfter hlt

end Typed

end Scanf
