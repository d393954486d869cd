import HpcAgent.Lib.Scan

/-!
# Strings in Erlang

The functions of Erlang's `string` and `erlang` modules that a line protocol
needs, on strings of bytes: trimming, and the reading of an integer. A string is
the list of its characters.
-/

namespace Erl

open Scan

/-- The white space of `string:trim`. -/
def whitespace (c : Char) : Bool := isSpace c || c == Char.ofNat 0x85

/-- `string:trim(S)`. -/
def trim (s : CString) : CString := (s.dropWhile whitespace).rdropWhile whitespace

/-- `string:trim(S, trailing, [C])`. -/
def trimTrailing (c : Char) (s : CString) : CString := s.rdropWhile (· == c)

/-- `list_to_integer(S)`: a sign, if any, and decimal digits; `none` is `badarg`. -/
def listToInteger (s : CString) : Option ℤ :=
  let (neg, t) := sign s
  if t ≠ [] ∧ t.all Char.isDigit = true then some (signed neg (Nat.ofDigitChars 10 t 0))
  else none

/-- White space behind a text without any is trimmed. -/
theorem trim_append {s w : CString} (hs : ∀ c ∈ s, whitespace c = false)
    (hw : ∀ c ∈ w, whitespace c = true) : trim (s ++ w) = s := by
  have hright : (s ++ w).rdropWhile whitespace = s := by
    induction w using List.reverseRecOn with
    | nil =>
      rw [List.append_nil]
      refine List.rdropWhile_eq_self_iff.mpr (fun hne => ?_)
      rw [hs _ (List.getLast_mem hne)]
      exact Bool.false_ne_true
    | append_singleton w c ih =>
      rw [← List.append_assoc, List.rdropWhile_concat_pos _ _ _ (hw c (by simp))]
      exact ih (fun d hd => hw d (List.mem_append_left _ hd))
  unfold trim
  cases s with
  | nil =>
    rw [List.nil_append, List.dropWhile_eq_nil_iff.mpr hw]
    rfl
  | cons c s =>
    rw [List.cons_append, List.dropWhile_cons_of_neg (by simp [hs c List.mem_cons_self])]
    exact hright

theorem trim_eq_self {s : CString} (hs : ∀ c ∈ s, whitespace c = false) : trim s = s := by
  have h := trim_append hs (fun c hc => absurd hc List.not_mem_nil)
  rwa [List.append_nil] at h

/-- A character behind a text that does not end in it is trimmed. -/
theorem trimTrailing_concat {c : Char} {s : CString} (hs : c ∉ s) :
    trimTrailing c (s ++ [c]) = s := by
  unfold trimTrailing
  rw [List.rdropWhile_concat_pos _ _ _ (by simp)]
  refine List.rdropWhile_eq_self_iff.mpr (fun hne heq => ?_)
  exact hs (eq_of_beq heq ▸ List.getLast_mem hne)

/-! ## Printed numbers -/

theorem mem_showInt {v : ℤ} {c : Char} (h : c ∈ showInt v) : c = '-' ∨ c.isDigit = true := by
  unfold showInt at h
  split at h
  · rcases List.mem_cons.mp h with rfl | h
    · exact Or.inl rfl
    · exact Or.inr (isDigit_of_mem_toDigits h)
  · exact Or.inr (isDigit_of_mem_toDigits h)

theorem whitespace_of_isDigit {c : Char} (h : c.isDigit = true) : whitespace c = false := by
  have hne : c ≠ Char.ofNat 0x85 := by
    rintro rfl
    exact Bool.false_ne_true ((by decide : Char.isDigit (Char.ofNat 0x85) = false).symm.trans h)
  unfold whitespace
  rw [not_isSpace_of_isDigit h, Bool.false_or]
  exact beq_false_of_ne hne

theorem whitespace_of_mem_showInt {v : ℤ} {c : Char} (h : c ∈ showInt v) :
    whitespace c = false := by
  rcases mem_showInt h with rfl | hdigit
  · decide
  · exact whitespace_of_isDigit hdigit

/-- **`list_to_integer` reads back what was printed.** -/
theorem listToInteger_showInt (v : ℤ) : listToInteger (showInt v) = some v := by
  have hsign : sign (showInt v) = (decide (v < 0), Nat.toDigits 10 v.natAbs) := by
    unfold showInt
    by_cases h : v < 0
    · simp only [h, if_true, decide_true]
      rfl
    · obtain ⟨c, s, hcs, hc⟩ := exists_toDigits_eq_cons v.natAbs
      simp only [h, if_false, decide_false]
      rw [hcs]
      exact sign_of_isDigit hc
  have hdigits : (Nat.toDigits 10 v.natAbs).all Char.isDigit = true :=
    List.all_eq_true.mpr (fun c hc => isDigit_of_mem_toDigits hc)
  unfold listToInteger
  rw [hsign]
  dsimp only
  rw [if_pos ⟨Nat.toDigits_ne_nil, hdigits⟩, Nat.ofDigitChars_ten_toDigits, signed_natAbs]

/-- The length of a printed number. -/
theorem length_showInt_le {v : ℤ} {k : ℕ} (hk : 0 < k) (h : v.natAbs < 10 ^ k) :
    (showInt v).length ≤ k + 1 := by
  have hdigits : (Nat.toDigits 10 v.natAbs).length ≤ k :=
    (Nat.length_toDigits_le_iff (by decide) hk).mpr h
  unfold showInt
  split
  · exact Nat.succ_le_succ hdigits
  · exact hdigits.trans (Nat.le_succ k)

theorem length_showInt_int32 (x : Int32) : (showInt x.toInt).length ≤ 11 := by
  have hle := x.le_toInt
  have hlt := x.toInt_lt
  exact length_showInt_le (k := 10) (by decide) (by omega)

end Erl
