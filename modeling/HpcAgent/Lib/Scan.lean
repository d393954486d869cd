import Mathlib

/-!
# Scanning and printing C text

The formatted input and output of the C library on NUL-free strings, as far
as a line protocol needs them: the `isspace` class, the conversions `%d`,
`%Ns` and `%N[^c]` of `sscanf`, the splitting of `strtok_r`, and the decimal
printing of `%d`. A C string is the list of its characters, without the
terminating NUL.

A conversion returns what it read and the rest of the input, or `none` where
`sscanf` stops. `decimal?_showInt` is the round trip between `%d` printed and
`%d` read.
-/

/-- A C string: its characters up to the terminating NUL. -/
abbrev CString := List Char

namespace Scan

/-- The `isspace` class of the C locale. -/
def isSpace (c : Char) : Bool :=
  c == ' ' || c == '\t' || c == '\n' || c == '\x0b' || c == '\x0c' || c == '\r'

/-- A white-space directive: it matches any amount of white space, none
included. -/
def skipSpace (s : CString) : CString := s.dropWhile isSpace

/-- The sign `%d` accepts in front of its digits: whether it is a minus, and
the rest. -/
def sign : CString → Bool × CString
  | '-' :: s => (true, s)
  | '+' :: s => (false, s)
  | s => (false, s)

/-- The value of a sequence of decimal digits after its sign. -/
def signed (neg : Bool) (n : ℕ) : ℤ := if neg then -(n : ℤ) else n

/-- **The conversion `%d`**, before the value is stored: white space, a sign,
and at least one decimal digit. -/
def decimal? (s : CString) : Option (ℤ × CString) :=
  let (neg, t) := sign (skipSpace s)
  if t.takeWhile Char.isDigit = [] then none
  else some (signed neg (Nat.ofDigitChars 10 (t.takeWhile Char.isDigit) 0),
    t.dropWhile Char.isDigit)

/-- What `%d` stores in an `int`: the value saturates at the limits of `long`,
as `strtol` does, and its low 32 bits are kept. -/
def toInt32 (v : ℤ) : Int32 :=
  Int32.ofInt (max (-2 ^ 63) (min v (2 ^ 63 - 1)))

/-- The conversion `%d` into an `int`. -/
def int? (s : CString) : Option (Int32 × CString) :=
  (decimal? s).map (fun r => (toInt32 r.fst, r.snd))

/-- The conversion `%Ns`: white space, then between one and `N` characters
that are not white space. -/
def word? (width : ℕ) (s : CString) : Option (CString × CString) :=
  let t := skipSpace s
  let w := (t.takeWhile (fun c => !isSpace c)).take width
  if w = [] then none else some (w, t.drop w.length)

/-- The conversion `%N[^c]`: between one and `N` characters other than `c`. -/
def until? (width : ℕ) (stop : Char) (s : CString) :
    Option (CString × CString) :=
  let w := (s.takeWhile (fun c => c != stop)).take width
  if w = [] then none else some (w, s.drop w.length)

/-- The tokens `strtok_r` yields one after the other: the maximal non-empty
runs of characters other than the separator. -/
def tokens (sep : Char) (s : CString) : List CString :=
  (s.splitOn sep).filter (fun t => !t.isEmpty)

/-- The conversion `%d` of `printf`. -/
def showInt (v : ℤ) : CString :=
  if v < 0 then '-' :: Nat.toDigits 10 v.natAbs else Nat.toDigits 10 v.natAbs

/-! ## Runs of characters -/

/-- A run of characters in front of one that does not belong to it. -/
theorem takeWhile_append_of_head {p : Char → Bool} {w rest : CString}
    (hw : ∀ c ∈ w, p c = true) (hrest : ∀ c ∈ rest.head?, p c = false) :
    (w ++ rest).takeWhile p = w := by
  rw [List.takeWhile_append_of_pos hw]
  cases rest with
  | nil => simp
  | cons c rest => simp [hrest c (by simp)]

theorem dropWhile_append_of_head {p : Char → Bool} {w rest : CString}
    (hw : ∀ c ∈ w, p c = true) (hrest : ∀ c ∈ rest.head?, p c = false) :
    (w ++ rest).dropWhile p = rest := by
  rw [List.dropWhile_append_of_pos hw]
  cases rest with
  | nil => rfl
  | cons c rest => simp [hrest c (by simp)]

/-! ## Digits -/

theorem isDigit_of_mem_toDigits {c : Char} {n : ℕ}
    (h : c ∈ Nat.toDigits 10 n) : c.isDigit = true :=
  Nat.isDigit_of_mem_toDigits (by decide) (by decide) h

theorem not_isSpace_of_isDigit {c : Char} (h : c.isDigit = true) :
    isSpace c = false := by
  have hne : ∀ d : Char, d.isDigit = false → c ≠ d := by
    rintro d hd rfl
    exact Bool.false_ne_true (hd.symm.trans h)
  simp only [isSpace, Bool.or_eq_false_iff, beq_eq_false_iff_ne]
  exact ⟨⟨⟨⟨⟨hne _ (by decide), hne _ (by decide)⟩, hne _ (by decide)⟩,
    hne _ (by decide)⟩, hne _ (by decide)⟩, hne _ (by decide)⟩

/-- The digits of a number start with a digit. -/
theorem exists_toDigits_eq_cons (n : ℕ) :
    ∃ c s, Nat.toDigits 10 n = c :: s ∧ c.isDigit = true := by
  obtain ⟨c, s, hs⟩ := List.exists_cons_of_ne_nil (Nat.toDigits_ne_nil (n := n) (b := 10))
  exact ⟨c, s, hs, isDigit_of_mem_toDigits (by rw [hs]; exact List.mem_cons_self)⟩

/-! ## The round trip of `%d` -/

/-- What is read as a sign. -/
theorem sign_cases (s : CString) :
    (∃ t, s = '-' :: t ∧ sign s = (true, t)) ∨ (∃ t, s = '+' :: t ∧ sign s = (false, t))
      ∨ s.head? ≠ some '-' ∧ s.head? ≠ some '+' ∧ sign s = (false, s) := by
  unfold sign
  split
  · next t => exact Or.inl ⟨t, rfl, rfl⟩
  · next t => exact Or.inr (Or.inl ⟨t, rfl, rfl⟩)
  · next hminus hplus =>
    refine Or.inr (Or.inr ⟨fun h => ?_, fun h => ?_, rfl⟩)
    · obtain ⟨t, rfl⟩ := List.head?_eq_some_iff.mp h
      exact hminus t rfl
    · obtain ⟨t, rfl⟩ := List.head?_eq_some_iff.mp h
      exact hplus t rfl

/-- No sign is read where there is none. -/
theorem sign_of_head {s : CString} (hminus : s.head? ≠ some '-') (hplus : s.head? ≠ some '+') :
    sign s = (false, s) := by
  rcases sign_cases s with ⟨t, rfl, -⟩ | ⟨t, rfl, -⟩ | ⟨-, -, h⟩
  · exact absurd rfl hminus
  · exact absurd rfl hplus
  · exact h

theorem sign_of_isDigit {c : Char} {s : CString} (h : c.isDigit = true) :
    sign (c :: s) = (false, c :: s) := by
  refine sign_of_head (fun heq => ?_) (fun heq => ?_)
  · rw [Option.some.inj heq] at h
    exact absurd h (by decide)
  · rw [Option.some.inj heq] at h
    exact absurd h (by decide)

/-- The value read is the value printed, whatever its sign. -/
theorem signed_natAbs (v : ℤ) : signed (decide (v < 0)) v.natAbs = v := by
  unfold signed
  by_cases h : v < 0
  · simp only [h, decide_true, if_true]; omega
  · simp only [h, decide_false, Bool.false_eq_true, if_false]; omega

/-- The sign and the digits of a printed number. -/
theorem sign_showInt (v : ℤ) (rest : CString) :
    sign (skipSpace (showInt v ++ rest))
      = (decide (v < 0), Nat.toDigits 10 v.natAbs ++ rest) := by
  obtain ⟨c, s, hcs, hc⟩ := exists_toDigits_eq_cons v.natAbs
  unfold showInt skipSpace
  by_cases h : v < 0
  · simp only [h, if_true, decide_true, List.cons_append]
    rw [List.dropWhile_cons_of_neg (by decide)]
    rfl
  · simp only [h, if_false, decide_false]
    rw [hcs, List.cons_append,
      List.dropWhile_cons_of_neg (by simp [not_isSpace_of_isDigit hc])]
    exact sign_of_isDigit hc

/-- **`%d` reads back what `%d` printed**, up to the first character that is
not a digit. -/
theorem decimal?_showInt (v : ℤ) {rest : CString}
    (hrest : ∀ c ∈ rest.head?, c.isDigit = false) :
    decimal? (showInt v ++ rest) = some (v, rest) := by
  unfold decimal?
  rw [sign_showInt]
  dsimp only
  have hdigits : ∀ c ∈ Nat.toDigits 10 v.natAbs, c.isDigit = true :=
    fun c hc => isDigit_of_mem_toDigits hc
  rw [takeWhile_append_of_head hdigits hrest, dropWhile_append_of_head hdigits hrest,
    if_neg Nat.toDigits_ne_nil, Nat.ofDigitChars_ten_toDigits, signed_natAbs]

/-- An `int` is stored unchanged. -/
theorem toInt32_toInt (x : Int32) : toInt32 x.toInt = x := by
  have h₁ := x.le_toInt
  have h₂ := x.toInt_lt
  unfold toInt32
  rw [min_eq_left (by omega), max_eq_right (by omega), Int32.ofInt_toInt]

/-- The round trip of `%d` for an `int`. -/
theorem int?_showInt (x : Int32) {rest : CString}
    (hrest : ∀ c ∈ rest.head?, c.isDigit = false) :
    int? (showInt x.toInt ++ rest) = some (x, rest) := by
  unfold int?
  rw [decimal?_showInt x.toInt hrest, Option.map_some, toInt32_toInt]

theorem showInt_ne_nil {v : ℤ} : showInt v ≠ [] := by
  unfold showInt
  split
  · exact List.cons_ne_nil _ _
  · exact Nat.toDigits_ne_nil

/-- A printed number has no blank. -/
theorem blank_not_mem_showInt (v : ℤ) : ' ' ∉ showInt v := by
  have hdigits : ' ' ∉ Nat.toDigits 10 v.natAbs := fun h =>
    Bool.false_ne_true ((by decide : Char.isDigit ' ' = false).symm.trans
      (isDigit_of_mem_toDigits h))
  unfold showInt
  split
  · rw [List.mem_cons, not_or]
    exact ⟨by decide, hdigits⟩
  · exact hdigits

/-- `%d` skips the white space in front of the number. -/
theorem int?_space (s : CString) : int? (' ' :: s) = int? s := by
  unfold int? decimal? skipSpace
  rw [List.dropWhile_cons_of_pos (by decide)]

/-- **The round trip of `%Ns`**: a word without white space and no longer than
the width is read whole, after white space and up to white space. -/
theorem word?_append {width : ℕ} {w rest : CString} (hne : w ≠ [])
    (hlen : w.length ≤ width) (hw : ∀ c ∈ w, isSpace c = false)
    (hrest : ∀ c ∈ rest.head?, isSpace c = true) :
    word? width (w ++ rest) = some (w, rest) := by
  have hskip : skipSpace (w ++ rest) = w ++ rest := by
    obtain ⟨c, s, rfl⟩ := List.exists_cons_of_ne_nil hne
    unfold skipSpace
    rw [List.cons_append,
      List.dropWhile_cons_of_neg (by simp [hw c List.mem_cons_self])]
  have htake : (w ++ rest).takeWhile (fun c => !isSpace c) = w := by
    rw [List.takeWhile_append_of_pos (fun c hc => by simp [hw c hc])]
    cases rest with
    | nil => simp
    | cons c rest => simp [hrest c (by simp)]
  unfold word?
  dsimp only
  rw [hskip, htake, List.take_of_length_le hlen, if_neg hne, List.drop_left]

/-- **The round trip of `%N[^c]`**: what has no stop character and is no longer
than the width is read whole, up to the stop character. -/
theorem until?_append {width : ℕ} {stop : Char} {w rest : CString} (hne : w ≠ [])
    (hlen : w.length ≤ width) (hw : stop ∉ w) (hrest : ∀ c ∈ rest.head?, c = stop) :
    until? width stop (w ++ rest) = some (w, rest) := by
  have htake : (w ++ rest).takeWhile (fun c => c != stop) = w := by
    rw [List.takeWhile_append_of_pos (fun c hc => by simpa using ne_of_mem_of_not_mem hc hw)]
    cases rest with
    | nil => simp
    | cons c rest => simp [hrest c (by simp)]
  unfold until?
  dsimp only
  rw [htake, List.take_of_length_le hlen, if_neg hne, List.drop_left]

/-! ## The tokens of a line -/

@[simp] theorem tokens_nil (sep : Char) : tokens sep [] = [] := rfl

/-- A line that is one token. -/
theorem tokens_of_not_mem {sep : Char} {w : CString} (hne : w ≠ []) (hw : sep ∉ w) :
    tokens sep w = [w] := by
  unfold tokens
  rw [List.splitOn_eq_singleton hw, List.filter_cons_of_pos (by simp [hne]), List.filter_nil]

/-- A token in front of a separator. -/
theorem tokens_append {sep : Char} {w : CString} (hne : w ≠ []) (hw : sep ∉ w)
    (rest : CString) : tokens sep (w ++ sep :: rest) = w :: tokens sep rest := by
  unfold tokens
  rw [List.splitOn_append_cons_self, List.splitOn_eq_singleton hw, List.singleton_append,
    List.filter_cons_of_pos (by simp [hne])]

/-- `%Ns` skips the white space in front of the word. -/
theorem word?_space (width : ℕ) (s : CString) :
    word? width (' ' :: s) = word? width s := by
  unfold word? skipSpace
  rw [List.dropWhile_cons_of_pos (by decide)]

/-! ## The conversions as a grammar -/

/-- What a run leaves does not start like it. -/
theorem head?_dropWhile {p : Char → Bool} (s : CString) :
    ∀ c ∈ (s.dropWhile p).head?, p c = false := by
  intro c hc
  have hnot := List.head?_dropWhile_not p s
  rw [hc] at hnot
  exact hnot

/-- **The text of a decimal integer**: a sign or none, and at least one digit. -/
def Decimal (t : CString) (v : ℤ) : Prop :=
  (sign t).2 ≠ [] ∧ (∀ c ∈ (sign t).2, c.isDigit = true)
    ∧ v = signed (sign t).1 (Nat.ofDigitChars 10 (sign t).2 0)

instance (t : CString) (v : ℤ) : Decidable (Decimal t v) :=
  inferInstanceAs (Decidable (_ ∧ _ ∧ _))

/-- The sign is read off the front. -/
theorem sign_append {t rest : CString} (h : (sign t).2 ≠ []) :
    sign (t ++ rest) = ((sign t).1, (sign t).2 ++ rest) := by
  rcases sign_cases t with ⟨u, rfl, -⟩ | ⟨u, rfl, -⟩ | ⟨hminus, hplus, hsign⟩
  · rfl
  · rfl
  · rw [hsign] at h ⊢
    have hhead : (t ++ rest).head? = t.head? := List.head?_append_of_ne_nil t h
    exact sign_of_head (hhead ▸ hminus) (hhead ▸ hplus)

/-- The text of a number has no white space. -/
theorem Decimal.not_isSpace {t : CString} {v : ℤ} (h : Decimal t v) :
    ∀ c ∈ t, isSpace c = false := by
  have hdigits : ∀ c ∈ (sign t).2, isSpace c = false :=
    fun c hc => not_isSpace_of_isDigit (h.2.1 c hc)
  rcases sign_cases t with ⟨u, rfl, hsign⟩ | ⟨u, rfl, hsign⟩ | ⟨-, -, hsign⟩
  · rw [hsign] at hdigits
    exact List.forall_mem_cons.mpr ⟨by decide, hdigits⟩
  · rw [hsign] at hdigits
    exact List.forall_mem_cons.mpr ⟨by decide, hdigits⟩
  · rw [hsign] at hdigits
    exact hdigits

theorem Decimal.ne_nil {t : CString} {v : ℤ} (h : Decimal t v) : t ≠ [] := by
  rintro rfl
  exact h.1 rfl

/-- A text is its sign and what is behind it. -/
theorem exists_sign_eq (s : CString) :
    ∃ pre, s = pre ++ (sign s).2 ∧ ∀ d : CString, d ≠ [] →
      (∀ c ∈ d.head?, c.isDigit = true) → sign (pre ++ d) = ((sign s).1, d) := by
  rcases sign_cases s with ⟨t, rfl, hsign⟩ | ⟨t, rfl, hsign⟩ | ⟨-, -, hsign⟩
  · exact ⟨['-'], by rw [hsign]; rfl, fun d _ _ => by rw [hsign]; rfl⟩
  · exact ⟨['+'], by rw [hsign]; rfl, fun d _ _ => by rw [hsign]; rfl⟩
  · refine ⟨[], by rw [hsign]; rfl, fun d hne hd => ?_⟩
    obtain ⟨c, d, rfl⟩ := List.exists_cons_of_ne_nil hne
    rw [hsign]
    exact sign_of_isDigit (hd c rfl)

/-- **What `%d` reads**: white space, the text of a number, and what is left does
not go on with a digit. -/
theorem decimal?_eq_some_iff {s rest : CString} {v : ℤ} :
    decimal? s = some (v, rest)
      ↔ ∃ hueco t, s = hueco ++ (t ++ rest) ∧ (∀ c ∈ hueco, isSpace c = true)
        ∧ Decimal t v ∧ ∀ c ∈ rest.head?, c.isDigit = false := by
  constructor
  · intro h
    unfold decimal? at h
    dsimp only at h
    split at h
    · exact absurd h (by simp)
    · next hne =>
      obtain ⟨rfl, rfl⟩ := Prod.mk.inj (Option.some.inj h)
      obtain ⟨pre, hpre, hsign⟩ := exists_sign_eq (skipSpace s)
      have hdigits : ∀ c ∈ (sign (skipSpace s)).2.takeWhile Char.isDigit, c.isDigit = true :=
        fun c hc => List.mem_takeWhile_imp hc
      have hsign := hsign _ hne (fun c hc => hdigits c (List.mem_of_mem_head? hc))
      refine ⟨s.takeWhile isSpace, pre ++ (sign (skipSpace s)).2.takeWhile Char.isDigit, ?_,
        fun c hc => List.mem_takeWhile_imp hc, ?_, head?_dropWhile _⟩
      · rw [List.append_assoc, List.takeWhile_append_dropWhile, ← hpre]
        exact List.takeWhile_append_dropWhile.symm
      · unfold Decimal
        rw [hsign]
        exact ⟨hne, hdigits, rfl⟩
  · rintro ⟨hueco, t, rfl, hhueco, ht, hrest⟩
    have hskip : skipSpace (hueco ++ (t ++ rest)) = t ++ rest := by
      refine dropWhile_append_of_head hhueco (fun c hc => ?_)
      obtain ⟨d, u, rfl⟩ := List.exists_cons_of_ne_nil ht.ne_nil
      obtain rfl : d = c := Option.some.inj hc
      exact ht.not_isSpace d List.mem_cons_self
    unfold decimal?
    rw [hskip, sign_append ht.1]
    dsimp only
    rw [takeWhile_append_of_head ht.2.1 hrest, dropWhile_append_of_head ht.2.1 hrest,
      if_neg ht.1, ← ht.2.2]

/-- What `%d` reads into an `int`. -/
theorem int?_eq_some_iff {s rest : CString} {x : Int32} :
    int? s = some (x, rest)
      ↔ ∃ hueco t v, s = hueco ++ (t ++ rest) ∧ (∀ c ∈ hueco, isSpace c = true)
        ∧ Decimal t v ∧ x = toInt32 v ∧ ∀ c ∈ rest.head?, c.isDigit = false := by
  unfold int?
  rw [Option.map_eq_some_iff]
  constructor
  · rintro ⟨⟨v, r⟩, h, heq⟩
    obtain ⟨rfl, rfl⟩ := Prod.mk.inj heq
    obtain ⟨hueco, t, hs, hhueco, ht, hr⟩ := decimal?_eq_some_iff.mp h
    exact ⟨hueco, t, v, hs, hhueco, ht, rfl, hr⟩
  · rintro ⟨hueco, t, v, hs, hhueco, ht, rfl, hr⟩
    exact ⟨(v, rest), decimal?_eq_some_iff.mpr ⟨hueco, t, hs, hhueco, ht, hr⟩, rfl⟩

/-- **What `%N[^c]` reads**: at most `N` characters other than `c`, up to the
first `c` unless there are more. -/
theorem until?_eq_some_iff {width : ℕ} {stop : Char} {s w rest : CString} :
    until? width stop s = some (w, rest)
      ↔ s = w ++ rest ∧ w ≠ [] ∧ w.length ≤ width ∧ stop ∉ w
        ∧ (w.length < width → ∀ c ∈ rest.head?, c = stop) := by
  have hmem : ∀ c ∈ s.takeWhile (fun c => c != stop), c ≠ stop := by
    intro c hc
    simpa using List.mem_takeWhile_imp hc
  constructor
  · intro h
    unfold until? at h
    dsimp only at h
    split at h
    · exact absurd h (by simp)
    · next hne =>
      obtain ⟨rfl, rfl⟩ := Prod.mk.inj (Option.some.inj h)
      have hpre : (s.takeWhile (fun c => c != stop)).take width <+: s :=
        (List.take_prefix _ _).trans (List.takeWhile_prefix _)
      obtain ⟨u, hu⟩ := hpre
      have hdrop : s.drop ((s.takeWhile (fun c => c != stop)).take width).length = u :=
        (congrArg (List.drop _) hu).symm.trans List.drop_left
      refine ⟨hu.symm.trans (by rw [hdrop]), hne, List.length_take_le _ _,
        fun hstop => hmem stop (List.mem_of_mem_take hstop) rfl, fun hlt c hc => ?_⟩
      rw [hdrop] at hc
      -- nothing was cut, so the rest starts where the run ends
      have htake : (s.takeWhile (fun c => c != stop)).take width
          = s.takeWhile (fun c => c != stop) := by
        refine List.take_of_length_le ?_
        rw [List.length_take] at hlt
        omega
      rw [htake] at hu
      have hrest : u = s.dropWhile (fun c => c != stop) := by
        have hsplit := List.takeWhile_append_dropWhile (p := fun c => c != stop) (l := s)
        exact List.append_cancel_left (hu.trans hsplit.symm)
      have hhead := head?_dropWhile (p := fun c => c != stop) s c (hrest ▸ hc)
      simpa using hhead
  · rintro ⟨rfl, hne, hlen, hstop, hrest⟩
    have htake : ((w ++ rest).takeWhile (fun c => c != stop)).take width = w := by
      rw [List.takeWhile_append_of_pos (fun c hc => by
        simpa using ne_of_mem_of_not_mem hc hstop)]
      rcases Nat.lt_or_ge w.length width with hlt | hge
      · have hnil : rest.takeWhile (fun c => c != stop) = [] := by
          cases rest with
          | nil => rfl
          | cons c rest => simp [hrest hlt c (by simp)]
        rw [hnil, List.append_nil, List.take_of_length_le hlen]
      · rw [← Nat.le_antisymm hlen hge, List.take_left]
    unfold until?
    dsimp only
    rw [htake, if_neg hne, List.drop_left]

/-! ## The text behind a list of tokens -/

/-- A separator in front of the tokens. -/
theorem tokens_cons_self (sep : Char) (s : CString) :
    tokens sep (sep :: s) = tokens sep s := by
  unfold tokens
  have h := List.splitOn_append_cons_self (a := sep) [] s
  rw [List.nil_append] at h
  rw [h, List.filter_append]
  rfl

/-- **The text of the first token**: separators in front of it, and a separator
or the end behind it. -/
theorem tokens_eq_cons {sep : Char} {s t : CString} {ts : List CString}
    (h : tokens sep s = t :: ts) :
    ∃ blancos rest, s = blancos ++ (t ++ rest) ∧ (∀ c ∈ blancos, c = sep)
      ∧ (∀ c ∈ rest.head?, c = sep) ∧ sep ∉ t ∧ t ≠ [] ∧ tokens sep rest = ts := by
  induction s with
  | nil => exact absurd h (by simp)
  | cons c s ih =>
    by_cases hc : c = sep
    · subst hc
      rw [tokens_cons_self] at h
      obtain ⟨blancos, rest, hs, hblancos, hrest⟩ := ih h
      refine ⟨c :: blancos, rest, by rw [hs]; rfl, ?_, hrest⟩
      exact List.forall_mem_cons.mpr ⟨rfl, hblancos⟩
    · have hw : sep ∉ (c :: s).takeWhile (fun x => x != sep) := by
        intro hmem
        simpa using List.mem_takeWhile_imp hmem
      have hne : (c :: s).takeWhile (fun x => x != sep) ≠ [] := by simp [hc]
      have hsplit := List.takeWhile_append_dropWhile (p := fun x => x != sep) (l := c :: s)
      have hhead := head?_dropWhile (p := fun x => x != sep) (c :: s)
      refine ⟨[], (c :: s).dropWhile (fun x => x != sep), ?_⟩
      cases hdrop : (c :: s).dropWhile (fun x => x != sep) with
      | nil =>
        rw [hdrop, List.append_nil] at hsplit
        rw [← hsplit, tokens_of_not_mem hne hw] at h
        obtain ⟨rfl, rfl⟩ := List.cons.inj h
        refine ⟨?_, by simp, by simp, hw, hne, rfl⟩
        rw [List.nil_append, List.append_nil, hsplit]
      | cons d rest =>
        rw [hdrop] at hsplit hhead
        obtain rfl : d = sep := by simpa using hhead d rfl
        rw [← hsplit, tokens_append hne hw] at h
        obtain ⟨rfl, rfl⟩ := List.cons.inj h
        refine ⟨?_, by simp, by simp, hw, hne, tokens_cons_self d rest⟩
        rw [List.nil_append, hsplit]

end Scan
