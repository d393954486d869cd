import Mathlib

/-!
# Bucketed tables

A table of buckets, each a list, where an element sits in the bucket its
index function names: a hash table with chaining, as C programs write it with
an array of singly linked lists. The invariant that every element is in its
own bucket is a field of the structure, so a misplaced element cannot be
built.

A table is read by its finitely many first buckets: `Buckets.toList n` chains
the buckets `0 … n - 1` in order. The operations on one bucket – look up,
put in front, drop or change the first match – are those operations on the
chained list (`Buckets.find?_toList`, `Buckets.toList_cons_perm`,
`Buckets.toList_eraseFirst`, `Buckets.toList_modifyFirst`), which is how a
client reasons about them.
-/

variable {α : Type} {idx : α → ℕ}

namespace List

/-- Changes the first element that satisfies `p`. -/
def modifyFirst (p : α → Bool) (f : α → α) : List α → List α
  | [] => []
  | a :: l => if p a then f a :: l else a :: modifyFirst p f l

theorem modifyFirst_of_forall_not {p : α → Bool} {f : α → α} {l : List α}
    (h : ∀ a ∈ l, p a = false) : l.modifyFirst p f = l := by
  induction l with
  | nil => rfl
  | cons a l ih =>
    rw [modifyFirst, if_neg (by simp [h a mem_cons_self]),
      ih (fun b hb => h b (mem_cons_of_mem a hb))]

/-- A change that moves no match is none. -/
theorem modifyFirst_eq_self {p : α → Bool} {f : α → α} {l : List α}
    (h : ∀ a ∈ l, p a = true → f a = a) : l.modifyFirst p f = l := by
  induction l with
  | nil => rfl
  | cons a l ih =>
    rw [modifyFirst]
    split
    · next hp => rw [h a mem_cons_self hp]
    · rw [ih (fun b hb => h b (mem_cons_of_mem a hb))]

/-- A change that keeps a test keeps its count. -/
theorem countP_modifyFirst_of_eq {p q : α → Bool} {f : α → α}
    (h : ∀ a, p a = true → q (f a) = q a) (l : List α) :
    (l.modifyFirst p f).countP q = l.countP q := by
  induction l with
  | nil => rfl
  | cons a l ih =>
    rw [modifyFirst]
    split
    · next hp => rw [countP_cons, countP_cons, h a hp]
    · rw [countP_cons, countP_cons, ih]

/-- A change of one element costs a count one at most. -/
theorem countP_le_modifyFirst_add_one (p q : α → Bool) (f : α → α) (l : List α) :
    l.countP q ≤ (l.modifyFirst p f).countP q + 1 := by
  induction l with
  | nil => exact Nat.zero_le _
  | cons a l ih =>
    rw [modifyFirst]
    split
    · rw [countP_cons, countP_cons]
      split <;> split <;> omega
    · rw [countP_cons, countP_cons]
      omega

theorem modifyFirst_append_right {p : α → Bool} {f : α → α} {l₁ l₂ : List α}
    (h : ∀ a ∈ l₁, p a = false) :
    (l₁ ++ l₂).modifyFirst p f = l₁ ++ l₂.modifyFirst p f := by
  induction l₁ with
  | nil => rfl
  | cons a l ih =>
    rw [cons_append, modifyFirst, if_neg (by simp [h a mem_cons_self]),
      ih (fun b hb => h b (mem_cons_of_mem a hb)), cons_append]

theorem modifyFirst_append_left {p : α → Bool} {f : α → α} {l₁ l₂ : List α}
    (h : ∀ a ∈ l₂, p a = false) :
    (l₁ ++ l₂).modifyFirst p f = l₁.modifyFirst p f ++ l₂ := by
  induction l₁ with
  | nil => exact modifyFirst_of_forall_not h
  | cons a l ih =>
    rw [cons_append, modifyFirst, modifyFirst, ih]
    split <;> rfl

theorem mem_of_mem_modifyFirst {p : α → Bool} {f : α → α} {l : List α} {b : α}
    (h : b ∈ l.modifyFirst p f) : b ∈ l ∨ ∃ a ∈ l, p a = true ∧ b = f a := by
  induction l with
  | nil => exact absurd h not_mem_nil
  | cons a l ih =>
    rw [modifyFirst] at h
    split at h
    · next hp =>
      rcases mem_cons.mp h with rfl | h
      · exact Or.inr ⟨a, mem_cons_self, hp, rfl⟩
      · exact Or.inl (mem_cons_of_mem a h)
    · rcases mem_cons.mp h with rfl | h
      · exact Or.inl mem_cons_self
      · rcases ih h with h | ⟨c, hc, hp, rfl⟩
        · exact Or.inl (mem_cons_of_mem a h)
        · exact Or.inr ⟨c, mem_cons_of_mem a hc, hp, rfl⟩

/-- Changing the first match leaves a function of the elements alone that the
change does not move. -/
theorem map_modifyFirst_of_eq {β : Type} {p : α → Bool} {f : α → α} (g : α → β)
    (h : ∀ a, p a = true → g (f a) = g a) (l : List α) :
    (l.modifyFirst p f).map g = l.map g := by
  induction l with
  | nil => rfl
  | cons a l ih =>
    rw [modifyFirst]
    split
    · next hp => rw [map_cons, map_cons, h a hp]
    · rw [map_cons, map_cons, ih]

/-- Looking up the changed element finds it changed, if the change keeps it a
match. -/
theorem find?_modifyFirst_self {p : α → Bool} {f : α → α}
    (hf : ∀ a, p a = true → p (f a) = true) (l : List α) :
    (l.modifyFirst p f).find? p = (l.find? p).map f := by
  induction l with
  | nil => rfl
  | cons a l ih =>
    rw [modifyFirst]
    split
    · next hp => rw [find?_cons_of_pos (hf a hp), find?_cons_of_pos hp, Option.map_some]
    · next hp => rw [find?_cons_of_neg hp, find?_cons_of_neg hp, ih]

/-- Looking up something else does not notice the change. -/
theorem find?_modifyFirst_of_disjoint {p q : α → Bool} {f : α → α}
    (hq : ∀ a, p a = true → q a = false ∧ q (f a) = false) (l : List α) :
    (l.modifyFirst p f).find? q = l.find? q := by
  induction l with
  | nil => rfl
  | cons a l ih =>
    rw [modifyFirst]
    split
    · next hp =>
      rw [find?_cons_of_neg (by simp [(hq a hp).2]), find?_cons_of_neg (by simp [(hq a hp).1])]
    · rw [find?_cons, find?_cons, ih]

/-- Where a match is found, the list is what comes before it, the match, and
the rest; changing or dropping the first match changes or drops that one. -/
theorem find?_split {p : α → Bool} {l : List α} {a : α} (h : l.find? p = some a) :
    ∃ l₁ l₂, l = l₁ ++ a :: l₂ ∧ p a = true ∧ (∀ b ∈ l₁, p b = false)
      ∧ l.eraseP p = l₁ ++ l₂
      ∧ ∀ f : α → α, l.modifyFirst p f = l₁ ++ f a :: l₂ := by
  obtain ⟨ha, l₁, l₂, rfl, hl₁⟩ := find?_eq_some_iff_append.mp h
  have hl₁' : ∀ b ∈ l₁, p b = false := fun b hb => by simpa using hl₁ b hb
  refine ⟨l₁, l₂, rfl, ha, hl₁', ?_, fun f => ?_⟩
  · rw [eraseP_append_right _ (fun b hb => by simp [hl₁' b hb]),
      eraseP_cons_of_pos ha]
  · rw [modifyFirst_append_right hl₁', modifyFirst, if_pos ha]

/-- Nothing changes if the change leaves the first match as it is. -/
theorem modifyFirst_eq_self_of_find? {p : α → Bool} {f : α → α} {l : List α}
    (h : ∀ a ∈ l.find? p, f a = a) : l.modifyFirst p f = l := by
  cases hfind : l.find? p with
  | none => exact modifyFirst_of_forall_not (fun a ha => by simpa using find?_eq_none.mp hfind a ha)
  | some a =>
    obtain ⟨l₁, l₂, hl, -, -, -, hmodify⟩ := find?_split hfind
    rw [hmodify, h a hfind, ← hl]

/-! ### Lists compared element by element -/

theorem forall₂_trans {R : α → α → Prop} (hR : ∀ a b c, R a b → R b c → R a c)
    {l m k : List α} (h : Forall₂ R l m) (h' : Forall₂ R m k) : Forall₂ R l k := by
  induction h generalizing k with
  | nil => exact h'
  | cons hab _ ih =>
    cases h' with
    | cons hbc hrest => exact .cons (hR _ _ _ hab hbc) (ih hrest)

theorem forall₂_modifyFirst {R : α → α → Prop} (hR : ∀ a, R a a) {p : α → Bool} {f : α → α}
    (hf : ∀ a, R a (f a)) (l : List α) : Forall₂ R l (l.modifyFirst p f) := by
  induction l with
  | nil => exact .nil
  | cons a l ih =>
    rw [modifyFirst]
    split
    · exact .cons (hf a) (forall₂_same.mpr (fun b _ => hR b))
    · exact .cons (hR a) ih

theorem forall₂_eraseP {R : α → α → Prop} {p : α → Bool} (hp : ∀ a b, R a b → p a = p b)
    {l m : List α} (h : Forall₂ R l m) : Forall₂ R (l.eraseP p) (m.eraseP p) := by
  induction h with
  | nil => exact .nil
  | cons hab hrest ih =>
    rw [eraseP_cons, eraseP_cons, hp _ _ hab]
    cases p _
    · exact .cons hab ih
    · exact hrest

theorem forall₂_find? {R : α → α → Prop} {p : α → Bool} (hp : ∀ a b, R a b → p a = p b)
    {l m : List α} (h : Forall₂ R l m) : Option.Rel R (l.find? p) (m.find? p) := by
  induction h with
  | nil => exact .none
  | cons hab _ ih =>
    rw [find?_cons, find?_cons, hp _ _ hab]
    split
    · exact .some hab
    · exact ih

theorem map_eq_of_forall₂ {β : Type} {R : α → α → Prop} {f : α → β}
    (hf : ∀ a b, R a b → f b = f a) {l m : List α} (h : Forall₂ R l m) :
    m.map f = l.map f := by
  induction h with
  | nil => rfl
  | cons hab _ ih => rw [map_cons, map_cons, hf _ _ hab, ih]

theorem forall₂_flatMap {β : Type} {R : α → α → Prop} {f g : β → List α}
    (h : ∀ b, Forall₂ R (f b) (g b)) (l : List β) :
    Forall₂ R (l.flatMap f) (l.flatMap g) := by
  induction l with
  | nil => exact .nil
  | cons b l ih =>
    rw [flatMap_cons, flatMap_cons]
    exact rel_append (h b) ih

/-- A related list, and what is left of it. -/
theorem sublistForall₂_of_forall₂ {R S T : α → α → Prop}
    (h : ∀ a b c, R a b → S b c → T a c) {l m n : List α} (hlm : Forall₂ R l m)
    (hmn : SublistForall₂ S m n) : SublistForall₂ T l n := by
  induction hmn generalizing l with
  | nil =>
    cases hlm
    exact .nil
  | cons hbc _ ih =>
    cases hlm with
    | cons hab hlm => exact .cons (h _ _ _ hab hbc) (ih hlm)
  | cons_right _ ih => exact .cons_right (ih hlm)

/-- What is left gives a part of what there was. -/
theorem flatMap_sublist_of_sublistForall₂ {β : Type} {R : α → α → Prop} {f : α → List β}
    (hf : ∀ a b, R a b → (f a).Sublist (f b)) {l m : List α} (h : SublistForall₂ R l m) :
    (l.flatMap f).Sublist (m.flatMap f) := by
  induction h with
  | nil => exact nil_sublist _
  | cons hab _ ih => exact (hf _ _ hab).append ih
  | cons_right _ ih => exact ih.trans (sublist_append_right _ _)

/-- An element of the first list has its counterpart in the second. -/
theorem exists_of_forall₂ {R : α → α → Prop} {l m : List α} (h : Forall₂ R l m) {a : α}
    (ha : a ∈ l) : ∃ b ∈ m, R a b := by
  induction h with
  | nil => exact absurd ha not_mem_nil
  | cons hab _ ih =>
    rcases mem_cons.mp ha with rfl | ha
    · exact ⟨_, mem_cons_self, hab⟩
    · obtain ⟨b, hb, hR⟩ := ih ha
      exact ⟨b, mem_cons_of_mem _ hb, hR⟩

end List

/-- **A bucketed table**: every element sits in the bucket of its index. -/
structure Buckets (α : Type) (idx : α → ℕ) where
  /-- The chains, by bucket number. -/
  bucket : ℕ → List α
  /-- An element of a chain belongs there. -/
  idx_of_mem : ∀ {i : ℕ} {a : α}, a ∈ bucket i → idx a = i

namespace Buckets

@[ext] theorem ext {b c : Buckets α idx} (h : ∀ i, b.bucket i = c.bucket i) :
    b = c := by
  cases b
  cases c
  congr
  exact funext h

/-- The table of empty chains. -/
def empty : Buckets α idx := ⟨fun _ => [], fun h => absurd h List.not_mem_nil⟩

/-- The table with the `i`-th chain replaced by one whose elements belong
there. -/
def setBucket (b : Buckets α idx) (i : ℕ) (l : List α)
    (h : ∀ a ∈ l, idx a = i) : Buckets α idx where
  bucket := Function.update b.bucket i l
  idx_of_mem := by
    intro j a ha
    rw [Function.update_apply] at ha
    split at ha
    · next hj => exact hj ▸ h a ha
    · exact b.idx_of_mem ha

/-- An element put in front of its chain. -/
def cons (a : α) (b : Buckets α idx) : Buckets α idx :=
  b.setBucket (idx a) (a :: b.bucket (idx a)) (by
    intro c hc
    rcases List.mem_cons.mp hc with rfl | hc
    · rfl
    · exact b.idx_of_mem hc)

/-- The first match of the `i`-th chain unlinked. -/
def eraseFirst (b : Buckets α idx) (i : ℕ) (p : α → Bool) : Buckets α idx :=
  b.setBucket i ((b.bucket i).eraseP p)
    (fun _ ha => b.idx_of_mem (List.mem_of_mem_eraseP ha))

/-- The first match of the `i`-th chain changed in place, by a change that
keeps its index. -/
def modifyFirst (b : Buckets α idx) (i : ℕ) (p : α → Bool) (f : α → α)
    (hf : ∀ a, idx (f a) = idx a) : Buckets α idx :=
  b.setBucket i ((b.bucket i).modifyFirst p f) (by
    intro a ha
    rcases List.mem_of_mem_modifyFirst ha with ha | ⟨c, hc, -, rfl⟩
    · exact b.idx_of_mem ha
    · rw [hf, b.idx_of_mem hc])

theorem modifyFirst_eq_self {b : Buckets α idx} {i : ℕ} {p : α → Bool} {f : α → α}
    {hf : ∀ a, idx (f a) = idx a} (h : ∀ a ∈ (b.bucket i).find? p, f a = a) :
    b.modifyFirst i p f hf = b := by
  ext j : 1
  show Function.update b.bucket i _ j = b.bucket j
  rw [List.modifyFirst_eq_self_of_find? h, Function.update_eq_self]

/-- Every chain rewritten, each by a function that yields elements of the
chain's own index. -/
def mapBuckets (b : Buckets α idx) (f : ℕ → List α → List α)
    (hf : ∀ i l, (∀ a ∈ l, idx a = i) → ∀ a ∈ f i l, idx a = i) :
    Buckets α idx where
  bucket i := f i (b.bucket i)
  idx_of_mem := fun ha => hf _ _ (fun _ hc => b.idx_of_mem hc) _ ha

/-- **The elements of the buckets `0 … n - 1`**, bucket after bucket. -/
def toList (n : ℕ) (b : Buckets α idx) : List α :=
  (List.range n).flatMap b.bucket

@[simp] theorem toList_empty (n : ℕ) : (empty : Buckets α idx).toList n = [] := by
  unfold toList empty
  simp

/-! ## Predicates on the elements -/

/-- Every element of every chain satisfies the predicate. -/
def Forall (Q : α → Prop) (b : Buckets α idx) : Prop := ∀ i, ∀ a ∈ b.bucket i, Q a

section Forall

variable {Q : α → Prop} {b : Buckets α idx} {i : ℕ}

theorem forall_empty : (empty : Buckets α idx).Forall Q :=
  fun _ _ h => absurd h List.not_mem_nil

theorem Forall.mono {Q' : α → Prop} (h : b.Forall Q) (himp : ∀ a, Q a → Q' a) :
    b.Forall Q' :=
  fun i a ha => himp a (h i a ha)

theorem Forall.setBucket {l : List α} {hl : ∀ a ∈ l, idx a = i} (h : b.Forall Q)
    (hQ : ∀ a ∈ l, Q a) : (b.setBucket i l hl).Forall Q := by
  intro j a ha
  have ha : a ∈ Function.update b.bucket i l j := ha
  rw [Function.update_apply] at ha
  split at ha
  · exact hQ a ha
  · exact h j a ha

theorem Forall.cons {a : α} (h : b.Forall Q) (ha : Q a) : (b.cons a).Forall Q :=
  h.setBucket (List.forall_mem_cons.mpr ⟨ha, h _⟩)

theorem Forall.eraseFirst {p : α → Bool} (h : b.Forall Q) :
    (b.eraseFirst i p).Forall Q :=
  h.setBucket (fun a ha => h i a (List.mem_of_mem_eraseP ha))

/-- The match satisfies what it is changed into, the others what they did. -/
theorem Forall.modifyFirst_of_match {Q' : α → Prop} {p : α → Bool} {f : α → α}
    {hf : ∀ a, idx (f a) = idx a} (h : b.Forall Q) (himp : ∀ a, Q a → Q' a)
    (hQ : ∀ a, p a = true → Q a → Q' (f a)) : (b.modifyFirst i p f hf).Forall Q' := by
  refine (h.mono himp).setBucket (fun a ha => ?_)
  rcases List.mem_of_mem_modifyFirst ha with ha | ⟨c, hc, hp, rfl⟩
  · exact himp a (h i a ha)
  · exact hQ c hp (h i c hc)

theorem Forall.modifyFirst {p : α → Bool} {f : α → α} {hf : ∀ a, idx (f a) = idx a}
    (h : b.Forall Q) (hQ : ∀ a, Q a → Q (f a)) : (b.modifyFirst i p f hf).Forall Q :=
  h.modifyFirst_of_match (fun _ ha => ha) (fun a _ => hQ a)

theorem Forall.find {p : α → Bool} {a : α} (h : b.Forall Q)
    (hfind : (b.bucket i).find? p = some a) : Q a :=
  h i a (List.mem_of_find?_eq_some hfind)

theorem Forall.of_mem_toList {n : ℕ} {a : α} (h : b.Forall Q) (ha : a ∈ b.toList n) :
    Q a := by
  obtain ⟨i, -, hi⟩ := List.mem_flatMap.mp ha
  exact h i a hi

end Forall

/-! ## The chained list -/

theorem mem_toList {n : ℕ} {b : Buckets α idx} {a : α} :
    a ∈ b.toList n ↔ a ∈ b.bucket (idx a) ∧ idx a < n := by
  unfold toList
  rw [List.mem_flatMap]
  constructor
  · rintro ⟨i, hi, ha⟩
    rw [b.idx_of_mem ha]
    exact ⟨ha, List.mem_range.mp hi⟩
  · rintro ⟨ha, hi⟩
    exact ⟨idx a, List.mem_range.mpr hi, ha⟩

/-- The chained list, cut at one bucket: the elements before and after it have
other indices. -/
theorem toList_split {n i : ℕ} (hi : i < n) (_b : Buckets α idx) :
    ∃ A B : List ℕ, i ∉ A ∧ i ∉ B ∧ ∀ c : Buckets α idx,
      c.toList n = A.flatMap c.bucket ++ (c.bucket i ++ B.flatMap c.bucket) := by
  obtain ⟨A, B, hAB⟩ := List.append_of_mem (List.mem_range.mpr hi)
  have hnd : (A ++ i :: B).Nodup := hAB ▸ List.nodup_range
  rw [List.nodup_middle, List.nodup_cons, List.mem_append, not_or] at hnd
  refine ⟨A, B, hnd.1.1, hnd.1.2, fun c => ?_⟩
  unfold toList
  rw [hAB, List.flatMap_append, List.flatMap_cons]

theorem idx_of_mem_flatMap {b : Buckets α idx} {i : ℕ} {A : List ℕ} (hA : i ∉ A)
    {a : α} (ha : a ∈ A.flatMap b.bucket) : idx a ≠ i := by
  obtain ⟨j, hj, haj⟩ := List.mem_flatMap.mp ha
  rw [b.idx_of_mem haj]
  rintro rfl
  exact hA hj

theorem flatMap_setBucket {b : Buckets α idx} {i : ℕ} {l : List α}
    (h : ∀ a ∈ l, idx a = i) {A : List ℕ} (hA : i ∉ A) :
    A.flatMap (b.setBucket i l h).bucket = A.flatMap b.bucket := by
  refine List.flatMap_congr (fun j hj => ?_)
  exact Function.update_of_ne (by rintro rfl; exact hA hj) _ _

section OneBucket

variable {n i : ℕ} {p : α → Bool}

/-- A predicate that pins the index fails away from that bucket. -/
theorem not_of_mem_flatMap (hp : ∀ a, p a = true → idx a = i) {b : Buckets α idx}
    {A : List ℕ} (hA : i ∉ A) : ∀ a ∈ A.flatMap b.bucket, p a = false := by
  intro a ha
  rw [← Bool.not_eq_true]
  exact fun h => idx_of_mem_flatMap hA ha (hp a h)

/-- **Looking up in a bucket is looking up in the table**, for a predicate
that pins the index. -/
theorem find?_toList (hi : i < n) (hp : ∀ a, p a = true → idx a = i)
    (b : Buckets α idx) : (b.toList n).find? p = (b.bucket i).find? p := by
  obtain ⟨A, B, hA, hB, hsplit⟩ := toList_split hi b
  have none_of : ∀ {C : List ℕ}, i ∉ C → (C.flatMap b.bucket).find? p = none :=
    fun hC => List.find?_eq_none.mpr
      (fun a ha => by simp [not_of_mem_flatMap hp hC a ha])
  rw [hsplit, List.find?_append, List.find?_append, none_of hA, none_of hB,
    Option.none_or, Option.or_none]

/-- **Unlinking from a bucket is dropping the first match of the table.** -/
theorem toList_eraseFirst (hi : i < n) (hp : ∀ a, p a = true → idx a = i)
    (b : Buckets α idx) :
    (b.eraseFirst i p).toList n = (b.toList n).eraseP p := by
  obtain ⟨A, B, hA, hB, hsplit⟩ := toList_split hi b
  rw [hsplit, hsplit, eraseFirst, flatMap_setBucket _ hA, flatMap_setBucket _ hB,
    List.eraseP_append_right _ (fun a ha => by simp [not_of_mem_flatMap hp hA a ha])]
  congr 1
  rw [setBucket]
  dsimp only
  rw [Function.update_self]
  by_cases h : ∃ a ∈ b.bucket i, p a = true
  · obtain ⟨a, ha, hpa⟩ := h
    rw [List.eraseP_append_left hpa _ ha]
  · have h' : ∀ a ∈ b.bucket i, ¬p a = true := fun a ha hpa => h ⟨a, ha, hpa⟩
    rw [List.eraseP_append_right _ h', List.eraseP_of_forall_not h',
      List.eraseP_of_forall_not
        (fun a ha => by simp [not_of_mem_flatMap hp hB a ha])]

/-- **Changing the first match of a bucket is changing that of the table.** -/
theorem toList_modifyFirst (hi : i < n) (hp : ∀ a, p a = true → idx a = i)
    (f : α → α) (hf : ∀ a, idx (f a) = idx a) (b : Buckets α idx) :
    (b.modifyFirst i p f hf).toList n = (b.toList n).modifyFirst p f := by
  obtain ⟨A, B, hA, hB, hsplit⟩ := toList_split hi b
  rw [hsplit, hsplit, modifyFirst, flatMap_setBucket _ hA, flatMap_setBucket _ hB,
    List.modifyFirst_append_right (not_of_mem_flatMap hp hA),
    List.modifyFirst_append_left (not_of_mem_flatMap hp hB)]
  rw [setBucket]
  dsimp only
  rw [Function.update_self]

end OneBucket

/-- **An element put in its bucket joins the table.** -/
theorem toList_cons_perm {n : ℕ} (b : Buckets α idx) {a : α} (ha : idx a < n) :
    (b.cons a).toList n |>.Perm (a :: b.toList n) := by
  obtain ⟨A, B, hA, hB, hsplit⟩ := toList_split ha b
  rw [hsplit, hsplit, cons, flatMap_setBucket _ hA, flatMap_setBucket _ hB]
  rw [setBucket]
  dsimp only
  rw [Function.update_self, List.cons_append]
  exact List.perm_middle

/-- What has no bucket does not join it. -/
theorem toList_cons {n : ℕ} (b : Buckets α idx) (a : α) :
    ((b.cons a).toList n).Perm (a :: b.toList n) ∨ (b.cons a).toList n = b.toList n := by
  by_cases ha : idx a < n
  · exact Or.inl (b.toList_cons_perm ha)
  · refine Or.inr (List.flatMap_congr (fun i hi => ?_))
    exact Function.update_of_ne (fun heq : i = idx a => ha (heq ▸ List.mem_range.mp hi)) _ _

/-! ## Two tables compared element by element -/

/-- Both tables have the same chains, up to a relation between their elements. -/
def Rel (R : α → α → Prop) (b c : Buckets α idx) : Prop :=
  ∀ i, List.Forall₂ R (b.bucket i) (c.bucket i)

section Rel

variable {R : α → α → Prop} {b c d : Buckets α idx} {p : α → Bool}

theorem Rel.refl (hR : ∀ a, R a a) (b : Buckets α idx) : b.Rel R b :=
  fun _ => List.forall₂_same.mpr (fun a _ => hR a)

theorem Rel.mono {S : α → α → Prop} (h : b.Rel R c) (himp : ∀ a a', R a a' → S a a') :
    b.Rel S c :=
  fun i => (h i).imp himp

theorem Rel.trans (hR : ∀ a a' a'', R a a' → R a' a'' → R a a'') (h : b.Rel R c)
    (h' : c.Rel R d) : b.Rel R d :=
  fun i => List.forall₂_trans hR (h i) (h' i)

/-- A change in place that the relation allows. -/
theorem Rel.modifyFirst (hR : ∀ a, R a a) {f : α → α} (hf : ∀ a, R a (f a)) (b : Buckets α idx)
    (i : ℕ) (hidx : ∀ a, idx (f a) = idx a) : b.Rel R (b.modifyFirst i p f hidx) := by
  intro k
  show List.Forall₂ R (b.bucket k) (Function.update b.bucket i _ k)
  rw [Function.update_apply]
  split
  · next hk =>
    rw [hk]
    exact List.forall₂_modifyFirst hR hf (b.bucket i)
  · exact List.forall₂_same.mpr (fun a _ => hR a)

/-- The first match unlinked from both. -/
theorem Rel.eraseFirst (h : b.Rel R c) (hp : ∀ a a', R a a' → p a = p a') (i : ℕ) :
    (b.eraseFirst i p).Rel R (c.eraseFirst i p) := by
  intro k
  show List.Forall₂ R (Function.update b.bucket i _ k) (Function.update c.bucket i _ k)
  rw [Function.update_apply, Function.update_apply]
  split
  · exact List.forall₂_eraseP hp (h i)
  · exact h k

/-- What is found in the one is found in the other. -/
theorem Rel.find? (h : b.Rel R c) (hp : ∀ a a', R a a' → p a = p a') (i : ℕ) :
    Option.Rel R ((b.bucket i).find? p) ((c.bucket i).find? p) :=
  List.forall₂_find? hp (h i)

theorem Rel.toList (h : b.Rel R c) (n : ℕ) : List.Forall₂ R (b.toList n) (c.toList n) :=
  List.forall₂_flatMap (fun i => h i) (List.range n)

/-- The second table has a part of the elements of the first, related to them. -/
def SubRel (R : α → α → Prop) (b c : Buckets α idx) : Prop :=
  ∀ i, List.SublistForall₂ (fun a' a => R a a') (c.bucket i) (b.bucket i)

theorem SubRel.of_rel (h : b.Rel R c) : b.SubRel R c :=
  fun i => List.sublistForall₂_iff.mpr ⟨b.bucket i, (h i).flip, List.Sublist.refl _⟩

theorem SubRel.refl (hR : ∀ a, R a a) (b : Buckets α idx) : b.SubRel R b :=
  .of_rel (.refl hR b)

theorem SubRel.trans_rel {S T : α → α → Prop} (hRS : ∀ a a' a'', R a a' → S a' a'' → T a a'')
    (h : b.SubRel R c) (h' : c.Rel S d) : b.SubRel T d :=
  fun i => List.sublistForall₂_of_forall₂ (fun a'' a' a hS hR => hRS a a' a'' hR hS)
    (h' i).flip (h i)

/-- The first match unlinked. -/
theorem SubRel.eraseFirst (hR : ∀ a, R a a) (b : Buckets α idx) (i : ℕ) :
    b.SubRel R (b.eraseFirst i p) := by
  intro k
  have hrefl : Std.Refl (fun a' a => R a a') := ⟨hR⟩
  show List.SublistForall₂ _ (Function.update b.bucket i _ k) _
  rw [Function.update_apply]
  split
  · next hk =>
    rw [hk]
    exact List.eraseP_sublist.sublistForall₂
  · exact (List.Sublist.refl _).sublistForall₂

theorem SubRel.exists_of_mem (h : b.SubRel R c) {i : ℕ} {a' : α} (ha' : a' ∈ c.bucket i) :
    ∃ a ∈ b.bucket i, R a a' := by
  obtain ⟨l, hl, hsub⟩ := List.sublistForall₂_iff.mp (h i)
  obtain ⟨a, ha, hR⟩ := List.exists_of_forall₂ hl ha'
  exact ⟨a, hsub.subset ha, hR⟩

/-- The same for the first buckets as one list. -/
theorem SubRel.exists_of_mem_toList (h : b.SubRel R c) {n : ℕ} {a' : α}
    (ha' : a' ∈ c.toList n) : ∃ a ∈ b.toList n, R a a' := by
  obtain ⟨i, hi, ha'⟩ := List.mem_flatMap.mp ha'
  obtain ⟨a, ha, hR⟩ := h.exists_of_mem ha'
  exact ⟨a, List.mem_flatMap.mpr ⟨i, hi, ha⟩, hR⟩

/-- What the elements list. -/
theorem SubRel.flatMap_sublist {β : Type} {f : α → List β}
    (hf : ∀ a a', R a a' → (f a').Sublist (f a)) (h : b.SubRel R c) (n : ℕ) :
    ((c.toList n).flatMap f).Sublist ((b.toList n).flatMap f) := by
  unfold Buckets.toList
  rw [List.flatMap_assoc, List.flatMap_assoc]
  induction List.range n with
  | nil => exact List.Sublist.refl _
  | cons i l ih =>
    rw [List.flatMap_cons, List.flatMap_cons]
    exact (List.flatMap_sublist_of_sublistForall₂ (fun a' a => hf a a') (h i)).append ih

end Rel

end Buckets
