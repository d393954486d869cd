import Mathlib

/-!
# Singly linked lists on a heap

A heap of cells with one link each, as C programs build their lists: an address
may be unallocated, and reading, writing or freeing what is not allocated is an
error, so the operations are partial. A null pointer is `none`.

`Heap.Seg h p l q` says that the links lead from `p` over the nodes of `l`, with
their addresses and values, to `q`; a list that ends in NULL is a `Heap.Chain`.
A chain determines its nodes and has no address twice, which is what makes an
update of one node leave the others alone.

`Heap.sweep` is the loop that walks a list with `prev` and `curr`, unlinks and
frees the nodes a test selects, and keeps a value on the way. `Heap.sweep_spec`
says that it filters the list, with an invariant for that value.
-/

/-- A cell: what it holds, and its link. -/
structure Cell (α : Type) where
  val : α
  sig : Option ℕ

/-- The cells by their addresses. -/
abbrev Heap (α : Type) := ℕ → Option (Cell α)

namespace Heap

variable {α γ : Type}

/-- `a->sig = p`. -/
def setSig (a : ℕ) (p : Option ℕ) (h : Heap α) : Option (Heap α) :=
  (h a).map (fun c => Function.update h a (some { c with sig := p }))

/-- The value of a node, replaced. -/
def setVal (a : ℕ) (v : α) (h : Heap α) : Option (Heap α) :=
  (h a).map (fun c => Function.update h a (some { c with val := v }))

/-- `free(a)`. -/
def free (a : ℕ) (h : Heap α) : Option (Heap α) :=
  (h a).map (fun _ => Function.update h a none)

/-- `malloc`, which returned the address `a`, and the first store into the cell. -/
def malloc (a : ℕ) (c : Cell α) (h : Heap α) : Option (Heap α) :=
  if (h a).isNone then some (Function.update h a (some c)) else none

theorem setSig_of_cell {h : Heap α} {a : ℕ} {v : α} {q : Option ℕ} (ha : h a = some ⟨v, q⟩)
    (p : Option ℕ) : h.setSig a p = some (Function.update h a (some ⟨v, p⟩)) := by
  unfold setSig
  rw [ha]
  rfl

theorem setVal_of_cell {h : Heap α} {a : ℕ} {v : α} {q : Option ℕ} (ha : h a = some ⟨v, q⟩)
    (w : α) : h.setVal a w = some (Function.update h a (some ⟨w, q⟩)) := by
  unfold setVal
  rw [ha]
  rfl

theorem free_of_cell {h : Heap α} {a : ℕ} {c : Cell α} (ha : h a = some c) :
    h.free a = some (Function.update h a none) := by
  unfold free
  rw [ha]
  rfl

theorem malloc_of_none {h : Heap α} {a : ℕ} (ha : h a = none) (c : Cell α) :
    h.malloc a c = some (Function.update h a (some c)) := by
  unfold malloc
  rw [ha]
  rfl

/-- The links lead from `p` over the nodes to `q`. -/
def Seg (h : Heap α) : Option ℕ → List (ℕ × α) → Option ℕ → Prop
  | p, [], q => p = q
  | p, (a, v) :: l, q => p = some a ∧ ∃ sig, h a = some ⟨v, sig⟩ ∧ Seg h sig l q

/-- **A list**: the links lead from `p` over the nodes to NULL. -/
def Chain (h : Heap α) (p : Option ℕ) (l : List (ℕ × α)) : Prop := h.Seg p l none

/-- The addresses of the nodes. -/
def addrs (l : List (ℕ × α)) : List ℕ := l.map Prod.fst

/-- The address of the first node. -/
def first (l : List (ℕ × α)) : Option ℕ := (addrs l).head?

/-- The address of the last node. -/
def last (l : List (ℕ × α)) : Option ℕ := (addrs l).getLast?

@[simp] theorem addrs_nil : addrs ([] : List (ℕ × α)) = [] := rfl

@[simp] theorem addrs_cons (x : ℕ × α) (l : List (ℕ × α)) : addrs (x :: l) = x.1 :: addrs l := rfl

@[simp] theorem addrs_append (l m : List (ℕ × α)) : addrs (l ++ m) = addrs l ++ addrs m :=
  List.map_append

@[simp] theorem last_nil : last ([] : List (ℕ × α)) = none := rfl

@[simp] theorem last_concat (l : List (ℕ × α)) (x : ℕ × α) : last (l ++ [x]) = some x.1 := by
  simp [last]

theorem mem_addrs_of_last {l : List (ℕ × α)} {a : ℕ} (h : last l = some a) : a ∈ addrs l :=
  List.mem_of_getLast? h

theorem last_eq_none_iff {l : List (ℕ × α)} : last l = none ↔ l = [] := by
  unfold last addrs
  rw [List.getLast?_eq_none_iff, List.map_eq_nil_iff]

/-- The last node of a list, and what is in front of it. -/
theorem eq_nil_or_concat (l : List (ℕ × α)) : l = [] ∨ ∃ m a v, l = m ++ [(a, v)] := by
  rcases List.eq_nil_or_concat l with rfl | ⟨m, ⟨a, v⟩, rfl⟩
  · exact Or.inl rfl
  · exact Or.inr ⟨m, a, v, List.concat_eq_append⟩

/-! ## Segments -/

section Seg

variable {h h' : Heap α} {p q : Option ℕ} {l m : List (ℕ × α)} {a : ℕ} {v : α}

theorem seg_append : h.Seg p (l ++ m) q ↔ ∃ r, h.Seg p l r ∧ h.Seg r m q := by
  induction l generalizing p with
  | nil => exact ⟨fun hm => ⟨p, rfl, hm⟩, fun ⟨r, hr, hm⟩ => hr ▸ hm⟩
  | cons x l ih =>
    constructor
    · rintro ⟨rfl, sig, hx, hrest⟩
      obtain ⟨r, hl, hm⟩ := ih.mp hrest
      exact ⟨r, ⟨rfl, sig, hx, hl⟩, hm⟩
    · rintro ⟨r, ⟨rfl, sig, hx, hl⟩, hm⟩
      exact ⟨rfl, sig, hx, ih.mpr ⟨r, hl, hm⟩⟩

theorem seg_concat :
    h.Seg p (l ++ [(a, v)]) q ↔ h.Seg p l (some a) ∧ h a = some ⟨v, q⟩ := by
  rw [seg_append]
  constructor
  · rintro ⟨r, hl, rfl, sig, ha, rfl⟩
    exact ⟨hl, ha⟩
  · rintro ⟨hl, ha⟩
    exact ⟨some a, hl, rfl, q, ha, rfl⟩

/-- **The frame rule**: a segment does not notice a change elsewhere. -/
theorem Seg.congr (hseg : h.Seg p l q) (hsame : ∀ a ∈ addrs l, h' a = h a) : h'.Seg p l q := by
  induction l generalizing p with
  | nil => exact hseg
  | cons x l ih =>
    obtain ⟨rfl, sig, hx, hrest⟩ := hseg
    exact ⟨rfl, sig, (hsame x.1 List.mem_cons_self).trans hx,
      ih hrest (fun a ha => hsame a (List.mem_cons_of_mem _ ha))⟩

theorem Seg.update (hseg : h.Seg p l q) (ha : a ∉ addrs l) (c : Option (Cell α)) :
    Seg (Function.update h a c) p l q :=
  hseg.congr (fun _ hb => Function.update_of_ne (ne_of_mem_of_not_mem hb ha) c h)

/-- The nodes of a segment are allocated. -/
theorem Seg.cell (hseg : h.Seg p l q) (ha : (a, v) ∈ l) : ∃ sig, h a = some ⟨v, sig⟩ := by
  obtain ⟨l₁, l₂, rfl⟩ := List.append_of_mem ha
  obtain ⟨r, -, -, sig, hcell, -⟩ := seg_append.mp hseg
  exact ⟨sig, hcell⟩

/-- **A list is determined by where it starts.** -/
theorem Chain.unique (hl : h.Chain p l) (hm : h.Chain p m) : l = m := by
  induction l generalizing p m with
  | nil =>
    obtain rfl : p = none := hl
    cases m with
    | nil => rfl
    | cons x m => exact absurd hm.1 (by simp)
  | cons x l ih =>
    obtain ⟨rfl, sig, hx, hrest⟩ := hl
    cases m with
    | nil => exact absurd (show some x.1 = none from hm) (by simp)
    | cons y m =>
      obtain ⟨hy, sig', hy', hrest'⟩ := hm
      obtain ⟨a, v⟩ := x
      obtain ⟨b, w⟩ := y
      obtain rfl : a = b := Option.some.inj hy
      have hcell : (⟨v, sig⟩ : Cell α) = ⟨w, sig'⟩ := Option.some.inj (hx.symm.trans hy')
      obtain ⟨rfl, rfl⟩ := Cell.mk.inj hcell
      rw [ih hrest hrest']

/-- **A list has no address twice**: it would lead to itself. -/
theorem Chain.nodup (hl : h.Chain p l) : (addrs l).Nodup := by
  induction l generalizing p with
  | nil => exact List.nodup_nil
  | cons x l ih =>
    obtain ⟨a, v⟩ := x
    obtain ⟨rfl, sig, ha, hrest⟩ := hl
    refine List.nodup_cons.mpr ⟨fun hmem => ?_, ih hrest⟩
    obtain ⟨⟨b, w⟩, hb, rfl⟩ := List.mem_map.mp hmem
    obtain ⟨l₁, l₂, rfl⟩ := List.append_of_mem hb
    obtain ⟨r, -, hr⟩ := seg_append.mp hrest
    obtain ⟨rfl, hcell⟩ := hr
    have hwhole : h.Chain (some b) ((b, v) :: (l₁ ++ (b, w) :: l₂)) := ⟨rfl, sig, ha, hrest⟩
    have htail : h.Chain (some b) ((b, w) :: l₂) := ⟨rfl, hcell⟩
    have hlen := congrArg List.length (hwhole.unique htail)
    simp at hlen
    omega

/-- A list starts at its first node. -/
theorem Chain.eq_first (hl : h.Chain p l) : p = first l := by
  cases l with
  | nil => exact hl
  | cons x l => exact hl.1

theorem Chain.eq_none_iff (hl : h.Chain p l) : p = none ↔ l = [] := by
  cases l with
  | nil => exact iff_of_true hl rfl
  | cons x l => exact iff_of_false (by rw [hl.1]; simp) (by simp)

/-- What the links lead to from the start of a list is in the list. -/
theorem Chain.mem_of_seg (hl : h.Chain p l) (hm : h.Seg p m (some a)) : a ∈ addrs l := by
  induction m generalizing p l with
  | nil =>
    obtain rfl : p = some a := hm
    cases l with
    | nil => exact absurd (show some a = none from hl) (by simp)
    | cons x l =>
      rw [Option.some.inj hl.1]
      exact List.mem_cons_self
  | cons y m ih =>
    obtain ⟨rfl, sig, hy, hrest⟩ := hm
    cases l with
    | nil => exact absurd (show some y.1 = none from hl) (by simp)
    | cons x l =>
      obtain ⟨hxy, sig', hx, hl⟩ := hl
      rw [← Option.some.inj hxy, hy] at hx
      obtain rfl := (Cell.mk.inj (Option.some.inj hx)).2
      exact List.mem_cons_of_mem _ (ih hl hrest)

/-- The link of the last node, replaced. -/
theorem Seg.relink (hseg : h.Seg p (l ++ [(a, v)]) q) (ha : a ∉ addrs l) (r : Option ℕ) :
    Seg (Function.update h a (some ⟨v, r⟩)) p (l ++ [(a, v)]) r :=
  seg_concat.mpr ⟨(seg_concat.mp hseg).1.update ha _, Function.update_self a _ h⟩

/-- A node in front of a list. -/
theorem Chain.push (hl : h.Chain p l) (ha : a ∉ addrs l) (v : α) :
    Chain (Function.update h a (some ⟨v, p⟩)) (some a) ((a, v) :: l) :=
  ⟨rfl, p, Function.update_self a _ h, hl.update ha _⟩

/-- The value of a node, replaced. -/
theorem Chain.setVal (hl : h.Chain p (l ++ (a, v) :: m)) (w : α) :
    ∃ h', h.setVal a w = some h' ∧ h'.Chain p (l ++ (a, w) :: m) ∧ ∀ b ≠ a, h' b = h b := by
  have hnodup := hl.nodup
  rw [addrs_append, addrs_cons, List.nodup_middle, List.nodup_cons, List.mem_append, not_or]
    at hnodup
  obtain ⟨r, hfront, rfl, sig, ha, hback⟩ := seg_append.mp hl
  refine ⟨Function.update h a (some ⟨w, sig⟩), setVal_of_cell ha w, ?_,
    fun b hb => Function.update_of_ne hb _ h⟩
  exact seg_append.mpr ⟨some a, hfront.update hnodup.1.1 _, rfl, sig,
    Function.update_self a _ h, hback.update hnodup.1.2 _⟩

end Seg

/-! ## Unlinking -/

/-- A node behind `prev` taken out of the list: `head` or the link of `prev` is
set to `next`. -/
def unlink (head prev next : Option ℕ) (h : Heap α) : Option (Heap α × Option ℕ) :=
  match prev with
  | none => some (h, next)
  | some q => (h.setSig q next).map (·, head)

/-- **What unlinking does**: the nodes in front lead to the one behind. -/
theorem unlink_spec {h : Heap α} {head : Option ℕ} {kept : List (ℕ × α)} {a : ℕ}
    (next : Option ℕ) (hkept : h.Seg head kept (some a)) (hnodup : (addrs kept).Nodup) :
    ∃ h' head', unlink head (last kept) next h = some (h', head')
      ∧ h'.Seg head' kept next ∧ ∀ b, last kept ≠ some b → h' b = h b := by
  rcases eq_nil_or_concat kept with rfl | ⟨m, b, w, rfl⟩
  · exact ⟨h, next, rfl, rfl, fun _ _ => rfl⟩
  · have hb : b ∉ addrs m := by
      rw [addrs_append, addrs_cons, addrs_nil, List.nodup_append] at hnodup
      exact fun hmem => hnodup.2.2 b hmem b List.mem_cons_self rfl
    have hcell := (seg_concat.mp hkept).2
    refine ⟨Function.update h b (some ⟨w, next⟩), head, ?_, hkept.relink hb next, fun c hc => ?_⟩
    · rw [last_concat]
      show (h.setSig b next).map _ = _
      rw [setSig_of_cell hcell]
      rfl
    · rw [last_concat] at hc
      exact Function.update_of_ne (fun heq => hc (congrArg some heq.symm)) _ h

/-- **The loop that unlinks and frees**: `prev` and `curr` walk the list, and `act`
follows the nodes that go. `none` is an access to what is not allocated, or a
list that is longer than the rounds. -/
def sweep (sel : α → Bool) (act : γ → Option ℕ → ℕ → α → γ) :
    ℕ → Heap α → Option ℕ → Option ℕ → Option ℕ → γ → Option (Heap α × Option ℕ × γ)
  | _, h, head, _, none, g => some (h, head, g)
  | 0, _, _, _, some _, _ => none
  | n + 1, h, head, prev, some curr, g => do
    let c ← h curr
    if sel c.val then
      let (h, head) ← h.unlink head prev c.sig
      let h ← h.free curr
      sweep sel act n h head prev c.sig (act g prev curr c.val)
    else sweep sel act n h head (some curr) c.sig g

/-- **The loop filters the list.** The nodes the test selects are freed, the others
stay in order, no other cell changes, and an invariant between the nodes passed,
the nodes ahead and the value kept on the way holds at the end. -/
theorem sweep_spec {sel : α → Bool} {act : γ → Option ℕ → ℕ → α → γ}
    {I : List (ℕ × α) → List (ℕ × α) → γ → Prop}
    (hdel : ∀ kept a v rest g, (addrs (kept ++ (a, v) :: rest)).Nodup → sel v = true →
      I kept ((a, v) :: rest) g → I kept rest (act g (last kept) a v))
    (hkeep : ∀ kept a v rest g, sel v = false →
      I kept ((a, v) :: rest) g → I (kept ++ [(a, v)]) rest g)
    {n : ℕ} {h : Heap α} {head curr : Option ℕ} {kept rest : List (ℕ × α)} {g : γ}
    (hkept : h.Seg head kept curr) (hrest : h.Chain curr rest) (hn : rest.length ≤ n)
    (hI : I kept rest g) :
    ∃ h' head' g', sweep sel act n h head (last kept) curr g = some (h', head', g')
      ∧ h'.Chain head' (kept ++ rest.filter (fun x => !sel x.2))
      ∧ I (kept ++ rest.filter (fun x => !sel x.2)) [] g'
      ∧ (∀ x ∈ rest, sel x.2 = true → h' x.1 = none)
      ∧ ∀ a ∉ addrs (kept ++ rest), h' a = h a := by
  induction rest generalizing n h head curr kept g with
  | nil =>
    obtain rfl : curr = none := hrest
    have hreturn : sweep sel act n h head (last kept) none g = some (h, head, g) := by
      cases n <;> rfl
    refine ⟨h, head, g, hreturn, ?_, ?_, by simp, fun _ _ => rfl⟩
    · rwa [List.filter_nil, List.append_nil]
    · rwa [List.filter_nil, List.append_nil]
  | cons x rest ih =>
    obtain ⟨a, v⟩ := x
    have hwhole : h.Chain head (kept ++ (a, v) :: rest) := seg_append.mpr ⟨curr, hkept, hrest⟩
    have hnodup := hwhole.nodup
    obtain ⟨rfl, next, ha, hnext⟩ := hrest
    obtain ⟨n, rfl⟩ : ∃ m, n = m + 1 := ⟨n - 1, by simp at hn; omega⟩
    have hn : rest.length ≤ n := by simpa using hn
    cases hsel : sel v with
    | true =>
      rw [addrs_append, addrs_cons, List.nodup_middle, List.nodup_cons, List.mem_append, not_or,
        List.nodup_append] at hnodup
      obtain ⟨⟨hakept, harest⟩, hndkept, -, hdisjoint⟩ := hnodup
      obtain ⟨h₁, head₁, hunlink, hseg₁, hsame₁⟩ := unlink_spec next hkept hndkept
      have hlast : ∀ b, b ∉ addrs kept → h₁ b = h b :=
        fun b hb => hsame₁ b (fun h => hb (mem_addrs_of_last h))
      have hfree : h₁.free a = some (Function.update h₁ a none) :=
        free_of_cell ((hlast a hakept).trans ha)
      have hround : sweep sel act (n + 1) h head (last kept) (some a) g
          = sweep sel act n (Function.update h₁ a none) head₁ (last kept) next
            (act g (last kept) a v) := by
        simp [sweep, ha, hsel, hunlink, hfree]
      have hnext : Chain (Function.update h₁ a none) next rest := by
        refine Seg.update (hnext.congr (fun b hb => hlast b (fun hbkept => ?_))) harest none
        exact hdisjoint b hbkept b hb rfl
      obtain ⟨h', head', g', hsweep, hchain, hI', hfreed, hframe⟩ := ih
        (hseg₁.update hakept none) hnext hn (hdel kept a v rest g hwhole.nodup hsel hI)
      refine ⟨h', head', g', hround.trans hsweep, ?_, ?_, ?_, fun b hb => ?_⟩
      · simpa [hsel] using hchain
      · simpa [hsel] using hI'
      · refine List.forall_mem_cons.mpr ⟨fun _ => ?_, hfreed⟩
        rw [hframe a (by rw [addrs_append, List.mem_append]; exact not_or.mpr ⟨hakept, harest⟩)]
        exact Function.update_self a none h₁
      · rw [addrs_append, addrs_cons, List.mem_append, List.mem_cons, not_or, not_or] at hb
        obtain ⟨hbkept, hba, hbrest⟩ := hb
        rw [hframe b (by rw [addrs_append, List.mem_append]; exact not_or.mpr ⟨hbkept, hbrest⟩),
          Function.update_of_ne hba, hlast b hbkept]
    | false =>
      have hround : sweep sel act (n + 1) h head (last kept) (some a) g
          = sweep sel act n h head (last (kept ++ [(a, v)])) next g := by
        simp [sweep, ha, hsel]
      obtain ⟨h', head', g', hsweep, hchain, hI', hfreed, hframe⟩ := ih
        (seg_concat.mpr ⟨hkept, ha⟩) hnext hn (hkeep kept a v rest g hsel hI)
      rw [List.append_assoc] at hchain hI' hframe
      refine ⟨h', head', g', hround.trans hsweep, ?_, ?_, ?_, hframe⟩
      · simpa [hsel] using hchain
      · simpa [hsel] using hI'
      · exact List.forall_mem_cons.mpr ⟨fun h => absurd (hsel.symm.trans h) (by simp), hfreed⟩

/-- **The loop over a whole list.** -/
theorem sweep_chain (sel : α → Bool) (act : γ → Option ℕ → ℕ → α → γ)
    {I : List (ℕ × α) → List (ℕ × α) → γ → Prop}
    (hdel : ∀ kept a v rest g, (addrs (kept ++ (a, v) :: rest)).Nodup → sel v = true →
      I kept ((a, v) :: rest) g → I kept rest (act g (last kept) a v))
    (hkeep : ∀ kept a v rest g, sel v = false →
      I kept ((a, v) :: rest) g → I (kept ++ [(a, v)]) rest g)
    {n : ℕ} {h : Heap α} {head : Option ℕ} {l : List (ℕ × α)} {g : γ} (hl : h.Chain head l)
    (hn : l.length ≤ n) (hI : I [] l g) :
    ∃ h' head' g', sweep sel act n h head none head g = some (h', head', g')
      ∧ h'.Chain head' (l.filter (fun x => !sel x.2))
      ∧ I (l.filter (fun x => !sel x.2)) [] g'
      ∧ (∀ x ∈ l, sel x.2 = true → h' x.1 = none)
      ∧ ∀ a ∉ addrs l, h' a = h a :=
  sweep_spec hdel hkeep (show h.Seg head [] head from rfl) hl hn hI

/-! ## Searching -/

/-- The loop that walks a list to the first node a test selects. -/
def search (sel : α → Bool) : ℕ → Heap α → Option ℕ → Option (Option ℕ)
  | _, _, none => some none
  | 0, _, some _ => none
  | n + 1, h, some curr => do
    let c ← h curr
    if sel c.val then some (some curr) else search sel n h c.sig

/-- **The loop finds the first node that is selected**, if any is. -/
theorem search_spec (sel : α → Bool) {n : ℕ} {h : Heap α} {p : Option ℕ} {l : List (ℕ × α)}
    (hl : h.Chain p l) (hn : l.length ≤ n) :
    search sel n h p = some ((l.find? (fun x => sel x.2)).map Prod.fst) := by
  induction l generalizing n p with
  | nil =>
    obtain rfl : p = none := hl
    cases n <;> rfl
  | cons x l ih =>
    obtain ⟨rfl, next, hx, hnext⟩ := hl
    obtain ⟨n, rfl⟩ : ∃ m, n = m + 1 := ⟨n - 1, by simp at hn; omega⟩
    cases hsel : sel x.2 with
    | true => simp [search, hx, hsel]
    | false => simp [search, hx, hsel, ih hnext (by simpa using hn)]

/-! ## Several lists -/

/-- **An array of lists** that share no node. -/
structure Lists (h : Heap α) (heads : ℕ → Option ℕ) (L : ℕ → List (ℕ × α)) : Prop where
  chain : ∀ i, h.Chain (heads i) (L i)
  disjoint : ∀ i j, i ≠ j → ∀ a ∈ addrs (L i), a ∉ addrs (L j)

/-- **One list replaced**, by one of its own nodes and new ones. -/
theorem Lists.replace {h h' : Heap α} {heads : ℕ → Option ℕ} {L : ℕ → List (ℕ × α)}
    (hL : h.Lists heads L) {i : ℕ} {p : Option ℕ} {l : List (ℕ × α)} (hl : h'.Chain p l)
    (hmem : ∀ a ∈ addrs l, a ∈ addrs (L i) ∨ h a = none)
    (hframe : ∀ a ∉ addrs (L i), h a ≠ none → h' a = h a) :
    h'.Lists (Function.update heads i p) (Function.update L i l) := by
  have hcell : ∀ j, ∀ a ∈ addrs (L j), h a ≠ none := by
    intro j a ha
    obtain ⟨⟨a, v⟩, hx, rfl⟩ := List.mem_map.mp ha
    obtain ⟨sig, hsig⟩ := (hL.chain j).cell hx
    simp [hsig]
  have hother : ∀ j, j ≠ i → ∀ a ∈ addrs (L j), a ∉ addrs l := by
    intro j hj a ha hal
    rcases hmem a hal with hai | hnone
    · exact hL.disjoint j i hj a ha hai
    · exact hcell j a ha hnone
  constructor
  · intro j
    by_cases hj : j = i
    · rw [hj, Function.update_self, Function.update_self]
      exact hl
    · rw [Function.update_of_ne hj, Function.update_of_ne hj]
      exact (hL.chain j).congr (fun a ha => hframe a (hL.disjoint j i hj a ha) (hcell j a ha))
  · intro j k hjk a ha
    by_cases hj : j = i
    · rw [hj, Function.update_self] at ha
      rw [Function.update_of_ne (hj ▸ hjk.symm)]
      exact fun hk => hother k (hj ▸ hjk.symm) a hk ha
    · rw [Function.update_of_ne hj] at ha
      by_cases hk : k = i
      · rw [hk, Function.update_self]
        exact hother j hj a ha
      · rw [Function.update_of_ne hk]
        exact hL.disjoint j k hjk a ha

end Heap
