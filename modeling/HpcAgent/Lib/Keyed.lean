import Mathlib

/-!
# Lists with a key

A list whose elements carry a key, and a list of distinct keys that has them
all: a sum over the elements is the sum, key by key, over the elements with
that key (`List.sum_map_filter_key`). With it the removal of one element, and
how it commutes with a selection.
-/

namespace List

variable {α κ M : Type}

/-- Distinct keys select one summand. -/
theorem sum_map_ite_key [DecidableEq κ] [AddCommMonoid M] {keys : List κ} (hnd : keys.Nodup)
    {k : κ} (hk : k ∈ keys) (x : M) : (keys.map (fun i => if k = i then x else 0)).sum = x := by
  induction keys with
  | nil => exact absurd hk not_mem_nil
  | cons i keys ih =>
    obtain ⟨hi, hnd⟩ := nodup_cons.mp hnd
    rw [map_cons, sum_cons]
    by_cases hki : k = i
    · have hrest : (keys.map (fun i => if k = i then x else 0)).sum = 0 := by
        refine sum_eq_zero (fun v hv => ?_)
        obtain ⟨i', hi', rfl⟩ := mem_map.mp hv
        refine if_neg (fun h => hi ?_)
        rwa [← hki, h]
      rw [if_pos hki, hrest, add_zero]
    · rw [if_neg hki, zero_add]
      exact ih hnd ((mem_cons.mp hk).resolve_left hki)

/-- **A sum, key by key.** -/
theorem sum_map_filter_key [DecidableEq κ] [AddCommMonoid M] (key : α → κ) (f : α → M)
    {keys : List κ} (hnd : keys.Nodup) {l : List α} (hl : ∀ a ∈ l, key a ∈ keys) :
    (l.map f).sum
      = (keys.map (fun i => ((l.filter (fun a => key a == i)).map f).sum)).sum := by
  induction l with
  | nil => simp
  | cons a l ih =>
    have hsplit : ∀ i, (((a :: l).filter (fun a => key a == i)).map f).sum
        = (if key a = i then f a else 0)
          + ((l.filter (fun a => key a == i)).map f).sum := by
      intro i
      by_cases hi : key a = i
      · rw [if_pos hi, filter_cons_of_pos (by simpa using hi), map_cons, sum_cons]
      · rw [if_neg hi, filter_cons_of_neg (by simpa using hi), zero_add]
    rw [map_cons, sum_cons, ih (fun b hb => hl b (mem_cons_of_mem a hb)),
      map_congr_left (fun i _ => hsplit i), sum_map_add,
      sum_map_ite_key hnd (hl a mem_cons_self)]

/-- What is removed and what is selected have nothing in common. -/
theorem filter_eraseP_of_disjoint {p q : α → Bool} (h : ∀ a, p a = true → q a = false)
    (l : List α) : (l.eraseP p).filter q = l.filter q := by
  induction l with
  | nil => rfl
  | cons a l ih =>
    by_cases hp : p a = true
    · rw [eraseP_cons_of_pos hp, filter_cons_of_neg (by simp [h a hp])]
    · rw [eraseP_cons_of_neg hp, filter_cons, filter_cons, ih]

/-- What is removed of a selection is one of the selected. -/
theorem filter_erase_of_not [DecidableEq α] {q : α → Bool} {a : α} (ha : q a = false)
    (l : List α) : (l.erase a).filter q = l.filter q := by
  rw [← erase_filter, erase_of_not_mem (fun hmem => ?_)]
  rw [(mem_filter.mp hmem).2] at ha
  exact Bool.noConfusion ha

/-- A removal splits the list at the element removed. -/
theorem sum_map_eraseP [AddCommGroup M] (f : α → M) {p : α → Bool} {l : List α} {a : α}
    (hfind : l.find? p = some a) :
    ((l.eraseP p).map f).sum = (l.map f).sum - f a := by
  induction l with
  | nil => exact absurd hfind (by simp)
  | cons b l ih =>
    by_cases hb : p b = true
    · rw [find?_cons_of_pos hb] at hfind
      obtain rfl := Option.some.inj hfind
      rw [eraseP_cons_of_pos hb, map_cons, sum_cons]
      abel
    · rw [find?_cons_of_neg hb] at hfind
      rw [eraseP_cons_of_neg hb, map_cons, sum_cons, ih hfind, map_cons, sum_cons]
      abel

theorem sum_map_erase' [DecidableEq α] [AddCommGroup M] (f : α → M) {l : List α} {a : α}
    (ha : a ∈ l) : ((l.erase a).map f).sum = (l.map f).sum - f a := by
  rw [← sum_map_erase f ha]
  abel

end List
