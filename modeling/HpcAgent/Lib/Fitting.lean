import Mathlib

/-!
# The longest prefix that fits

A queue of costs served first come, first served from a budget: the requests
are taken from the front as long as the head fits what is left, and the first
one that does not fit stops the service. `fitting` is the part served and
`leftover` what is left of the budget. What is served is a prefix of the queue
(`fitting_prefix_of`) that costs no more than the budget (`sum_fitting_le`), and
with costs that are not negative it is the longest one (`prefix_fitting`).
-/

variable {M β : Type} [LE M] [DecidableLE M] [Sub M] (cost : β → M)

/-- The requests served from the budget `d`, in order. -/
def fitting : M → List β → List β
  | _, [] => []
  | d, p :: q => if cost p ≤ d then p :: fitting (d - cost p) q else []

/-- The budget left when the service stops. -/
def leftover : M → List β → M
  | d, [] => d
  | d, p :: q => if cost p ≤ d then leftover (d - cost p) q else d

@[simp] theorem fitting_nil (d : M) : fitting cost d [] = [] := rfl

variable {cost}

theorem fitting_cons_of_le {d : M} {p : β} {q : List β} (h : cost p ≤ d) :
    fitting cost d (p :: q) = p :: fitting cost (d - cost p) q := by
  rw [fitting, if_pos h]

theorem fitting_cons_of_not_le {d : M} {p : β} {q : List β} (h : ¬cost p ≤ d) :
    fitting cost d (p :: q) = [] := by
  rw [fitting, if_neg h]

/-- **What is served is a prefix of the queue.** -/
theorem fitting_prefix_of (d : M) (q : List β) : fitting cost d q <+: q := by
  induction q generalizing d with
  | nil => exact List.prefix_rfl
  | cons p q ih =>
    by_cases h : cost p ≤ d
    · rw [fitting_cons_of_le h]
      exact (List.prefix_cons_inj p).mpr (ih _)
    · rw [fitting_cons_of_not_le h]
      exact List.nil_prefix

/-- What is left is the budget, each cost taken off in turn. -/
theorem leftover_eq_foldl (d : M) (q : List β) :
    leftover cost d q = (fitting cost d q).foldl (fun d p => d - cost p) d := by
  induction q generalizing d with
  | nil => rfl
  | cons p q ih =>
    rw [leftover, fitting]
    split
    · rw [ih, List.foldl_cons]
    · rfl

/-- **Two queues with a common prefix** that nothing served goes beyond are served
alike. -/
theorem fitting_append_eq {l q r : List β} {d : M} (hq : fitting cost d (l ++ q) <+: l)
    (hr : fitting cost d (l ++ r) <+: l) :
    fitting cost d (l ++ q) = fitting cost d (l ++ r) := by
  induction l generalizing d with
  | nil => rw [List.prefix_nil.mp hq, List.prefix_nil.mp hr]
  | cons p l ih =>
    rw [List.cons_append] at hq hr
    rw [List.cons_append, List.cons_append]
    by_cases hp : cost p ≤ d
    · rw [fitting_cons_of_le hp] at hq hr
      rw [fitting_cons_of_le hp, fitting_cons_of_le hp,
        ih ((List.prefix_cons_inj p).mp hq) ((List.prefix_cons_inj p).mp hr)]
    · rw [fitting_cons_of_not_le hp, fitting_cons_of_not_le hp]

/-- What is served is served whole, when it comes alone. -/
theorem fitting_fitting (d : M) (q : List β) :
    fitting cost d (fitting cost d q) = fitting cost d q := by
  induction q generalizing d with
  | nil => rfl
  | cons p q ih =>
    by_cases hp : cost p ≤ d
    · rw [fitting_cons_of_le hp, fitting_cons_of_le hp, ih]
    · rw [fitting_cons_of_not_le hp, fitting_nil]

section Ordered

variable {M : Type} [AddCommGroup M] [LinearOrder M] [IsOrderedAddMonoid M] {cost : β → M}

/-- **What is served fits the budget.** -/
theorem sum_fitting_le {d : M} {q : List β} (h : fitting cost d q ≠ []) :
    ((fitting cost d q).map cost).sum ≤ d := by
  induction q generalizing d with
  | nil => exact absurd rfl h
  | cons p q ih =>
    by_cases hp : cost p ≤ d
    · rw [fitting_cons_of_le hp, List.map_cons, List.sum_cons]
      by_cases hnil : fitting cost (d - cost p) q = []
      · rw [hnil, List.map_nil, List.sum_nil, add_zero]
        exact hp
      · exact le_sub_iff_add_le'.mp (ih hnil)
    · exact absurd (fitting_cons_of_not_le hp) h

/-- **No longer prefix does.** -/
theorem prefix_fitting {d : M} {q l : List β} (hcost : ∀ p ∈ q, 0 ≤ cost p) (hl : l <+: q)
    (hne : l ≠ []) (hsum : (l.map cost).sum ≤ d) : l <+: fitting cost d q := by
  induction q generalizing d l with
  | nil => exact absurd (List.prefix_nil.mp hl) hne
  | cons p q ih =>
    cases l with
    | nil => exact absurd rfl hne
    | cons r l =>
      obtain ⟨rfl, htail⟩ := List.cons_prefix_cons.mp hl
      rw [List.map_cons, List.sum_cons] at hsum
      have hrest : 0 ≤ (l.map cost).sum := by
        refine List.sum_nonneg (fun x hx => ?_)
        obtain ⟨a, ha, rfl⟩ := List.mem_map.mp hx
        exact hcost a (List.mem_cons_of_mem _ (htail.subset ha))
      have hhead : cost r ≤ d := (le_add_of_nonneg_right hrest).trans hsum
      rw [fitting_cons_of_le hhead]
      refine List.cons_prefix_cons.mpr ⟨rfl, ?_⟩
      by_cases hnil : l = []
      · rw [hnil]
        exact List.nil_prefix
      · exact ih (fun a ha => hcost a (List.mem_cons_of_mem _ ha)) htail hnil
          (le_sub_iff_add_le'.mpr hsum)

omit [IsOrderedAddMonoid M] in
/-- **What is served whole is served first**, and the rest from what is left. -/
theorem fitting_append_of_eq {d : M} {l : List β} (h : fitting cost d l = l) (q : List β) :
    fitting cost d (l ++ q) = l ++ fitting cost (d - (l.map cost).sum) q := by
  induction l generalizing d with
  | nil => simp
  | cons p l ih =>
    by_cases hp : cost p ≤ d
    · rw [fitting_cons_of_le hp] at h
      rw [List.cons_append, fitting_cons_of_le hp, ih (List.cons.inj h).2, List.map_cons,
        List.sum_cons, sub_sub, List.cons_append]
    · rw [fitting_cons_of_not_le hp] at h
      exact absurd h.symm (List.cons_ne_nil p l)

/-- A larger budget serves it too. -/
theorem fitting_eq_of_le {d d' : M} {l : List β} (h : fitting cost d l = l) (hle : d ≤ d') :
    fitting cost d' l = l := by
  induction l generalizing d d' with
  | nil => rfl
  | cons p l ih =>
    by_cases hp : cost p ≤ d
    · rw [fitting_cons_of_le hp] at h
      rw [fitting_cons_of_le (hp.trans hle), ih (List.cons.inj h).2 (sub_le_sub_right hle _)]
    · rw [fitting_cons_of_not_le hp] at h
      exact absurd h.symm (List.cons_ne_nil p l)

end Ordered
