import Mathlib

/-!
# Channels

What was sent and what was received, as two lists of messages with the channel
each went over. The channels keep the order and lose nothing: on each, what was
received is an initial part of what was sent (`Delivered`). So, channels aside,
nothing was received more often than it was sent (`Delivered.le`), and where
nothing is on its way the two lists have the same messages (`Quiet.coe_eq`).
-/

namespace Channels

variable {κ μ : Type} [DecidableEq κ] {sent recv more : List (κ × μ)} {k : κ} {m : μ}

/-- The messages of one channel, in order. -/
def on (k : κ) (l : List (κ × μ)) : List μ := (l.filter (fun x => x.1 = k)).map (·.2)

/-- **In order and without loss.** -/
def Delivered (sent recv : List (κ × μ)) : Prop := ∀ k, on k recv <+: on k sent

/-- The message is the next one on the channel. -/
def Next (sent recv : List (κ × μ)) (k : κ) (m : μ) : Prop := on k recv ++ [m] <+: on k sent

instance [DecidableEq μ] : Decidable (Next sent recv k m) :=
  inferInstanceAs (Decidable (_ <+: _))

/-- Nothing is on its way. -/
def Quiet (sent recv : List (κ × μ)) : Prop := ∀ k, on k recv = on k sent

@[simp] theorem on_nil (k : κ) : on k ([] : List (κ × μ)) = [] := rfl

@[simp] theorem on_append (k : κ) (l l' : List (κ × μ)) : on k (l ++ l') = on k l ++ on k l' := by
  unfold on
  rw [List.filter_append, List.map_append]

theorem on_singleton (k k' : κ) (m : μ) : on k [(k', m)] = if k' = k then [m] else [] := by
  unfold on
  by_cases h : k' = k
  · rw [if_pos h, List.filter_cons_of_pos (by simpa using h)]
    rfl
  · rw [if_neg h, List.filter_cons_of_neg (by simpa using h)]
    rfl

theorem mem_on : m ∈ on k sent ↔ (k, m) ∈ sent := by
  unfold on
  simp

/-- A message is counted on its channel. -/
theorem count_on [DecidableEq μ] (k : κ) (m : μ) (l : List (κ × μ)) :
    (l : Multiset (κ × μ)).count (k, m) = (on k l : Multiset μ).count m := by
  induction l with
  | nil => rfl
  | cons x l ih =>
    obtain ⟨k', m'⟩ := x
    rw [← List.singleton_append, on_append, ← Multiset.coe_add, ← Multiset.coe_add,
      Multiset.count_add, Multiset.count_add, ih, on_singleton]
    refine congrArg (· + _) ?_
    by_cases h : k' = k
    · subst h
      simp [Multiset.count_singleton]
    · rw [if_neg h]
      simp [Ne.symm h]

namespace Delivered

theorem nil (sent : List (κ × μ)) : Delivered sent [] := fun _ => List.nil_prefix

theorem mem (h : Delivered sent recv) (hm : (k, m) ∈ recv) : (k, m) ∈ sent :=
  mem_on.mp ((h k).subset (mem_on.mpr hm))

/-- More is sent. -/
theorem send (h : Delivered sent recv) (more : List (κ × μ)) : Delivered (sent ++ more) recv :=
  fun k => (h k).trans (by rw [on_append]; exact List.prefix_append _ _)

/-- **The next message is received.** -/
theorem receive (h : Delivered sent recv) (hnext : Next sent recv k m) :
    Delivered sent (recv ++ [(k, m)]) := by
  intro k'
  rw [on_append, on_singleton]
  split
  · next heq => exact heq ▸ hnext
  · rw [List.append_nil]
    exact h k'

/-- **Nothing is received more often than it was sent.** -/
theorem le (h : Delivered sent recv) : (recv : Multiset (κ × μ)) ≤ sent := by
  have _ := Classical.decEq μ
  refine Multiset.le_iff_count.mpr (fun ⟨k, m⟩ => ?_)
  rw [count_on, count_on]
  exact Multiset.count_le_of_le m (Multiset.coe_le.mpr (h k).sublist.subperm)

end Delivered

/-- A message on its way was sent once more than it was received. -/
theorem Next.le (h : Delivered sent recv) (hnext : Next sent recv k m) :
    (k, m) ::ₘ (recv : Multiset (κ × μ)) ≤ sent := by
  have hle := (h.receive hnext).le
  rwa [← Multiset.coe_add, Multiset.coe_singleton, Multiset.add_comm, Multiset.singleton_add] at hle

theorem Next.mem (hnext : Next sent recv k m) : (k, m) ∈ sent :=
  mem_on.mp (hnext.subset (List.mem_append_right _ (List.mem_singleton_self m)))

theorem Quiet.of_eq (h : recv = sent) : Quiet sent recv := fun k => congrArg (on k) h

/-- **Where nothing is on its way, what was received is what was sent.** -/
theorem Quiet.coe_eq (h : Quiet sent recv) : (recv : Multiset (κ × μ)) = sent := by
  have _ := Classical.decEq μ
  refine Multiset.ext.mpr (fun ⟨k, m⟩ => ?_)
  rw [count_on, count_on, h k]

end Channels
