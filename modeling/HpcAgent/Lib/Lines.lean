import Mathlib

/-!
# Lines of a stream

A stream is cut at every separator: `Lines.complete` is what stands before
one, `Lines.rest` what follows the last. Both are read off `List.splitOn`. A
stream that arrives in two parts is cut as its second part behind the rest of
its first (`Lines.complete_append`, `Lines.rest_append`), which is what a
reader that keeps the rest between two reads relies on. A stream that is made of
lines (`Lines.join`) is cut into those lines, wherever it stops
(`Lines.complete_of_prefix`).
-/

namespace Lines

variable {α : Type} [DecidableEq α] (sep : α)

/-- The lines that have ended, without their separators. -/
def complete (l : List α) : List (List α) := (l.splitOn sep).dropLast

/-- What follows the last separator. -/
def rest (l : List α) : List α := (l.splitOn sep).getLast (List.splitOn_ne_nil sep l)

/-- The pieces of a stream are its complete lines and its rest. -/
theorem splitOn_eq (l : List α) : l.splitOn sep = complete sep l ++ [rest sep l] :=
  (List.dropLast_append_getLast _).symm

theorem rest_mem_splitOn (l : List α) : rest sep l ∈ l.splitOn sep := List.getLast_mem _

variable {sep}

theorem complete_of_not_mem {w : List α} (h : sep ∉ w) : complete sep w = [] := by
  unfold complete
  rw [List.splitOn_eq_singleton h]
  rfl

theorem rest_of_not_mem {w : List α} (h : sep ∉ w) : rest sep w = w := by
  unfold rest
  simp only [List.splitOn_eq_singleton h, List.getLast_singleton]

/-- A line that ends is the first of the complete ones. -/
theorem complete_line {w : List α} (h : sep ∉ w) (l : List α) :
    complete sep (w ++ sep :: l) = w :: complete sep l := by
  unfold complete
  rw [List.splitOn_append_cons_self, List.splitOn_eq_singleton h, List.singleton_append,
    List.dropLast_cons_of_ne_nil (List.splitOn_ne_nil sep l)]

theorem rest_line (w l : List α) : rest sep (w ++ sep :: l) = rest sep l := by
  unfold rest
  simp only [List.splitOn_append_cons_self]
  exact List.getLast_append_right (List.splitOn_ne_nil sep l)

/-- **Induction over the lines** of a stream: a rest without separator, or a
line in front of a stream. -/
theorem induction (sep : α) {P : List α → Prop} (rest : ∀ w, sep ∉ w → P w)
    (line : ∀ w l, sep ∉ w → P l → P (w ++ sep :: l)) (l : List α) : P l := by
  induction hn : l.length using Nat.strong_induction_on generalizing l with
  | _ n ih =>
    by_cases h : sep ∈ l
    · obtain ⟨w, m, rfl, hw⟩ := List.eq_append_cons_of_mem h
      refine line w m hw (ih m.length ?_ m rfl)
      rw [← hn, List.length_append, List.length_cons]
      omega
    · exact rest l h

theorem mem_of_mem_rest {l : List α} {x : α} (h : x ∈ rest sep l) : x ∈ l := by
  induction l using induction sep with
  | rest w hw => rwa [rest_of_not_mem hw] at h
  | line w l hw ih =>
    rw [rest_line] at h
    exact List.mem_append_right _ (List.mem_cons_of_mem _ (ih h))

/-- **A stream in two parts**: the lines of the first, then those of the second
behind what the first left. -/
theorem complete_append (l m : List α) :
    complete sep (l ++ m) = complete sep l ++ complete sep (rest sep l ++ m) := by
  induction l using induction sep with
  | rest w h => rw [complete_of_not_mem h, rest_of_not_mem h, List.nil_append]
  | line w l h ih =>
    rw [List.append_assoc, List.cons_append, complete_line h, complete_line h, rest_line, ih,
      List.cons_append]

theorem rest_append (l m : List α) : rest sep (l ++ m) = rest sep (rest sep l ++ m) := by
  induction l using induction sep with
  | rest w h => rw [rest_of_not_mem h]
  | line w l h ih => rw [List.append_assoc, List.cons_append, rest_line, rest_line, ih]

/-! ## A stream of lines -/

/-- The stream of some lines, each with its separator behind it. -/
def join (sep : α) (ws : List (List α)) : List α := (ws.map (· ++ [sep])).flatten

omit [DecidableEq α] in
theorem join_cons (w : List α) (ws : List (List α)) :
    join sep (w :: ws) = w ++ sep :: join sep ws := by
  unfold join
  rw [List.map_cons, List.flatten_cons, List.append_assoc, List.singleton_append]

omit [DecidableEq α] in
theorem join_append (ws vs : List (List α)) : join sep (ws ++ vs) = join sep ws ++ join sep vs := by
  unfold join
  rw [List.map_append, List.flatten_append]

/-- **All of it is cut into the lines.** -/
theorem complete_join {ws : List (List α)} (hws : ∀ w ∈ ws, sep ∉ w) :
    complete sep (join sep ws) = ws := by
  induction ws with
  | nil => exact complete_of_not_mem List.not_mem_nil
  | cons w ws ih =>
    rw [join_cons, complete_line (hws w List.mem_cons_self),
      ih (fun v hv => hws v (List.mem_cons_of_mem w hv))]

/-- **A part of it is cut into the first lines**, and what is left over is where the
next one begins. -/
theorem complete_of_prefix {ws : List (List α)} (hws : ∀ w ∈ ws, sep ∉ w) {l : List α}
    (hl : l <+: join sep ws) :
    complete sep l <+: ws ∧ ∃ w ∈ [] :: ws, rest sep l <+: w := by
  induction ws generalizing l with
  | nil =>
    obtain rfl : l = [] := List.prefix_nil.mp hl
    rw [complete_of_not_mem List.not_mem_nil, rest_of_not_mem List.not_mem_nil]
    exact ⟨List.prefix_refl [], [], List.mem_cons_self, List.prefix_refl []⟩
  | cons w ws ih =>
    have hw : sep ∉ w := hws w List.mem_cons_self
    have hfirst : w ++ [sep] <+: join sep (w :: ws) :=
      ⟨join sep ws, by rw [join_cons, List.append_assoc, List.singleton_append]⟩
    have hinside : l <+: w → complete sep l <+: w :: ws ∧ ∃ v ∈ [] :: w :: ws, rest sep l <+: v := by
      intro hlw
      have hnot : sep ∉ l := fun h => hw (hlw.subset h)
      rw [complete_of_not_mem hnot, rest_of_not_mem hnot]
      exact ⟨List.nil_prefix, w, List.mem_cons_of_mem _ List.mem_cons_self, hlw⟩
    rcases List.prefix_or_prefix_of_prefix hl hfirst with h | ⟨l, rfl⟩
    · rcases List.prefix_concat_iff.mp h with rfl | h
      · rw [complete_line hw, rest_line, complete_of_not_mem List.not_mem_nil,
          rest_of_not_mem List.not_mem_nil]
        exact ⟨(List.prefix_cons_inj w).mpr List.nil_prefix, [], List.mem_cons_self,
          List.prefix_refl []⟩
      · exact hinside h
    · rw [List.append_assoc, List.singleton_append] at hl ⊢
      rw [join_cons, List.prefix_append_right_inj, List.prefix_cons_inj] at hl
      obtain ⟨hcomplete, v, hv, hrest⟩ := ih (fun v hv => hws v (List.mem_cons_of_mem w hv)) hl
      rw [complete_line hw, rest_line]
      refine ⟨(List.prefix_cons_inj w).mpr hcomplete, v, ?_, hrest⟩
      rcases List.mem_cons.mp hv with rfl | hv
      · exact List.mem_cons_self
      · exact List.mem_cons_of_mem _ (List.mem_cons_of_mem w hv)

/-- No piece of a part of it is longer than a line. -/
theorem length_le_of_prefix {ws : List (List α)} (hws : ∀ w ∈ ws, sep ∉ w) {n : ℕ}
    (hlen : ∀ w ∈ ws, w.length ≤ n) {l : List α} (hl : l <+: join sep ws) :
    ∀ piece ∈ l.splitOn sep, piece.length ≤ n := by
  obtain ⟨hcomplete, w, hw, hrest⟩ := complete_of_prefix hws hl
  intro piece hpiece
  rw [splitOn_eq, List.mem_append, List.mem_singleton] at hpiece
  rcases hpiece with hpiece | rfl
  · exact hlen piece (hcomplete.subset hpiece)
  · rcases List.mem_cons.mp hw with rfl | hw
    · exact hrest.length_le.trans (Nat.zero_le n)
    · exact hrest.length_le.trans (hlen w hw)

end Lines
