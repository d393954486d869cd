import HpcAgent.Lib.Reaches

/-!
# Systems of components

Several copies of a system, of which one moves at a time. What a component does
in a run of the whole is a run of its own (`Reaches.component`).
-/

variable {ι σ α : Type} [DecidableEq ι] {move : σ → α → Option σ}

namespace Async

/-- One component moves, the others stay. -/
def step (move : σ → α → Option σ) (x : ι → σ) (a : ι × α) : Option (ι → σ) :=
  (move (x a.1) a.2).map (Function.update x a.1)

variable {x y : ι → σ} {a : ι × α}

theorem step_eq_some :
    step move x a = some y ↔ ∃ s, move (x a.1) a.2 = some s ∧ y = Function.update x a.1 s := by
  unfold step
  rw [Option.map_eq_some_iff]
  exact exists_congr (fun s => and_congr_right (fun _ => eq_comm))

/-- The component that moves. -/
theorem step_self (h : step move x a = some y) : move (x a.1) a.2 = some (y a.1) := by
  obtain ⟨s, hs, rfl⟩ := step_eq_some.mp h
  rw [hs, Function.update_self]

/-- The others stay. -/
theorem step_of_ne (h : step move x a = some y) {i : ι} (hi : i ≠ a.1) : y i = x i := by
  obtain ⟨s, -, rfl⟩ := step_eq_some.mp h
  exact Function.update_of_ne hi s x

end Async

/-- **A run of the whole is a run of each component.** -/
theorem Reaches.component {ok : (ι → σ) → ι × α → Prop} {ok' : σ → α → Prop} {x y : ι → σ}
    (h : Reaches (Async.step move) ok x y) {i : ι}
    (himp : ∀ u a, ok u (i, a) → ok' (u i) a) : Reaches move ok' (x i) (y i) := by
  induction h with
  | refl => exact .refl _
  | @tail u v _ hlast ih =>
    obtain ⟨⟨j, a⟩, ha, hstep⟩ := hlast
    by_cases hij : i = j
    · subst hij
      exact ih.tail (himp u a ha) (Async.step_self hstep)
    · rw [Async.step_of_ne hstep hij]
      exact ih
