import Mathlib

/-!
# Runs under a guard

A system is a partial step function over a type of actions, and a guard says
which actions its environment may take in which state. `Reaches step ok s t`
is the existence of a run from `s` to `t` all of whose actions the guard
allows. `Reaches.invariant` is the induction over runs, stated once: what the
start satisfies and every allowed step preserves, every reachable state
satisfies. `Reaches.of_checked` finds a run by evaluation.
-/

variable {σ α : Type} {step : σ → α → Option σ} {ok ok' : σ → α → Prop}

/-- **Reachability by allowed steps.** -/
def Reaches (step : σ → α → Option σ) (ok : σ → α → Prop) : σ → σ → Prop :=
  Relation.ReflTransGen (fun s t => ∃ a, ok s a ∧ step s a = some t)

namespace Reaches

theorem refl (s : σ) : Reaches step ok s s := Relation.ReflTransGen.refl

theorem tail {s t u : σ} {a : α} (h : Reaches step ok s t) (ha : ok t a)
    (hstep : step t a = some u) : Reaches step ok s u :=
  Relation.ReflTransGen.tail h ⟨a, ha, hstep⟩

/-- **The invariant rule.** -/
theorem invariant {I : σ → Prop} {s t : σ} (h : Reaches step ok s t) (init : I s)
    (preserved : ∀ u a v, I u → ok u a → step u a = some v → I v) : I t := by
  induction h with
  | refl => exact init
  | tail _ hlast ih =>
    obtain ⟨a, ha, hstep⟩ := hlast
    exact preserved _ a _ ih ha hstep

/-- A weaker guard allows more runs. -/
theorem mono {s t : σ} (h : Reaches step ok s t)
    (himp : ∀ u a, ok u a → ok' u a) : Reaches step ok' s t :=
  Relation.ReflTransGen.mono
    (fun _ _ ⟨a, ha, hstep⟩ => ⟨a, himp _ a ha, hstep⟩) _ _ h

/-- The state a list of actions leads to. -/
def trace (step : σ → α → Option σ) (s : σ) (as : List α) : Option σ :=
  as.foldlM step s

/-- The state a list of actions leads to, if a test passes all along. -/
def checked (step : σ → α → Option σ) (test : σ → α → Bool) : σ → List α → Option σ
  | s, [] => some s
  | s, a :: as => if test s a then (step s a).bind (checked step test · as) else none

/-- A checked list of actions is a run. -/
theorem trace_of_checked {test : σ → α → Bool} {s t : σ} {as : List α}
    (h : checked step test s as = some t) : trace step s as = some t := by
  induction as generalizing s with
  | nil => exact h
  | cons a as ih =>
    rw [checked] at h
    split at h
    · obtain ⟨u, hstep, hrest⟩ := Option.bind_eq_some_iff.mp h
      unfold trace
      rw [List.foldlM_cons, hstep]
      exact ih hrest
    · exact absurd h (by simp)

/-- The test passes for every action of a checked run, in the state it is taken. -/
theorem test_of_checked {test : σ → α → Bool} {s t : σ} {as : List α}
    (h : checked step test s as = some t) {before : List α} {a : α} {u : σ}
    (hbefore : before ++ [a] <+: as) (hu : trace step s before = some u) :
    test u a = true := by
  induction before generalizing s as with
  | nil =>
    obtain ⟨rest, rfl⟩ := hbefore
    obtain rfl := Option.some.inj hu
    rw [List.nil_append, List.singleton_append, checked] at h
    by_contra ha
    rw [if_neg ha] at h
    exact absurd h (by simp)
  | cons b before ih =>
    obtain ⟨rest, rfl⟩ := hbefore
    rw [List.cons_append, List.cons_append, checked] at h
    split at h
    · obtain ⟨v, hstep, hrest⟩ := Option.bind_eq_some_iff.mp h
      refine ih hrest (List.prefix_append _ _) ?_
      unfold trace at hu
      rw [List.foldlM_cons, hstep] at hu
      exact hu
    · exact absurd h (by simp)

/-- **A run by evaluation**: a list of actions whose test implies the guard. -/
theorem of_checked {test : σ → α → Bool} (htest : ∀ s a, test s a = true → ok s a)
    {p : σ → Bool} {s : σ} {as : List α} (h : (checked step test s as).any p = true) :
    ∃ t, trace step s as = some t ∧ Reaches step ok s t ∧ p t = true := by
  induction as generalizing s with
  | nil => exact ⟨s, rfl, refl s, h⟩
  | cons a as ih =>
    rw [checked] at h
    split at h
    · next ha =>
      cases hstep : step s a with
      | none =>
        rw [hstep] at h
        exact absurd h Bool.false_ne_true
      | some u =>
        rw [hstep] at h
        obtain ⟨t, htrace, hrun, hp⟩ := ih h
        refine ⟨t, ?_, Relation.ReflTransGen.head ⟨a, htest s a ha, hstep⟩ hrun, hp⟩
        unfold trace
        rw [List.foldlM_cons, hstep]
        exact htrace
    · exact absurd h Bool.false_ne_true

end Reaches
