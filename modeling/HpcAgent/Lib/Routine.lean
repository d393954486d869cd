import Mathlib

/-!
# Routines that take locks

A routine is a tree: what it does next, and how it goes on with what it reads. It
takes and releases mutexes of a type `μ`, reads and changes a state of a type `σ`
that it shares with other routines, and notes values of a type `ε` on the way.

Mutexes have ranks. `Routine.Safe` says that a routine takes them in the order of
their ranks, each at most once at a time, releases only what it holds, keeps an
invariant of the state, notes only what a predicate allows and returns what another
allows, whatever state it finds each time it looks: what the others do in between
does not matter as long as they keep the invariant too. `Routine.safe_bind` is the
rule for one routine after another.

Two readings follow. Run alone, a safe routine performs a sequence of operations
that obeys the order (`Routine.Safe.run`). Run by threads that interleave, safe
routines never wait for each other in a cycle, and of those that wait some thread
ahead can go on (`Threads.Orderly.not_waits_cycle`,
`Threads.Orderly.exists_ready`).
-/

/-- An operation on a mutex. -/
inductive LockOp (μ : Type)
  | lock (m : μ)
  | unlock (m : μ)
deriving DecidableEq

namespace LockOp

variable {μ : Type} [DecidableEq μ]

/-- The mutexes held after an operation. -/
def held (H : List μ) : LockOp μ → List μ
  | lock m => m :: H
  | unlock m => H.erase m

/-- The mutexes held after a sequence of operations. -/
def heldAfter (ops : List (LockOp μ)) (H : List μ) : List μ := ops.foldl held H

/-- Whether an operation obeys the order of the ranks. -/
def Allowed (rank : μ → ℕ) (H : List μ) : LockOp μ → Prop
  | lock m => ∀ h ∈ H, rank h < rank m
  | unlock m => m ∈ H

/-- **A sequence of operations that obeys the order**, each in front of its rest. -/
def Obeys (rank : μ → ℕ) (ops : List (LockOp μ)) (H : List μ) : Prop :=
  ∀ before op after, ops = before ++ op :: after → op.Allowed rank (heldAfter before H)

theorem obeys_nil (rank : μ → ℕ) (H : List μ) : Obeys rank [] H :=
  fun _ _ _ h => absurd h (by simp)

theorem obeys_cons {rank : μ → ℕ} {op : LockOp μ} {ops : List (LockOp μ)} {H : List μ}
    (hop : op.Allowed rank H) (hops : Obeys rank ops (op.held H)) :
    Obeys rank (op :: ops) H := by
  intro before op' after h
  cases before with
  | nil =>
    obtain ⟨rfl, -⟩ := List.cons.inj h
    exact hop
  | cons b before =>
    obtain ⟨rfl, hrest⟩ := List.cons.inj h
    exact hops before op' after hrest

end LockOp

/-- **A routine**, by what it does next. -/
inductive Routine (σ μ ε α : Type)
  | ret (a : α)
  | lock (m : μ) (k : Routine σ μ ε α)
  | unlock (m : μ) (k : Routine σ μ ε α)
  /-- A value noted. -/
  | note (e : ε) (k : Routine σ μ ε α)
  /-- The state changed, and how to go on with the state as it was. -/
  | update (f : σ → σ) (k : σ → Routine σ μ ε α)

namespace Routine

variable {σ μ ε α β : Type}

/-- One routine after another. -/
def bind : Routine σ μ ε α → (α → Routine σ μ ε β) → Routine σ μ ε β
  | ret a, g => g a
  | lock m k, g => lock m (k.bind g)
  | unlock m k, g => unlock m (k.bind g)
  | note e k, g => note e (k.bind g)
  | update f k, g => update f (fun s => (k s).bind g)

instance : Monad (Routine σ μ ε) where
  pure := ret
  bind := bind

/-- What a routine that runs alone returns, and the state it leaves. -/
def run : Routine σ μ ε α → σ → α × σ
  | ret a, s => (a, s)
  | lock _ k, s | unlock _ k, s | note _ k, s => k.run s
  | update f k, s => (k s).run (f s)

/-- The operations on mutexes a routine that runs alone performs. -/
def ops : Routine σ μ ε α → σ → List (LockOp μ)
  | ret _, _ => []
  | lock m k, s => .lock m :: k.ops s
  | unlock m k, s => .unlock m :: k.ops s
  | note _ k, s => k.ops s
  | update f k, s => (k s).ops (f s)

/-- What a routine that runs alone notes. -/
def notes : Routine σ μ ε α → σ → List ε
  | ret _, _ => []
  | lock _ k, s | unlock _ k, s => k.notes s
  | note e k, s => e :: k.notes s
  | update f k, s => (k s).notes (f s)

@[simp] theorem run_pure (a : α) (s : σ) : (pure a : Routine σ μ ε α).run s = (a, s) := rfl

@[simp] theorem run_bind (p : Routine σ μ ε α) (g : α → Routine σ μ ε β) (s : σ) :
    (p >>= g).run s = (g (p.run s).1).run (p.run s).2 := by
  show (p.bind g).run s = _
  induction p generalizing s with
  | ret a => rfl
  | lock m k ih => exact ih s
  | unlock m k ih => exact ih s
  | note e k ih => exact ih s
  | update f k ih => exact ih s (f s)

@[simp] theorem notes_pure (a : α) (s : σ) : (pure a : Routine σ μ ε α).notes s = [] := rfl

@[simp] theorem notes_bind (p : Routine σ μ ε α) (g : α → Routine σ μ ε β) (s : σ) :
    (p >>= g).notes s = p.notes s ++ (g (p.run s).1).notes (p.run s).2 := by
  show (p.bind g).notes s = _
  induction p generalizing s with
  | ret a => rfl
  | lock m k ih => exact ih s
  | unlock m k ih => exact ih s
  | note e k ih => exact congrArg (e :: ·) (ih s)
  | update f k ih => exact ih s (f s)

/-- A loop over a list. -/
theorem run_forM (l : List α) (g : α → Routine σ μ ε Unit) (s : σ) :
    (forM l g).run s = ((), l.foldl (fun s a => ((g a).run s).2) s) := by
  induction l generalizing s with
  | nil => rfl
  | cons a l ih =>
    show ((g a >>= fun _ => forM l g).run s) = _
    rw [run_bind, ih]
    rfl

/-! ## Discipline -/

section Safe

variable [DecidableEq μ] {I : σ → Prop} {E : ε → Prop} {rank : μ → ℕ}

/-- **A routine that, holding `H`, obeys the order of the ranks, keeps the invariant
and notes what is allowed**; it returns holding `H'`, and a value that meets `Q`. -/
def Safe (I : σ → Prop) (E : ε → Prop) (rank : μ → ℕ) :
    List μ → Routine σ μ ε α → List μ → (α → Prop) → Prop
  | H, ret a, H', Q => H = H' ∧ Q a
  | H, lock m k, H', Q => (∀ h ∈ H, rank h < rank m) ∧ Safe I E rank (m :: H) k H' Q
  | H, unlock m k, H', Q => m ∈ H ∧ Safe I E rank (H.erase m) k H' Q
  | H, note e k, H', Q => E e ∧ Safe I E rank H k H' Q
  | H, update f k, H', Q => ∀ s, I s → I (f s) ∧ Safe I E rank H (k s) H' Q

variable {H H' H'' : List μ} {Q : α → Prop} {R : β → Prop}

theorem safe_pure {a : α} (ha : Q a) :
    Safe I E rank H (pure a : Routine σ μ ε α) H Q := ⟨rfl, ha⟩

/-- **The rule for one routine after another.** -/
theorem safe_bind {p : Routine σ μ ε α} {g : α → Routine σ μ ε β}
    (hp : Safe I E rank H p H' Q) (hg : ∀ a, Q a → Safe I E rank H' (g a) H'' R) :
    Safe I E rank H (p >>= g) H'' R := by
  show Safe I E rank H (p.bind g) H'' R
  induction p generalizing H with
  | ret a =>
    obtain ⟨rfl, ha⟩ := hp
    exact hg a ha
  | lock m k ih => exact ⟨hp.1, ih hp.2⟩
  | unlock m k ih => exact ⟨hp.1, ih hp.2⟩
  | note e k ih => exact ⟨hp.1, ih hp.2⟩
  | update f k ih => exact fun s hs => ⟨(hp s hs).1, ih s (hp s hs).2⟩

/-- A weaker postcondition. -/
theorem Safe.imp {Q' : α → Prop} {p : Routine σ μ ε α} (hp : Safe I E rank H p H' Q)
    (h : ∀ a, Q a → Q' a) : Safe I E rank H p H' Q' := by
  induction p generalizing H with
  | ret a => exact ⟨hp.1, h a hp.2⟩
  | lock m k ih => exact ⟨hp.1, ih hp.2⟩
  | unlock m k ih => exact ⟨hp.1, ih hp.2⟩
  | note e k ih => exact ⟨hp.1, ih hp.2⟩
  | update f k ih => exact fun s hs => ⟨(hp s hs).1, ih s (hp s hs).2⟩

/-- **The rule for a loop over a list.** -/
theorem safe_forM {l : List α} {g : α → Routine σ μ ε Unit}
    (hg : ∀ a ∈ l, Safe I E rank H (g a) H (fun _ => True)) :
    Safe I E rank H (forM l g) H (fun _ => True) := by
  induction l with
  | nil => exact safe_pure trivial
  | cons a l ih =>
    show Safe I E rank H (g a >>= fun _ => forM l g) H (fun _ => True)
    exact safe_bind (hg a List.mem_cons_self)
      (fun _ _ => ih (fun b hb => hg b (List.mem_cons_of_mem a hb)))

/-- **A safe routine that runs alone** obeys the order, ends holding what it says,
keeps the invariant, notes only what is allowed, and returns what it says. -/
theorem Safe.run {p : Routine σ μ ε α} (hp : Safe I E rank H p H' Q) {s : σ} (hs : I s) :
    LockOp.Obeys rank (p.ops s) H ∧ LockOp.heldAfter (p.ops s) H = H'
      ∧ I (p.run s).2 ∧ (∀ e ∈ p.notes s, E e) ∧ Q (p.run s).1 := by
  induction p generalizing H s with
  | ret a =>
    exact ⟨LockOp.obeys_nil rank H, hp.1, hs, fun _ h => absurd h List.not_mem_nil, hp.2⟩
  | lock m k ih =>
    obtain ⟨hops, hrest⟩ := ih hp.2 hs
    exact ⟨LockOp.obeys_cons hp.1 hops, hrest⟩
  | unlock m k ih =>
    obtain ⟨hops, hrest⟩ := ih hp.2 hs
    exact ⟨LockOp.obeys_cons hp.1 hops, hrest⟩
  | note e k ih =>
    obtain ⟨hops, hheld, hinv, hnotes, hvalue⟩ := ih hp.2 hs
    exact ⟨hops, hheld, hinv, List.forall_mem_cons.mpr ⟨hp.1, hnotes⟩, hvalue⟩
  | update f k ih => exact ih s (hp s hs).2 (hp s hs).1

end Safe

end Routine

/-! ## Threads -/

/-- Threads over one state: what each holds, and what it is about to do. A thread that
has returned may take up another routine. -/
structure Threads (ι σ μ ε : Type) where
  state : σ
  held : ι → List μ
  next : ι → Routine σ μ ε Unit

namespace Threads

variable {ι σ μ ε : Type}

/-- No thread has begun. -/
def idle (s : σ) : Threads ι σ μ ε := ⟨s, fun _ => [], fun _ => .ret ()⟩

/-- A thread waits for another that holds the mutex it is about to take. -/
def Waits (x : Threads ι σ μ ε) (i j : ι) : Prop :=
  ∃ m k, x.next i = .lock m k ∧ m ∈ x.held j

/-- A thread that is in a routine and waits for nobody. -/
def Ready (x : Threads ι σ μ ε) (i : ι) : Prop :=
  (∀ a, x.next i ≠ .ret a) ∧ ∀ j, ¬ x.Waits i j

variable [DecidableEq μ]

/-- The invariant: every thread is in a safe routine, and will hold nothing at its
end. -/
structure Orderly (I : σ → Prop) (E : ε → Prop) (rank : μ → ℕ) (x : Threads ι σ μ ε) :
    Prop where
  state : I x.state
  safe : ∀ i, Routine.Safe I E rank (x.held i) (x.next i) [] (fun _ => True)

variable {I : σ → Prop} {E : ε → Prop} {rank : μ → ℕ} {x y : Threads ι σ μ ε}

/-! ### The steps -/

section Step

variable [DecidableEq ι] {routines : Set (Routine σ μ ε Unit)}

/-- A thread at its next point. -/
def go (x : Threads ι σ μ ε) (i : ι) (s : σ) (H : List μ) (k : Routine σ μ ε Unit) :
    Threads ι σ μ ε :=
  ⟨s, Function.update x.held i H, Function.update x.next i k⟩

/-- **A step of one thread**: a mutex is taken only if no thread holds it. -/
inductive Step (routines : Set (Routine σ μ ε Unit)) (x : Threads ι σ μ ε) :
    Threads ι σ μ ε → Prop
  | start (i : ι) {a : Unit} {p : Routine σ μ ε Unit} (h : x.next i = .ret a)
      (hp : p ∈ routines) : Step routines x (x.go i x.state (x.held i) p)
  | lock (i : ι) {m : μ} {k : Routine σ μ ε Unit} (h : x.next i = .lock m k)
      (hfree : ∀ j, m ∉ x.held j) : Step routines x (x.go i x.state (m :: x.held i) k)
  | unlock (i : ι) {m : μ} {k : Routine σ μ ε Unit} (h : x.next i = .unlock m k) :
      Step routines x (x.go i x.state ((x.held i).erase m) k)
  | note (i : ι) {e : ε} {k : Routine σ μ ε Unit} (h : x.next i = .note e k) :
      Step routines x (x.go i x.state (x.held i) k)
  | update (i : ι) {f : σ → σ} {k : σ → Routine σ μ ε Unit} (h : x.next i = .update f k) :
      Step routines x (x.go i (f x.state) (x.held i) (k x.state))

/-- A thread that is ready can take its next step. -/
theorem Ready.step {i : ι} (h : x.Ready i) (routines : Set (Routine σ μ ε Unit)) :
    ∃ y, Step routines x y := by
  obtain ⟨hnext, hfree⟩ := h
  cases hi : x.next i with
  | ret a => exact absurd hi (hnext a)
  | lock m k => exact ⟨_, .lock i hi (fun j hj => hfree j ⟨m, k, hi, hj⟩)⟩
  | unlock m k => exact ⟨_, .unlock i hi⟩
  | note e k => exact ⟨_, .note i hi⟩
  | update f k => exact ⟨_, .update i hi⟩

theorem Orderly.go (h : x.Orderly I E rank) {i : ι} {s : σ} {H : List μ}
    {k : Routine σ μ ε Unit} (hs : I s) (hk : Routine.Safe I E rank H k [] (fun _ => True)) :
    (x.go i s H k).Orderly I E rank := by
  refine ⟨hs, fun j => ?_⟩
  show Routine.Safe I E rank (Function.update x.held i H j) (Function.update x.next i k j) []
    (fun _ => True)
  by_cases hj : j = i
  · rw [hj, Function.update_self, Function.update_self]
    exact hk
  · rw [Function.update_of_ne hj, Function.update_of_ne hj]
    exact h.safe j

/-- **A step keeps the invariant.** -/
theorem Orderly.step (hroutines : ∀ p ∈ routines, Routine.Safe I E rank [] p [] (fun _ => True))
    (h : x.Orderly I E rank) (hstep : Step routines x y) : y.Orderly I E rank := by
  cases hstep with
  | start i hi hp =>
    have hsafe := h.safe i
    rw [hi] at hsafe
    exact h.go h.state (hsafe.1 ▸ hroutines _ hp)
  | lock i hi hfree =>
    have hsafe := h.safe i
    rw [hi] at hsafe
    exact h.go h.state hsafe.2
  | unlock i hi =>
    have hsafe := h.safe i
    rw [hi] at hsafe
    exact h.go h.state hsafe.2
  | note i hi =>
    have hsafe := h.safe i
    rw [hi] at hsafe
    exact h.go h.state hsafe.2
  | update i hi =>
    have hsafe := h.safe i
    rw [hi] at hsafe
    obtain ⟨hs, hk⟩ := hsafe x.state h.state
    exact h.go hs hk

/-- The invariant holds in every interleaving. -/
theorem Orderly.of_steps
    (hroutines : ∀ p ∈ routines, Routine.Safe I E rank [] p [] (fun _ => True)) {s : σ}
    (hs : I s) (hrun : Relation.ReflTransGen (Step routines) (idle s) x) :
    x.Orderly I E rank := by
  induction hrun with
  | refl => exact ⟨hs, fun _ => ⟨rfl, trivial⟩⟩
  | tail _ hlast ih => exact ih.step hroutines hlast

end Step

/-! ### Who waits for whom -/

/-- **Who is waited for and waits itself, waits for a mutex of a higher rank.** -/
theorem Orderly.rank_lt (h : x.Orderly I E rank) {j : ι} {m m' : μ}
    {k : Routine σ μ ε Unit} (hm : m ∈ x.held j) (hj : x.next j = .lock m' k) :
    rank m < rank m' := by
  have hsafe := h.safe j
  rw [hj] at hsafe
  exact hsafe.1 m hm

/-- Along any chain of waiting threads the ranks rise. -/
theorem Orderly.rank_lt_of_transGen (h : x.Orderly I E rank) {i j : ι}
    (hwait : Relation.TransGen x.Waits i j) {m m' : μ} {k k' : Routine σ μ ε Unit}
    (hi : x.next i = .lock m k) (hj : x.next j = .lock m' k') : rank m < rank m' := by
  induction hwait generalizing m' k' with
  | single hlast =>
    obtain ⟨n, l, hn, hheld⟩ := hlast
    obtain ⟨rfl, rfl⟩ := Routine.lock.inj (hi.symm.trans hn)
    exact h.rank_lt hheld hj
  | tail _ hlast ih =>
    obtain ⟨n, l, hn, hheld⟩ := hlast
    exact (ih hn).trans (h.rank_lt hheld hj)

/-- **No cycle of waiting threads.** -/
theorem Orderly.not_waits_cycle (h : x.Orderly I E rank) (i : ι) :
    ¬ Relation.TransGen x.Waits i i := by
  intro hcycle
  obtain ⟨j, ⟨m, k, hi, -⟩, -⟩ := Relation.TransGen.head'_iff.mp hcycle
  exact lt_irrefl _ (h.rank_lt_of_transGen hcycle hi hi)

/-- Who holds a mutex is in a routine. -/
theorem Orderly.next_ne_ret (h : x.Orderly I E rank) {j : ι} {m : μ} (hm : m ∈ x.held j)
    (a : Unit) : x.next j ≠ .ret a := by
  intro hj
  have hsafe := h.safe j
  rw [hj] at hsafe
  exact absurd (hsafe.1 ▸ hm) List.not_mem_nil

/-- **Somebody can go on**: following those it waits for, a thread in a routine comes
to one that waits for nobody, if the ranks are bounded. -/
theorem Orderly.exists_ready (h : x.Orderly I E rank) {n : ℕ} (hn : ∀ m, rank m ≤ n) {i : ι}
    (hi : ∀ a, x.next i ≠ .ret a) : ∃ j, Relation.ReflTransGen x.Waits i j ∧ x.Ready j := by
  -- the ranks a chain of waiting threads has left to rise
  have hchain : ∀ d i, (∀ a, x.next i ≠ .ret a) →
      (∀ m k, x.next i = .lock m k → n - rank m ≤ d) →
      ∃ j, Relation.ReflTransGen x.Waits i j ∧ x.Ready j := by
    intro d
    induction d with
    | zero =>
      intro i hi hd
      by_cases hfree : ∀ j, ¬ x.Waits i j
      · exact ⟨i, .refl, hi, hfree⟩
      · obtain ⟨j, hwait⟩ := not_forall_not.mp hfree
        obtain ⟨m, k, hlock, hm⟩ := hwait
        refine ⟨j, .single ⟨m, k, hlock, hm⟩, h.next_ne_ret hm, fun l => ?_⟩
        rintro ⟨m', k', hj, -⟩
        have hlt := h.rank_lt hm hj
        have hle := hn m'
        have hzero := hd m k hlock
        omega
    | succ d ih =>
      intro i hi hd
      by_cases hfree : ∀ j, ¬ x.Waits i j
      · exact ⟨i, .refl, hi, hfree⟩
      · obtain ⟨j, hwait⟩ := not_forall_not.mp hfree
        obtain ⟨m, k, hlock, hm⟩ := hwait
        obtain ⟨l, hjl, hl⟩ := ih j (h.next_ne_ret hm) (fun m' k' hj => by
          have hlt := h.rank_lt hm hj
          have hle := hd m k hlock
          omega)
        exact ⟨l, .head ⟨m, k, hlock, hm⟩ hjl, hl⟩
  exact hchain n i hi (fun m _ _ => Nat.sub_le n (rank m))

end Threads
