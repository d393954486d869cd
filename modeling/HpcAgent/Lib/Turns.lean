import Mathlib

/-!
# A line of numbered customers

Everyone who arrives takes the next number, whether served at once (`pass`) or
sent to the end of the line (`enter`); the line loses its head when that is served
(`advance`) and those who give up (`leave`). The numbers in the line increase and
all of them have been handed out: both are fields of `Line`, so each
operation proves them, and `lt_of_mem_tail` and `lt_next` are all that a
statement about the order of arrival needs.
-/

/-- **A line**: the numbered customers from the head on, and the next number. -/
@[ext] structure Line (α : Type) where
  waiting : List (ℕ × α)
  next : ℕ
  /-- Later in the line is later in arrival. -/
  sorted : waiting.Pairwise (fun x y => x.1 < y.1)
  /-- The numbers in the line have been handed out. -/
  below : ∀ x ∈ waiting, x.1 < next

namespace Line

variable {α : Type}

/-- Nobody yet. -/
def empty : Line α := ⟨[], 0, .nil, fun _ h => absurd h List.not_mem_nil⟩

/-- Somebody arrives and waits. -/
def enter (l : Line α) (a : α) : Line α where
  waiting := l.waiting ++ [(l.next, a)]
  next := l.next + 1
  sorted := List.pairwise_append.mpr ⟨l.sorted, List.pairwise_singleton _ _,
    fun x hx y hy => List.mem_singleton.mp hy ▸ l.below x hx⟩
  below x hx := by
    rcases List.mem_append.mp hx with hx | hx
    · exact Nat.lt_succ_of_lt (l.below x hx)
    · rw [List.mem_singleton.mp hx]
      exact Nat.lt_succ_self l.next

/-- Somebody arrives and does not wait. -/
def pass (l : Line α) : Line α where
  waiting := l.waiting
  next := l.next + 1
  sorted := l.sorted
  below x hx := Nat.lt_succ_of_lt (l.below x hx)

/-- The head is served. -/
def advance (l : Line α) : Line α where
  waiting := l.waiting.tail
  next := l.next
  sorted := l.sorted.tail
  below x hx := l.below x (List.mem_of_mem_tail hx)

/-- Those the test selects give up. -/
def leave (l : Line α) (b : α → Bool) : Line α where
  waiting := l.waiting.filter (fun x => !b x.2)
  next := l.next
  sorted := l.sorted.filter _
  below x hx := l.below x (List.mem_filter.mp hx).1

/-- A line of these, in this order. -/
def ofList (l : List α) : Line α := l.foldl enter empty

@[simp] theorem map_enter (l : Line α) (a : α) :
    (l.enter a).waiting.map (·.2) = l.waiting.map (·.2) ++ [a] := by
  show (l.waiting ++ [(l.next, a)]).map (·.2) = _
  rw [List.map_append, List.map_singleton]

@[simp] theorem map_advance (l : Line α) :
    l.advance.waiting.map (·.2) = (l.waiting.map (·.2)).tail :=
  List.map_tail

@[simp] theorem map_leave (l : Line α) (b : α → Bool) :
    (l.leave b).waiting.map (·.2) = (l.waiting.map (·.2)).filter (fun a => !b a) := by
  show (l.waiting.filter (fun x => !b x.2)).map (·.2) = _
  rw [List.filter_map]
  rfl

@[simp] theorem map_ofList (l : List α) : (ofList l).waiting.map (·.2) = l := by
  have hfoldl : ∀ m : Line α, (l.foldl enter m).waiting.map (·.2) = m.waiting.map (·.2) ++ l := by
    induction l with
    | nil => exact fun m => (List.append_nil _).symm
    | cons a l ih =>
      intro m
      rw [List.foldl_cons, ih, map_enter, List.append_assoc]
      rfl
  exact hfoldl empty

/-- **Nobody behind the head arrived before it.** -/
theorem lt_of_mem_tail {l : Line α} {n : ℕ} {a : α} {rest : List (ℕ × α)}
    (h : l.waiting = (n, a) :: rest) {x : ℕ × α} (hx : x ∈ rest) : n < x.1 :=
  List.rel_of_pairwise_cons (R := fun x y : ℕ × α => x.1 < y.1) (h ▸ l.sorted) hx

/-- **Who waits arrived before who arrives now.** -/
theorem lt_next {l : Line α} {x : ℕ × α} (hx : x ∈ l.waiting) : x.1 < l.next := l.below x hx

end Line
