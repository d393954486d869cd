import HpcAgent.Lib.Keyed
import HpcAgent.Steps

/-!
# The ledger of grants

A node grants requests in two places, `reserve_resource` and the loop of
`release_resource`, and gets units back in two, the teardown of a job and the
handler of `RELEASE`. The log records each, and `vigentes` reads off it the
grants that are out: granted, and not yet given back. A `RELEASE` names a job,
a resource and an amount, so it gives back the last grant that fits the three.
The other side of the ledger is what the jobs say they hold, `units` of their
allocations.
-/

namespace Hpc

/-! ## Units of a list of allocations -/

/-- The units of a resource that the selected allocations add up to. -/
def units (sel : Allocation → Bool) (t : Resource) (l : List Allocation) : ℤ :=
  ((l.filter (fun a => sel a && a.name == t)).map (fun a => a.amount.toInt)).sum

section Units

variable {sel : Allocation → Bool} {t : Resource} {l : List Allocation} {a : Allocation}

@[simp] theorem units_nil : units sel t [] = 0 := rfl

theorem units_cons :
    units sel t (a :: l)
      = (if sel a ∧ a.name = t then a.amount.toInt else 0) + units sel t l := by
  unfold units
  rw [List.filter_cons]
  by_cases h : sel a = true ∧ a.name = t
  · rw [if_pos h, if_pos (by simp [h.1, h.2]), List.map_cons, List.sum_cons]
  · rw [if_neg h, if_neg (by simpa using h), zero_add]

theorem units_cons_of_sel (hsel : sel a = true) :
    units sel t (a :: l)
      = (if a.name = t then a.amount.toInt else 0) + units sel t l := by
  rw [units_cons]
  simp [hsel]

theorem units_cons_of_not_sel (hsel : sel a = false) :
    units sel t (a :: l) = units sel t l := by
  rw [units_cons]
  simp [hsel]

/-- More is selected, more is counted. -/
theorem units_mono {sel' : Allocation → Bool}
    (himp : ∀ a ∈ l, sel a = true → sel' a = true)
    (hpos : ∀ a ∈ l, sel' a = true → 0 ≤ a.amount.toInt) :
    units sel t l ≤ units sel' t l := by
  induction l with
  | nil => exact le_rfl
  | cons a l ih =>
    have ih := ih (fun b hb => himp b (List.mem_cons_of_mem a hb))
      (fun b hb => hpos b (List.mem_cons_of_mem a hb))
    have himpa := himp a List.mem_cons_self
    have hposa := hpos a List.mem_cons_self
    rw [units_cons, units_cons]
    split <;> split <;> simp_all
    omega

theorem units_nonneg (hpos : ∀ a ∈ l, sel a = true → 0 ≤ a.amount.toInt) :
    0 ≤ units sel t l := by
  refine List.sum_nonneg (fun v hv => ?_)
  obtain ⟨a, ha, rfl⟩ := List.mem_map.mp hv
  obtain ⟨hmem, hsel⟩ := List.mem_filter.mp ha
  exact hpos a hmem (Bool.and_elim_left hsel)

end Units

/-! ## Units of a list of requests -/

/-- The units a list of requests adds up to. -/
def suma (l : List PendingRequest) : ℤ := (l.map (fun p => p.amount.toInt)).sum

@[simp] theorem suma_nil : suma [] = 0 := rfl

@[simp] theorem suma_cons (p : PendingRequest) (l : List PendingRequest) :
    suma (p :: l) = p.amount.toInt + suma l := by
  unfold suma
  rw [List.map_cons, List.sum_cons]

@[simp] theorem suma_append (l m : List PendingRequest) : suma (l ++ m) = suma l + suma m := by
  unfold suma
  rw [List.map_append, List.sum_append]

theorem suma_nonneg {l : List PendingRequest} (h : ∀ p ∈ l, 0 < p.amount) : 0 ≤ suma l := by
  refine List.sum_nonneg (fun v hv => ?_)
  obtain ⟨p, hp, rfl⟩ := List.mem_map.mp hv
  exact (Int32.lt_iff_toInt_lt.mp (h p hp)).le

/-- What a test selects and what it leaves add up to the whole. -/
theorem suma_filter_add (b : PendingRequest → Bool) (l : List PendingRequest) :
    suma (l.filter b) + suma (l.filter (fun p => !b p)) = suma l := by
  induction l with
  | nil => rfl
  | cons p l ih =>
    cases hb : b p
    · rw [List.filter_cons_of_neg (by simp [hb]), List.filter_cons_of_pos (by simp [hb]),
        suma_cons, suma_cons, ← ih]
      omega
    · rw [List.filter_cons_of_pos hb, List.filter_cons_of_neg (by simp [hb]), suma_cons,
        suma_cons, ← ih]
      omega

/-! ## The grants that are out -/

/-- An entry of a job on its own account. -/
def PendingRequest.ofJob (jobId : Int32) (p : PendingRequest) : Bool :=
  p.origen == .originLocal && p.jobId == jobId

/-- A remote entry is of no job of this node. -/
theorem ofJob_of_remote {p : PendingRequest} (h : p.origen = .originRemote) (jobId : Int32) :
    p.ofJob jobId = false := by
  unfold PendingRequest.ofJob
  rw [h]
  rfl

theorem ofJob_of_ne {p : PendingRequest} {jobId : Int32} (h : p.jobId ≠ jobId) :
    p.ofJob jobId = false := by
  unfold PendingRequest.ofJob
  rw [beq_false_of_ne h, Bool.and_false]

theorem ofJob_iff {p : PendingRequest} {jobId : Int32} :
    p.ofJob jobId = true ↔ p.origen = .originLocal ∧ p.jobId = jobId := by
  unfold PendingRequest.ofJob
  rw [Bool.and_eq_true, beq_iff_eq, beq_iff_eq]

/-- An entry is of no job of a list, or of one. -/
theorem PendingRequest.ajena_or_of_job (p : PendingRequest) (jobs : List Job) :
    (p.origen = .originRemote ∨ ∀ j ∈ jobs, j.jobId ≠ p.jobId)
      ∨ p.origen = .originLocal ∧ ∃ j ∈ jobs, j.jobId = p.jobId := by
  by_cases hother : p.origen = .originRemote ∨ ∀ j ∈ jobs, j.jobId ≠ p.jobId
  · exact Or.inl hother
  · rw [not_or] at hother
    obtain ⟨hlocal, hknown⟩ := hother
    push Not at hknown
    exact Or.inr ⟨Origin.eq_originLocal hlocal, hknown⟩

/-- An entry of a job of another node. -/
def PendingRequest.ofRemote (jobId : Int32) (p : PendingRequest) : Bool :=
  p.origen == .originRemote && p.jobId == jobId

/-- What a `RELEASE` of that job and amount gives back. -/
def PendingRequest.fits (jobId amount : Int32) (p : PendingRequest) : Bool :=
  p.ofRemote jobId && p.amount == amount

/-- One event's effect on the grants of a resource that are out. -/
def vigentesStep (t : Resource) (l : List PendingRequest) : Event → List PendingRequest
  | .grant tipo p => if tipo = t then p :: l else l
  | .giveBack tipo p => if tipo = t then l.erase p else l
  | .returned tipo jobId amount =>
    if tipo = t then l.eraseP (PendingRequest.fits jobId amount) else l
  | _ => l

/-- **The grants of a resource that are out**, the last one first. -/
def vigentes (t : Resource) (log : List Event) : List PendingRequest :=
  log.foldl (vigentesStep t) []

@[simp] theorem vigentes_nil (t : Resource) : vigentes t [] = [] := rfl

@[simp] theorem vigentes_concat (t : Resource) (log : List Event) (e : Event) :
    vigentes t (log ++ [e]) = vigentesStep t (vigentes t log) e := by
  unfold vigentes
  rw [List.foldl_append]
  rfl

/-- An event that grants nothing and gives nothing back. -/
def Event.neutral : Event → Bool
  | .grant .. | .giveBack .. | .returned .. => false
  | _ => true

theorem vigentes_append_of_neutral {es : List Event} (hes : ∀ e ∈ es, e.neutral = true)
    (t : Resource) (log : List Event) : vigentes t (log ++ es) = vigentes t log := by
  induction es generalizing log with
  | nil => rw [List.append_nil]
  | cons e es ih =>
    rw [List.append_cons, ih (fun e he => hes e (List.mem_cons_of_mem _ he)), vigentes_concat]
    have he := hes e List.mem_cons_self
    cases e <;> first | rfl | exact absurd he Bool.false_ne_true

/-! ## What a job has here -/

/-- An allocation on this node. -/
def Allocation.isLocal (a : Allocation) : Bool := a.type == .localAlloc

theorem Allocation.isLocal_of_held {a : Allocation} (h : a.held = true) :
    a.isLocal = true := Bool.and_elim_left h

theorem Allocation.isLocal_of_waiting {a : Allocation} (h : a.waiting = true) :
    a.isLocal = true := Bool.and_elim_left h

/-- The requests behind the selected allocations of a resource. -/
def Job.entries (sel : Allocation → Bool) (t : Resource) (j : Job) : List PendingRequest :=
  (j.confirmadas.filter (fun a => sel a && a.name == t)).map Allocation.request

theorem suma_entries (sel : Allocation → Bool) (t : Resource) (j : Job) :
    suma (j.entries sel t) = units sel t j.confirmadas := by
  unfold suma Job.entries units
  rw [List.map_map]
  rfl

/-- The units of a resource the jobs of the table hold. -/
def Manager.heldUnits (s : Manager) (t : Resource) : ℤ :=
  (s.jobs.map (fun j => units Allocation.held t j.confirmadas)).sum

end Hpc
