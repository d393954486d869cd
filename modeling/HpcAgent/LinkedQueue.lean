import HpcAgent.Lib.LinkedList
import HpcAgent.Lib.Reaches
import HpcAgent.PendingRequest

/-!
# The queue as a linked list

`pending_request.c` once more, on a heap of nodes: the structure holds a pointer to
the first node, one to the last and the running sum, and the operations move
links. What the model of the queue takes for granted, that it is a list, is what
this module proves: over any sequence of calls the nodes that can be reached from
`top` are a list that ends at `bottom`, and its entries are those of a list that
is appended to, shortened at the front and filtered.

The heap is shared. `malloc` returns any address that is not in use, a node that
`queue_dequeue` returned belongs to the caller until it frees it, and the rest of
the program does as it likes with what neither of the two can reach.
-/

namespace Hpc

open Heap

/-- `ColaPendingRequest`, as the structure is. -/
structure ColaEnlazada where
  top : Option ℕ
  bottom : Option ℕ
  amount : Int32

namespace ColaEnlazada

/-- `queue_init`. -/
def init : ColaEnlazada := ⟨none, none, 0⟩

/-- `queue_is_empty`. -/
def isEmpty (c : ColaEnlazada) : Bool := c.top.isNone && c.bottom.isNone

/-- `queue_enqueue`, `malloc` having returned `pending`. -/
def enqueue (pending : ℕ) (jobId amount : Int32) (conn : Conn) (origen : Origin)
    (h : Heap PendingRequest) (c : ColaEnlazada) :
    Option (Heap PendingRequest × ColaEnlazada) := do
  let h ← h.malloc pending ⟨⟨jobId, amount, conn, origen⟩, none⟩
  if c.isEmpty then
    return (h, ⟨some pending, some pending, c.amount + amount⟩)
  else
    let bottom ← c.bottom
    let h ← h.setSig bottom (some pending)
    return (h, ⟨c.top, some pending, c.amount + amount⟩)

/-- `queue_dequeue`: the node returned, and what is left. -/
def dequeue (h : Heap PendingRequest) (c : ColaEnlazada) :
    Option (Option ℕ × Heap PendingRequest × ColaEnlazada) :=
  if c.isEmpty then some (none, h, c)
  else do
    let tope ← c.top
    let nodo ← h tope
    let bottom := if nodo.sig.isNone then none else c.bottom
    let h ← h.setSig tope none
    return (some tope, h, ⟨nodo.sig, bottom, c.amount - nodo.val.amount⟩)

/-- What the loop of the deletions does with `bottom` and the sum when a node goes. -/
def repair (g : Option ℕ × Int32) (prev : Option ℕ) (curr : ℕ) (p : PendingRequest) :
    Option ℕ × Int32 :=
  (if g.1 = some curr then prev else g.1, g.2 - p.amount)

/-- The loop of the two deletions, for at most that many rounds. -/
def delete (sel : PendingRequest → Bool) (rounds : ℕ) (h : Heap PendingRequest)
    (c : ColaEnlazada) : Option (Heap PendingRequest × ColaEnlazada) := do
  let (h, top, bottom, amount) ← sweep sel repair rounds h c.top none c.top (c.bottom, c.amount)
  return (h, ⟨top, bottom, amount⟩)

/-- `queue_delete_by_conn`. -/
def deleteByConn (conn : Conn) : ℕ → Heap PendingRequest → ColaEnlazada →
    Option (Heap PendingRequest × ColaEnlazada) := delete (fun p => p.ownerConn == conn)

/-- `queue_delete_by_job_id`. -/
def deleteByJobId (jobId : Int32) : ℕ → Heap PendingRequest → ColaEnlazada →
    Option (Heap PendingRequest × ColaEnlazada) := delete (fun p => p.jobId == jobId)

/-! ## What the structure represents -/

/-- **The structure represents a list of nodes**: the links from `top` run through
it, `bottom` is its last node, and the sum is that of its entries. -/
structure Representa (h : Heap PendingRequest) (c : ColaEnlazada)
    (l : List (ℕ × PendingRequest)) : Prop where
  chain : h.Chain c.top l
  bottom : c.bottom = last l
  amount : c.amount = sumAmount (l.map Prod.snd)

variable {h : Heap PendingRequest} {c : ColaEnlazada} {l : List (ℕ × PendingRequest)}

theorem representa_init (h : Heap PendingRequest) : Representa h init [] := ⟨rfl, rfl, rfl⟩

theorem Representa.isEmpty_iff (hr : Representa h c l) : c.isEmpty = true ↔ l = [] := by
  unfold isEmpty
  rw [Bool.and_eq_true, Option.isNone_iff_eq_none, Option.isNone_iff_eq_none, hr.bottom,
    last_eq_none_iff, hr.chain.eq_none_iff, and_self]

/-- A change of the heap elsewhere. -/
theorem Representa.congr (hr : Representa h c l) {h' : Heap PendingRequest}
    (hsame : ∀ a ∈ addrs l, h' a = h a) : Representa h' c l :=
  ⟨hr.chain.congr hsame, hr.bottom, hr.amount⟩

/-- **`queue_enqueue` appends.** -/
theorem Representa.enqueue (hr : Representa h c l) {pending : ℕ} (hfresh : h pending = none)
    (jobId amount : Int32) (conn : Conn) (origen : Origin) :
    ∃ h' c', enqueue pending jobId amount conn origen h c = some (h', c')
      ∧ Representa h' c' (l ++ [(pending, ⟨jobId, amount, conn, origen⟩)])
      ∧ (∀ a ≠ pending, c.bottom ≠ some a → h' a = h a) ∧ (h' pending).isSome = true := by
  obtain ⟨h₁, hh₁⟩ : ∃ h₁ : Heap PendingRequest,
      h₁ = Function.update h pending (some ⟨⟨jobId, amount, conn, origen⟩, none⟩) := ⟨_, rfl⟩
  have hmalloc : h.malloc pending ⟨⟨jobId, amount, conn, origen⟩, none⟩ = some h₁ := by
    rw [malloc_of_none hfresh, hh₁]
  have hnew : h₁ pending = some ⟨⟨jobId, amount, conn, origen⟩, none⟩ :=
    hh₁ ▸ Function.update_self pending _ h
  have hold : ∀ a ≠ pending, h₁ a = h a := fun a ha => hh₁ ▸ Function.update_of_ne ha _ h
  have hsum : c.amount + amount
      = sumAmount ((l ++ [(pending, (⟨jobId, amount, conn, origen⟩ : PendingRequest))]).map
        Prod.snd) := by
    rw [List.map_append, List.map_singleton, sumAmount_concat, hr.amount]
  unfold ColaEnlazada.enqueue
  rw [hmalloc]
  rcases eq_nil_or_concat l with rfl | ⟨m, b, w, rfl⟩
  · refine ⟨h₁, ⟨some pending, some pending, c.amount + amount⟩, ?_, ⟨?_, rfl, hsum⟩,
      fun a ha _ => hold a ha, hnew ▸ rfl⟩
    · simp [hr.isEmpty_iff.mpr rfl]
    · exact ⟨rfl, none, hnew, rfl⟩
  · have hempty : c.isEmpty = false := by
      rw [← Bool.not_eq_true, hr.isEmpty_iff]
      simp
    have hbottom : c.bottom = some b := hr.bottom.trans (last_concat m (b, w))
    have hcell : h b = some ⟨w, none⟩ := (seg_concat.mp hr.chain).2
    have hb : b ≠ pending := by
      rintro rfl
      exact absurd (hfresh.symm.trans hcell) (by simp)
    have hbm : b ∉ addrs m := by
      have hnodup := hr.chain.nodup
      rw [addrs_append, List.nodup_append] at hnodup
      exact fun hmem => hnodup.2.2 b hmem b List.mem_cons_self rfl
    -- the new node is linked behind the last one
    have hlink : h₁.setSig b (some pending)
        = some (Function.update h₁ b (some ⟨w, some pending⟩)) :=
      setSig_of_cell ((hold b hb).trans hcell) _
    have hchain₁ : h₁.Chain c.top (m ++ [(b, w)]) := by
      refine hr.chain.congr (fun a ha => hold a ?_)
      rintro rfl
      obtain ⟨⟨x, v⟩, hx, rfl⟩ := List.mem_map.mp ha
      obtain ⟨sig, hsig⟩ := hr.chain.cell hx
      exact absurd (hfresh.symm.trans hsig) (by simp)
    refine ⟨Function.update h₁ b (some ⟨w, some pending⟩),
      ⟨c.top, some pending, c.amount + amount⟩, ?_, ⟨?_, by rw [last_concat], hsum⟩,
      fun a ha hab => ?_, ?_⟩
    · simp [hempty, hbottom, hlink]
    · refine seg_concat.mpr ⟨hchain₁.relink hbm _, ?_⟩
      rw [Function.update_of_ne hb.symm, hnew]
    · rw [Function.update_of_ne (fun heq => hab (hbottom.trans (congrArg some heq.symm))),
        hold a ha]
    · rw [Function.update_of_ne hb.symm, hnew]
      rfl

/-- **`queue_dequeue` takes the first entry.** -/
theorem Representa.dequeue (hr : Representa h c l) :
    ∃ h' c', dequeue h c = some (l.head?.map Prod.fst, h', c') ∧ Representa h' c' l.tail
      ∧ (∀ x, l.head? = some x → h' x.1 = some ⟨x.2, none⟩)
      ∧ ∀ a, l.head?.map Prod.fst ≠ some a → h' a = h a := by
  unfold ColaEnlazada.dequeue
  cases l with
  | nil =>
    exact ⟨h, c, by simp [hr.isEmpty_iff.mpr rfl], hr, by simp, fun _ _ => rfl⟩
  | cons x rest =>
    obtain ⟨a, v⟩ := x
    have hempty : c.isEmpty = false := by
      rw [← Bool.not_eq_true, hr.isEmpty_iff]
      simp
    obtain ⟨htop, next, ha, hrest⟩ := hr.chain
    have harest : a ∉ addrs rest := (List.nodup_cons.mp hr.chain.nodup).1
    have hlink : h.setSig a none = some (Function.update h a (some ⟨v, none⟩)) :=
      setSig_of_cell ha none
    refine ⟨Function.update h a (some ⟨v, none⟩), ⟨next, if next.isNone then none else c.bottom,
      c.amount - v.amount⟩, ?_, ⟨hrest.update harest _, ?_, ?_⟩, ?_, fun b hb => ?_⟩
    · simp [hempty, htop, ha, hlink]
    · show (if next.isNone then none else c.bottom) = last rest
      cases rest with
      | nil =>
        obtain rfl : next = none := hrest
        rfl
      | cons y rest =>
        obtain ⟨rfl, -⟩ := hrest
        rw [hr.bottom]
        simp [last, List.getLast?_cons_cons]
    · show c.amount - v.amount = sumAmount (rest.map Prod.snd)
      rw [hr.amount, List.map_cons, sumAmount_cons]
      grind
    · intro x hx
      obtain rfl : (a, v) = x := Option.some.inj hx
      exact Function.update_self a _ h
    · exact Function.update_of_ne (fun heq => hb (by rw [heq]; rfl)) _ h

/-- What the loop of the deletions keeps: `bottom` is the last of the nodes passed
and ahead, the sum that of their entries. -/
def Repara (kept rest : List (ℕ × PendingRequest)) (g : Option ℕ × Int32) : Prop :=
  g.1 = last (kept ++ rest) ∧ g.2 = sumAmount ((kept ++ rest).map Prod.snd)

theorem repara_del (sel : PendingRequest → Bool) (kept : List (ℕ × PendingRequest)) (a : ℕ)
    (p : PendingRequest) (rest : List (ℕ × PendingRequest)) (g : Option ℕ × Int32)
    (hnodup : (addrs (kept ++ (a, p) :: rest)).Nodup) (_ : sel p = true)
    (hg : Repara kept ((a, p) :: rest) g) : Repara kept rest (repair g (last kept) a p) := by
  obtain ⟨hbottom, hsum⟩ := hg
  constructor
  · show (if g.1 = some a then last kept else g.1) = last (kept ++ rest)
    rcases eq_nil_or_concat rest with rfl | ⟨m, b, w, rfl⟩
    · rw [List.append_nil, hbottom, last_concat, if_pos rfl]
    · -- another node is the last one
      have hb : b ≠ a := by
        rintro rfl
        rw [addrs_append, addrs_cons, addrs_append, List.nodup_middle, List.nodup_cons] at hnodup
        exact hnodup.1 (by simp)
      have hlast : g.1 = some b := by
        rw [hbottom, ← List.cons_append, ← List.append_assoc, last_concat]
      rw [hlast, if_neg (fun h => hb (Option.some.inj h)), ← List.append_assoc, last_concat]
  · show g.2 - p.amount = _
    rw [hsum]
    simp only [sumAmount, List.map_append, List.map_cons, List.sum_append, List.sum_cons]
    grind

/-- **The deletions filter.** -/
theorem Representa.delete (hr : Representa h c l) (sel : PendingRequest → Bool) {rounds : ℕ}
    (hrounds : l.length ≤ rounds) :
    ∃ h' c', delete sel rounds h c = some (h', c')
      ∧ Representa h' c' (l.filter (fun x => !sel x.2))
      ∧ (∀ x ∈ l, sel x.2 = true → h' x.1 = none) ∧ ∀ a ∉ addrs l, h' a = h a := by
  obtain ⟨h', top, g, hsweep, hchain, ⟨hbottom, hsum⟩, hfreed, hframe⟩ :=
    sweep_chain sel repair (I := Repara) (g := (c.bottom, c.amount)) (repara_del sel)
      (fun kept a v rest g _ hg => by
        unfold Repara at hg ⊢
        rwa [List.append_assoc])
      hr.chain hrounds ⟨hr.bottom, hr.amount⟩
  refine ⟨h', ⟨top, g.1, g.2⟩, ?_, ⟨hchain, ?_, ?_⟩, hfreed, hframe⟩
  · unfold ColaEnlazada.delete
    rw [show sweep sel repair rounds h c.top none c.top (c.bottom, c.amount) = some (h', top, g)
      from hsweep]
    rfl
  · rwa [List.append_nil] at hbottom
  · rwa [List.append_nil] at hsum

end ColaEnlazada

/-! ## The calls on a queue -/

/-- A queue in use: the heap and the structure, the nodes `queue_dequeue` returned
that their caller has not freed, and what it returned each time. Beside them the
reference list, and what taking its first entry gave each time. -/
structure ColaEnUso where
  heap : Heap PendingRequest
  cola : ColaEnlazada
  prestados : List ℕ
  devueltos : List (Option PendingRequest)
  referencia : List PendingRequest
  primeros : List (Option PendingRequest)

/-- A call on the queue, or a step of the program around it. -/
inductive LlamadaCola
  | init
  /-- `queue_enqueue`, with the address `malloc` returns. -/
  | enqueue (pending : ℕ) (jobId amount : Int32) (conn : Conn) (origen : Origin)
  | dequeue
  /-- `queue_delete_by_conn`, and a bound on the rounds of its loop. -/
  | deleteByConn (conn : Conn) (rounds : ℕ)
  | deleteByJobId (jobId : Int32) (rounds : ℕ)
  /-- The caller of `queue_dequeue` frees a node it was given. -/
  | free (a : ℕ)
  /-- The rest of the program leaves this heap. -/
  | otros (heap : Heap PendingRequest)

namespace ColaEnUso

/-- One step; `none` is an access to what is not allocated, or a loop that is not
over. -/
def step (x : ColaEnUso) : LlamadaCola → Option ColaEnUso
  | .init => some { x with cola := .init, referencia := [] }
  | .enqueue pending jobId amount conn origen => do
    let (heap, cola) ← x.cola.enqueue pending jobId amount conn origen x.heap
    return { x with
      heap := heap
      cola := cola
      referencia := x.referencia ++ [⟨jobId, amount, conn, origen⟩] }
  | .dequeue => do
    let (tope, heap, cola) ← x.cola.dequeue x.heap
    return { heap := heap
             cola := cola
             prestados := tope.toList ++ x.prestados
             devueltos := x.devueltos ++ [tope.bind (fun a => (heap a).map Cell.val)]
             referencia := x.referencia.tail
             primeros := x.primeros ++ [x.referencia.head?] }
  | .deleteByConn conn rounds => do
    let (heap, cola) ← x.cola.deleteByConn conn rounds x.heap
    return { x with
      heap := heap
      cola := cola
      referencia := x.referencia.filter (fun p => !(p.ownerConn == conn)) }
  | .deleteByJobId jobId rounds => do
    let (heap, cola) ← x.cola.deleteByJobId jobId rounds x.heap
    return { x with
      heap := heap
      cola := cola
      referencia := x.referencia.filter (fun p => !(p.jobId == jobId)) }
  | .free a => do
    let heap ← x.heap.free a
    return { x with heap := heap, prestados := x.prestados.erase a }
  | .otros heap => some { x with heap := heap }

/-- What the program around the queue keeps to: `malloc` returns what is not in
use, a caller frees a node it was given, nobody touches what can be reached from
`top`, and a loop has a round for each entry. -/
def Permitido (x : ColaEnUso) : LlamadaCola → Prop
  | .enqueue pending .. => x.heap pending = none
  | .deleteByConn _ rounds | .deleteByJobId _ rounds => x.referencia.length ≤ rounds
  | .free a => a ∈ x.prestados
  | .otros heap => ∀ a, (a ∈ x.prestados ∨ ∃ l, x.heap.Seg x.cola.top l (some a)) →
      heap a = x.heap a
  | .init | .dequeue => True

/-- A queue after `queue_init`, on any heap. -/
def inicio (heap : Heap PendingRequest) : ColaEnUso := ⟨heap, .init, [], [], [], []⟩

/-- **The invariant**: the structure represents the reference list, and the nodes
handed out are allocated and not in the queue. -/
structure Fiel (x : ColaEnUso) (l : List (ℕ × PendingRequest)) : Prop where
  representa : ColaEnlazada.Representa x.heap x.cola l
  entradas : l.map Prod.snd = x.referencia
  prestados : ∀ a ∈ x.prestados, a ∉ addrs l ∧ x.heap a ≠ none
  nodup : x.prestados.Nodup
  devueltos : x.devueltos = x.primeros

section Fiel

variable {x : ColaEnUso} {l : List (ℕ × PendingRequest)}

/-- A node of the queue is not one that was handed out. -/
theorem Fiel.ne_of_mem (hx : Fiel x l) {a b : ℕ} (ha : a ∈ x.prestados) (hb : b ∈ addrs l) :
    a ≠ b := fun h => (hx.prestados a ha).1 (h ▸ hb)

theorem Fiel.enqueue (hx : Fiel x l) {pending : ℕ} (hfresh : x.heap pending = none)
    (jobId amount : Int32) (conn : Conn) (origen : Origin) :
    ∃ y, x.step (.enqueue pending jobId amount conn origen) = some y
      ∧ Fiel y (l ++ [(pending, ⟨jobId, amount, conn, origen⟩)]) := by
  obtain ⟨h', c', hrun, hrepr, hsame, hnew⟩ :=
    hx.representa.enqueue hfresh jobId amount conn origen
  refine ⟨{ x with
      heap := h'
      cola := c'
      referencia := x.referencia ++ [⟨jobId, amount, conn, origen⟩] },
    by rw [step, hrun]; rfl, hrepr, ?_, fun a ha => ⟨?_, ?_⟩, hx.nodup, hx.devueltos⟩
  · rw [List.map_append, hx.entradas]
    rfl
  · rw [addrs_append, List.mem_append, not_or]
    refine ⟨(hx.prestados a ha).1, fun hmem => (hx.prestados a ha).2 ?_⟩
    rw [List.mem_singleton.mp hmem, hfresh]
  · have hne : a ≠ pending := fun h => (hx.prestados a ha).2 (h ▸ hfresh)
    have hbottom : x.cola.bottom ≠ some a := fun h =>
      (hx.prestados a ha).1 (mem_addrs_of_last (hx.representa.bottom.symm.trans h))
    show h' a ≠ none
    rw [hsame a hne hbottom]
    exact (hx.prestados a ha).2

theorem Fiel.dequeue (hx : Fiel x l) :
    ∃ y, x.step .dequeue = some y ∧ Fiel y l.tail := by
  obtain ⟨h', c', hrun, hrepr, htope, hsame⟩ := hx.representa.dequeue
  have hprimero : (l.head?.map Prod.fst).bind (fun a => (h' a).map Cell.val)
      = x.referencia.head? := by
    rw [← hx.entradas, List.head?_map]
    cases hl : l.head? with
    | none => rfl
    | some p =>
      rw [Option.map_some, Option.bind_some, htope p hl]
      rfl
  refine ⟨_, by rw [step, hrun]; rfl, hrepr, ?_, ?_, ?_, ?_⟩
  · show l.tail.map Prod.snd = x.referencia.tail
    rw [← hx.entradas, List.map_tail]
  · have hnodup := hx.representa.chain.nodup
    cases l with
    | nil =>
      intro a ha
      refine ⟨List.not_mem_nil, ?_⟩
      show h' a ≠ none
      rw [hsame a (by simp)]
      exact (hx.prestados a ha).2
    | cons p l =>
      intro a ha
      rcases List.mem_cons.mp ha with rfl | ha
      · refine ⟨(List.nodup_cons.mp hnodup).1, ?_⟩
        show h' p.1 ≠ none
        rw [htope p rfl]
        simp
      · have hne := hx.ne_of_mem ha (List.mem_cons_self (a := p.1) (l := addrs l))
        refine ⟨fun hmem => (hx.prestados a ha).1 (List.mem_cons_of_mem _ hmem), ?_⟩
        show h' a ≠ none
        rw [hsame a (fun h => hne (Option.some.inj h).symm)]
        exact (hx.prestados a ha).2
  · cases l with
    | nil => exact hx.nodup
    | cons p l =>
      exact List.nodup_cons.mpr ⟨fun hmem => (hx.prestados p.1 hmem).1 List.mem_cons_self,
        hx.nodup⟩
  · show x.devueltos ++ [_] = x.primeros ++ [_]
    rw [hx.devueltos, hprimero]

/-- A deletion, whatever it selects. -/
theorem Fiel.delete (hx : Fiel x l) (sel : PendingRequest → Bool) {rounds : ℕ}
    (hrounds : x.referencia.length ≤ rounds) :
    ∃ h' c', x.cola.delete sel rounds x.heap = some (h', c')
      ∧ Fiel { x with heap := h', cola := c', referencia := x.referencia.filter (fun p => !sel p) }
        (l.filter (fun p => !sel p.2)) := by
  have hlen : l.length ≤ rounds := by
    rwa [← hx.entradas, List.length_map] at hrounds
  obtain ⟨h', c', hrun, hrepr, -, hsame⟩ := hx.representa.delete sel hlen
  refine ⟨h', c', hrun, hrepr, ?_, fun a ha => ⟨fun hmem => ?_, ?_⟩, hx.nodup, hx.devueltos⟩
  · show _ = x.referencia.filter _
    rw [← hx.entradas, List.filter_map]
    rfl
  · obtain ⟨p, hp, rfl⟩ := List.mem_map.mp hmem
    exact (hx.prestados p.1 ha).1 (List.mem_map_of_mem (List.mem_of_mem_filter hp))
  · show h' a ≠ none
    rw [hsame a (hx.prestados a ha).1]
    exact (hx.prestados a ha).2

end Fiel

/-- **Every step goes through and keeps the invariant.** -/
theorem Fiel.step {x : ColaEnUso} {l : List (ℕ × PendingRequest)} (hx : Fiel x l)
    {a : LlamadaCola} (ha : x.Permitido a) : ∃ y, x.step a = some y ∧ ∃ m, Fiel y m := by
  cases a with
  | init =>
    refine ⟨_, rfl, [], ColaEnlazada.representa_init x.heap, rfl,
      fun a ha => ⟨List.not_mem_nil, (hx.prestados a ha).2⟩, hx.nodup, hx.devueltos⟩
  | enqueue pending jobId amount conn origen =>
    obtain ⟨y, hy, hfiel⟩ := hx.enqueue ha jobId amount conn origen
    exact ⟨y, hy, _, hfiel⟩
  | dequeue =>
    obtain ⟨y, hy, hfiel⟩ := hx.dequeue
    exact ⟨y, hy, _, hfiel⟩
  | deleteByConn conn rounds =>
    obtain ⟨h', c', hrun, hfiel⟩ := hx.delete (fun p => p.ownerConn == conn) ha
    refine ⟨_, ?_, _, hfiel⟩
    rw [ColaEnUso.step, ColaEnlazada.deleteByConn, hrun]
    rfl
  | deleteByJobId jobId rounds =>
    obtain ⟨h', c', hrun, hfiel⟩ := hx.delete (fun p => p.jobId == jobId) ha
    refine ⟨_, ?_, _, hfiel⟩
    rw [ColaEnUso.step, ColaEnlazada.deleteByJobId, hrun]
    rfl
  | free a =>
    obtain ⟨hal, halloc⟩ := hx.prestados a ha
    obtain ⟨cell, hcell⟩ := Option.ne_none_iff_exists'.mp halloc
    have hfree := free_of_cell hcell
    refine ⟨{ x with heap := Function.update x.heap a none, prestados := x.prestados.erase a },
      ?_, l, hx.representa.congr (fun b hb => ?_), hx.entradas, fun b hb => ?_, ?_, hx.devueltos⟩
    · rw [ColaEnUso.step, hfree]
      rfl
    · exact Function.update_of_ne (hx.ne_of_mem ha hb).symm _ _
    · obtain ⟨hba, hb⟩ := (hx.nodup.mem_erase_iff).mp hb
      refine ⟨(hx.prestados b hb).1, ?_⟩
      show Function.update x.heap a none b ≠ none
      rw [Function.update_of_ne hba]
      exact (hx.prestados b hb).2
    · exact hx.nodup.erase a
  | otros heap =>
    have hreach : ∀ a ∈ addrs l, heap a = x.heap a := by
      intro a hmem
      obtain ⟨⟨b, v⟩, hb, rfl⟩ := List.mem_map.mp hmem
      obtain ⟨l₁, l₂, rfl⟩ := List.append_of_mem hb
      obtain ⟨r, hl₁, rfl, -⟩ := seg_append.mp hx.representa.chain
      exact ha b (Or.inr ⟨l₁, hl₁⟩)
    refine ⟨_, rfl, l, hx.representa.congr hreach, hx.entradas, fun a hmem => ?_, hx.nodup,
      hx.devueltos⟩
    refine ⟨(hx.prestados a hmem).1, ?_⟩
    show heap a ≠ none
    rw [ha a (Or.inl hmem)]
    exact (hx.prestados a hmem).2

/-- **The linked queue is a FIFO list.** After any calls the links from `top` run
through finitely many nodes to `bottom` and end there; both pointers are NULL
just if the queue is empty; the entries are the reference list, and
`queue_dequeue` returned its first entry each time; the sum is that of the
entries; no node that can be reached from `top` is free, or in the hands of a
caller; and every further call goes through. -/
theorem queue_fifo {heap : Heap PendingRequest} {x : ColaEnUso}
    (hrun : Reaches step Permitido (inicio heap) x) :
    (∃ l : List (ℕ × PendingRequest),
        x.heap.Chain x.cola.top l ∧ l.map Prod.snd = x.referencia
          ∧ x.cola.bottom = (l.map Prod.fst).getLast?)
      ∧ (x.cola.top = none ↔ x.referencia = []) ∧ (x.cola.bottom = none ↔ x.referencia = [])
      ∧ (∀ b, x.cola.bottom = some b → ∃ p, x.heap b = some ⟨p, none⟩)
      ∧ x.cola.amount = sumAmount x.referencia
      ∧ x.devueltos = x.primeros
      ∧ (∀ l a, x.heap.Seg x.cola.top l (some a) → x.heap a ≠ none ∧ a ∉ x.prestados)
      ∧ ∀ a, x.Permitido a → (x.step a).isSome = true := by
  have hinv : ∃ l, Fiel x l := by
    refine hrun.invariant (I := fun x => ∃ l, Fiel x l) ?_ (fun u a v ⟨l, hu⟩ ha hv => ?_)
    · exact ⟨[], ColaEnlazada.representa_init heap, rfl, by simp [inicio], List.nodup_nil, rfl⟩
    · obtain ⟨y, hy, hfiel⟩ := hu.step ha
      obtain rfl := Option.some.inj (hy.symm.trans hv)
      exact hfiel
  obtain ⟨l, hx⟩ := hinv
  have hempty : x.referencia = [] ↔ l = [] := by rw [← hx.entradas, List.map_eq_nil_iff]
  refine ⟨⟨l, hx.representa.chain, hx.entradas, hx.representa.bottom⟩, ?_, ?_, fun b hb => ?_, ?_,
    hx.devueltos, fun m a hm => ?_, fun a ha => ?_⟩
  · rw [hx.representa.chain.eq_none_iff, hempty]
  · rw [hx.representa.bottom, last_eq_none_iff, hempty]
  · rcases eq_nil_or_concat l with rfl | ⟨m, c, p, rfl⟩
    · exact absurd (hx.representa.bottom.symm.trans hb) (by simp)
    · obtain rfl : c = b := by
        rw [hx.representa.bottom, last_concat] at hb
        exact Option.some.inj hb
      exact ⟨p, (seg_concat.mp hx.representa.chain).2⟩
  · rw [hx.representa.amount, hx.entradas]
  · have hmem : a ∈ addrs l := hx.representa.chain.mem_of_seg hm
    refine ⟨?_, fun ha => (hx.prestados a ha).1 hmem⟩
    obtain ⟨⟨b, v⟩, hb, rfl⟩ := List.mem_map.mp hmem
    obtain ⟨sig, hcell⟩ := hx.representa.chain.cell hb
    rw [hcell]
    simp
  · obtain ⟨y, hy, -⟩ := hx.step ha
    exact hy ▸ rfl

/-- Three requests, of which the middle one and then the first one go. -/
theorem queue_fifo_three :
    ∃ x, Reaches.trace step (inicio (fun _ => none))
        [.enqueue 8 1 2 4 .originRemote, .enqueue 3 2 1 5 .originRemote,
          .enqueue 6 3 1 4 .originLocal, .deleteByConn 5 3, .dequeue, .free 8] = some x
      ∧ (∃ l : List (ℕ × PendingRequest),
        x.heap.Chain x.cola.top l ∧ l.map Prod.snd = [⟨3, 1, 4, .originLocal⟩]
          ∧ x.cola.bottom = (l.map Prod.fst).getLast?)
      ∧ x.devueltos = [some ⟨1, 2, 4, .originRemote⟩] := by
  have hcheck : (Reaches.checked step (fun x a => match a with
        | .enqueue pending .. => (x.heap pending).isNone
        | .deleteByConn _ rounds | .deleteByJobId _ rounds => decide (x.referencia.length ≤ rounds)
        | .free a => x.prestados.contains a
        | .otros _ => false
        | _ => true) (inicio (fun _ => none))
      [.enqueue 8 1 2 4 .originRemote, .enqueue 3 2 1 5 .originRemote,
        .enqueue 6 3 1 4 .originLocal, .deleteByConn 5 3, .dequeue, .free 8]).any (fun x =>
      decide (x.referencia = [⟨3, 1, 4, .originLocal⟩]
        ∧ x.primeros = [some ⟨1, 2, 4, .originRemote⟩])) = true := by
    decide +kernel
  obtain ⟨x, htrace, hrun, hx⟩ := Reaches.of_checked (fun x a ha => show Permitido x a by
    cases a with
    | enqueue => exact Option.isNone_iff_eq_none.mp ha
    | deleteByConn conn rounds =>
      show x.referencia.length ≤ rounds
      exact of_decide_eq_true ha
    | deleteByJobId jobId rounds =>
      show x.referencia.length ≤ rounds
      exact of_decide_eq_true ha
    | free a =>
      show a ∈ x.prestados
      simpa using ha
    | otros => exact absurd ha (by simp)
    | init => trivial
    | dequeue => trivial) hcheck
  obtain ⟨hreferencia, hprimeros⟩ := of_decide_eq_true hx
  obtain ⟨hlist, -, -, -, -, hdevueltos, -⟩ := queue_fifo hrun
  exact ⟨x, htrace, hreferencia ▸ hlist, hdevueltos.trans hprimeros⟩

/-! ## The queue of the model -/

/-- The queue of the model with the reference list. -/
def abs (x : ColaEnUso) : ColaPendingRequest := ⟨x.referencia, sumAmount x.referencia, rfl⟩

/-- What a call does to the queue of the model. -/
def efecto : LlamadaCola → ColaPendingRequest → ColaPendingRequest
  | .init, _ => queueInit
  | .enqueue _ jobId amount conn origen, c => queueEnqueue c jobId amount conn origen
  | .dequeue, c => (queueDequeue c).2
  | .deleteByConn conn _, c => queueDeleteByConn c conn
  | .deleteByJobId jobId _, c => queueDeleteByJobId c jobId
  | .free _, c | .otros _, c => c

/-- **The linked queue refines the queue of the model**, operation by operation. -/
theorem abs_step {x y : ColaEnUso} {a : LlamadaCola} (h : x.step a = some y) :
    y.abs = efecto a x.abs := by
  apply ColaPendingRequest.ext
  cases a with
  | init =>
    obtain rfl := Option.some.inj h
    rfl
  | enqueue =>
    obtain ⟨_, -, h⟩ := Option.bind_eq_some_iff.mp h
    obtain rfl := Option.some.inj h
    rfl
  | dequeue =>
    obtain ⟨_, -, h⟩ := Option.bind_eq_some_iff.mp h
    obtain rfl := Option.some.inj h
    exact (nodos_queueDequeue x.abs).symm
  | deleteByConn =>
    obtain ⟨_, -, h⟩ := Option.bind_eq_some_iff.mp h
    obtain rfl := Option.some.inj h
    rfl
  | deleteByJobId =>
    obtain ⟨_, -, h⟩ := Option.bind_eq_some_iff.mp h
    obtain rfl := Option.some.inj h
    rfl
  | free =>
    obtain ⟨_, -, h⟩ := Option.bind_eq_some_iff.mp h
    obtain rfl := Option.some.inj h
    rfl
  | otros =>
    obtain rfl := Option.some.inj h
    rfl

end ColaEnUso

end Hpc
