import HpcAgent.Types

/-!
# The queue of pending requests

`pending_request.c`. The linked queue is the list of its entries from `top` to
`bottom`, with the running sum of their amounts that the C structure keeps
beside the two pointers; that the counter is the sum is a field, so every
operation proves it. The two deletions of the source are one deletion with
the test as a parameter.
-/

namespace Hpc

/-- The running sum of the amounts, in machine arithmetic. -/
def sumAmount (l : List PendingRequest) : Int32 := (l.map (·.amount)).sum

@[simp] theorem sumAmount_nil : sumAmount [] = 0 := rfl

@[simp] theorem sumAmount_cons (p : PendingRequest) (l : List PendingRequest) :
    sumAmount (p :: l) = p.amount + sumAmount l := by
  simp [sumAmount]

theorem sumAmount_concat (l : List PendingRequest) (p : PendingRequest) :
    sumAmount (l ++ [p]) = sumAmount l + p.amount := by
  induction l with
  | nil => simp
  | cons q l ih =>
    rw [List.cons_append, sumAmount_cons, sumAmount_cons, ih]
    grind

/-- What a test selects and what it leaves add up to the whole. -/
theorem sumAmount_filter_not (b : PendingRequest → Bool) (l : List PendingRequest) :
    sumAmount (l.filter (fun p => !b p)) = sumAmount l - sumAmount (l.filter b) := by
  induction l with
  | nil => simp
  | cons p l ih =>
    cases h : b p
    · rw [List.filter_cons_of_pos (by simp [h]),
        List.filter_cons_of_neg (by simp [h]), sumAmount_cons, sumAmount_cons, ih]
      grind
    · rw [List.filter_cons_of_neg (by simp [h]), List.filter_cons_of_pos h,
        sumAmount_cons, sumAmount_cons, ih]
      grind

/-- **`ColaPendingRequest`**: the entries from `top` to `bottom`, and the sum
of what they ask for. -/
structure ColaPendingRequest where
  /-- The chain of `sig` links from `top`. -/
  nodos : List PendingRequest
  /-- The amount asked for by the whole queue. -/
  amount : Int32
  /-- The counter is the sum of the entries. -/
  amount_eq : amount = sumAmount nodos

namespace ColaPendingRequest

/-- Two queues with the same entries are the same queue. -/
@[ext] theorem ext {c d : ColaPendingRequest} (h : c.nodos = d.nodos) : c = d := by
  obtain ⟨l, a, ha⟩ := c
  obtain ⟨m, b, hb⟩ := d
  obtain rfl : l = m := h
  obtain rfl : a = b := ha.trans hb.symm
  rfl

end ColaPendingRequest

/-- `queue_init`. -/
def queueInit : ColaPendingRequest := ⟨[], 0, rfl⟩

/-- `queue_is_empty`. -/
def queueIsEmpty (c : ColaPendingRequest) : Bool := c.nodos.isEmpty

/-- The loop of the two deletions: every entry the test selects is unlinked
and its amount taken off the counter. -/
def queueDelete (b : PendingRequest → Bool) (c : ColaPendingRequest) :
    ColaPendingRequest where
  nodos := c.nodos.filter (fun p => !b p)
  amount := c.amount - sumAmount (c.nodos.filter b)
  amount_eq := by rw [c.amount_eq, sumAmount_filter_not]

/-- `queue_delete_by_conn`. -/
def queueDeleteByConn (c : ColaPendingRequest) (conn : Conn) : ColaPendingRequest :=
  queueDelete (fun p => p.ownerConn == conn) c

/-- `queue_delete_by_job_id`. -/
def queueDeleteByJobId (c : ColaPendingRequest) (jobId : Int32) : ColaPendingRequest :=
  queueDelete (fun p => p.jobId == jobId) c

/-- `queue_enqueue`. The parameter `max_amount` of the source is not read, and
the result is always `true`. -/
def queueEnqueue (c : ColaPendingRequest) (jobId amount : Int32) (conn : Conn)
    (origen : Origin) : ColaPendingRequest where
  nodos := c.nodos ++ [⟨jobId, amount, conn, origen⟩]
  amount := c.amount + amount
  amount_eq := by rw [c.amount_eq, sumAmount_concat]

/-- `queue_dequeue`: the entry at the top, if any, and the queue without it. -/
def queueDequeue (c : ColaPendingRequest) :
    Option PendingRequest × ColaPendingRequest :=
  match h : c.nodos with
  | [] => (none, c)
  | p :: rest => (some p, ⟨rest, c.amount - p.amount, by
      rw [c.amount_eq, h, sumAmount_cons]; grind⟩)

@[simp] theorem nodos_queueInit : queueInit.nodos = [] := rfl

@[simp] theorem nodos_queueDeleteByConn (c : ColaPendingRequest) (conn : Conn) :
    (queueDeleteByConn c conn).nodos
      = c.nodos.filter (fun p => !(p.ownerConn == conn)) := rfl

@[simp] theorem nodos_queueDeleteByJobId (c : ColaPendingRequest) (jobId : Int32) :
    (queueDeleteByJobId c jobId).nodos
      = c.nodos.filter (fun p => !(p.jobId == jobId)) := rfl

@[simp] theorem nodos_queueEnqueue (c : ColaPendingRequest) (jobId amount : Int32)
    (conn : Conn) (origen : Origin) :
    (queueEnqueue c jobId amount conn origen).nodos
      = c.nodos ++ [⟨jobId, amount, conn, origen⟩] := rfl

theorem nodos_queueDequeue (c : ColaPendingRequest) :
    (queueDequeue c).2.nodos = c.nodos.tail := by
  unfold queueDequeue
  split
  · next h => rw [h, List.tail_nil]
  · next h => exact (congrArg List.tail h).symm

theorem queueDequeue_of_cons {c : ColaPendingRequest} {p : PendingRequest}
    {rest : List PendingRequest} (h : c.nodos = p :: rest) :
    (queueDequeue c).1 = some p ∧ (queueDequeue c).2.nodos = rest := by
  unfold queueDequeue
  split
  · next h' => rw [h] at h'; exact absurd h' (List.cons_ne_nil _ _)
  · next q r h' =>
    obtain ⟨rfl, rfl⟩ := List.cons.inj (h'.symm.trans h)
    exact ⟨rfl, rfl⟩

end Hpc
