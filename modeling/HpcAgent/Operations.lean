import HpcAgent.Lib.Turns
import HpcAgent.Answers

/-!
# What a call does to one resource

Whatever a handler does to a resource it does through three functions:
`reserve_resource`, `release_resource` and the two deletions of
`pending_request.c`. `Call.ops` lists the calls of these a handler makes for one
resource, in order, and `Fila` is the resource alone: its counter, its queue as a
line of numbered requests, and a record of who was served while who was waiting.
`hace_call` connects the two: run on the `Fila` of a resource, the operations of a
call leave the counter and the queue the call leaves, and serve the requests
the call grants.

So what the queues and counters do over a run can be proved on the `Fila`, one
lemma for each of the three operations.
-/

namespace Hpc

/-! ## One resource -/

/-- A call of one of the functions that touch a resource. -/
inductive Operacion
  /-- `reserve_resource` -/
  | reserve (p : PendingRequest)
  /-- `release_resource` -/
  | release (amount : Int32)
  /-- `queue_delete_by_job_id` or `queue_delete_by_conn` -/
  | delete (b : PendingRequest → Bool)

/-- A request served, by its number, and the numbers that were waiting then. -/
structure Atencion where
  turno : ℕ
  pedido : PendingRequest
  esperando : List ℕ
deriving DecidableEq

/-- **A resource alone**: what is free, what there is, the requests in line, and those
that were served. -/
structure Fila where
  disponible : Int32
  total : Int32
  linea : Line PendingRequest
  servidas : List Atencion

namespace Fila

/-- The requests in line. -/
def cola (f : Fila) : List PendingRequest := f.linea.waiting.map (·.2)

/-- `reserve_resource`. -/
def reserve (p : PendingRequest) (f : Fila) : Fila :=
  if p.amount ≤ f.disponible then
    { f with
      disponible := f.disponible - p.amount
      linea := f.linea.pass
      servidas := f.servidas ++ [⟨f.linea.next, p, f.linea.waiting.map (·.1)⟩] }
  else if f.total < p.amount then { f with linea := f.linea.pass }
  else { f with linea := f.linea.enter p }

/-- The loop of `release_resource`. -/
def serve : ℕ → Fila → Fila
  | 0, f => f
  | k + 1, f =>
    match f.linea.waiting with
    | [] => f
    | (n, p) :: rest =>
      if p.amount ≤ f.disponible then
        serve k { f with
          disponible := f.disponible - p.amount
          linea := f.linea.advance
          servidas := f.servidas ++ [⟨n, p, rest.map (·.1)⟩] }
      else f

/-- `release_resource`. -/
def release (amount : Int32) (f : Fila) : Fila :=
  if 0 ≤ amount ∧ f.disponible + amount ≤ f.total then
    serve f.linea.waiting.length { f with disponible := f.disponible + amount }
  else f

/-- The two deletions. -/
def delete (b : PendingRequest → Bool) (f : Fila) : Fila := { f with linea := f.linea.leave b }

end Fila

/-- What an operation makes of the resource. -/
def Operacion.apply : Operacion → Fila → Fila
  | .reserve p, f => f.reserve p
  | .release amount, f => f.release amount
  | .delete b, f => f.delete b

/-- What a list of operations makes of it. -/
def Fila.tras (f : Fila) (ops : List Operacion) : Fila := ops.foldl (fun f op => op.apply f) f

@[simp] theorem Fila.tras_nil (f : Fila) : f.tras [] = f := rfl

@[simp] theorem Fila.tras_cons (f : Fila) (op : Operacion) (ops : List Operacion) :
    f.tras (op :: ops) = (op.apply f).tras ops := rfl

@[simp] theorem Fila.tras_append (f : Fila) (ops ops' : List Operacion) :
    f.tras (ops ++ ops') = (f.tras ops).tras ops' :=
  List.foldl_append

/-! ## The operations of a call -/

section Ops

variable (t : Resource)

/-- The entries of a job. -/
def PendingRequest.deId (jobId : Int32) (p : PendingRequest) : Bool := p.jobId == jobId

/-- What `freeAllocation` does. -/
def Allocation.ops (a : Allocation) : List Operacion :=
  if a.held && a.name == t then [.release a.amount] else []

/-- What `tabla_jobs_remove` does. -/
def opsRemove (jobId : Int32) (s : Manager) : List Operacion :=
  match tablaJobsBuscarPorId s.tabla jobId with
  | none => []
  | some job => job.confirmadas.flatMap (Allocation.ops t)

/-- What `jobReleaseAllocation` does. -/
def Allocation.opsJobRelease (a : Allocation) : List Operacion :=
  if a.held then a.ops t else [.delete (PendingRequest.deId a.jobId)]

/-- What `JOB_RELEASE` does. -/
def opsJobRelease (jobId : Int32) (s : Manager) : List Operacion :=
  match tablaJobsBuscarPorId s.tabla jobId with
  | none => []
  | some job => job.confirmadas.flatMap (Allocation.opsJobRelease t)
      ++ [.delete (PendingRequest.deId jobId)]

/-- What `RELEASE` does first. -/
def releaseFirst (jobId : Int32) (type : Resource) (amount : Int32) (s : Manager) : Manager :=
  if amount ≠ 0 then releaseResource type amount (s.emit (.returned type jobId amount)) else s

/-- What `RELEASE` does. -/
def opsRelease (jobId : Int32) (type : Resource) (amount : Int32) (s : Manager) :
    List Operacion :=
  (if amount ≠ 0 ∧ type = t then [.release amount] else [])
    ++ opsRemove t jobId (releaseFirst jobId type amount s)
    ++ [.delete (PendingRequest.deId jobId)]

/-- What `DENIED` does. -/
def opsDenied (jobId : Int32) (s : Manager) : List Operacion :=
  opsRemove t jobId s ++ [.delete (PendingRequest.deId jobId)]

/-- What the loop over the entries of a `JOB_REQUEST` does. -/
def opsLoop : List ResourceRequest → Network → Job → Manager → List Operacion
  | [], _, _, _ => []
  | head :: next, red, nuevoJob, s =>
    if head.ip = s.ip then
      (if head.type = t then [.reserve (head.pending nuevoJob)] else [])
        ++ match requestLocal head nuevoJob s with
          | (none, _) => []
          | (some nuevoJob, s) => opsLoop next red nuevoJob s
    else
      match requestRemote head red nuevoJob s with
      | (none, _, _) => []
      | (some nuevoJob, red, s) => opsLoop next red nuevoJob s

/-- What the rollback does. -/
def opsRollback (job : Job) : List Operacion :=
  .delete (PendingRequest.deId job.jobId) :: job.confirmadas.flatMap (Allocation.ops t)

/-- What `JOB_REQUEST` does. -/
def opsJobRequest (conn : Conn) (jobId : Int32) (requests : List ResourceRequest)
    (red : Network) (s : Manager) : List Operacion :=
  if (tablaJobsBuscarPorId s.tabla jobId).isSome then []
  else opsLoop t requests red ⟨jobId, conn, [], []⟩ s
    ++ match requestLoop requests red ⟨jobId, conn, [], []⟩ s with
      | (true, _, _) => []
      | (false, job, _) => opsRollback t job

/-- What the branches of `process_message` do. -/
def opsHandle (conn : Conn) (red : Network) (msg : Message) (s : Manager) : List Operacion :=
  match msg with
  | .reserve jobId type amount =>
    if type = t then [.reserve ⟨jobId, amount, conn, .originRemote⟩] else []
  | .release jobId type amount => opsRelease t jobId type amount s
  | .denied jobId => opsDenied t jobId s
  | .jobRequest jobId requests => opsJobRequest t conn jobId requests red s
  | .jobRelease jobId => opsJobRelease t jobId s
  | .jobTimeout jobId => opsDenied t jobId s
  | .granted _ | .getNodes | .jobStatus _ | .jobGranted _ | .jobDenied _ | .jobStatusIs ..
  | .nodes _ | .garbage => []

/-- What the loss of a connection does to the jobs it takes. -/
def opsDrop (conn : Conn) (s : Manager) : List Operacion :=
  (tablaJobsExtractByRemoteConn s.tabla conn).1.flatMap (opsRollback t)

/-- **The operations of a call on one resource.** -/
def Call.ops (call : Call) (s : Manager) : List Operacion :=
  match call with
  | .message conn msg red =>
    match parseMessage msg with
    | none => []
    | some m => opsHandle t conn red m (s.emit (.rx conn m))
  | .failed conn => opsDrop t conn s
  | .disconnect conn => .delete (fun p => p.ownerConn == conn) :: opsDrop t conn s
  | .ready _ | .announce .. | .purge .. => []

theorem Call.ops_message_of_none {conn : Conn} {msg : CString} {red : Network} {s : Manager}
    (h : parseMessage msg = none) : (Call.message conn msg red).ops t s = [] := by
  rw [ops, h]

theorem Call.ops_message_of_some {conn : Conn} {msg : CString} {red : Network} {s : Manager}
    {m : Message} (h : parseMessage msg = some m) :
    (Call.message conn msg red).ops t s = opsHandle t conn red m (s.emit (.rx conn m)) := by
  rw [ops, h]

end Ops

/-! ## The operations do what the call does -/

/-- The requests for a resource that were granted. -/
def concesiones (t : Resource) (log : List Event) : List PendingRequest :=
  log.filterMap (fun e => match e with
    | .grant t' p => if t' = t then some p else none
    | _ => none)

/-- The event grants nothing. -/
def Event.mute : Event → Bool
  | .grant .. => false
  | _ => true

theorem concesiones_append (t : Resource) (log es : List Event) :
    concesiones t (log ++ es) = concesiones t log ++ concesiones t es :=
  List.filterMap_append

theorem concesiones_grant (t tipo : Resource) (p : PendingRequest) (log : List Event) :
    concesiones t (log ++ [.grant tipo p])
      = concesiones t log ++ if tipo = t then [p] else [] := by
  have hlast : concesiones t [.grant tipo p] = if tipo = t then [p] else [] := by
    by_cases ht : tipo = t
    · simp [concesiones, ht]
    · simp [concesiones, ht]
  rw [concesiones_append, hlast]

@[simp] theorem concesiones_mute (t : Resource) {e : Event} (he : e.mute = true)
    (log : List Event) : concesiones t (log ++ [e]) = concesiones t log := by
  rw [concesiones_append]
  cases e with
  | grant => exact absurd he Bool.false_ne_true
  | _ => exact List.append_nil _

theorem concesiones_append_mute (t : Resource) {es : List Event}
    (hes : ∀ e ∈ es, e.mute = true) (log : List Event) :
    concesiones t (log ++ es) = concesiones t log := by
  induction es generalizing log with
  | nil => rw [List.append_nil]
  | cons e es ih =>
    rw [List.append_cons, ih (fun e he => hes e (List.mem_cons_of_mem _ he)),
      concesiones_mute t (hes e List.mem_cons_self)]

/-- **The `Fila` of a resource**: counter and queue, and the requests served since the
grants `previas`. -/
structure Fila.Refleja (f : Fila) (previas : List PendingRequest) (s : Manager) (t : Resource) :
    Prop where
  disponible : f.disponible = s.available t
  total : f.total = s.total t
  cola : f.cola = s.cola t
  servidas : concesiones t s.log = previas ++ f.servidas.map (·.pedido)

/-- **A function makes these operations on the resource.** -/
def Hace (t : Resource) (ops : List Operacion) (s v : Manager) : Prop :=
  ∀ f previas, Fila.Refleja f previas s t → (f.tras ops).Refleja previas v t

namespace Hace

variable {t : Resource} {ops ops' : List Operacion} {s u v : Manager}

theorem refl (t : Resource) (s : Manager) : Hace t [] s s := fun _ _ h => h

theorem trans (h : Hace t ops s u) (h' : Hace t ops' u v) : Hace t (ops ++ ops') s v := by
  intro f previas hf
  rw [Fila.tras_append]
  exact h' _ _ (h f previas hf)

/-- The resource is left alone. -/
theorem of_same (ha : v.available t = s.available t) (ht : v.total t = s.total t)
    (hc : v.cola t = s.cola t) (hlog : concesiones t v.log = concesiones t s.log) :
    Hace t [] s v :=
  fun _ _ hf => ⟨hf.disponible.trans ha.symm, hf.total.trans ht.symm, hf.cola.trans hc.symm,
    hlog.trans hf.servidas⟩

theorem emit (h : Hace t ops s u) {e : Event} (he : e.mute = true) : Hace t ops s (u.emit e) := by
  intro f previas hf
  have hu := h f previas hf
  exact ⟨hu.disponible, hu.total, hu.cola, (concesiones_mute t he u.log).trans hu.servidas⟩

theorem of_emit {e : Event} (he : e.mute = true) (h : Hace t ops (s.emit e) u) :
    Hace t ops s u :=
  fun f previas hf => h f previas
    ⟨hf.disponible, hf.total, hf.cola, (concesiones_mute t he s.log).trans hf.servidas⟩

theorem sendMessage (h : Hace t ops s u) (conn : Conn) (msg : Message) :
    Hace t ops s (sendMessage conn msg u) := h.emit rfl

theorem sendJobGranted (h : Hace t ops s u) (jobId : Int32) (conn : Conn) :
    Hace t ops s (sendJobGranted jobId conn u) :=
  (h.emit (e := .completed jobId (tablaJobsBuscarPorId u.tabla jobId)) rfl).sendMessage conn _

theorem setTabla (tabla : TablaJobs) (h : Hace t ops (s.setTabla tabla) u) : Hace t ops s u :=
  fun f previas hf => h f previas ⟨hf.disponible, hf.total, hf.cola, hf.servidas⟩

/-- A loop whose rounds make these operations. -/
theorem foldl {α : Type} {g : Manager → α → Manager} {o : α → List Operacion}
    (round : ∀ s a, Hace t (o a) s (g s a)) (l : List α) (s : Manager) :
    Hace t (l.flatMap o) s (l.foldl g s) := by
  induction l generalizing s with
  | nil => exact refl t s
  | cons a l ih => exact (round s a).trans (ih (g s a))

end Hace

section Primitive

variable (t tipo : Resource)

theorem hace_takeUnits_of_ne (h : tipo ≠ t) (p : PendingRequest) (s : Manager) :
    Hace t [] s (takeUnits tipo p s) := by
  refine .of_same ?_ (total_takeUnits s t tipo p) (cola_takeUnits s t tipo p) ?_
  · rw [available_takeUnits, if_neg (Ne.symm h)]
  · rw [log_takeUnits, concesiones_grant, if_neg h, List.append_nil]

/-- **`reserve_resource`.** -/
theorem hace_reserveResource (amount jobId : Int32) (conn : Conn) (origen : Origin)
    (s : Manager) :
    Hace t (if tipo = t then [.reserve ⟨jobId, amount, conn, origen⟩] else []) s
      (reserveResource tipo amount jobId conn origen s).2 := by
  by_cases ht : tipo = t
  · subst ht
    rw [if_pos rfl]
    intro f previas hf
    show Fila.Refleja (f.reserve _) previas _ tipo
    unfold Fila.reserve
    rcases reserveResource_cases tipo amount jobId conn origen s with
      ⟨hfits, heq⟩ | ⟨hfits, htotal, heq⟩ | ⟨hfits, htotal, heq⟩
    all_goals rw [← hf.disponible] at hfits
    · rw [heq, if_pos hfits]
      refine ⟨?_, hf.total.trans (total_takeUnits s tipo tipo _).symm,
        hf.cola.trans (cola_takeUnits s tipo tipo _).symm, ?_⟩
      · rw [available_takeUnits, if_pos rfl, ← hf.disponible]
      · rw [log_takeUnits, concesiones_grant, if_pos rfl, hf.servidas, List.map_append,
          List.append_assoc]
        rfl
    · rw [heq, if_neg hfits, if_pos (hf.total ▸ htotal)]
      exact ⟨hf.disponible, hf.total, hf.cola, hf.servidas⟩
    · rw [heq, if_neg hfits, if_neg (hf.total ▸ htotal)]
      refine ⟨hf.disponible.trans (available_enqueue s tipo tipo _).symm,
        hf.total.trans (total_enqueue s tipo tipo _).symm, ?_, hf.servidas⟩
      show (f.linea.enter _).waiting.map (·.2) = _
      rw [Line.map_enter, cola_enqueue, if_pos rfl, ← hf.cola]
      rfl
  · rw [if_neg ht]
    rcases reserveResource_cases tipo amount jobId conn origen s with
      ⟨-, heq⟩ | ⟨-, -, heq⟩ | ⟨-, -, heq⟩
    · rw [heq]
      exact hace_takeUnits_of_ne t tipo ht _ s
    · rw [heq]
      exact .refl t s
    · rw [heq]
      refine .of_same (available_enqueue s t tipo _) (total_enqueue s t tipo _) ?_ rfl
      rw [cola_enqueue, if_neg (Ne.symm ht)]

theorem log_answerTop_mute (p : PendingRequest) (s : Manager) :
    concesiones t (answerTop p s).log = concesiones t s.log := by
  unfold answerTop
  split
  · exact concesiones_mute t rfl s.log
  · split
    · rw [log_sendJobGranted, concesiones_mute t rfl, concesiones_mute t rfl]
    · rfl

theorem concesiones_dequeueTop (p : PendingRequest) (s : Manager) :
    concesiones t (dequeueTop tipo p s).log
      = concesiones t s.log ++ if tipo = t then [p] else [] := by
  rw [dequeueTop_eq, log_answerTop_mute, markTop, Manager.log_setTabla, log_popTop,
    concesiones_grant]

/-- **The loop of `release_resource`.** -/
theorem refleja_serveQueue (n : ℕ) {f : Fila} {previas : List PendingRequest} {s : Manager}
    (hf : f.Refleja previas s t) : (f.serve n).Refleja previas (serveQueue t n s) t := by
  induction n generalizing f s with
  | zero => exact hf
  | succ n ih =>
    rw [serveQueue, Fila.serve]
    have hcola := hf.cola
    unfold Fila.cola at hcola
    cases hw : f.linea.waiting with
    | nil =>
      rw [hw] at hcola
      rw [← hcola]
      exact hf
    | cons x rest =>
      rw [hw, List.map_cons] at hcola
      rw [← hcola]
      dsimp only
      rw [hf.disponible]
      split
      · refine ih ⟨?_, ?_, ?_, ?_⟩
        · rw [available_dequeueTop, if_pos rfl]
        · exact hf.total.trans (total_dequeueTop s t t x.2).symm
        · rw [cola_dequeueTop s t t hcola.symm, if_pos rfl]
          show f.linea.advance.waiting.map (·.2) = _
          rw [Line.map_advance, hw, List.map_cons, List.tail_cons]
        · rw [concesiones_dequeueTop, if_pos rfl, hf.servidas, List.map_append, List.append_assoc]
          rfl
      · exact hf

/-- **`release_resource`.** -/
theorem hace_releaseResource (amount : Int32) (s : Manager) :
    Hace t (if tipo = t then [.release amount] else []) s (releaseResource tipo amount s) := by
  rw [releaseResource_eq]
  by_cases ht : tipo = t
  · subst ht
    rw [if_pos rfl]
    intro f previas hf
    show Fila.Refleja (f.release amount) previas _ tipo
    unfold Fila.release
    rw [hf.disponible, hf.total]
    split
    · have hlength : f.linea.waiting.length = (s.cola tipo).length := by
        rw [← hf.cola, Fila.cola, List.length_map]
      rw [hlength]
      refine refleja_serveQueue tipo _ ⟨?_, ?_, ?_, hf.servidas⟩
      · rw [available_giveUnits, if_pos rfl]
      · rw [total_giveUnits]
      · rw [cola_giveUnits]
        exact hf.cola
    · exact hf
  · rw [if_neg ht]
    split
    · refine serveQueue_invariant (P := fun u => Hace t [] s u) (fun u top rest hc _ hu => ?_) _ _
        (.of_same ?_ (total_giveUnits s t tipo amount) (cola_giveUnits s t tipo amount) rfl)
      · refine hu.trans (.of_same ?_ (total_dequeueTop u tipo t top) ?_ ?_)
        · rw [available_dequeueTop, if_neg (Ne.symm ht)]
        · rw [cola_dequeueTop u tipo t hc, if_neg (Ne.symm ht)]
        · rw [concesiones_dequeueTop, if_neg ht, List.append_nil]
      · rw [available_giveUnits, if_neg (Ne.symm ht)]
    · exact .refl t s

theorem hace_limpiarColasPorId (jobId : Int32) (s : Manager) :
    Hace t [.delete (PendingRequest.deId jobId)] s (limpiarColasPorId jobId s) := by
  refine fun f previas hf => ⟨hf.disponible, hf.total, ?_, hf.servidas⟩
  show (f.linea.leave _).waiting.map (·.2) = _
  rw [Line.map_leave, cola_limpiarColasPorId, ← hf.cola]
  rfl

theorem hace_limpiarColasPorConn (conn : Conn) (s : Manager) :
    Hace t [.delete (fun p => p.ownerConn == conn)] s (limpiarColasPorConn conn s) := by
  refine fun f previas hf => ⟨hf.disponible, hf.total, ?_, hf.servidas⟩
  show (f.linea.leave _).waiting.map (·.2) = _
  rw [Line.map_leave, cola_limpiarColasPorConn, ← hf.cola]
  rfl

end Primitive

section Teardown

variable (t : Resource)

theorem hace_releaseHeld (a : Allocation) (s : Manager) :
    Hace t (if a.name = t then [.release a.amount] else []) s (releaseHeld a s) :=
  .of_emit rfl (hace_releaseResource t a.name a.amount (s.emit _))

theorem hace_freeAllocation (jobId : Int32) (a : Allocation) (s : Manager) :
    Hace t (a.ops t) s (freeAllocation jobId a s) := by
  unfold freeAllocation Allocation.ops
  cases hheld : a.held with
  | true =>
    rw [if_pos rfl, Bool.true_and]
    simpa only [beq_iff_eq] using hace_releaseHeld t a s
  | false =>
    rw [if_neg Bool.false_ne_true, Bool.false_and, if_neg Bool.false_ne_true]
    split
    · split
      · exact .emit (.refl t s) rfl
      · exact .refl t s
    · exact .refl t s

theorem hace_freeAllocations (jobId : Int32) (l : List Allocation) (s : Manager) :
    Hace t (l.flatMap (Allocation.ops t)) s (freeAllocations jobId l s) :=
  .foldl (fun s a => hace_freeAllocation t jobId a s) l s

/-- **`tabla_jobs_remove`.** -/
theorem hace_tablaJobsRemove (jobId : Int32) (s : Manager) :
    Hace t (opsRemove t jobId s) s (tablaJobsRemove jobId s) := by
  unfold opsRemove
  cases hfind : tablaJobsBuscarPorId s.tabla jobId with
  | none =>
    rw [tablaJobsRemove_of_none hfind]
    exact .refl t s
  | some job =>
    rw [tablaJobsRemove_of_some hfind]
    exact .setTabla _ (hace_freeAllocations t jobId job.confirmadas _)

theorem hace_jobReleaseAllocation (a : Allocation) (s : Manager) :
    Hace t (a.opsJobRelease t) s (jobReleaseAllocation a s) := by
  unfold jobReleaseAllocation Allocation.opsJobRelease
  have hfirst : Hace t (if a.held then a.ops t else [.delete (PendingRequest.deId a.jobId)]) s
      (if a.held then releaseHeld a s else limpiarColasPorId a.jobId s) := by
    unfold Allocation.ops
    cases hheld : a.held with
    | true => simpa using hace_releaseHeld t a s
    | false => exact hace_limpiarColasPorId t a.jobId s
  dsimp only
  cases a.type with
  | remoteAlloc => exact hfirst.sendMessage a.conn _
  | localAlloc => exact hfirst

/-- **`JOB_RELEASE`.** -/
theorem hace_processJobRelease (jobId : Int32) (s : Manager) :
    Hace t (opsJobRelease t jobId s) s (processJobRelease jobId s) := by
  unfold opsJobRelease
  cases hfind : tablaJobsBuscarPorId s.tabla jobId with
  | none =>
    rw [processJobRelease_of_none hfind]
    exact .refl t s
  | some job =>
    rw [processJobRelease_of_some hfind]
    exact .trans (.setTabla _ (.foldl (fun s a => hace_jobReleaseAllocation t a s)
      job.confirmadas _)) (hace_limpiarColasPorId t jobId _)

/-- **`RELEASE`.** -/
theorem hace_processRelease (jobId : Int32) (type : Resource) (amount : Int32) (s : Manager) :
    Hace t (opsRelease t jobId type amount s) s (processRelease jobId type amount s) := by
  have hfirst : Hace t (if amount ≠ 0 ∧ type = t then [.release amount] else []) s
      (releaseFirst jobId type amount s) := by
    unfold releaseFirst
    by_cases hamount : amount ≠ 0
    · rw [if_pos hamount]
      simpa only [hamount, ne_eq, not_false_eq_true, true_and] using
        Hace.of_emit (by rfl) (hace_releaseResource t type amount
          (s.emit (.returned type jobId amount)))
    · rw [if_neg hamount, if_neg (fun h => hamount h.1)]
      exact .refl t s
  exact (hfirst.trans (hace_tablaJobsRemove t jobId _)).trans (hace_limpiarColasPorId t jobId _)

/-- **`DENIED`.** -/
theorem hace_processDenied (jobId : Int32) (s : Manager) :
    Hace t (opsDenied t jobId s) s (processDenied jobId s) := by
  refine .trans ?_ (hace_limpiarColasPorId t jobId _)
  have howner : tablaJobsGetConn s.tabla jobId
      = (tablaJobsBuscarPorId s.tabla jobId).map (·.conn) := rfl
  rw [howner]
  cases hfind : tablaJobsBuscarPorId s.tabla jobId with
  | none =>
    unfold opsRemove
    rw [hfind]
    exact .refl t s
  | some job => exact (hace_tablaJobsRemove t jobId s).sendMessage job.conn _

/-- **`JOB_TIMEOUT`.** -/
theorem hace_processJobTimeout (jobId : Int32) (s : Manager) :
    Hace t (opsDenied t jobId s) s (processJobTimeout jobId s) :=
  (hace_tablaJobsRemove t jobId s).trans (hace_limpiarColasPorId t jobId _)

theorem hace_rollback (job : Job) (s : Manager) :
    Hace t (opsRollback t job) s
      (freeAllocations job.jobId job.confirmadas (limpiarColasPorId job.jobId s)) :=
  (hace_limpiarColasPorId t job.jobId s).trans
    (hace_freeAllocations t job.jobId job.confirmadas _)

theorem hace_dropJobs (conn : Conn) (s : Manager) :
    Hace t (opsDrop t conn s) s (dropJobs conn s) :=
  .setTabla _ (.foldl (fun s job => hace_rollback t job s) _ _)

end Teardown

section Handlers

variable (t : Resource)

/-- **`RESERVE`.** -/
theorem hace_processReserve (conn : Conn) (jobId : Int32) (type : Resource) (amount : Int32)
    (s : Manager) :
    Hace t (if type = t then [.reserve ⟨jobId, amount, conn, .originRemote⟩] else []) s
      (processReserve conn jobId type amount s) := by
  have h := hace_reserveResource t type amount jobId conn .originRemote s
  unfold processReserve
  rcases hres : reserveResource type amount jobId conn .originRemote s with ⟨r, u⟩
  rw [hres] at h
  cases r with
  | granted => exact Hace.sendMessage h conn _
  | queued => exact h
  | denied => exact Hace.sendMessage h conn _

/-- **`GRANTED`.** -/
theorem hace_processGranted (conn : Conn) (jobId : Int32) (s : Manager) :
    Hace t [] s (processGranted conn jobId s) := by
  unfold processGranted
  split
  · exact .refl t s
  · split
    · exact (((Hace.refl t s).sendMessage conn _).sendMessage conn _).sendMessage conn _
    · dsimp only
      split
      · exact .setTabla _ ((Hace.refl t _).sendJobGranted jobId _)
      · exact .setTabla _ (.refl t _)

theorem hace_requestLoop (requests : List ResourceRequest) (red : Network) (job : Job)
    (s : Manager) :
    Hace t (opsLoop t requests red job s) s (requestLoop requests red job s).2.2 := by
  induction requests generalizing red job s with
  | nil => exact .refl t s
  | cons head next ih =>
    rw [opsLoop, requestLoop]
    by_cases hip : head.ip = s.ip
    · rw [if_pos hip, if_pos hip]
      have hlocal : Hace t (if head.type = t then [.reserve (head.pending job)] else []) s
          (requestLocal head job s).2 := by
        have h := hace_reserveResource t head.type head.amount job.jobId job.conn .originLocal s
        unfold requestLocal
        rcases hres : reserveResource head.type head.amount job.jobId job.conn .originLocal s
          with ⟨r, u⟩
        rw [hres] at h
        cases r with
        | granted => exact h
        | queued => exact h
        | denied => exact h
      rcases hreq : requestLocal head job s with ⟨_ | job', u⟩
      · rw [hreq] at hlocal
        dsimp only
        rw [List.append_nil]
        exact hlocal
      · rw [hreq] at hlocal
        exact hlocal.trans (ih red job' u)
    · rw [if_neg hip, if_neg hip]
      have hremote : Hace t [] s (requestRemote head red job s).2.2 := by
        rcases requestRemote_cases head red job s with
          ⟨remote, -, heq⟩ | ⟨conn, red', -, -, -, heq⟩ | ⟨red', -, heq⟩
        · rw [heq]
          exact (Hace.refl t s).sendMessage remote _
        · rw [heq]
          exact (Hace.refl t s).emit (e := .connecting head.ip conn) rfl
        · rw [heq]
          exact .refl t s
      rcases hreq : requestRemote head red job s with ⟨_ | job', red', u⟩
      · rw [hreq] at hremote
        exact hremote
      · rw [hreq] at hremote
        exact hremote.trans (ih red' job' u)

theorem hace_insertJob (job : Job) (requests : List ResourceRequest) (s : Manager) :
    Hace t [] s (insertJob job requests s) := by
  unfold insertJob
  dsimp only
  split
  · exact .setTabla _ (((Hace.refl t _).emit (e := .inserted job requests) rfl).sendJobGranted
      job.jobId job.conn)
  · exact .setTabla _ ((Hace.refl t _).emit (e := .inserted job requests) rfl)

/-- **`JOB_REQUEST`.** -/
theorem hace_processJobRequest (conn : Conn) (jobId : Int32) (requests : List ResourceRequest)
    (red : Network) (s : Manager) :
    Hace t (opsJobRequest t conn jobId requests red s) s
      (processJobRequest conn jobId requests red s) := by
  unfold opsJobRequest processJobRequest
  split
  · exact .refl t s
  · have hloop := hace_requestLoop t requests red ⟨jobId, conn, [], []⟩ s
    rcases hend : requestLoop requests red ⟨jobId, conn, [], []⟩ s with ⟨flag, job, u⟩
    rw [hend] at hloop
    refine hloop.trans ?_
    cases flag with
    | false => exact (hace_rollback t job u).sendMessage job.conn _
    | true => exact hace_insertJob t job requests u

/-- **The operations of a call do to the resource what the call does.** -/
theorem hace_call (call : Call) (s : Manager) : Hace t (call.ops t s) s (call.run s) := by
  cases call with
  | message conn msg red =>
    show Hace t (match parseMessage msg with
      | none => []
      | some m => opsHandle t conn red m (s.emit (.rx conn m))) s (processMessage conn msg red s)
    unfold processMessage
    cases parseMessage msg with
    | none => exact .refl t s
    | some m =>
      refine .of_emit (e := .rx conn m) rfl ?_
      cases m with
      | reserve jobId type amount => exact hace_processReserve t conn jobId type amount _
      | release jobId type amount => exact hace_processRelease t jobId type amount _
      | granted jobId => exact hace_processGranted t conn jobId _
      | denied jobId => exact hace_processDenied t jobId _
      | jobRequest jobId requests => exact hace_processJobRequest t conn jobId requests red _
      | getNodes => exact (Hace.refl t _).sendMessage conn _
      | jobRelease jobId => exact hace_processJobRelease t jobId _
      | jobStatus jobId => exact (Hace.refl t _).sendMessage conn _
      | jobTimeout jobId => exact hace_processJobTimeout t jobId _
      | _ => exact .refl t _
  | ready conn =>
    show Hace t [] s (processConnectionReady conn s)
    obtain ⟨conns, heq⟩ := processConnectionReady_eq s conn
    rw [heq]
    refine .of_same rfl rfl rfl (concesiones_append_mute t (fun e he => ?_) s.log)
    obtain ⟨req, -, rfl⟩ := List.mem_map.mp he
    rfl
  | failed conn => exact hace_dropJobs t conn s
  | disconnect conn =>
    show Hace t (.delete _ :: opsDrop t conn s) s (processDisconnect conn s)
    have hdrop := (hace_limpiarColasPorConn t conn s).trans (hace_dropJobs t conn _)
    exact fun f previas hf =>
      have h := hdrop f previas hf
      ⟨h.disponible, h.total, h.cola, h.servidas⟩
  | announce now ipSender msg =>
    show Hace t [] s (processAnnounce now ipSender msg s)
    unfold processAnnounce
    split
    · exact .refl t s
    · exact .of_same rfl rfl rfl rfl
  | purge now timeout => exact .of_same rfl rfl rfl rfl

end Handlers

end Hpc
