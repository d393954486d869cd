import HpcAgent.Lib.Reaches
import HpcAgent.ResourceManager

/-!
# What the steps of the resource manager do

One small lemma per field and primitive operation, all in the simp set, so
that a proof about a handler never unfolds a primitive; then the functions
built from them: `reserveResource` by its three outcomes, and the loop of
`releaseResource` by an invariant rule (`serveQueue_invariant`) – what one
round preserves, the loop preserves.
-/

namespace Hpc

namespace Manager

/-- A call is always possible. -/
def step (s : Manager) (call : Call) : Option Manager := some (call.run s)

variable (s : Manager) (tipo t : Resource)

/-! ## The primitive operations, field by field -/

@[simp] theorem available_emit (e : Event) : (s.emit e).available t = s.available t := rfl

@[simp] theorem total_emit (e : Event) : (s.emit e).total t = s.total t := rfl

@[simp] theorem cola_emit (e : Event) : (s.emit e).cola t = s.cola t := rfl

@[simp] theorem recursos_emit (e : Event) : (s.emit e).recursos = s.recursos := rfl

@[simp] theorem tabla_emit (e : Event) : (s.emit e).tabla = s.tabla := rfl

@[simp] theorem jobs_emit (e : Event) : (s.emit e).jobs = s.jobs := rfl

@[simp] theorem conns_emit (e : Event) : (s.emit e).conns = s.conns := rfl

@[simp] theorem nodos_emit (e : Event) : (s.emit e).nodos = s.nodos := rfl

@[simp] theorem ip_emit (e : Event) : (s.emit e).ip = s.ip := rfl

@[simp] theorem log_emit (e : Event) : (s.emit e).log = s.log ++ [e] := rfl

@[simp] theorem available_setTabla (tabla : TablaJobs) :
    (s.setTabla tabla).available t = s.available t := rfl

@[simp] theorem total_setTabla (tabla : TablaJobs) :
    (s.setTabla tabla).total t = s.total t := rfl

@[simp] theorem cola_setTabla (tabla : TablaJobs) :
    (s.setTabla tabla).cola t = s.cola t := rfl

@[simp] theorem recursos_setTabla (tabla : TablaJobs) :
    (s.setTabla tabla).recursos = s.recursos := rfl

@[simp] theorem tabla_setTabla (tabla : TablaJobs) : (s.setTabla tabla).tabla = tabla := rfl

@[simp] theorem jobs_setTabla (tabla : TablaJobs) : (s.setTabla tabla).jobs = tabla.jobs := rfl

@[simp] theorem conns_setTabla (tabla : TablaJobs) : (s.setTabla tabla).conns = s.conns := rfl

@[simp] theorem nodos_setTabla (tabla : TablaJobs) : (s.setTabla tabla).nodos = s.nodos := rfl

@[simp] theorem ip_setTabla (tabla : TablaJobs) : (s.setTabla tabla).ip = s.ip := rfl

@[simp] theorem log_setTabla (tabla : TablaJobs) : (s.setTabla tabla).log = s.log := rfl

@[simp] theorem tabla_setRecurso (r : Recurso) : (s.setRecurso tipo r).tabla = s.tabla := rfl

@[simp] theorem jobs_setRecurso (r : Recurso) : (s.setRecurso tipo r).jobs = s.jobs := rfl

@[simp] theorem conns_setRecurso (r : Recurso) : (s.setRecurso tipo r).conns = s.conns := rfl

@[simp] theorem nodos_setRecurso (r : Recurso) : (s.setRecurso tipo r).nodos = s.nodos := rfl

@[simp] theorem ip_setRecurso (r : Recurso) : (s.setRecurso tipo r).ip = s.ip := rfl

@[simp] theorem log_setRecurso (r : Recurso) : (s.setRecurso tipo r).log = s.log := rfl

@[simp] theorem recursos_setRecurso (r : Recurso) :
    (s.setRecurso tipo r).recursos t = if t = tipo then r else s.recursos t :=
  Function.update_apply _ _ _ _

theorem available_setRecurso (r : Recurso) :
    (s.setRecurso tipo r).available t
      = if t = tipo then r.availableAmount else s.available t := by
  unfold available
  rw [recursos_setRecurso]
  split <;> rfl

theorem total_setRecurso (r : Recurso) :
    (s.setRecurso tipo r).total t = if t = tipo then r.totalAmount else s.total t := by
  unfold total
  rw [recursos_setRecurso]
  split <;> rfl

theorem cola_setRecurso (r : Recurso) :
    (s.setRecurso tipo r).cola t = if t = tipo then r.cola.nodos else s.cola t := by
  unfold cola
  rw [recursos_setRecurso]
  split <;> rfl

end Manager

section Primitives

variable (s : Manager) (t tipo : Resource) (conn : Conn) (msg : Message) (jobId : Int32)

@[simp] theorem available_sendMessage :
    (sendMessage conn msg s).available t = s.available t := rfl

@[simp] theorem total_sendMessage : (sendMessage conn msg s).total t = s.total t := rfl

@[simp] theorem cola_sendMessage : (sendMessage conn msg s).cola t = s.cola t := rfl

@[simp] theorem tabla_sendMessage : (sendMessage conn msg s).tabla = s.tabla := rfl

@[simp] theorem jobs_sendMessage : (sendMessage conn msg s).jobs = s.jobs := rfl

@[simp] theorem conns_sendMessage : (sendMessage conn msg s).conns = s.conns := rfl

@[simp] theorem nodos_sendMessage : (sendMessage conn msg s).nodos = s.nodos := rfl

@[simp] theorem ip_sendMessage : (sendMessage conn msg s).ip = s.ip := rfl

@[simp] theorem log_sendMessage :
    (sendMessage conn msg s).log = s.log ++ [.tx conn msg] := rfl

@[simp] theorem available_sendJobGranted :
    (sendJobGranted jobId conn s).available t = s.available t := rfl

@[simp] theorem total_sendJobGranted :
    (sendJobGranted jobId conn s).total t = s.total t := rfl

@[simp] theorem cola_sendJobGranted : (sendJobGranted jobId conn s).cola t = s.cola t := rfl

@[simp] theorem tabla_sendJobGranted : (sendJobGranted jobId conn s).tabla = s.tabla := rfl

@[simp] theorem jobs_sendJobGranted : (sendJobGranted jobId conn s).jobs = s.jobs := rfl

@[simp] theorem conns_sendJobGranted : (sendJobGranted jobId conn s).conns = s.conns := rfl

@[simp] theorem ip_sendJobGranted : (sendJobGranted jobId conn s).ip = s.ip := rfl

@[simp] theorem log_sendJobGranted :
    (sendJobGranted jobId conn s).log
      = s.log ++ [.completed jobId (tablaJobsBuscarPorId s.tabla jobId)]
        ++ [.tx conn (.jobGranted jobId)] := rfl

@[simp] theorem available_limpiarColasPorId :
    (limpiarColasPorId jobId s).available t = s.available t := rfl

@[simp] theorem total_limpiarColasPorId :
    (limpiarColasPorId jobId s).total t = s.total t := rfl

@[simp] theorem cola_limpiarColasPorId :
    (limpiarColasPorId jobId s).cola t
      = (s.cola t).filter (fun p => !(p.jobId == jobId)) := rfl

@[simp] theorem tabla_limpiarColasPorId : (limpiarColasPorId jobId s).tabla = s.tabla := rfl

@[simp] theorem jobs_limpiarColasPorId : (limpiarColasPorId jobId s).jobs = s.jobs := rfl

@[simp] theorem conns_limpiarColasPorId : (limpiarColasPorId jobId s).conns = s.conns := rfl

@[simp] theorem ip_limpiarColasPorId : (limpiarColasPorId jobId s).ip = s.ip := rfl

@[simp] theorem log_limpiarColasPorId : (limpiarColasPorId jobId s).log = s.log := rfl

@[simp] theorem available_limpiarColasPorConn :
    (limpiarColasPorConn conn s).available t = s.available t := rfl

@[simp] theorem total_limpiarColasPorConn :
    (limpiarColasPorConn conn s).total t = s.total t := rfl

@[simp] theorem cola_limpiarColasPorConn :
    (limpiarColasPorConn conn s).cola t
      = (s.cola t).filter (fun p => !(p.ownerConn == conn)) := rfl

@[simp] theorem tabla_limpiarColasPorConn :
    (limpiarColasPorConn conn s).tabla = s.tabla := rfl

@[simp] theorem jobs_limpiarColasPorConn : (limpiarColasPorConn conn s).jobs = s.jobs := rfl

@[simp] theorem log_limpiarColasPorConn : (limpiarColasPorConn conn s).log = s.log := rfl

end Primitives

/-! ## Reserving -/

/-- What `reserve_resource` does when the resource has enough. -/
def takeUnits (tipo : Resource) (p : PendingRequest) (s : Manager) : Manager :=
  (s.setRecurso tipo
    { s.recursos tipo with
      availableAmount := (s.recursos tipo).availableAmount - p.amount }).emit (.grant tipo p)

/-- What `reserve_resource` does when the request has to wait. -/
def enqueue (tipo : Resource) (p : PendingRequest) (s : Manager) : Manager :=
  s.setRecurso tipo
    { s.recursos tipo with
      cola := queueEnqueue (s.recursos tipo).cola p.jobId p.amount p.ownerConn p.origen }

/-- **`reserve_resource` grants, denies or enqueues.** -/
theorem reserveResource_cases (tipo : Resource) (amount jobId : Int32) (conn : Conn)
    (origen : Origin) (s : Manager) :
    (amount ≤ s.available tipo ∧ reserveResource tipo amount jobId conn origen s
        = (.granted, takeUnits tipo ⟨jobId, amount, conn, origen⟩ s))
      ∨ (¬amount ≤ s.available tipo ∧ s.total tipo < amount ∧
        reserveResource tipo amount jobId conn origen s = (.denied, s))
      ∨ (¬amount ≤ s.available tipo ∧ ¬s.total tipo < amount ∧
        reserveResource tipo amount jobId conn origen s
          = (.queued, enqueue tipo ⟨jobId, amount, conn, origen⟩ s)) := by
  by_cases hfits : amount ≤ s.available tipo
  · exact Or.inl ⟨hfits, if_pos hfits⟩
  · by_cases htotal : s.total tipo < amount
    · exact Or.inr (Or.inl ⟨hfits, htotal, (if_neg hfits).trans (if_pos htotal)⟩)
    · exact Or.inr (Or.inr ⟨hfits, htotal, (if_neg hfits).trans (if_neg htotal)⟩)

section Taking

variable (s : Manager) (t tipo : Resource) (p : PendingRequest)

@[simp] theorem available_takeUnits :
    (takeUnits tipo p s).available t
      = if t = tipo then s.available tipo - p.amount else s.available t :=
  Manager.available_setRecurso s tipo t _

@[simp] theorem total_takeUnits : (takeUnits tipo p s).total t = s.total t := by
  refine (Manager.total_setRecurso s tipo t _).trans ?_
  split
  · next h => rw [h]; rfl
  · rfl

@[simp] theorem cola_takeUnits : (takeUnits tipo p s).cola t = s.cola t := by
  refine (Manager.cola_setRecurso s tipo t _).trans ?_
  split
  · next h => rw [h]; rfl
  · rfl

@[simp] theorem tabla_takeUnits : (takeUnits tipo p s).tabla = s.tabla := rfl

@[simp] theorem jobs_takeUnits : (takeUnits tipo p s).jobs = s.jobs := rfl

@[simp] theorem conns_takeUnits : (takeUnits tipo p s).conns = s.conns := rfl

@[simp] theorem nodos_takeUnits : (takeUnits tipo p s).nodos = s.nodos := rfl

@[simp] theorem ip_takeUnits : (takeUnits tipo p s).ip = s.ip := rfl

@[simp] theorem log_takeUnits : (takeUnits tipo p s).log = s.log ++ [.grant tipo p] := rfl

@[simp] theorem available_enqueue : (enqueue tipo p s).available t = s.available t := by
  refine (Manager.available_setRecurso s tipo t _).trans ?_
  split
  · next h => rw [h]; rfl
  · rfl

@[simp] theorem total_enqueue : (enqueue tipo p s).total t = s.total t := by
  refine (Manager.total_setRecurso s tipo t _).trans ?_
  split
  · next h => rw [h]; rfl
  · rfl

@[simp] theorem cola_enqueue :
    (enqueue tipo p s).cola t = if t = tipo then s.cola tipo ++ [p] else s.cola t :=
  Manager.cola_setRecurso s tipo t _

@[simp] theorem tabla_enqueue : (enqueue tipo p s).tabla = s.tabla := rfl

@[simp] theorem jobs_enqueue : (enqueue tipo p s).jobs = s.jobs := rfl

@[simp] theorem conns_enqueue : (enqueue tipo p s).conns = s.conns := rfl

@[simp] theorem nodos_enqueue : (enqueue tipo p s).nodos = s.nodos := rfl

@[simp] theorem ip_enqueue : (enqueue tipo p s).ip = s.ip := rfl

@[simp] theorem log_enqueue : (enqueue tipo p s).log = s.log := rfl

end Taking

/-! ## Releasing -/

/-- The units of a release put back, before the loop. -/
def giveUnits (tipo : Resource) (amount : Int32) (s : Manager) : Manager :=
  s.setRecurso tipo
    { s.recursos tipo with
      availableAmount := (s.recursos tipo).availableAmount + amount }

/-- The answer to a request taken off the queue. -/
def answerTop (pending : PendingRequest) (s : Manager) : Manager :=
  match pending.origen with
  | .originRemote => sendMessage pending.ownerConn (.granted pending.jobId) s
  | .originLocal =>
    if tablaJobsVerificar s.tabla pending.jobId then
      sendJobGranted pending.jobId pending.ownerConn s
    else s

/-- The accounting of a request taken off the queue. -/
def popTop (tipo : Resource) (pending : PendingRequest) (s : Manager) : Manager :=
  (s.setRecurso tipo
    { s.recursos tipo with
      availableAmount := (s.recursos tipo).availableAmount - pending.amount
      cola := (queueDequeue (s.recursos tipo).cola).2 }).emit (.grant tipo pending)

/-- The allocation of a request taken off the queue. -/
def markTop (tipo : Resource) (pending : PendingRequest) (s : Manager) : Manager :=
  s.setTabla (tablaJobsCambioAlloc s.tabla pending.jobId pending.ownerConn tipo)

/-- **A round of the loop** accounts for the request, marks its allocation and
answers. -/
theorem dequeueTop_eq (tipo : Resource) (pending : PendingRequest) (s : Manager) :
    dequeueTop tipo pending s
      = answerTop pending (markTop tipo pending (popTop tipo pending s)) := rfl

/-- **The two ways a release ends**: ignored, or the units put back and the
queue served. -/
theorem releaseResource_eq (tipo : Resource) (amount : Int32) (s : Manager) :
    releaseResource tipo amount s
      = if 0 ≤ amount ∧ s.available tipo + amount ≤ s.total tipo then
          serveQueue tipo (s.cola tipo).length (giveUnits tipo amount s)
        else s := rfl

section Releasing

variable (s : Manager) (t tipo : Resource) (amount : Int32) (p : PendingRequest)

@[simp] theorem available_giveUnits :
    (giveUnits tipo amount s).available t
      = if t = tipo then s.available tipo + amount else s.available t :=
  Manager.available_setRecurso s tipo t _

@[simp] theorem total_giveUnits : (giveUnits tipo amount s).total t = s.total t := by
  refine (Manager.total_setRecurso s tipo t _).trans ?_
  split
  · next h => rw [h]; rfl
  · rfl

@[simp] theorem cola_giveUnits : (giveUnits tipo amount s).cola t = s.cola t := by
  refine (Manager.cola_setRecurso s tipo t _).trans ?_
  split
  · next h => rw [h]; rfl
  · rfl

@[simp] theorem tabla_giveUnits : (giveUnits tipo amount s).tabla = s.tabla := rfl

@[simp] theorem jobs_giveUnits : (giveUnits tipo amount s).jobs = s.jobs := rfl

@[simp] theorem conns_giveUnits : (giveUnits tipo amount s).conns = s.conns := rfl

@[simp] theorem ip_giveUnits : (giveUnits tipo amount s).ip = s.ip := rfl

@[simp] theorem log_giveUnits : (giveUnits tipo amount s).log = s.log := rfl

@[simp] theorem available_popTop :
    (popTop tipo p s).available t
      = if t = tipo then s.available tipo - p.amount else s.available t :=
  Manager.available_setRecurso s tipo t _

@[simp] theorem total_popTop : (popTop tipo p s).total t = s.total t := by
  refine (Manager.total_setRecurso s tipo t _).trans ?_
  split
  · next h => rw [h]; rfl
  · rfl

theorem cola_popTop {p : PendingRequest} {rest : List PendingRequest}
    (h : s.cola tipo = p :: rest) :
    (popTop tipo p s).cola t = if t = tipo then rest else s.cola t := by
  refine (Manager.cola_setRecurso s tipo t _).trans ?_
  rw [(queueDequeue_of_cons h).2]

@[simp] theorem tabla_popTop : (popTop tipo p s).tabla = s.tabla := rfl

@[simp] theorem jobs_popTop : (popTop tipo p s).jobs = s.jobs := rfl

@[simp] theorem conns_popTop : (popTop tipo p s).conns = s.conns := rfl

@[simp] theorem ip_popTop : (popTop tipo p s).ip = s.ip := rfl

@[simp] theorem log_popTop : (popTop tipo p s).log = s.log ++ [.grant tipo p] := rfl

@[simp] theorem available_answerTop : (answerTop p s).available t = s.available t := by
  unfold answerTop
  repeat' split
  all_goals rfl

@[simp] theorem total_answerTop : (answerTop p s).total t = s.total t := by
  unfold answerTop
  repeat' split
  all_goals rfl

@[simp] theorem cola_answerTop : (answerTop p s).cola t = s.cola t := by
  unfold answerTop
  repeat' split
  all_goals rfl

@[simp] theorem tabla_answerTop : (answerTop p s).tabla = s.tabla := by
  unfold answerTop
  repeat' split
  all_goals rfl

@[simp] theorem jobs_answerTop : (answerTop p s).jobs = s.jobs :=
  congrArg TablaJobs.jobs (tabla_answerTop s p)

@[simp] theorem conns_answerTop : (answerTop p s).conns = s.conns := by
  unfold answerTop
  repeat' split
  all_goals rfl

@[simp] theorem ip_answerTop : (answerTop p s).ip = s.ip := by
  unfold answerTop
  repeat' split
  all_goals rfl

end Releasing

/-! ## Ending a job -/

/-- Ending a job the table does not have changes nothing. -/
theorem tablaJobsRemove_of_none {s : Manager} {jobId : Int32}
    (h : tablaJobsBuscarPorId s.tabla jobId = none) : tablaJobsRemove jobId s = s := by
  unfold tablaJobsBuscarPorId at h
  unfold tablaJobsRemove tablaJobsExtractById
  rw [h]

/-- **Ending a job** unlinks it and frees its allocations. -/
theorem tablaJobsRemove_of_some {s : Manager} {jobId : Int32} {job : Job}
    (h : tablaJobsBuscarPorId s.tabla jobId = some job) :
    tablaJobsRemove jobId s
      = freeAllocations jobId job.confirmadas
          (s.setTabla (tablaJobsExtractById s.tabla jobId).2) := by
  unfold tablaJobsBuscarPorId at h
  unfold tablaJobsRemove tablaJobsExtractById
  rw [h]

theorem freeAllocation_of_held {a : Allocation} (h : a.held = true) (jobId : Int32)
    (s : Manager) : freeAllocation jobId a s = releaseHeld a s := if_pos h

theorem processJobRelease_of_none {s : Manager} {jobId : Int32}
    (h : tablaJobsBuscarPorId s.tabla jobId = none) : processJobRelease jobId s = s := by
  unfold tablaJobsBuscarPorId at h
  unfold processJobRelease tablaJobsExtractById
  rw [h]

theorem processJobRelease_of_some {s : Manager} {jobId : Int32} {job : Job}
    (h : tablaJobsBuscarPorId s.tabla jobId = some job) :
    processJobRelease jobId s
      = limpiarColasPorId jobId
          (job.confirmadas.foldl (fun s alloc => jobReleaseAllocation alloc s)
            (s.setTabla (tablaJobsExtractById s.tabla jobId).2)) := by
  unfold tablaJobsBuscarPorId at h
  unfold processJobRelease tablaJobsExtractById
  rw [h]

/-! ## The loop of `release_resource` -/

/-- **The invariant rule of the loop of `release_resource`**: what a round
preserves, on a state whose top request fits, the loop preserves. -/
theorem serveQueue_invariant {tipo : Resource} {P : Manager → Prop}
    (round : ∀ s top rest, s.cola tipo = top :: rest → top.amount ≤ s.available tipo →
      P s → P (dequeueTop tipo top s)) :
    ∀ (n : ℕ) (s : Manager), P s → P (serveQueue tipo n s) := by
  intro n
  induction n with
  | zero => exact fun s h => h
  | succ n ih =>
    intro s h
    rw [serveQueue]
    cases hc : s.cola tipo with
    | nil => exact h
    | cons top rest =>
      dsimp only
      split
      · next hfits => exact ih _ (round s top rest hc hfits h)
      · exact h

/-! ## The entries of a `JOB_REQUEST` -/

/-- The job with a local entry placed. -/
def Job.addLocal (job : Job) (head : ResourceRequest) (ip : CString) (r : Result) : Job :=
  { job with
    confirmadas := crearAllocation head.type head.amount .localAlloc ip job.jobId r job.conn
      :: job.confirmadas }

/-- The job with a remote entry pending. -/
def Job.addRemote (job : Job) (head : ResourceRequest) (conn : Conn)
    (msg : Option Message) : Job :=
  { job with
    pendientes := crearOutrequest head.ip conn head.type head.amount msg :: job.pendientes }

/-- The line that asks another node for an entry. -/
def ResourceRequest.reserve (head : ResourceRequest) (jobId : Int32) : Message :=
  .reserve jobId head.type head.amount

/-- The queue entry of a local entry. -/
def ResourceRequest.pending (head : ResourceRequest) (job : Job) : PendingRequest :=
  ⟨job.jobId, head.amount, job.conn, .originLocal⟩

/-- **A local entry is granted, queued or denied.** -/
theorem requestLocal_cases (head : ResourceRequest) (job : Job) (s : Manager) :
    (head.amount ≤ s.available head.type ∧ requestLocal head job s
        = (some (job.addLocal head s.ip .granted), takeUnits head.type (head.pending job) s))
      ∨ (¬head.amount ≤ s.available head.type ∧ ¬s.total head.type < head.amount ∧
        requestLocal head job s
          = (some (job.addLocal head s.ip .queued), enqueue head.type (head.pending job) s))
      ∨ (s.total head.type < head.amount ∧ requestLocal head job s = (none, s)) := by
  unfold requestLocal
  rcases reserveResource_cases head.type head.amount job.jobId job.conn .originLocal s with
    ⟨hfits, heq⟩ | ⟨-, htotal, heq⟩ | ⟨hfits, htotal, heq⟩
  · rw [heq]
    exact Or.inl ⟨hfits, rfl⟩
  · rw [heq]
    exact Or.inr (Or.inr ⟨htotal, rfl⟩)
  · rw [heq]
    exact Or.inr (Or.inl ⟨hfits, htotal, rfl⟩)

/-- **A remote entry is sent, waits for a connection, or fails.** -/
theorem requestRemote_cases (head : ResourceRequest) (red : Network) (job : Job)
    (s : Manager) :
    (∃ remote, tablaConnsLookup s.conns head.ip = some remote ∧
        requestRemote head red job s = (some (job.addRemote head remote none), red,
          sendMessage remote (head.reserve job.jobId) s))
      ∨ (∃ conn red', tablaConnsLookup s.conns head.ip = none
        ∧ tablaNodosGetPuerto s.nodos head.ip ≠ -1 ∧ red = some conn :: red' ∧
        requestRemote head red job s
          = (some (job.addRemote head conn (some (head.reserve job.jobId))), red',
            s.emit (.connecting head.ip conn)))
      ∨ (∃ red', tablaConnsLookup s.conns head.ip = none ∧
        requestRemote head red job s = (none, red', s)) := by
  unfold requestRemote
  cases hlookup : tablaConnsLookup s.conns head.ip with
  | some remote => exact Or.inl ⟨remote, rfl, rfl⟩
  | none =>
    refine Or.inr ?_
    dsimp only
    split
    · exact Or.inr ⟨red, rfl, rfl⟩
    · next hpuerto =>
      match red with
      | [] => exact Or.inr ⟨[], rfl, rfl⟩
      | none :: red => exact Or.inr ⟨red, rfl, rfl⟩
      | some conn :: red => exact Or.inl ⟨conn, red, rfl, hpuerto, rfl, rfl⟩

/-- **The invariant rule of the loop over the entries.** `P done red job s` speaks
of the entries placed so far, last one first, and of what the network still has in
store; each way of placing an entry keeps it. At the end all entries are placed, or
the loop stopped on the way. -/
theorem requestLoop_network {P : List ResourceRequest → Network → Job → Manager → Prop}
    (requests : List ResourceRequest)
    (granted : ∀ done red job s, ∀ head ∈ requests, head.ip = s.ip → P done red job s →
      head.amount ≤ s.available head.type →
      P (head :: done) red (job.addLocal head s.ip .granted)
        (takeUnits head.type (head.pending job) s))
    (queued : ∀ done red job s, ∀ head ∈ requests, head.ip = s.ip → P done red job s →
      ¬head.amount ≤ s.available head.type → ¬s.total head.type < head.amount →
      P (head :: done) red (job.addLocal head s.ip .queued)
        (enqueue head.type (head.pending job) s))
    (sent : ∀ done red job s, ∀ head ∈ requests, ∀ remote, head.ip ≠ s.ip →
      P done red job s → tablaConnsLookup s.conns head.ip = some remote →
      P (head :: done) red (job.addRemote head remote none)
        (sendMessage remote (head.reserve job.jobId) s))
    (connecting : ∀ done red job s, ∀ head ∈ requests, ∀ conn, head.ip ≠ s.ip →
      P done (some conn :: red) job s → tablaConnsLookup s.conns head.ip = none →
      tablaNodosGetPuerto s.nodos head.ip ≠ -1 →
      P (head :: done) red (job.addRemote head conn (some (head.reserve job.jobId)))
        (s.emit (.connecting head.ip conn)))
    (done : List ResourceRequest) (red : Network) (job : Job) (s : Manager)
    (h : P done red job s) :
    ((requestLoop requests red job s).1 = true ∧
        ∃ red', P (requests.reverse ++ done) red' (requestLoop requests red job s).2.1
          (requestLoop requests red job s).2.2)
      ∨ ((requestLoop requests red job s).1 = false ∧
        ∃ done' red', P done' red' (requestLoop requests red job s).2.1
          (requestLoop requests red job s).2.2) := by
  induction requests generalizing done red job s with
  | nil => exact Or.inl ⟨rfl, red, h⟩
  | cons head next ih =>
    have step := ih
      (fun done red job s r hr => granted done red job s r (List.mem_cons_of_mem head hr))
      (fun done red job s r hr => queued done red job s r (List.mem_cons_of_mem head hr))
      (fun done red job s r hr => sent done red job s r (List.mem_cons_of_mem head hr))
      (fun done red job s r hr => connecting done red job s r (List.mem_cons_of_mem head hr))
      (head :: done)
    rw [List.reverse_cons, List.append_assoc, requestLoop]
    by_cases hip : head.ip = s.ip
    · rw [if_pos hip]
      rcases requestLocal_cases head job s with
        ⟨hfits, heq⟩ | ⟨hfits, htotal, heq⟩ | ⟨-, heq⟩
      · rw [heq]
        exact step red _ _ (granted done red job s head List.mem_cons_self hip h hfits)
      · rw [heq]
        exact step red _ _ (queued done red job s head List.mem_cons_self hip h hfits htotal)
      · rw [heq]
        exact Or.inr ⟨rfl, done, red, h⟩
    · rw [if_neg hip]
      rcases requestRemote_cases head red job s with
        ⟨remote, hlookup, heq⟩ | ⟨conn, red', hlookup, hpuerto, hred, heq⟩ | ⟨red', -, heq⟩
      · rw [heq]
        exact step red _ _ (sent done red job s head List.mem_cons_self remote hip h hlookup)
      · rw [heq]
        rw [hred] at h
        exact step red' _ _
          (connecting done red' job s head List.mem_cons_self conn hip h hlookup hpuerto)
      · rw [heq]
        exact Or.inr ⟨rfl, done, red, h⟩

/-- The rule where the network does not matter. -/
theorem requestLoop_invariant {P : List ResourceRequest → Job → Manager → Prop}
    (requests : List ResourceRequest)
    (granted : ∀ done job s, ∀ head ∈ requests, head.ip = s.ip → P done job s →
      head.amount ≤ s.available head.type →
      P (head :: done) (job.addLocal head s.ip .granted)
        (takeUnits head.type (head.pending job) s))
    (queued : ∀ done job s, ∀ head ∈ requests, head.ip = s.ip → P done job s →
      ¬head.amount ≤ s.available head.type → ¬s.total head.type < head.amount →
      P (head :: done) (job.addLocal head s.ip .queued)
        (enqueue head.type (head.pending job) s))
    (sent : ∀ done job s, ∀ head ∈ requests, ∀ remote, head.ip ≠ s.ip → P done job s →
      tablaConnsLookup s.conns head.ip = some remote →
      P (head :: done) (job.addRemote head remote none)
        (sendMessage remote (head.reserve job.jobId) s))
    (connecting : ∀ done job s, ∀ head ∈ requests, ∀ conn, head.ip ≠ s.ip → P done job s →
      tablaConnsLookup s.conns head.ip = none →
      P (head :: done) (job.addRemote head conn (some (head.reserve job.jobId)))
        (s.emit (.connecting head.ip conn)))
    (done : List ResourceRequest) (red : Network) (job : Job) (s : Manager)
    (h : P done job s) :
    ((requestLoop requests red job s).1 = true ∧
        P (requests.reverse ++ done) (requestLoop requests red job s).2.1
          (requestLoop requests red job s).2.2)
      ∨ ((requestLoop requests red job s).1 = false ∧
        ∃ done', P done' (requestLoop requests red job s).2.1
          (requestLoop requests red job s).2.2) := by
  have hloop := requestLoop_network (P := fun done _ job s => P done job s) requests
    (fun done _ job s => granted done job s) (fun done _ job s => queued done job s)
    (fun done _ job s => sent done job s)
    (fun done _ job s head hhead conn hip h hlookup _ =>
      connecting done job s head hhead conn hip h hlookup) done red job s h
  rcases hloop with ⟨hend, -, h⟩ | ⟨hend, done', -, h⟩
  · exact Or.inl ⟨hend, h⟩
  · exact Or.inr ⟨hend, done', h⟩

/-- **`JOB_REQUEST` by its ends**: the job is there already, or the loop placed
all entries, or it stopped. -/
theorem processJobRequest_cases (conn : Conn) (jobId : Int32)
    (requests : List ResourceRequest) (red : Network) (s : Manager) :
    (∃ job, tablaJobsBuscarPorId s.tabla jobId = some job ∧
        processJobRequest conn jobId requests red s = s)
      ∨ (tablaJobsBuscarPorId s.tabla jobId = none ∧
        (requestLoop requests red ⟨jobId, conn, [], []⟩ s).1 = true ∧
        processJobRequest conn jobId requests red s
          = insertJob (requestLoop requests red ⟨jobId, conn, [], []⟩ s).2.1 requests
            (requestLoop requests red ⟨jobId, conn, [], []⟩ s).2.2)
      ∨ (tablaJobsBuscarPorId s.tabla jobId = none ∧
        (requestLoop requests red ⟨jobId, conn, [], []⟩ s).1 = false ∧
        processJobRequest conn jobId requests red s
          = rollbackJob (requestLoop requests red ⟨jobId, conn, [], []⟩ s).2.1
            (requestLoop requests red ⟨jobId, conn, [], []⟩ s).2.2) := by
  unfold processJobRequest
  cases hfind : tablaJobsBuscarPorId s.tabla jobId with
  | some job => exact Or.inl ⟨job, rfl, rfl⟩
  | none =>
    refine Or.inr ?_
    rw [Option.isSome_none, if_neg Bool.false_ne_true]
    obtain ⟨flag, job, s'⟩ := requestLoop requests red ⟨jobId, conn, [], []⟩ s
    cases flag
    · exact Or.inr ⟨rfl, rfl, rfl⟩
    · exact Or.inl ⟨rfl, rfl, rfl⟩

end Hpc
