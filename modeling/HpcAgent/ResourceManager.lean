import HpcAgent.Lib.Fitting
import HpcAgent.PendingRequest
import HpcAgent.TablaConns
import HpcAgent.TablaJobs
import HpcAgent.Parsing

/-!
# The resource manager

`resource_manager.c`, with the functions of `tabla_jobs.c` that release
resources. A handler is a function of the manager's state that runs to its
end: the mutexes the source takes on the way are not part of this model.

Three things come from outside. `connect_remote_node` may fail, so a call of
`process_message` carries the results its connection attempts will have
(`Network`), taken in order. Time is an argument of the functions that read the
clock. And the log only grows: the last field records what a run sent, received,
granted and gave back, and no function reads it.
-/

namespace Hpc

/-- `Recurso`. -/
structure Recurso where
  availableAmount : Int32
  totalAmount : Int32
  cola : ColaPendingRequest

/-- The static state of `resource_manager.c`: `manager`, `conns`, `g_ip`, the
node table, and what the run has recorded. -/
structure Manager where
  recursos : Resource → Recurso
  tabla : TablaJobs
  conns : TablaConns
  nodos : TablaNodos
  ip : CString
  log : List Event

/-- What the next calls of `connect_remote_node` return. -/
abbrev Network := List (Option Conn)

namespace Manager

/-- The entries waiting for a resource, from the head. -/
def cola (s : Manager) (tipo : Resource) : List PendingRequest :=
  (s.recursos tipo).cola.nodos

/-- What is free of a resource. -/
def available (s : Manager) (tipo : Resource) : Int32 :=
  (s.recursos tipo).availableAmount

/-- What the node has of a resource. -/
def total (s : Manager) (tipo : Resource) : Int32 := (s.recursos tipo).totalAmount

/-- The jobs of the table. -/
def jobs (s : Manager) : List Job := s.tabla.jobs

/-- One resource replaced. -/
def setRecurso (s : Manager) (tipo : Resource) (r : Recurso) : Manager :=
  { s with recursos := Function.update s.recursos tipo r }

/-- The job table replaced. -/
def setTabla (s : Manager) (t : TablaJobs) : Manager := { s with tabla := t }

/-- An event recorded. -/
def emit (s : Manager) (e : Event) : Manager := { s with log := s.log ++ [e] }

end Manager

/-- `manager_init` and `manager_set_ip`. -/
def managerInit (cpu mem gpu : Int32) (ip : CString) : Manager where
  recursos tipo := match tipo with
    | .cpu => ⟨cpu, cpu, queueInit⟩
    | .mem => ⟨mem, mem, queueInit⟩
    | .gpu => ⟨gpu, gpu, queueInit⟩
  tabla := tablaJobsInit
  conns := tablaConnsInit
  nodos := tablaNodosInit
  ip := copyTo 16 ip
  log := []

/-- `send_message`, and `enqueue_write` where it is called directly. -/
def sendMessage (conn : Conn) (msg : Message) (s : Manager) : Manager :=
  s.emit (.tx conn msg)

/-- `send_message(conn, …, "JOB_GRANTED %d\n", job_id)`. The job it is about is
recorded as the table has it at that moment. -/
def sendJobGranted (jobId : Int32) (conn : Conn) (s : Manager) : Manager :=
  sendMessage conn (.jobGranted jobId)
    (s.emit (.completed jobId (tablaJobsBuscarPorId s.tabla jobId)))

/-- `limpiar_colas_por_id`. -/
def limpiarColasPorId (jobId : Int32) (s : Manager) : Manager :=
  { s with
    recursos := fun tipo => { s.recursos tipo with
      cola := queueDeleteByJobId (s.recursos tipo).cola jobId } }

/-- `limpiar_colas_por_conn`. -/
def limpiarColasPorConn (conn : Conn) (s : Manager) : Manager :=
  { s with
    recursos := fun tipo => { s.recursos tipo with
      cola := queueDeleteByConn (s.recursos tipo).cola conn } }

/-! ## Reserving and releasing -/

/-- `reserve_resource`. `queue_enqueue` never fails, so the last branch of the
source is not reached. -/
def reserveResource (tipo : Resource) (amount jobId : Int32) (conn : Conn)
    (origen : Origin) (s : Manager) : Result × Manager :=
  let r := s.recursos tipo
  if amount ≤ r.availableAmount then
    (.granted, (s.setRecurso tipo
      { r with availableAmount := r.availableAmount - amount }).emit
        (.grant tipo ⟨jobId, amount, conn, origen⟩))
  else if r.totalAmount < amount then (.denied, s)
  else (.queued, s.setRecurso tipo
    { r with cola := queueEnqueue r.cola jobId amount conn origen })

/-- One round of the loop of `release_resource`, on the entry at the top of
the queue. -/
def dequeueTop (tipo : Resource) (pending : PendingRequest) (s : Manager) : Manager :=
  let r := s.recursos tipo
  let s := (s.setRecurso tipo
    { r with
      availableAmount := r.availableAmount - pending.amount
      cola := (queueDequeue r.cola).2 }).emit (.grant tipo pending)
  let s := s.setTabla (tablaJobsCambioAlloc s.tabla pending.jobId pending.ownerConn tipo)
  match pending.origen with
  | .originRemote => sendMessage pending.ownerConn (.granted pending.jobId) s
  | .originLocal =>
    if tablaJobsVerificar s.tabla pending.jobId then
      sendJobGranted pending.jobId pending.ownerConn s
    else s

/-- The loop of `release_resource`: while the queue is not empty and its top
fits, for at most that many rounds. -/
def serveQueue (tipo : Resource) : ℕ → Manager → Manager
  | 0, s => s
  | n + 1, s =>
    match s.cola tipo with
    | [] => s
    | top :: _ =>
      if top.amount ≤ s.available tipo then serveQueue tipo n (dequeueTop tipo top s)
      else s

/-- `release_resource`. Every round of the loop shortens the queue, so its
length bounds the rounds. -/
def releaseResource (tipo : Resource) (amount : Int32) (s : Manager) : Manager :=
  let r := s.recursos tipo
  if 0 ≤ amount ∧ r.availableAmount + amount ≤ r.totalAmount then
    serveQueue tipo (s.cola tipo).length
      (s.setRecurso tipo { r with availableAmount := r.availableAmount + amount })
  else s

/-! ## Taking a job apart -/

/-- What a local allocation asked its resource for. -/
def Allocation.request (a : Allocation) : PendingRequest :=
  ⟨a.jobId, a.amount, a.conn, .originLocal⟩

/-- Whether an allocation holds units of this node. -/
def Allocation.held (a : Allocation) : Bool :=
  a.type == .localAlloc && a.result == .granted

/-- Whether an allocation waits in a queue of this node. -/
def Allocation.waiting (a : Allocation) : Bool :=
  a.type == .localAlloc && a.result == .queued

/-- The release of what an allocation holds on this node. -/
def releaseHeld (a : Allocation) (s : Manager) : Manager :=
  releaseResource a.name a.amount (s.emit (.giveBack a.name a.request))

/-- One round of the loop over a dead job's allocations, the same in
`tabla_jobs_remove`, `process_disconnect`, `process_connection_failed` and the
two rollbacks of `JOB_REQUEST`: local units are released, and the node of a
remote allocation is told over the connection of its address, if there is
one. -/
def freeAllocation (jobId : Int32) (all : Allocation) (s : Manager) : Manager :=
  if all.held then releaseHeld all s
  else if all.type = .remoteAlloc then
    match tablaConnsLookup s.conns all.ip with
    | some remote => sendMessage remote (.release jobId all.name all.amount) s
    | none => s
  else s

/-- The loop over the allocations of a dead job. -/
def freeAllocations (jobId : Int32) (allocs : List Allocation) (s : Manager) : Manager :=
  allocs.foldl (fun s all => freeAllocation jobId all s) s

/-- `tabla_jobs_remove`. -/
def tablaJobsRemove (jobId : Int32) (s : Manager) : Manager :=
  match tablaJobsExtractById s.tabla jobId with
  | (none, _) => s
  | (some job, tabla) => freeAllocations jobId job.confirmadas (s.setTabla tabla)

/-! ## The branches of `process_message` -/

/-- `RESERVE`. -/
def processReserve (conn : Conn) (jobId : Int32) (type : Resource) (amount : Int32)
    (s : Manager) : Manager :=
  match reserveResource type amount jobId conn .originRemote s with
  | (.denied, s) => sendMessage conn (.denied jobId) s
  | (.granted, s) => sendMessage conn (.granted jobId) s
  | (.queued, s) => s

/-- `RELEASE`. -/
def processRelease (jobId : Int32) (type : Resource) (amount : Int32) (s : Manager) :
    Manager :=
  let s := if amount ≠ 0 then
      releaseResource type amount (s.emit (.returned type jobId amount))
    else s
  limpiarColasPorId jobId (tablaJobsRemove jobId s)

/-- `GRANTED`. A grant for a job that is gone is answered by three empty
releases. -/
def processGranted (conn : Conn) (jobId : Int32) (s : Manager) : Manager :=
  match tablaConnsGetIpByConn s.conns conn with
  | none => s
  | some ipRemoto =>
    match tablaJobsBuscarPorId s.tabla jobId with
    | none =>
      sendMessage conn (.release jobId .gpu 0)
        (sendMessage conn (.release jobId .mem 0)
          (sendMessage conn (.release jobId .cpu 0) s))
    | some check =>
      let s := s.setTabla (tablaJobsJobConfirmar s.tabla ipRemoto jobId)
      if (jobConfirmar check ipRemoto jobId).1 && tablaJobsVerificar s.tabla jobId then
        sendJobGranted jobId check.conn s
      else s

/-- `DENIED`. -/
def processDenied (jobId : Int32) (s : Manager) : Manager :=
  limpiarColasPorId jobId
    (match tablaJobsGetConn s.tabla jobId with
    | none => s
    | some owner => sendMessage owner (.jobDenied jobId) (tablaJobsRemove jobId s))

/-- `connect_remote_node`, the network deciding. -/
def connectRemoteNode (ip : CString) (red : Network) (s : Manager) :
    Option Conn × Network × Manager :=
  match red with
  | [] => (none, [], s)
  | none :: red => (none, red, s)
  | some conn :: red => (some conn, red, s.emit (.connecting ip conn))

/-- The rollback of a `JOB_REQUEST` whose new job cannot be completed. -/
def rollbackJob (job : Job) (s : Manager) : Manager :=
  sendMessage job.conn (.jobDenied job.jobId)
    (freeAllocations job.jobId job.confirmadas (limpiarColasPorId job.jobId s))

/-- One local entry of a `JOB_REQUEST`; `none` where the resource denies it. -/
def requestLocal (head : ResourceRequest) (nuevoJob : Job) (s : Manager) :
    Option Job × Manager :=
  match reserveResource head.type head.amount nuevoJob.jobId nuevoJob.conn .originLocal s with
  | (.denied, s) => (none, s)
  | (r, s) => (some { nuevoJob with
      confirmadas := crearAllocation head.type head.amount .localAlloc s.ip
        nuevoJob.jobId r nuevoJob.conn :: nuevoJob.confirmadas }, s)

/-- One remote entry of a `JOB_REQUEST`: over the connection to the host if
there is one, else over a new one; `none` where there is none to be had. -/
def requestRemote (head : ResourceRequest) (red : Network) (nuevoJob : Job)
    (s : Manager) : Option Job × Network × Manager :=
  let reserve : Message := .reserve nuevoJob.jobId head.type head.amount
  match tablaConnsLookup s.conns head.ip with
  | some remote =>
    (some { nuevoJob with
      pendientes := crearOutrequest head.ip remote head.type head.amount none
        :: nuevoJob.pendientes }, red, sendMessage remote reserve s)
  | none =>
    if tablaNodosGetPuerto s.nodos head.ip = -1 then (none, red, s)
    else match connectRemoteNode head.ip red s with
      | (none, red, s) => (none, red, s)
      | (some intento, red, s) =>
        (some { nuevoJob with
          pendientes := crearOutrequest head.ip intento head.type head.amount
            (some reserve) :: nuevoJob.pendientes }, red, s)

/-- The loop over the entries of a `JOB_REQUEST`: the job built and the state
reached, the flag false where an entry failed and the loop stopped. -/
def requestLoop : List ResourceRequest → Network → Job → Manager → Bool × Job × Manager
  | [], _, nuevoJob, s => (true, nuevoJob, s)
  | head :: next, red, nuevoJob, s =>
    if head.ip = s.ip then
      match requestLocal head nuevoJob s with
      | (none, s) => (false, nuevoJob, s)
      | (some nuevoJob, s) => requestLoop next red nuevoJob s
    else
      match requestRemote head red nuevoJob s with
      | (none, _, s) => (false, nuevoJob, s)
      | (some nuevoJob, red, s) => requestLoop next red nuevoJob s

/-- The end of a `JOB_REQUEST` whose entries were all placed. -/
def insertJob (job : Job) (requests : List ResourceRequest) (s : Manager) : Manager :=
  let s := (s.setTabla (tablaJobsInsertarJob s.tabla job)).emit (.inserted job requests)
  if tablaJobsVerificar s.tabla job.jobId then sendJobGranted job.jobId job.conn s else s

/-- `JOB_REQUEST`. -/
def processJobRequest (conn : Conn) (jobId : Int32) (requests : List ResourceRequest)
    (red : Network) (s : Manager) : Manager :=
  if (tablaJobsBuscarPorId s.tabla jobId).isSome then s
  else match requestLoop requests red ⟨jobId, conn, [], []⟩ s with
    | (true, job, s) => insertJob job requests s
    | (false, job, s) => rollbackJob job s

/-- One entry of the `NODES` line, cut by a buffer of 128. -/
def NodeEntry.text (e : NodeEntry) : CString :=
  copyTo 128 (e.ip ++ ':' :: Scan.showInt e.puerto.toInt
    ++ ':' :: (Resource.cpu.toStr ++ ':' :: Scan.showInt e.cpuDisp.toInt)
    ++ ':' :: (Resource.mem.toStr ++ ':' :: Scan.showInt e.memDisp.toInt)
    ++ ':' :: (Resource.gpu.toStr ++ ':' :: Scan.showInt e.gpuDisp.toInt) ++ [';'])

/-- The `NODES` line: the entries that still fit the buffer, the last
separator replaced by the newline. -/
def nodesLine (t : TablaNodos) : CString :=
  let buf := t.entries.foldl (fun buf e =>
    if buf.length + e.text.length < BUFF_SIZE - 2 then buf ++ e.text else buf)
    ['N', 'O', 'D', 'E', 'S', ' ']
  if 6 < buf.length ∧ buf.getLast? = some ';' then buf.dropLast ++ ['\n']
  else buf ++ ['\n']

/-- `GET_NODES`. -/
def processGetNodes (conn : Conn) (s : Manager) : Manager :=
  sendMessage conn (.nodes (nodesLine s.nodos)) s

/-- One round of the loop of `JOB_RELEASE` over the allocations of the job. -/
def jobReleaseAllocation (alloc : Allocation) (s : Manager) : Manager :=
  let s := if alloc.held then releaseHeld alloc s else limpiarColasPorId alloc.jobId s
  if alloc.type = .remoteAlloc then
    sendMessage alloc.conn (.release alloc.jobId alloc.name alloc.amount) s
  else s

/-- `JOB_RELEASE`. -/
def processJobRelease (jobId : Int32) (s : Manager) : Manager :=
  match tablaJobsExtractById s.tabla jobId with
  | (none, _) => s
  | (some job, tabla) => limpiarColasPorId jobId
      (job.confirmadas.foldl (fun s alloc => jobReleaseAllocation alloc s)
        (s.setTabla tabla))

/-- `JOB_STATUS`. -/
def processJobStatus (conn : Conn) (jobId : Int32) (s : Manager) : Manager :=
  sendMessage conn (.jobStatusIs jobId (tablaJobsGetConn s.tabla jobId).isSome) s

/-- `JOB_TIMEOUT`. -/
def processJobTimeout (jobId : Int32) (s : Manager) : Manager :=
  limpiarColasPorId jobId (tablaJobsRemove jobId s)

/-- The branch of `process_message` a message takes. -/
def handle (conn : Conn) (red : Network) (msg : Message) (s : Manager) : Manager :=
  match msg with
  | .reserve jobId type amount => processReserve conn jobId type amount s
  | .release jobId type amount => processRelease jobId type amount s
  | .granted jobId => processGranted conn jobId s
  | .denied jobId => processDenied jobId s
  | .jobRequest jobId requests => processJobRequest conn jobId requests red s
  | .getNodes => processGetNodes conn s
  | .jobRelease jobId => processJobRelease jobId s
  | .jobStatus jobId => processJobStatus conn jobId s
  | .jobTimeout jobId => processJobTimeout jobId s
  | .jobGranted _ | .jobDenied _ | .jobStatusIs .. | .nodes _ | .garbage => s

/-- **`process_message`**, on a line without its newline. -/
def processMessage (conn : Conn) (msg : CString) (red : Network) (s : Manager) : Manager :=
  match parseMessage msg with
  | none => s
  | some m => handle conn red m (s.emit (.rx conn m))

/-! ## The connection events -/

/-- The loop of `process_disconnect` and `process_connection_failed` over the
extracted jobs. -/
def freeJobs (lista : List Job) (s : Manager) : Manager :=
  lista.foldl (fun s job =>
    freeAllocations job.jobId job.confirmadas (limpiarColasPorId job.jobId s)) s

/-- The jobs a lost connection takes out of the table, taken apart. -/
def dropJobs (conn : Conn) (s : Manager) : Manager :=
  freeJobs (tablaJobsExtractByRemoteConn s.tabla conn).1
    (s.setTabla (tablaJobsExtractByRemoteConn s.tabla conn).2)

/-- **`process_disconnect`**. -/
def processDisconnect (conn : Conn) (s : Manager) : Manager :=
  let s := dropJobs conn (limpiarColasPorConn conn s)
  { s with conns := tablaConnsDeleteByConn s.conns conn }

/-- One round of the loop of `process_connection_ready`. -/
def readyRequest (conn : Conn) (req : OutRequest) (s : Manager) : Manager :=
  sendMessage conn (req.msg.getD .garbage)
    { s with conns := tablaConnsInsert s.conns req.ip conn }

/-- **`process_connection_ready`**. -/
def processConnectionReady (conn : Conn) (s : Manager) : Manager :=
  (tablaJobsGetPendientesByConn s.tabla conn).foldl (fun s req => readyRequest conn req s) s

/-- **`process_connection_failed`**. -/
def processConnectionFailed (conn : Conn) (s : Manager) : Manager := dropJobs conn s

/-- **`process_announce`**, at the time `now`. -/
def processAnnounce (now : ℤ) (ipSender message : CString) (s : Manager) : Manager :=
  match parseAnnounce message with
  | none => s
  | some r => { s with nodos :=
      tablaNodosInsertOrUpdate s.nodos now ipSender r.puerto r.cpu r.mem r.gpu }

/-! ## Runs -/

/-- A call the network layer makes. -/
inductive Call
  | message (conn : Conn) (msg : CString) (red : Network)
  | ready (conn : Conn)
  | failed (conn : Conn)
  | disconnect (conn : Conn)
  | announce (now : ℤ) (ipSender msg : CString)
  | purge (now timeout : ℤ)

/-- The state a call leaves. -/
def Call.run : Call → Manager → Manager
  | .message conn msg red, s => processMessage conn msg red s
  | .ready conn, s => processConnectionReady conn s
  | .failed conn, s => processConnectionFailed conn s
  | .disconnect conn, s => processDisconnect conn s
  | .announce now ipSender msg, s => processAnnounce now ipSender msg s
  | .purge now timeout, s => { s with nodos := tablaNodosPurge s.nodos now timeout }

end Hpc
