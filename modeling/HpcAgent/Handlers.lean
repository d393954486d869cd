import HpcAgent.Lib.Routine
import HpcAgent.Server
import HpcAgent.Steps
import HpcAgent.Workers
import HpcAgent.WireFormat

/-!
# The handlers, with their locks

`resource_manager.c` and the functions of `tabla_jobs.c` once more, as routines:
which mutexes they take and release and in which order, and which bucket of the job
table they compute. Whether a function takes the lock of the table or relies on its
caller is a flag, as in the source, and so are the early returns, each with its own
unlocking.

What they do to the state between two such points are the functions of the model,
so a handler that runs alone does what the model says (`Rutina.processMessage_eq`
and the theorems around it). What they ask of `epoll` is left to the model of the
workers.
-/

namespace Hpc

/-- The mutexes of the agent: `manager.tabla.lock`, those of the resources, of the
connection table and of the node table, and the `write_mutex` of a connection. -/
inductive Mutex
  | tabla
  | recurso (tipo : Resource)
  | conns
  | nodos
  | write (conn : Conn)
deriving DecidableEq

/-- The process: the resource manager, and of its connections the type, the two
sides and the flag `in_handler`. The sides of one that is not open are empty. -/
structure Agente where
  manager : Manager
  tipos : Conn → ConnectionType
  entradas : Conn → Connection
  salidas : Conn → Salida
  inHandler : Conn → Bool

/-- A buffer nothing was read into. -/
def Connection.vacia : Connection :=
  ⟨List.replicate BUFF_SIZE CharBuffer.nul, 0, List.length_replicate, BUFF_SIZE_pos⟩

/-- The process as `main` sets it up, with its three sockets. -/
def Agente.inicial (cpu mem gpu : Int32) (ip : CString) : Agente where
  manager := managerInit cpu mem gpu ip
  tipos conn := match conn with
    | 0 => .tcpPublicListen
    | 1 => .tcpLocalListen
    | 2 => .udpDiscovery
    | _ => .tcpOutgoing
  entradas _ := .vacia
  salidas _ := .vacia
  inHandler _ := false

/-- A routine of the agent; it notes the buckets of the job table it goes to. -/
abbrev Rutina := Routine Agente Mutex ℕ

namespace Rutina

/-- `pthread_mutex_lock`. -/
def lock (m : Mutex) : Rutina Unit := Routine.lock m (.ret ())

/-- `pthread_mutex_unlock`. -/
def unlock (m : Mutex) : Rutina Unit := Routine.unlock m (.ret ())

/-- `if (take_lock) pthread_mutex_lock`. -/
def lockIf (takeLock : Bool) (m : Mutex) : Rutina Unit := if takeLock then lock m else pure ()

/-- `if (take_lock) pthread_mutex_unlock`. -/
def unlockIf (takeLock : Bool) (m : Mutex) : Rutina Unit :=
  if takeLock then unlock m else pure ()

/-- `idx = job_id % TAM_TABLA_JOBS`, and the access to the array. -/
def bucket (jobId : Int32) : Rutina Unit := Routine.note (bucketOf jobId) (.ret ())

/-- Something read off the state. -/
def mirar {α : Type} (f : Agente → α) : Rutina α := .update id (fun a => .ret (f a))

/-- Something done to the state. -/
def cambiar (f : Agente → Agente) : Rutina Unit := .update f (fun _ => .ret ())

/-- Something done to the state of the manager. -/
def aplicar {α : Type} (f : Manager → α × Manager) : Rutina α :=
  .update (fun a => { a with manager := (f a.manager).2 }) (fun a => .ret (f a.manager).1)

/-- The same, with nothing to return. -/
def hacer (f : Manager → Manager) : Rutina Unit := aplicar (fun s => ((), f s))

/-- Something read off the state of the manager. -/
def leer {α : Type} (f : Manager → α) : Rutina α := aplicar (fun s => (f s, s))

/-! ## Sending -/

/-- **`enqueue_write`**. -/
def enqueueWrite (conn : Conn) (msg : CString) : Rutina Unit := do
  lock (.write conn)
  if ← mirar (fun a => decide ((a.salidas conn).Cabe msg)) then
    cambiar (fun a => { a with
      salidas := Function.update a.salidas conn (Hpc.enqueueWrite (a.salidas conn) msg) })
    unlock (.write conn)
  else unlock (.write conn)

/-- `send_message`. -/
def sendMessage (conn : Conn) (msg : Message) : Rutina Unit := do
  hacer (Hpc.sendMessage conn msg)
  enqueueWrite conn msg.wire

/-- `send_message(conn, …, "JOB_GRANTED %d\n", job_id)`. -/
def sendJobGranted (jobId : Int32) (conn : Conn) : Rutina Unit := do
  hacer (Hpc.sendJobGranted jobId conn)
  enqueueWrite conn (Message.jobGranted jobId).wire

/-! ## The tables -/

/-- A search under a lock, with its two ways out. -/
def buscarBajo {α : Type} (m : Mutex) (f : Manager → Option α) : Rutina (Option α) := do
  lock m
  match ← leer f with
  | some x =>
    unlock m
    return some x
  | none =>
    unlock m
    return none

/-- `tabla_conns_lookup`. -/
def tablaConnsLookup (ip : CString) : Rutina (Option Conn) :=
  buscarBajo .conns (fun s => Hpc.tablaConnsLookup s.conns ip)

/-- `tabla_conns_get_ip_by_conn`. -/
def tablaConnsGetIpByConn (conn : Conn) : Rutina (Option CString) :=
  buscarBajo .conns (fun s => Hpc.tablaConnsGetIpByConn s.conns conn)

/-- `tabla_conns_insert`. -/
def tablaConnsInsert (ip : CString) (conn : Conn) : Rutina Unit := do
  lock .conns
  hacer (fun s => { s with conns := Hpc.tablaConnsInsert s.conns ip conn })
  unlock .conns

/-- `tabla_conns_delete_by_conn`. -/
def tablaConnsDeleteByConn (conn : Conn) : Rutina Unit := do
  lock .conns
  hacer (fun s => { s with conns := Hpc.tablaConnsDeleteByConn s.conns conn })
  unlock .conns

/-- `tabla_nodos_insert_or_update`, with an exit where the node is known. -/
def tablaNodosInsertOrUpdate (now : ℤ) (ip : CString) (puerto cpu mem gpu : Int32) :
    Rutina Unit := do
  lock .nodos
  let f : Manager → Manager := fun s =>
    { s with nodos := Hpc.tablaNodosInsertOrUpdate s.nodos now ip puerto cpu mem gpu }
  if ← leer (fun s => (s.nodos.buckets (hashIp ip)).any (fun e => e.ip == ip)) then
    hacer f
    unlock .nodos
  else
    hacer f
    unlock .nodos

/-- `tabla_nodos_get_puerto`. -/
def tablaNodosGetPuerto (ip : CString) : Rutina Int32 := do
  lock .nodos
  match ← leer (fun s => (s.nodos.buckets (hashIp ip)).find? (fun e => e.ip == ip)) with
  | some curr =>
    unlock .nodos
    return curr.puerto
  | none =>
    unlock .nodos
    return -1

/-- `tabla_nodos_purge`. -/
def tablaNodosPurge (now timeout : ℤ) : Rutina Unit := do
  lock .nodos
  hacer (fun s => { s with nodos := Hpc.tablaNodosPurge s.nodos now timeout })
  unlock .nodos

/-- `tabla_jobs_buscar_por_id`, which takes no lock. -/
def tablaJobsBuscarPorId (jobId : Int32) : Rutina (Option Job) := do
  bucket jobId
  leer (fun s => Hpc.tablaJobsBuscarPorId s.tabla jobId)

/-- `tabla_jobs_get_conn`. -/
def tablaJobsGetConn (jobId : Int32) (takeLock : Bool) : Rutina (Option Conn) := do
  lockIf takeLock .tabla
  match ← tablaJobsBuscarPorId jobId with
  | some curr =>
    unlockIf takeLock .tabla
    return some curr.conn
  | none =>
    unlockIf takeLock .tabla
    return none

/-- `tabla_jobs_verificar`, with an exit for each outcome of the two searches. -/
def tablaJobsVerificar (jobId : Int32) (takeLock : Bool) : Rutina Bool := do
  lockIf takeLock .tabla
  match ← tablaJobsBuscarPorId jobId with
  | some curr =>
    if curr.confirmadas.any (fun s => s.type == .localAlloc && s.result == .queued) then
      unlockIf takeLock .tabla
      return false
    else
      unlockIf takeLock .tabla
      return curr.pendientes.isEmpty
  | none =>
    unlockIf takeLock .tabla
    return false

/-- `tabla_jobs_cambio_alloc`, with an exit for each outcome of the two searches. -/
def tablaJobsCambioAlloc (jobId : Int32) (conn : Conn) (tipo : Resource) (takeLock : Bool) :
    Rutina Unit := do
  lockIf takeLock .tabla
  match ← tablaJobsBuscarPorId jobId with
  | none => unlockIf takeLock .tabla
  | some job =>
    if job.confirmadas.any (fun a => a.type == .localAlloc && a.conn == conn
        && a.name == tipo) then
      hacer (fun s => s.setTabla (Hpc.tablaJobsCambioAlloc s.tabla jobId conn tipo))
      unlockIf takeLock .tabla
    else unlockIf takeLock .tabla

/-- `tabla_jobs_insertar_job`, with what the log records. -/
def tablaJobsInsertarJob (job : Job) (requests : List ResourceRequest) : Rutina Unit := do
  bucket job.jobId
  hacer (fun s =>
    (s.setTabla (Hpc.tablaJobsInsertarJob s.tabla job)).emit (.inserted job requests))

/-- The job of an id unlinked from the table, if there is one. -/
def extraer (jobId : Int32) (s : Manager) : Option Job × Manager :=
  match Hpc.tablaJobsExtractById s.tabla jobId with
  | (none, _) => (none, s)
  | (some job, tabla) => (some job, s.setTabla tabla)

/-- `tabla_jobs_extract_by_id`. -/
def tablaJobsExtractById (jobId : Int32) : Rutina (Option Job) := do
  bucket jobId
  aplicar (extraer jobId)

/-- `tabla_jobs_extract_by_remote_conn`. -/
def tablaJobsExtractByRemoteConn (conn : Conn) : Rutina (List Job) := do
  lock .tabla
  let lista ← aplicar (fun s => ((Hpc.tablaJobsExtractByRemoteConn s.tabla conn).1,
    s.setTabla (Hpc.tablaJobsExtractByRemoteConn s.tabla conn).2))
  unlock .tabla
  return lista

/-! ## The queues and the resources -/

/-- The deletion of entries from one queue. -/
def limpiarCola (tipo : Resource) (f : ColaPendingRequest → ColaPendingRequest) :
    Rutina Unit := do
  lock (.recurso tipo)
  hacer (fun s => s.setRecurso tipo { s.recursos tipo with cola := f (s.recursos tipo).cola })
  unlock (.recurso tipo)

/-- `limpiar_colas_por_id`. -/
def limpiarColasPorId (jobId : Int32) : Rutina Unit := do
  limpiarCola .cpu (fun cola => queueDeleteByJobId cola jobId)
  limpiarCola .mem (fun cola => queueDeleteByJobId cola jobId)
  limpiarCola .gpu (fun cola => queueDeleteByJobId cola jobId)

/-- `limpiar_colas_por_conn`. -/
def limpiarColasPorConn (conn : Conn) : Rutina Unit := do
  limpiarCola .cpu (fun cola => queueDeleteByConn cola conn)
  limpiarCola .mem (fun cola => queueDeleteByConn cola conn)
  limpiarCola .gpu (fun cola => queueDeleteByConn cola conn)

/-- `reserve_resource`. -/
def reserveResource (tipo : Resource) (amount jobId : Int32) (conn : Conn) (origen : Origin) :
    Rutina Result := do
  lock (.recurso tipo)
  let result ← aplicar (Hpc.reserveResource tipo amount jobId conn origen)
  unlock (.recurso tipo)
  return result

/-- One round of the loop of `release_resource`. -/
def dequeueTop (tipo : Resource) (pending : PendingRequest) : Rutina Unit := do
  hacer (popTop tipo pending)
  tablaJobsCambioAlloc pending.jobId pending.ownerConn tipo false
  match pending.origen with
  | .originRemote => sendMessage pending.ownerConn (.granted pending.jobId)
  | .originLocal =>
    if ← tablaJobsVerificar pending.jobId false then
      sendJobGranted pending.jobId pending.ownerConn

/-- The loop of `release_resource`. -/
def serveQueue (tipo : Resource) : ℕ → Rutina Unit
  | 0 => pure ()
  | n + 1 => do
    match ← leer (fun s => s.cola tipo) with
    | [] => pure ()
    | top :: _ =>
      if ← leer (fun s => decide (top.amount ≤ s.available tipo)) then
        dequeueTop tipo top
        serveQueue tipo n

/-- **`release_resource`**. -/
def releaseResource (tipo : Resource) (amount : Int32) (takeLock : Bool) : Rutina Unit := do
  lockIf takeLock .tabla
  lock (.recurso tipo)
  let valido ← leer (fun s =>
    decide (0 ≤ amount ∧ s.available tipo + amount ≤ s.total tipo))
  if valido then
    hacer (giveUnits tipo amount)
    let rounds ← leer (fun s => (s.cola tipo).length)
    serveQueue tipo rounds
    unlock (.recurso tipo)
    unlockIf takeLock .tabla
  else
    unlock (.recurso tipo)
    unlockIf takeLock .tabla

/-- One round of the loop over a dead job's allocations. -/
def freeAllocation (jobId : Int32) (all : Allocation) (takeLock : Bool) : Rutina Unit := do
  if all.held then
    hacer (fun s => s.emit (.giveBack all.name all.request))
    releaseResource all.name all.amount takeLock
  else if all.type = .remoteAlloc then
    match ← tablaConnsLookup all.ip with
    | some remote => sendMessage remote (.release jobId all.name all.amount)
    | none => pure ()

/-- The loop over the allocations of a dead job. -/
def freeAllocations (jobId : Int32) (allocs : List Allocation) (takeLock : Bool) :
    Rutina Unit :=
  forM allocs (fun all => freeAllocation jobId all takeLock)

/-- **`tabla_jobs_remove`**. -/
def tablaJobsRemove (jobId : Int32) (takeLock takeLockReserve : Bool) : Rutina Unit := do
  lockIf takeLock .tabla
  let job ← tablaJobsExtractById jobId
  unlockIf takeLock .tabla
  match job with
  | none => pure ()
  | some job => freeAllocations jobId job.confirmadas takeLockReserve

/-! ## The branches of `process_message` -/

/-- `RESERVE`. -/
def processReserve (conn : Conn) (jobId : Int32) (type : Resource) (amount : Int32) :
    Rutina Unit := do
  match ← reserveResource type amount jobId conn .originRemote with
  | .denied => sendMessage conn (.denied jobId)
  | .granted => sendMessage conn (.granted jobId)
  | .queued => pure ()

/-- `RELEASE`. -/
def processRelease (jobId : Int32) (type : Resource) (amount : Int32) : Rutina Unit := do
  if amount ≠ 0 then
    hacer (fun s => s.emit (.returned type jobId amount))
    releaseResource type amount true
  tablaJobsRemove jobId true true
  limpiarColasPorId jobId

/-- `GRANTED`. -/
def processGranted (conn : Conn) (jobId : Int32) : Rutina Unit := do
  match ← tablaConnsGetIpByConn conn with
  | none => pure ()
  | some ipRemoto =>
    lock .tabla
    match ← tablaJobsBuscarPorId jobId with
    | none =>
      sendMessage conn (.release jobId .cpu 0)
      sendMessage conn (.release jobId .mem 0)
      sendMessage conn (.release jobId .gpu 0)
      unlock .tabla
    | some check =>
      -- `job_confirmar` goes to the job it is given, not to its bucket
      hacer (fun s => s.setTabla (tablaJobsJobConfirmar s.tabla ipRemoto jobId))
      if (jobConfirmar check ipRemoto jobId).1 then
        if ← tablaJobsVerificar jobId false then
          sendJobGranted jobId check.conn
      unlock .tabla

/-- `DENIED`. -/
def processDenied (jobId : Int32) : Rutina Unit := do
  lock .tabla
  match ← tablaJobsGetConn jobId false with
  | none => pure ()
  | some owner =>
    tablaJobsRemove jobId false false
    sendMessage owner (.jobDenied jobId)
  limpiarColasPorId jobId
  unlock .tabla

/-- The type of a connection set. -/
def ponerTipo (conn : Conn) (tipo : ConnectionType) : Rutina Unit :=
  cambiar (fun a => { a with tipos := Function.update a.tipos conn tipo })

/-- `connect_remote_node`, which takes no lock. -/
def connectRemoteNode (ip : CString) (red : Network) : Rutina (Option Conn × Network) := do
  match ← aplicar (fun s => (((Hpc.connectRemoteNode ip red s).1,
    (Hpc.connectRemoteNode ip red s).2.1), (Hpc.connectRemoteNode ip red s).2.2)) with
  | (none, red) => return (none, red)
  | (some conn, red) =>
    ponerTipo conn .tcpOutgoing
    return (some conn, red)

/-- One local entry of a `JOB_REQUEST`. -/
def requestLocal (head : ResourceRequest) (nuevoJob : Job) : Rutina (Option Job) := do
  match ← reserveResource head.type head.amount nuevoJob.jobId nuevoJob.conn .originLocal with
  | .denied => return none
  | r =>
    let ip ← leer (fun s => s.ip)
    return some (nuevoJob.addLocal head ip r)

/-- One remote entry of a `JOB_REQUEST`. -/
def requestRemote (head : ResourceRequest) (red : Network) (nuevoJob : Job) :
    Rutina (Option Job × Network) := do
  match ← tablaConnsLookup head.ip with
  | some remote =>
    sendMessage remote (head.reserve nuevoJob.jobId)
    return (some (nuevoJob.addRemote head remote none), red)
  | none =>
    if (← tablaNodosGetPuerto head.ip) = -1 then return (none, red)
    else
      match ← connectRemoteNode head.ip red with
      | (none, red) => return (none, red)
      | (some intento, red) =>
        return (some (nuevoJob.addRemote head intento (some (head.reserve nuevoJob.jobId))),
          red)

/-- The loop over the entries of a `JOB_REQUEST`. -/
def requestLoop : List ResourceRequest → Network → Job → Rutina (Bool × Job)
  | [], _, nuevoJob => return (true, nuevoJob)
  | head :: next, red, nuevoJob => do
    if ← leer (fun s => decide (head.ip = s.ip)) then
      match ← requestLocal head nuevoJob with
      | none => return (false, nuevoJob)
      | some nuevoJob => requestLoop next red nuevoJob
    else
      match ← requestRemote head red nuevoJob with
      | (none, _) => return (false, nuevoJob)
      | (some nuevoJob, red) => requestLoop next red nuevoJob

/-- The end of a `JOB_REQUEST` whose entries were all placed. -/
def insertJob (job : Job) (requests : List ResourceRequest) : Rutina Unit := do
  tablaJobsInsertarJob job requests
  if ← tablaJobsVerificar job.jobId false then
    sendJobGranted job.jobId job.conn
  unlock .tabla

/-- The rollback of a `JOB_REQUEST`; the answer leaves after the lock. -/
def rollbackJob (job : Job) : Rutina Unit := do
  limpiarColasPorId job.jobId
  freeAllocations job.jobId job.confirmadas false
  unlock .tabla
  sendMessage job.conn (.jobDenied job.jobId)

/-- `JOB_REQUEST`. -/
def processJobRequest (conn : Conn) (jobId : Int32) (requests : List ResourceRequest)
    (red : Network) : Rutina Unit := do
  lock .tabla
  match ← tablaJobsBuscarPorId jobId with
  | some _ => unlock .tabla
  | none =>
    match ← requestLoop requests red ⟨jobId, conn, [], []⟩ with
    | (true, job) => insertJob job requests
    | (false, job) => rollbackJob job

/-- `GET_NODES`. -/
def processGetNodes (conn : Conn) : Rutina Unit := do
  lock .nodos
  let line ← leer (fun s => nodesLine s.nodos)
  unlock .nodos
  sendMessage conn (.nodes line)

/-- One round of the loop of `JOB_RELEASE` over the allocations of the job. -/
def jobReleaseAllocation (alloc : Allocation) : Rutina Unit := do
  if alloc.held then
    hacer (fun s => s.emit (.giveBack alloc.name alloc.request))
    releaseResource alloc.name alloc.amount true
  else limpiarColasPorId alloc.jobId
  if alloc.type = .remoteAlloc then
    sendMessage alloc.conn (.release alloc.jobId alloc.name alloc.amount)

/-- `JOB_RELEASE`. -/
def processJobRelease (jobId : Int32) : Rutina Unit := do
  lock .tabla
  match ← tablaJobsExtractById jobId with
  | none => unlock .tabla
  | some job =>
    unlock .tabla
    forM job.confirmadas jobReleaseAllocation
    limpiarColasPorId jobId

/-- `JOB_STATUS`. -/
def processJobStatus (conn : Conn) (jobId : Int32) : Rutina Unit := do
  let owner ← tablaJobsGetConn jobId true
  sendMessage conn (.jobStatusIs jobId owner.isSome)

/-- `JOB_TIMEOUT`. -/
def processJobTimeout (jobId : Int32) : Rutina Unit := do
  tablaJobsRemove jobId true true
  limpiarColasPorId jobId

/-- The branch of `process_message` a message takes. -/
def handle (conn : Conn) (red : Network) : Message → Rutina Unit
  | .reserve jobId type amount => processReserve conn jobId type amount
  | .release jobId type amount => processRelease jobId type amount
  | .granted jobId => processGranted conn jobId
  | .denied jobId => processDenied jobId
  | .jobRequest jobId requests => processJobRequest conn jobId requests red
  | .getNodes => processGetNodes conn
  | .jobRelease jobId => processJobRelease jobId
  | .jobStatus jobId => processJobStatus conn jobId
  | .jobTimeout jobId => processJobTimeout jobId
  | .jobGranted _ | .jobDenied _ | .jobStatusIs .. | .nodes _ | .garbage => pure ()

/-- **`process_message`**. -/
def processMessage (conn : Conn) (msg : CString) (red : Network) : Rutina Unit :=
  match parseMessage msg with
  | none => pure ()
  | some m => do
    hacer (fun s => s.emit (.rx conn m))
    handle conn red m

/-! ## The connection events -/

/-- The loop of `process_disconnect` and `process_connection_failed` over the
extracted jobs. -/
def freeJobs (lista : List Job) : Rutina Unit :=
  forM lista (fun job => do
    limpiarColasPorId job.jobId
    freeAllocations job.jobId job.confirmadas true)

/-- **`process_disconnect`**. -/
def processDisconnect (conn : Conn) : Rutina Unit := do
  limpiarColasPorConn conn
  let lista ← tablaJobsExtractByRemoteConn conn
  freeJobs lista
  tablaConnsDeleteByConn conn

/-- **`process_connection_ready`**. -/
def processConnectionReady (conn : Conn) : Rutina Unit := do
  lock .tabla
  let lista ← leer (fun s => tablaJobsGetPendientesByConn s.tabla conn)
  forM lista (fun req => do
    tablaConnsInsert req.ip conn
    sendMessage conn (req.msg.getD .garbage))
  unlock .tabla

/-- **`process_connection_failed`**. -/
def processConnectionFailed (conn : Conn) : Rutina Unit := do
  let lista ← tablaJobsExtractByRemoteConn conn
  freeJobs lista

/-- **`process_announce`**. -/
def processAnnounce (now : ℤ) (ipSender message : CString) : Rutina Unit :=
  match parseAnnounce message with
  | none => pure ()
  | some r => tablaNodosInsertOrUpdate now ipSender r.puerto r.cpu r.mem r.gpu

/-! ## Run alone, they do what the model says -/

section Run

variable (a : Agente)

@[simp] theorem run_lock (m : Mutex) : (lock m).run a = ((), a) := rfl

@[simp] theorem run_unlock (m : Mutex) : (unlock m).run a = ((), a) := rfl

@[simp] theorem run_lockIf (takeLock : Bool) (m : Mutex) :
    (lockIf takeLock m).run a = ((), a) := by
  cases takeLock <;> rfl

@[simp] theorem run_unlockIf (takeLock : Bool) (m : Mutex) :
    (unlockIf takeLock m).run a = ((), a) := by
  cases takeLock <;> rfl

@[simp] theorem run_bucket (jobId : Int32) : (bucket jobId).run a = ((), a) := rfl

@[simp] theorem run_leer {α : Type} (f : Manager → α) :
    (leer f).run a = (f a.manager, a) := rfl

@[simp] theorem fst_aplicar {α : Type} (f : Manager → α × Manager) :
    ((aplicar f).run a).1 = (f a.manager).1 := rfl

@[simp] theorem manager_aplicar {α : Type} (f : Manager → α × Manager) :
    ((aplicar f).run a).2.manager = (f a.manager).2 := rfl

@[simp] theorem manager_hacer (f : Manager → Manager) :
    ((hacer f).run a).2.manager = f a.manager := rfl

@[simp] theorem manager_enqueueWrite (conn : Conn) (msg : CString) :
    ((enqueueWrite conn msg).run a).2.manager = a.manager := by
  unfold enqueueWrite
  simp only [Routine.run_bind, run_lock]
  split
  · rfl
  · rfl

@[simp] theorem manager_sendMessage (conn : Conn) (msg : Message) :
    ((sendMessage conn msg).run a).2.manager = Hpc.sendMessage conn msg a.manager := by
  simp [sendMessage]

@[simp] theorem manager_sendJobGranted (jobId : Int32) (conn : Conn) :
    ((sendJobGranted jobId conn).run a).2.manager = Hpc.sendJobGranted jobId conn a.manager := by
  simp [sendJobGranted]

@[simp] theorem run_buscarBajo {α : Type} (m : Mutex) (f : Manager → Option α) :
    (buscarBajo m f).run a = (f a.manager, a) := by
  unfold buscarBajo
  simp only [Routine.run_bind, run_lock, run_leer]
  cases f a.manager with
  | none => rfl
  | some x => rfl

@[simp] theorem run_tablaConnsLookup (ip : CString) :
    (tablaConnsLookup ip).run a = (Hpc.tablaConnsLookup a.manager.conns ip, a) :=
  run_buscarBajo a _ _

@[simp] theorem run_tablaConnsGetIpByConn (conn : Conn) :
    (tablaConnsGetIpByConn conn).run a
      = (Hpc.tablaConnsGetIpByConn a.manager.conns conn, a) :=
  run_buscarBajo a _ _

@[simp] theorem run_tablaNodosGetPuerto (ip : CString) :
    (tablaNodosGetPuerto ip).run a = (Hpc.tablaNodosGetPuerto a.manager.nodos ip, a) := by
  unfold tablaNodosGetPuerto Hpc.tablaNodosGetPuerto
  simp only [Routine.run_bind, run_lock, run_leer]
  cases (a.manager.nodos.buckets (hashIp ip)).find? (fun e => e.ip == ip) with
  | none => rfl
  | some curr => rfl

theorem manager_tablaNodosInsertOrUpdate (now : ℤ) (ip : CString)
    (puerto cpu mem gpu : Int32) :
    ((tablaNodosInsertOrUpdate now ip puerto cpu mem gpu).run a).2.manager
      = { a.manager with nodos :=
          Hpc.tablaNodosInsertOrUpdate a.manager.nodos now ip puerto cpu mem gpu } := by
  unfold tablaNodosInsertOrUpdate
  simp only [Routine.run_bind, run_lock, run_leer]
  by_cases hknown : (a.manager.nodos.buckets (hashIp ip)).any (fun e => e.ip == ip) = true
  · simp [hknown]
  · simp [hknown]

@[simp] theorem run_tablaJobsBuscarPorId (jobId : Int32) :
    (tablaJobsBuscarPorId jobId).run a
      = (Hpc.tablaJobsBuscarPorId a.manager.tabla jobId, a) := rfl

@[simp] theorem run_tablaJobsGetConn (jobId : Int32) (takeLock : Bool) :
    (tablaJobsGetConn jobId takeLock).run a
      = (Hpc.tablaJobsGetConn a.manager.tabla jobId, a) := by
  unfold tablaJobsGetConn Hpc.tablaJobsGetConn
  simp only [Routine.run_bind, run_lockIf, run_tablaJobsBuscarPorId]
  unfold Hpc.tablaJobsBuscarPorId
  cases (a.manager.tabla.bucket (bucketOf jobId)).find? (fun j => j.jobId == jobId) with
  | none => simp
  | some curr => simp

@[simp] theorem run_tablaJobsVerificar (jobId : Int32) (takeLock : Bool) :
    (tablaJobsVerificar jobId takeLock).run a
      = (Hpc.tablaJobsVerificar a.manager.tabla jobId, a) := by
  unfold tablaJobsVerificar Hpc.tablaJobsVerificar
  simp only [Routine.run_bind, run_lockIf, run_tablaJobsBuscarPorId]
  unfold Hpc.tablaJobsBuscarPorId
  cases (a.manager.tabla.bucket (bucketOf jobId)).find? (fun j => j.jobId == jobId) with
  | none => simp
  | some curr =>
    rw [Option.any_some, Job.complete]
    dsimp only
    split
    · next h => simp [h]
    · next h => simp [h]

@[simp] theorem manager_tablaJobsCambioAlloc (jobId : Int32) (conn : Conn) (tipo : Resource)
    (takeLock : Bool) : ((tablaJobsCambioAlloc jobId conn tipo takeLock).run a).2.manager
      = a.manager.setTabla (Hpc.tablaJobsCambioAlloc a.manager.tabla jobId conn tipo) := by
  unfold tablaJobsCambioAlloc
  simp only [Routine.run_bind, run_lockIf, run_tablaJobsBuscarPorId]
  have hself : Hpc.tablaJobsCambioAlloc a.manager.tabla jobId conn tipo = a.manager.tabla →
      a.manager = a.manager.setTabla
        (Hpc.tablaJobsCambioAlloc a.manager.tabla jobId conn tipo) := fun h => by rw [h]; rfl
  cases hfind : Hpc.tablaJobsBuscarPorId a.manager.tabla jobId with
  | none =>
    simp only [run_unlockIf]
    exact hself (tablaJobsCambioAlloc_eq_self (fun job hjob => by simp [hfind] at hjob))
  | some job =>
    dsimp only
    split
    · simp
    · next hnone =>
      simp only [run_unlockIf]
      refine hself (tablaJobsCambioAlloc_eq_self (fun job' hjob' x hx => ?_))
      obtain rfl := Option.some.inj (hfind.symm.trans hjob')
      exact Bool.eq_false_iff.mpr (List.any_eq_false.mp (Bool.eq_false_iff.mpr hnone) x hx)

@[simp] theorem manager_tablaJobsInsertarJob (job : Job) (requests : List ResourceRequest) :
    ((tablaJobsInsertarJob job requests).run a).2.manager
      = (a.manager.setTabla (Hpc.tablaJobsInsertarJob a.manager.tabla job)).emit
        (.inserted job requests) := rfl

@[simp] theorem manager_tablaConnsInsert (ip : CString) (conn : Conn) :
    ((tablaConnsInsert ip conn).run a).2.manager
      = { a.manager with conns := Hpc.tablaConnsInsert a.manager.conns ip conn } := rfl

@[simp] theorem manager_tablaConnsDeleteByConn (conn : Conn) :
    ((tablaConnsDeleteByConn conn).run a).2.manager
      = { a.manager with conns := Hpc.tablaConnsDeleteByConn a.manager.conns conn } := rfl

@[simp] theorem fst_reserveResource (tipo : Resource) (amount jobId : Int32) (conn : Conn)
    (origen : Origin) : ((reserveResource tipo amount jobId conn origen).run a).1
      = (Hpc.reserveResource tipo amount jobId conn origen a.manager).1 := rfl

@[simp] theorem manager_reserveResource (tipo : Resource) (amount jobId : Int32) (conn : Conn)
    (origen : Origin) : ((reserveResource tipo amount jobId conn origen).run a).2.manager
      = (Hpc.reserveResource tipo amount jobId conn origen a.manager).2 := rfl

/-- The three queues one after another. -/
theorem manager_limpiarColas (f : ColaPendingRequest → ColaPendingRequest) :
    ((limpiarCola .cpu f >>= fun _ => limpiarCola .mem f >>= fun _ => limpiarCola .gpu f).run
        a).2.manager
      = { a.manager with
          recursos := fun tipo => { a.manager.recursos tipo with
            cola := f (a.manager.recursos tipo).cola } } := by
  show Manager.setRecurso (Manager.setRecurso (Manager.setRecurso a.manager .cpu _) .mem _) .gpu _
    = _
  unfold Manager.setRecurso
  congr 1
  funext tipo
  cases tipo <;> rfl

@[simp] theorem manager_limpiarColasPorId (jobId : Int32) :
    ((limpiarColasPorId jobId).run a).2.manager = Hpc.limpiarColasPorId jobId a.manager :=
  manager_limpiarColas a _

@[simp] theorem manager_limpiarColasPorConn (conn : Conn) :
    ((limpiarColasPorConn conn).run a).2.manager = Hpc.limpiarColasPorConn conn a.manager :=
  manager_limpiarColas a _

@[simp] theorem manager_dequeueTop (tipo : Resource) (pending : PendingRequest) :
    ((dequeueTop tipo pending).run a).2.manager = Hpc.dequeueTop tipo pending a.manager := by
  rw [dequeueTop_eq]
  unfold dequeueTop answerTop markTop
  simp only [Routine.run_bind]
  cases pending.origen with
  | originRemote => simp
  | originLocal =>
    simp only [Routine.run_bind, run_tablaJobsVerificar, manager_tablaJobsCambioAlloc,
      manager_hacer]
    split
    · simp
    · simp

@[simp] theorem manager_serveQueue (tipo : Resource) (n : ℕ) :
    ((serveQueue tipo n).run a).2.manager = Hpc.serveQueue tipo n a.manager := by
  induction n generalizing a with
  | zero => rfl
  | succ n ih =>
    unfold serveQueue Hpc.serveQueue
    simp only [Routine.run_bind, run_leer]
    cases hcola : a.manager.cola tipo with
    | nil => rfl
    | cons top rest =>
      by_cases hfits : top.amount ≤ a.manager.available tipo
      · simp [hfits, ih]
      · simp [hfits]

@[simp] theorem manager_releaseResource (tipo : Resource) (amount : Int32) (takeLock : Bool) :
    ((releaseResource tipo amount takeLock).run a).2.manager
      = Hpc.releaseResource tipo amount a.manager := by
  rw [releaseResource_eq]
  unfold releaseResource
  simp only [Routine.run_bind, run_lockIf, run_lock, run_leer]
  by_cases h : 0 ≤ amount ∧ a.manager.available tipo + amount ≤ a.manager.total tipo
  · simp [h]
  · simp [h]

@[simp] theorem manager_freeAllocation (jobId : Int32) (all : Allocation) (takeLock : Bool) :
    ((freeAllocation jobId all takeLock).run a).2.manager
      = Hpc.freeAllocation jobId all a.manager := by
  unfold freeAllocation Hpc.freeAllocation
  by_cases hheld : all.held = true
  · simp [hheld, releaseHeld]
  · by_cases hremote : all.type = .remoteAlloc
    · simp only [hheld, hremote, if_true, Bool.false_eq_true, if_false, Routine.run_bind,
        run_tablaConnsLookup]
      cases Hpc.tablaConnsLookup a.manager.conns all.ip with
      | none => rfl
      | some remote => simp
    · simp [hheld, hremote]

/-- What a loop does to the manager, given what a round does. -/
theorem manager_forM {α : Type} {g : α → Rutina Unit} {f : α → Manager → Manager}
    (hround : ∀ x a, ((g x).run a).2.manager = f x a.manager) (l : List α) :
    ((forM l g).run a).2.manager = l.foldl (fun s x => f x s) a.manager := by
  rw [Routine.run_forM]
  induction l generalizing a with
  | nil => rfl
  | cons x l ih =>
    rw [List.foldl_cons, List.foldl_cons, ← hround]
    exact ih _

@[simp] theorem manager_freeAllocations (jobId : Int32) (allocs : List Allocation)
    (takeLock : Bool) : ((freeAllocations jobId allocs takeLock).run a).2.manager
      = Hpc.freeAllocations jobId allocs a.manager :=
  manager_forM a (fun all a => manager_freeAllocation a jobId all takeLock) allocs

@[simp] theorem fst_tablaJobsExtractById (jobId : Int32) :
    ((tablaJobsExtractById jobId).run a).1 = (extraer jobId a.manager).1 := rfl

@[simp] theorem manager_tablaJobsExtractById (jobId : Int32) :
    ((tablaJobsExtractById jobId).run a).2.manager = (extraer jobId a.manager).2 := rfl

@[simp] theorem manager_tablaJobsRemove (jobId : Int32) (takeLock takeLockReserve : Bool) :
    ((tablaJobsRemove jobId takeLock takeLockReserve).run a).2.manager
      = Hpc.tablaJobsRemove jobId a.manager := by
  unfold tablaJobsRemove Hpc.tablaJobsRemove
  simp only [Routine.run_bind, run_lockIf, run_unlockIf, fst_tablaJobsExtractById]
  unfold extraer
  rcases hextract : Hpc.tablaJobsExtractById a.manager.tabla jobId with ⟨_ | job, tabla⟩
  · simp [extraer, hextract]
  · simp [extraer, hextract]

/-! ### The branches of `process_message` -/

theorem manager_processReserve (conn : Conn) (jobId : Int32) (type : Resource)
    (amount : Int32) : ((processReserve conn jobId type amount).run a).2.manager
      = Hpc.processReserve conn jobId type amount a.manager := by
  unfold processReserve Hpc.processReserve
  simp only [Routine.run_bind, fst_reserveResource]
  rcases hreserve : Hpc.reserveResource type amount jobId conn .originRemote a.manager with
    ⟨_ | _ | _, s⟩
  · simp [hreserve]
  · simp [hreserve]
  · simp [hreserve]

theorem manager_processRelease (jobId : Int32) (type : Resource) (amount : Int32) :
    ((processRelease jobId type amount).run a).2.manager
      = Hpc.processRelease jobId type amount a.manager := by
  unfold processRelease Hpc.processRelease
  by_cases h : amount ≠ 0
  · simp [h]
  · simp [h]

theorem manager_processGranted (conn : Conn) (jobId : Int32) :
    ((processGranted conn jobId).run a).2.manager
      = Hpc.processGranted conn jobId a.manager := by
  unfold processGranted Hpc.processGranted
  simp only [Routine.run_bind, run_tablaConnsGetIpByConn]
  cases Hpc.tablaConnsGetIpByConn a.manager.conns conn with
  | none => rfl
  | some ipRemoto =>
    simp only [Routine.run_bind, run_lock, run_tablaJobsBuscarPorId]
    cases Hpc.tablaJobsBuscarPorId a.manager.tabla jobId with
    | none => simp
    | some check =>
      cases hconfirmar : (jobConfirmar check ipRemoto jobId).1 with
      | false => simp [hconfirmar]
      | true =>
        simp only [hconfirmar, Routine.run_bind, if_true, run_tablaJobsVerificar, manager_hacer,
          Manager.tabla_setTabla, Bool.true_and]
        split
        · simp
        · simp

theorem manager_processDenied (jobId : Int32) :
    ((processDenied jobId).run a).2.manager = Hpc.processDenied jobId a.manager := by
  unfold processDenied Hpc.processDenied
  simp only [Routine.run_bind, run_lock, run_tablaJobsGetConn]
  cases Hpc.tablaJobsGetConn a.manager.tabla jobId with
  | none => simp
  | some owner => simp

theorem run_requestLocal (head : ResourceRequest) (nuevoJob : Job) :
    ((requestLocal head nuevoJob).run a).1 = (Hpc.requestLocal head nuevoJob a.manager).1
      ∧ ((requestLocal head nuevoJob).run a).2.manager
        = (Hpc.requestLocal head nuevoJob a.manager).2 := by
  unfold requestLocal Hpc.requestLocal
  simp only [Routine.run_bind, fst_reserveResource]
  rcases hreserve : Hpc.reserveResource head.type head.amount nuevoJob.jobId nuevoJob.conn
    .originLocal a.manager with ⟨_ | _ | _, s⟩
  · simp [hreserve, Job.addLocal]
  · simp [hreserve, Job.addLocal]
  · simp [hreserve]

theorem run_requestRemote (head : ResourceRequest) (red : Network) (nuevoJob : Job) :
    ((requestRemote head red nuevoJob).run a).1
        = ((Hpc.requestRemote head red nuevoJob a.manager).1,
          (Hpc.requestRemote head red nuevoJob a.manager).2.1)
      ∧ ((requestRemote head red nuevoJob).run a).2.manager
        = (Hpc.requestRemote head red nuevoJob a.manager).2.2 := by
  unfold requestRemote Hpc.requestRemote
  simp only [Routine.run_bind, run_tablaConnsLookup]
  cases Hpc.tablaConnsLookup a.manager.conns head.ip with
  | some remote => simp [Job.addRemote, ResourceRequest.reserve]
  | none =>
    simp only [Routine.run_bind, run_tablaNodosGetPuerto]
    by_cases hpuerto : Hpc.tablaNodosGetPuerto a.manager.nodos head.ip = -1
    · simp [hpuerto]
    · simp only [hpuerto, if_false]
      rcases red with _ | ⟨_ | conn, red⟩
      · exact ⟨rfl, rfl⟩
      · exact ⟨rfl, rfl⟩
      · exact ⟨rfl, rfl⟩

theorem run_requestLoop (requests : List ResourceRequest) (red : Network) (nuevoJob : Job) :
    ((requestLoop requests red nuevoJob).run a).1
        = ((Hpc.requestLoop requests red nuevoJob a.manager).1,
          (Hpc.requestLoop requests red nuevoJob a.manager).2.1)
      ∧ ((requestLoop requests red nuevoJob).run a).2.manager
        = (Hpc.requestLoop requests red nuevoJob a.manager).2.2 := by
  induction requests generalizing a red nuevoJob with
  | nil => exact ⟨rfl, rfl⟩
  | cons head next ih =>
    unfold requestLoop Hpc.requestLoop
    simp only [Routine.run_bind, run_leer, decide_eq_true_eq]
    by_cases hip : head.ip = a.manager.ip
    · rw [if_pos hip, if_pos hip]
      obtain ⟨hjob, hmanager⟩ := run_requestLocal a head nuevoJob
      rcases hlocal : Hpc.requestLocal head nuevoJob a.manager with ⟨_ | job, s⟩
      · simp [hjob, hmanager, hlocal]
      · simp [hjob, hmanager, hlocal, ih]
    · rw [if_neg hip, if_neg hip]
      obtain ⟨hjob, hmanager⟩ := run_requestRemote a head red nuevoJob
      rcases hremote : Hpc.requestRemote head red nuevoJob a.manager with ⟨_ | job, red', s⟩
      · simp [hjob, hmanager, hremote]
      · simp [hjob, hmanager, hremote, ih]

@[simp] theorem manager_insertJob (job : Job) (requests : List ResourceRequest) :
    ((insertJob job requests).run a).2.manager = Hpc.insertJob job requests a.manager := by
  unfold insertJob Hpc.insertJob
  simp only [Routine.run_bind, run_tablaJobsVerificar, manager_tablaJobsInsertarJob]
  split
  · simp
  · simp

@[simp] theorem manager_rollbackJob (job : Job) :
    ((rollbackJob job).run a).2.manager = Hpc.rollbackJob job a.manager := by
  simp [rollbackJob, Hpc.rollbackJob]

theorem manager_processJobRequest (conn : Conn) (jobId : Int32)
    (requests : List ResourceRequest) (red : Network) :
    ((processJobRequest conn jobId requests red).run a).2.manager
      = Hpc.processJobRequest conn jobId requests red a.manager := by
  unfold processJobRequest Hpc.processJobRequest
  simp only [Routine.run_bind, run_lock, run_tablaJobsBuscarPorId]
  cases Hpc.tablaJobsBuscarPorId a.manager.tabla jobId with
  | some job => simp
  | none =>
    obtain ⟨hjob, hmanager⟩ := run_requestLoop a requests red ⟨jobId, conn, [], []⟩
    rcases hloop : Hpc.requestLoop requests red ⟨jobId, conn, [], []⟩ a.manager with
      ⟨_ | _, job, s⟩
    · simp [hjob, hmanager, hloop]
    · simp [hjob, hmanager, hloop]

theorem manager_processGetNodes (conn : Conn) :
    ((processGetNodes conn).run a).2.manager = Hpc.processGetNodes conn a.manager := by
  simp [processGetNodes, Hpc.processGetNodes]

theorem manager_jobReleaseAllocation (alloc : Allocation) :
    ((jobReleaseAllocation alloc).run a).2.manager
      = Hpc.jobReleaseAllocation alloc a.manager := by
  unfold jobReleaseAllocation Hpc.jobReleaseAllocation
  by_cases hheld : alloc.held = true
  · by_cases hremote : alloc.type = .remoteAlloc
    · simp [hheld, hremote, releaseHeld]
    · simp [hheld, hremote, releaseHeld]
  · by_cases hremote : alloc.type = .remoteAlloc
    · simp [hheld, hremote]
    · simp [hheld, hremote]

theorem manager_processJobRelease (jobId : Int32) :
    ((processJobRelease jobId).run a).2.manager = Hpc.processJobRelease jobId a.manager := by
  unfold processJobRelease Hpc.processJobRelease
  simp only [Routine.run_bind, run_lock, fst_tablaJobsExtractById]
  unfold extraer
  rcases hextract : Hpc.tablaJobsExtractById a.manager.tabla jobId with ⟨_ | job, tabla⟩
  · simp [extraer, hextract]
  · simp [hextract, extraer, manager_forM _ (fun all a => manager_jobReleaseAllocation a all)]

theorem manager_processJobStatus (conn : Conn) (jobId : Int32) :
    ((processJobStatus conn jobId).run a).2.manager
      = Hpc.processJobStatus conn jobId a.manager := by
  simp [processJobStatus, Hpc.processJobStatus]

theorem manager_processJobTimeout (jobId : Int32) :
    ((processJobTimeout jobId).run a).2.manager = Hpc.processJobTimeout jobId a.manager := by
  simp [processJobTimeout, Hpc.processJobTimeout]

theorem manager_handle (conn : Conn) (red : Network) (m : Message) :
    ((handle conn red m).run a).2.manager = Hpc.handle conn red m a.manager := by
  cases m with
  | reserve jobId type amount => exact manager_processReserve a conn jobId type amount
  | release jobId type amount => exact manager_processRelease a jobId type amount
  | granted jobId => exact manager_processGranted a conn jobId
  | denied jobId => exact manager_processDenied a jobId
  | jobRequest jobId requests => exact manager_processJobRequest a conn jobId requests red
  | getNodes => exact manager_processGetNodes a conn
  | jobRelease jobId => exact manager_processJobRelease a jobId
  | jobStatus jobId => exact manager_processJobStatus a conn jobId
  | jobTimeout jobId => exact manager_processJobTimeout a jobId
  | jobGranted _ | jobDenied _ | jobStatusIs _ _ | nodes _ | garbage => rfl

/-- **`process_message`, alone, is the function of the model.** -/
theorem processMessage_eq (conn : Conn) (msg : CString) (red : Network) :
    ((processMessage conn msg red).run a).2.manager
      = Hpc.processMessage conn msg red a.manager := by
  unfold processMessage Hpc.processMessage
  cases parseMessage msg with
  | none => rfl
  | some m => simp [manager_handle]

/-! ### The connection events -/

@[simp] theorem manager_freeJobs (lista : List Job) :
    ((freeJobs lista).run a).2.manager = Hpc.freeJobs lista a.manager :=
  manager_forM a (fun job a => by simp) lista

@[simp] theorem fst_tablaJobsExtractByRemoteConn (conn : Conn) :
    ((tablaJobsExtractByRemoteConn conn).run a).1
      = (Hpc.tablaJobsExtractByRemoteConn a.manager.tabla conn).1 := rfl

@[simp] theorem manager_tablaJobsExtractByRemoteConn (conn : Conn) :
    ((tablaJobsExtractByRemoteConn conn).run a).2.manager
      = a.manager.setTabla (Hpc.tablaJobsExtractByRemoteConn a.manager.tabla conn).2 := rfl

theorem manager_processDisconnect (conn : Conn) :
    ((processDisconnect conn).run a).2.manager = Hpc.processDisconnect conn a.manager := by
  simp [processDisconnect, Hpc.processDisconnect, dropJobs]

theorem manager_processConnectionReady (conn : Conn) :
    ((processConnectionReady conn).run a).2.manager
      = Hpc.processConnectionReady conn a.manager := by
  unfold processConnectionReady Hpc.processConnectionReady
  simp only [Routine.run_bind, run_lock, run_leer, run_unlock]
  exact manager_forM a (fun req a => by simp [readyRequest]) _

theorem manager_processConnectionFailed (conn : Conn) :
    ((processConnectionFailed conn).run a).2.manager
      = Hpc.processConnectionFailed conn a.manager := by
  simp [processConnectionFailed, Hpc.processConnectionFailed, dropJobs]

theorem manager_processAnnounce (now : ℤ) (ipSender message : CString) :
    ((processAnnounce now ipSender message).run a).2.manager
      = Hpc.processAnnounce now ipSender message a.manager := by
  unfold processAnnounce Hpc.processAnnounce
  cases parseAnnounce message with
  | none => rfl
  | some r => exact manager_tablaNodosInsertOrUpdate a now ipSender _ _ _ _

end Run

end Rutina

end Hpc
