import HpcAgent.Lib.Scan
import HpcAgent.Lib.Buckets

/-!
# The data types of the agent

The enumerations and records of `resource_types.h`, `parsing.h`,
`pending_request.h`, `tabla_conns.h`, `tabla_node_entry.h` and `tabla_jobs.h`.
A C `int` is an `Int32`, so that sums and differences wrap as the machine's
do; a `connection_t *` is a connection number, since the resource manager
only compares such pointers and hands them to the network layer; a fixed
array of characters is the string `strncpy` leaves in it.

`Message` is the protocol: one constructor per line the agents and the
planners exchange, with the fields its format string prints. `Event` is what a
run leaves behind, `rx` and `tx` being the lines the agent logs under `[RX]`
and `[TX]`. Its other events are ghosts: no function of the agent reads the
log, and the results are about what it records.
-/

namespace Hpc

/-- `resource_t`. -/
inductive Resource
  | cpu
  | mem
  | gpu
deriving DecidableEq

/-- `resource_type_to_str`. -/
def Resource.toStr : Resource → CString
  | .cpu => ['c', 'p', 'u']
  | .mem => ['m', 'e', 'm']
  | .gpu => ['g', 'p', 'u']

/-- A `connection_t *`. -/
abbrev Conn := ℕ

/-- `origin_t`: who waits in a queue. -/
inductive Origin
  | originLocal
  | originRemote
deriving DecidableEq

theorem Origin.eq_originLocal {o : Origin} (h : o ≠ .originRemote) : o = .originLocal := by
  cases o with
  | originLocal => rfl
  | originRemote => exact absurd rfl h

/-- `alloc_type_t`. -/
inductive AllocType
  | remoteAlloc
  | localAlloc
deriving DecidableEq

/-- `result_t`. -/
inductive Result
  | granted
  | queued
  | denied
deriving DecidableEq

/-- `PendingRequest`, an entry of a resource's queue. -/
structure PendingRequest where
  jobId : Int32
  amount : Int32
  ownerConn : Conn
  origen : Origin
deriving DecidableEq

/-- `resource_request_t`, an entry of a parsed `JOB_REQUEST`. -/
structure ResourceRequest where
  ip : CString
  type : Resource
  amount : Int32
deriving DecidableEq

/-- A line of the protocol, by its format string. The last two are what the
agent can send without a format of its own: the `NODES` line, and the contents
of a buffer nobody initialised. -/
inductive Message
  /-- `RESERVE %d %s %d` -/
  | reserve (jobId : Int32) (type : Resource) (amount : Int32)
  /-- `RELEASE %d %s %d` -/
  | release (jobId : Int32) (type : Resource) (amount : Int32)
  /-- `GRANTED %d` -/
  | granted (jobId : Int32)
  /-- `DENIED %d` -/
  | denied (jobId : Int32)
  /-- `JOB_REQUEST %d @host:res:amount…` -/
  | jobRequest (jobId : Int32) (requests : List ResourceRequest)
  /-- `GET_NODES` -/
  | getNodes
  /-- `JOB_RELEASE %d` -/
  | jobRelease (jobId : Int32)
  /-- `JOB_STATUS %d` -/
  | jobStatus (jobId : Int32)
  /-- `JOB_TIMEOUT %d` -/
  | jobTimeout (jobId : Int32)
  /-- `JOB_GRANTED %d` -/
  | jobGranted (jobId : Int32)
  /-- `JOB_DENIED %d` -/
  | jobDenied (jobId : Int32)
  /-- `JOB_STATUS %d ACTIVE` or `JOB_STATUS %d UNKNOWN` -/
  | jobStatusIs (jobId : Int32) (active : Bool)
  /-- The line `GET_NODES` is answered with. -/
  | nodes (line : CString)
  /-- An uninitialised `OutRequest.msg`. -/
  | garbage
deriving DecidableEq

/-- The job a message is about. -/
def Message.jobId? : Message → Option Int32
  | .reserve jobId _ _ | .release jobId _ _ | .granted jobId | .denied jobId
  | .jobRequest jobId _ | .jobRelease jobId | .jobStatus jobId | .jobTimeout jobId
  | .jobGranted jobId | .jobDenied jobId | .jobStatusIs jobId _ => some jobId
  | .getNodes | .nodes _ | .garbage => none

/-- `Allocation`, a resource a job holds or waits for on this node, or was
granted by another. -/
structure Allocation where
  name : Resource
  amount : Int32
  type : AllocType
  ip : CString
  jobId : Int32
  result : Result
  conn : Conn
deriving DecidableEq

/-- `OutRequest`, a request to another node that is not answered yet; `msg` is
the line to send once the connection is up, `none` where `crear_outrequest`
leaves the buffer uninitialised. -/
structure OutRequest where
  ip : CString
  conn : Conn
  tipo : Resource
  amount : Int32
  msg : Option Message
deriving DecidableEq

/-- `Job`; the two lists are in the order of their links. -/
structure Job where
  jobId : Int32
  conn : Conn
  confirmadas : List Allocation
  pendientes : List OutRequest
deriving DecidableEq

/-- `ConnEntry`. -/
structure ConnEntry where
  ip : CString
  conn : Conn
deriving DecidableEq

/-- `NodeEntry`, a node heard of over UDP. -/
structure NodeEntry where
  ip : CString
  puerto : Int32
  cpuDisp : Int32
  memDisp : Int32
  gpuDisp : Int32
  lastSeen : ℤ
deriving DecidableEq

/-- What a run records. -/
inductive Event
  /-- A line handed to `process_message`. -/
  | rx (conn : Conn) (msg : Message)
  /-- A line handed to `send_message` or `enqueue_write`. -/
  | tx (conn : Conn) (msg : Message)
  /-- `connect_remote_node` returned a connection to that address. -/
  | connecting (ip : CString) (conn : Conn)
  /-- A grant: `reserve_resource` returned `RM_GRANTED`, or the loop of
  `release_resource` dequeued the request. -/
  | grant (type : Resource) (p : PendingRequest)
  /-- The teardown of a job releases what the job held on this node. -/
  | giveBack (type : Resource) (p : PendingRequest)
  /-- A `RELEASE` gives back what the node had granted a remote job. -/
  | returned (type : Resource) (jobId : Int32) (amount : Int32)
  /-- `tabla_jobs_insertar_job` put a job into the table, made from these
  requests. -/
  | inserted (job : Job) (requests : List ResourceRequest)
  /-- The job as the table has it when its `JOB_GRANTED` is sent. -/
  | completed (jobId : Int32) (job : Option Job)
deriving DecidableEq

/-- `strncpy(dst, src, size - 1)` followed by the terminating NUL. -/
def copyTo (size : ℕ) (s : CString) : CString := s.take (size - 1)

/-- `BUFF_SIZE`. -/
def BUFF_SIZE : ℕ := 1024

theorem BUFF_SIZE_pos : 0 < BUFF_SIZE := by decide

end Hpc
