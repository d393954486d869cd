import HpcAgent.Lib.Async
import HpcAgent.Lib.Channels
import HpcAgent.Sending
import HpcAgent.WireFormat

/-!
# A cluster of agents

Each node runs one agent; a connection that one of them creates to the address of
another has its other end there, and what is sent into one end comes out of the
other, in order and without loss. The agents move one at a time: a planner sends a
line, a connection comes up, or the next message arrives.

A message on its way is one that was sent and not yet received, so the channels need
no state of their own: they are read off the logs (`Cluster.salen`,
`Cluster.llegan`). That they keep the order is the invariant `Cluster.entregado`.
-/

namespace Hpc

/-! ## What a call receives and sends -/

/-- The lines handed to `process_message`, with their connections. -/
def recibidos (log : List Event) : List (Conn × Message) :=
  log.filterMap (fun e => match e with | .rx conn msg => some (conn, msg) | _ => none)

@[simp] theorem recibidos_append (l m : List Event) :
    recibidos (l ++ m) = recibidos l ++ recibidos m :=
  List.filterMap_append

theorem mem_recibidos {c : Conn} {m : Message} {log : List Event} :
    (c, m) ∈ recibidos log ↔ .rx c m ∈ log := by
  unfold recibidos
  rw [List.mem_filterMap]
  constructor
  · rintro ⟨e, he, heq⟩
    split at heq
    · obtain ⟨rfl, rfl⟩ := Prod.mk.inj (Option.some.inj heq)
      exact he
    · exact nomatch heq
  · exact fun h => ⟨_, h, rfl⟩

/-- The event is the arrival of a line. -/
def Event.llegada : Event → Bool
  | .rx .. => true
  | _ => false

/-- Serving a queue notes no arrival. -/
theorem calla_of_sirve {s s' : Manager} (h : s.Sirve s') : s.Calla Event.llegada s' := by
  obtain ⟨es, hlog, hes⟩ := h.log
  refine ⟨es, hlog, fun e he => ?_⟩
  have hroutine := hes e he
  cases e with
  | rx => exact absurd hroutine Bool.false_ne_true
  | _ => rfl

theorem recibidos_of_calla {s s' : Manager} (h : s.Calla Event.llegada s') :
    recibidos s'.log = recibidos s.log := by
  obtain ⟨es, hlog, hes⟩ := h
  have hnone : recibidos es = [] := by
    refine List.filterMap_eq_nil_iff.mpr (fun e he => ?_)
    have hllegada := hes e he
    cases e with
    | rx => exact absurd hllegada.symm Bool.false_ne_true
    | _ => rfl
  rw [hlog, recibidos_append, hnone, List.append_nil]

/-- **A handler notes no arrival.** -/
theorem calla_handle (conn : Conn) (red : Network) (m : Message) (s : Manager) :
    s.Calla Event.llegada (handle conn red m s) := by
  have hends : ∀ jobId, m.ends = some jobId → s.Calla Event.llegada (handle conn red m s) := by
    intro jobId hm
    have hstart : s.Calla Event.llegada (s.sinJob jobId) := .of_eq rfl
    obtain ⟨u, hsirve, heq | ⟨owner, -, -, heq⟩⟩ := ends_handle hm conn red s
    · rw [heq]
      exact hstart.trans (calla_of_sirve hsirve)
    · rw [heq]
      exact (hstart.trans (calla_of_sirve hsirve)).emit (e := .tx owner (.jobDenied jobId)) rfl
  cases m with
  | reserve jobId type amount =>
    show s.Calla Event.llegada (processReserve conn jobId type amount s)
    rcases processReserve_cases conn jobId type amount s with ⟨-, heq⟩ | ⟨-, -, heq⟩ | ⟨-, -, heq⟩
    · rw [heq]
      exact ((Manager.Calla.of_eq rfl).emit rfl).emit rfl
    · rw [heq]
      exact (Manager.Calla.of_eq rfl).emit rfl
    · rw [heq]
      exact .of_eq rfl
  | granted jobId =>
    exact Manager.Calla.processGranted (fun _ _ _ => rfl) (fun _ _ => rfl) (fun _ _ => rfl) conn
  | jobRequest jobId requests =>
    show s.Calla Event.llegada (processJobRequest conn jobId requests red s)
    have hloop := Manager.Calla.requestLoop (b := Event.llegada) (fun _ _ => rfl) (fun _ _ _ _ => rfl)
      (fun _ _ => rfl) requests red ⟨jobId, conn, [], []⟩ s
    rcases processJobRequest_cases conn jobId requests red s with
      ⟨_, -, heq⟩ | ⟨-, -, heq⟩ | ⟨-, -, heq⟩
    · rw [heq]
      exact .of_eq rfl
    · rw [heq]
      exact hloop.trans (.insertJob (fun _ _ => rfl) (fun _ _ => rfl) (fun _ _ => rfl) _ _ _)
    · rw [heq]
      exact hloop.trans (((Manager.Calla.of_eq rfl).trans
        (calla_of_sirve (.freeAllocations _ _ _))).emit rfl)
  | release jobId type amount => exact hends jobId rfl
  | denied jobId => exact hends jobId rfl
  | jobRelease jobId => exact hends jobId rfl
  | jobTimeout jobId => exact hends jobId rfl
  | getNodes => exact (Manager.Calla.of_eq rfl).emit rfl
  | jobStatus jobId => exact (Manager.Calla.of_eq rfl).emit rfl
  | jobGranted jobId => exact .of_eq rfl
  | jobDenied jobId => exact .of_eq rfl
  | jobStatusIs jobId active => exact .of_eq rfl
  | nodes line => exact .of_eq rfl
  | garbage => exact .of_eq rfl

/-- The line a call hands to `process_message`, as it is read. -/
def Call.linea : Call → List (Conn × Message)
  | .message conn msg _ => (parseMessage msg).toList.map (fun m => (conn, m))
  | _ => []

/-- **A call notes its own line.** -/
theorem recibidos_run (call : Call) (s : Manager) :
    recibidos (call.run s).log = recibidos s.log ++ call.linea := by
  have hnone : ∀ s', s.Calla Event.llegada s' → recibidos s'.log = recibidos s.log ++ [] :=
    fun s' h => (recibidos_of_calla h).trans (List.append_nil _).symm
  have hdrop : ∀ u conn, u.log = s.log → s.Calla Event.llegada (dropJobs conn u) := by
    intro u conn hlog
    have hstart : s.Calla Event.llegada
        (u.setTabla (tablaJobsExtractByRemoteConn u.tabla conn).2) := .of_eq hlog
    exact hstart.trans (calla_of_sirve (.dropJobs conn u))
  cases call with
  | message conn msg red =>
    show recibidos (processMessage conn msg red s).log = _
    cases hparse : parseMessage msg with
    | none =>
      simp only [processMessage, Call.linea, hparse]
      exact hnone s (.of_eq rfl)
    | some m =>
      simp only [processMessage, Call.linea, hparse]
      rw [recibidos_of_calla (calla_handle conn red m _), Manager.log_emit, recibidos_append]
      rfl
  | ready conn =>
    obtain ⟨conns, heq⟩ := processConnectionReady_eq s conn
    refine hnone _ ⟨_, congrArg Manager.log heq, fun e he => ?_⟩
    obtain ⟨req, -, rfl⟩ := List.mem_map.mp he
    rfl
  | failed conn => exact hnone _ (hdrop s conn rfl)
  | disconnect conn => exact hnone _ (hdrop (limpiarColasPorConn conn s) conn rfl)
  | announce now ipSender msg =>
    refine hnone _ (.of_eq ?_)
    show (processAnnounce now ipSender msg s).log = s.log
    unfold processAnnounce
    split <;> rfl
  | purge now timeout => exact hnone _ (.of_eq rfl)

theorem ip_requestLoop (requests : List ResourceRequest) (red : Network) (job : Job)
    (s : Manager) : (requestLoop requests red job s).2.2.ip = s.ip := by
  have h := requestLoop_invariant requests (P := fun _ _ u => u.ip = s.ip)
    (fun _ _ _ _ _ _ h _ => h) (fun _ _ _ _ _ _ h _ _ => h) (fun _ _ _ _ _ _ _ h _ => h)
    (fun _ _ _ _ _ _ _ h _ => h) [] red job s rfl
  rcases h with ⟨-, h⟩ | ⟨-, -, h⟩
  · exact h
  · exact h

/-- The address stays. -/
theorem Call.ip_run (call : Call) (s : Manager) : (call.run s).ip = s.ip := by
  rcases call.sigue s with hsigue | ⟨conn, rfl⟩ | ⟨conn, msg, red, jobId, requests, rfl, hparse⟩
  · exact hsigue.ip
  · obtain ⟨conns, heq⟩ := processConnectionReady_eq s conn
    show (processConnectionReady conn s).ip = s.ip
    rw [heq]
  · have hloop := ip_requestLoop requests red ⟨jobId, conn, [], []⟩
      (s.emit (.rx conn (.jobRequest jobId requests)))
    show (processMessage conn msg red s).ip = s.ip
    unfold processMessage
    rw [hparse]
    show (processJobRequest conn jobId requests red _).ip = s.ip
    rcases processJobRequest_cases conn jobId requests red
      (s.emit (.rx conn (.jobRequest jobId requests))) with
      ⟨_, -, heq⟩ | ⟨-, -, heq⟩ | ⟨-, -, heq⟩
    · rw [heq]
      rfl
    · rw [heq, ip_insertJob, hloop]
      rfl
    · rw [heq, (Manager.Sigue.rollbackJob _ _).ip, hloop]
      rfl

/-- A call records more. -/
theorem enviados_run (call : Call) (s : Manager) :
    ∃ l, enviados (call.run s).log = enviados s.log ++ l := by
  obtain ⟨es, hlog, -⟩ := call.log_run s
  exact ⟨enviados es, by rw [hlog, enviados_append]⟩

/-! ## The nodes -/

/-- **The nodes of a cluster**: their addresses, and the other end of a connection
between two nodes, if it is one. -/
structure Cluster (ν : Type) where
  ip : ν → CString
  extremo : ν → Conn → Option (ν × Conn)
  cabe : ∀ n, (ip n).length ≤ 14
  distintas : Function.Injective ip
  simetrico : ∀ n c m d, extremo n c = some (m, d) → extremo m d = some (n, c)
  ajeno : ∀ n c m d, extremo n c = some (m, d) → m ≠ n

namespace Cluster

variable {ν : Type} [DecidableEq ν] (K : Cluster ν)

/-- The host a connection of the node leads to. -/
def rumbo (n : ν) : Rumbo := fun c => (K.extremo n c).map (fun e => K.ip e.1)

/-- The nodes before any line, with what each has. -/
def inicio (cpu mem gpu : ν → Int32) : ν → Enlaces :=
  fun n => .inicio (managerInit (cpu n) (mem n) (gpu n) (K.ip n))

/-- What a node sent to another, with the connections it comes out of there. -/
def salen (x : ν → Enlaces) (n m : ν) : List (Conn × Message) :=
  (enviados (x n).manager.log).filterMap (fun e =>
    (K.extremo n e.1).bind (fun k => if k.1 = m then some (k.2, e.2) else none))

/-- What a node received from another. -/
def llegan (x : ν → Enlaces) (n m : ν) : List (Conn × Message) :=
  (recibidos (x m).manager.log).filter (fun e => (K.extremo m e.1).any (fun k => k.1 = n))

/-- **What may happen next.** -/
inductive Admite (x : ν → Enlaces) : ν × Suceso → Prop
  /-- A planner sends a line. The id of a job is new, new connections are free, and lead
  to the node with the address they are created for. -/
  | pide (n : ν) (conn : Conn) (msg : CString) (red : Network) (hplan : K.extremo n conn = none)
    (hnuevo : ∀ jobId requests, parseMessage msg = some (.jobRequest jobId requests) →
      ∀ c r, .rx c (.jobRequest jobId r) ∉ (x n).manager.log)
    (hred : (red.filterMap id).Nodup) (hlibre : ∀ c ∈ red.filterMap id, ¬(x n).manager.Creada c)
    (habre : Dirige (K.rumbo n) ((Call.message conn msg red).run (x n).manager).log) :
    Admite x (n, .call (.message conn msg red))
  /-- A planner is gone. -/
  | cierra (n : ν) (conn : Conn) (hplan : K.extremo n conn = none) :
    Admite x (n, .call (.disconnect conn))
  /-- The next message from another node arrives. -/
  | entrega (n m : ν) (conn d : Conn) (mensaje : Message)
    (hextremo : K.extremo n conn = some (m, d)) (hagente : mensaje.isAgent = true)
    (hsigue : Channels.Next (K.salen x m n) (K.llegan x m n) conn mensaje) :
    Admite x (n, .call (.message conn mensaje.line []))
  /-- A connection comes up. -/
  | lista (n : ν) (conn : Conn) (hcreada : (x n).manager.Creada conn)
    (hnot : conn ∉ (x n).listas) : Admite x (n, .call (.ready conn))
  /-- An `ANNOUNCE` arrives. -/
  | anuncia (n : ν) (now : ℤ) (ipSender msg : CString) :
    Admite x (n, .call (.announce now ipSender msg))
  | purga (n : ν) (now timeout : ℤ) : Admite x (n, .call (.purge now timeout))

/-- The states of the cluster. -/
def Alcanza (cpu mem gpu : ν → Int32) (x : ν → Enlaces) : Prop :=
  Reaches (Async.step Enlaces.step) K.Admite (K.inicio cpu mem gpu) x

end Cluster

namespace Cluster

variable {ν : Type} [DecidableEq ν] {K : Cluster ν} {x y : ν → Enlaces} {a : ν × Suceso}

/-- Only calls are made. -/
theorem Admite.call (h : K.Admite x a) : ∃ call, a.2 = .call call := by
  cases h <;> exact ⟨_, rfl⟩

section Step

variable {n : ν} {call : Call}

/-- The node that makes a call. -/
theorem manager_step (hstep : Async.step Enlaces.step x (n, .call call) = some y) :
    (y n).manager = call.run (x n).manager :=
  (congrArg Enlaces.manager (Option.some.inj (Async.step_self hstep))).symm

/-- **What is sent**: the node that makes a call may send more. -/
theorem salen_step (hstep : Async.step Enlaces.step x (n, .call call) = some y) (k m : ν) :
    ∃ l, K.salen y k m = K.salen x k m ++ l := by
  by_cases hk : k = n
  · subst hk
    obtain ⟨l, hl⟩ := enviados_run call (x k).manager
    unfold salen
    rw [manager_step hstep, hl, List.filterMap_append]
    exact ⟨_, rfl⟩
  · refine ⟨[], ?_⟩
    unfold salen
    rw [Async.step_of_ne hstep hk, List.append_nil]

/-- **What is received**: the node that makes a call receives its line. -/
theorem llegan_step (hstep : Async.step Enlaces.step x (n, .call call) = some y) (k m : ν) :
    K.llegan y k m = K.llegan x k m
      ++ if m = n then call.linea.filter (fun e => (K.extremo n e.1).any (fun j => j.1 = k))
        else [] := by
  by_cases hm : m = n
  · subst hm
    unfold llegan
    rw [manager_step hstep, recibidos_run, List.filter_append, if_pos rfl]
  · unfold llegan
    rw [Async.step_of_ne hstep hm, if_neg hm, List.append_nil]

/-- **A line, seen from another node**: it is the next message from there, or nothing
from there. -/
theorem Admite.linea (h : K.Admite x (n, .call call)) (k : ν) :
    call.linea.filter (fun e => (K.extremo n e.1).any (fun j => j.1 = k)) = []
      ∨ ∃ conn d mensaje, K.extremo n conn = some (k, d) ∧ mensaje.isAgent = true
        ∧ Channels.Next (K.salen x k n) (K.llegan x k n) conn mensaje
        ∧ call = .message conn mensaje.line []
        ∧ call.linea.filter (fun e => (K.extremo n e.1).any (fun j => j.1 = k))
          = [(conn, mensaje)] := by
  cases h with
  | pide _ conn msg red hplan =>
    refine Or.inl (List.filter_eq_nil_iff.mpr (fun e he => ?_))
    obtain ⟨m, -, rfl⟩ := List.mem_map.mp he
    simp [hplan]
  | cierra => exact Or.inl rfl
  | entrega _ m conn d mensaje hextremo hagente hsigue =>
    have hlinea : (Call.message conn mensaje.line []).linea = [(conn, mensaje)] := by
      unfold Call.linea
      dsimp only
      rw [parseMessage_line hagente]
      rfl
    rw [hlinea]
    by_cases hm : m = k
    · subst hm
      exact Or.inr ⟨conn, d, mensaje, hextremo, hagente, hsigue, rfl,
        List.filter_cons_of_pos (by simp [hextremo])⟩
    · exact Or.inl (List.filter_cons_of_neg (by simp [hextremo, hm]))
  | lista => exact Or.inl rfl
  | anuncia => exact Or.inl rfl
  | purga => exact Or.inl rfl

end Step

variable {cpu mem gpu : ν → Int32}

/-- **The channels keep the order and lose nothing.** -/
theorem entregado (h : Reaches (Async.step Enlaces.step) K.Admite (K.inicio cpu mem gpu) x)
    (n m : ν) : Channels.Delivered (K.salen x n m) (K.llegan x n m) := by
  refine h.invariant (I := fun x => ∀ n m, Channels.Delivered (K.salen x n m) (K.llegan x n m))
    (fun n m => .nil _) (fun u a v hu ha hstep n m => ?_) n m
  obtain ⟨k, suceso⟩ := a
  obtain ⟨call, hcall⟩ := ha.call
  change suceso = .call call at hcall
  subst hcall
  obtain ⟨l, hl⟩ := salen_step (K := K) hstep n m
  rw [hl, llegan_step hstep]
  refine Channels.Delivered.send ?_ l
  split
  · next hm =>
    subst hm
    rcases ha.linea n with hnone | ⟨conn, d, mensaje, -, -, hnext, -, hone⟩
    · rw [hnone, List.append_nil]
      exact hu n m
    · rw [hone]
      exact (hu n m).receive hnext
  · rw [List.append_nil]
    exact hu n m

/-! ## What each node keeps to -/

section Nodes

variable {n : ν}

omit [DecidableEq ν] in
theorem corta (n : ν) : (K.rumbo n).Corta := by
  intro c host hc
  obtain ⟨e, -, rfl⟩ := Option.map_eq_some_iff.mp hc
  exact K.cabe e.1

/-- **A move of the cluster is one its node allows.** -/
theorem Admite.estrena {suceso : Suceso} (h : K.Admite x (n, suceso)) :
    Enlaces.Estrena (K.rumbo n) (x n) suceso := by
  cases h with
  | pide _ conn msg red hplan hnuevo hred hlibre habre => exact ⟨⟨hred, hlibre⟩, hnuevo⟩
  | cierra _ conn hplan =>
    show (K.extremo n conn).map _ = none
    rw [hplan]
    rfl
  | entrega _ m conn d mensaje hextremo hagente hsigue =>
    refine ⟨⟨List.nodup_nil, fun _ hc => absurd hc List.not_mem_nil⟩,
      fun jobId requests hparse => ?_⟩
    rw [parseMessage_line hagente] at hparse
    obtain rfl := Option.some.inj hparse
    exact absurd hagente Bool.false_ne_true
  | lista _ conn hcreada hnot => exact ⟨hcreada, hnot⟩
  | anuncia => trivial
  | purga => trivial

/-- **A node's connections lead to the hosts they were opened to.** -/
theorem Alcanza.dirige (h : K.Alcanza cpu mem gpu x) (n : ν) :
    Dirige (K.rumbo n) (x n).manager.log := by
  refine h.invariant (I := fun x => ∀ n, Dirige (K.rumbo n) (x n).manager.log)
    (fun _ _ _ hmem => absurd hmem List.not_mem_nil) (fun u a v hu ha hstep n => ?_) n
  obtain ⟨k, suceso⟩ := a
  by_cases hn : n = k
  swap
  · rw [Async.step_of_ne hstep hn]
    exact hu n
  subst hn
  obtain ⟨call, hcall⟩ := ha.call
  change suceso = .call call at hcall
  subst hcall
  rw [manager_step hstep]
  -- only a job that is requested opens connections
  have hold : ∀ es, (call.run (u n).manager).log = (u n).manager.log ++ es →
      (∀ host c, .connecting host c ∉ es) →
      Dirige (K.rumbo n) (call.run (u n).manager).log := by
    intro es hlog hes host c hmem
    rw [hlog] at hmem
    exact hu n host c ((List.mem_append.mp hmem).resolve_right (hes host c))
  rcases call.sigue (u n).manager with
    hsigue | ⟨conn, rfl⟩ | ⟨conn, msg, red, jobId, requests, rfl, hparse⟩
  · obtain ⟨es, hlog, hes⟩ := hsigue.log
    exact hold es hlog (fun _ _ hmem => Bool.false_ne_true (hes _ hmem))
  · obtain ⟨conns, heq⟩ := processConnectionReady_eq (u n).manager conn
    refine hold _ (congrArg Manager.log heq) (fun host c hmem => ?_)
    obtain ⟨req, -, heq⟩ := List.mem_map.mp hmem
    exact Event.noConfusion heq
  · cases ha with
    | pide _ conn msg red hplan hnuevo hred hlibre habre => exact habre
    | entrega _ m conn d mensaje hextremo hagente hsigue =>
      rw [parseMessage_line hagente] at hparse
      obtain rfl := Option.some.inj hparse
      exact absurd hagente Bool.false_ne_true

/-- The address of a node. -/
theorem Alcanza.ip (h : K.Alcanza cpu mem gpu x) (n : ν) : (x n).manager.ip = K.ip n := by
  have hinicio : ∀ n, (K.inicio cpu mem gpu n).manager.ip = K.ip n :=
    fun n => copyTo_of_lt (Nat.lt_of_le_of_lt (K.cabe n) (by decide))
  refine h.invariant (I := fun x => ∀ n, (x n).manager.ip = K.ip n) hinicio
    (fun u a v hu ha hstep n => ?_) n
  obtain ⟨k, suceso⟩ := a
  by_cases hn : n = k
  · subst hn
    obtain ⟨call, hcall⟩ := ha.call
    change suceso = .call call at hcall
    subst hcall
    rw [manager_step hstep, call.ip_run]
    exact hu n
  · rw [Async.step_of_ne hstep hn]
    exact hu n

/-- What a node does is a run of its own. -/
theorem Alcanza.nodo (h : K.Alcanza cpu mem gpu x) (n : ν) :
    Reaches Enlaces.step (Enlaces.Estrena (K.rumbo n))
      (.inicio (managerInit (cpu n) (mem n) (gpu n) (K.ip n))) (x n) :=
  h.component (fun _ _ ha => ha.estrena)

theorem Alcanza.manda (h : K.Alcanza cpu mem gpu x) (n : ν) :
    Recibe (K.rumbo n) ((x n).manager, []) ∧ Manda (K.rumbo n) (x n) :=
  manda_of_reaches (corta n) (h.nodo n) (h.dirige n)

theorem Alcanza.otorga (h : K.Alcanza cpu mem gpu x) (n : ν) : (x n).manager.Otorga :=
  otorga_of_reaches (Enlaces.reaches_manager (h.nodo n) (fun _ _ _ => trivial))

end Nodes

/-! ## A test of the moves -/

/-- **Whether a move is one of the cluster's.** -/
def admite (K : Cluster ν) (x : ν → Enlaces) : ν × Suceso → Bool
  | (n, .call (.message conn msg red)) =>
    match K.extremo n conn, parseMessage msg with
    | none, _ => (x n).manager.estrena msg
      && decide ((red.filterMap id).Nodup)
      && decide (∀ c ∈ red.filterMap id, ¬(x n).manager.Creada c)
      && decide (Dirige (K.rumbo n) ((Call.message conn msg red).run (x n).manager).log)
    | some (m, _), some mensaje => mensaje.isAgent && decide (msg = mensaje.line)
      && decide (red = [])
      && decide (Channels.Next (K.salen x m n) (K.llegan x m n) conn mensaje)
    | some _, none => false
  | (n, .call (.ready conn)) => decide ((x n).manager.Creada conn ∧ conn ∉ (x n).listas)
  | (n, .call (.disconnect conn)) => (K.extremo n conn).isNone
  | (_, .call (.announce ..)) | (_, .call (.purge ..)) => true
  | _ => false

theorem admite_sound {a : ν × Suceso} (h : K.admite x a = true) : K.Admite x a := by
  obtain ⟨n, suceso⟩ := a
  cases suceso with
  | accept conn => exact absurd h Bool.false_ne_true
  | call call =>
    cases call with
    | message conn msg red =>
      unfold admite at h
      dsimp only at h
      split at h
      · next hplan =>
        simp only [Bool.and_eq_true, decide_eq_true_eq] at h
        obtain ⟨⟨⟨hnuevo, hred⟩, hlibre⟩, habre⟩ := h
        exact .pide n conn msg red hplan (Manager.estrena_iff.mp hnuevo) hred hlibre habre
      · next m d mensaje hextremo hparse =>
        simp only [Bool.and_eq_true, decide_eq_true_eq] at h
        obtain ⟨⟨⟨hagente, rfl⟩, rfl⟩, hsigue⟩ := h
        exact .entrega n m conn d mensaje hextremo hagente hsigue
      · exact absurd h Bool.false_ne_true
    | ready conn => exact .lista n conn (of_decide_eq_true h).1 (of_decide_eq_true h).2
    | failed conn => exact absurd h Bool.false_ne_true
    | disconnect conn => exact .cierra n conn (Option.isNone_iff_eq_none.mp h)
    | announce now ipSender msg => exact .anuncia n now ipSender msg
    | purge now timeout => exact .purga n now timeout

/-! ## A cluster of two nodes -/

/-- Two nodes, and a connection from the first to the second. -/
def parConectado : Cluster Bool where
  ip n := if n then ['B'] else ['A']
  extremo n c := if n then if c = 3 then some (false, 7) else none
    else if c = 7 then some (true, 3) else none
  cabe := by decide
  distintas := by decide
  simetrico n c m d h := by
    cases n with
    | false =>
      obtain ⟨rfl, heq⟩ := Option.ite_none_right_eq_some.mp h
      obtain ⟨rfl, rfl⟩ := Prod.mk.inj (Option.some.inj heq)
      rfl
    | true =>
      obtain ⟨rfl, heq⟩ := Option.ite_none_right_eq_some.mp h
      obtain ⟨rfl, rfl⟩ := Prod.mk.inj (Option.some.inj heq)
      rfl
  ajeno n c m d h := by
    cases n with
    | false =>
      obtain ⟨rfl, heq⟩ := Option.ite_none_right_eq_some.mp h
      obtain ⟨rfl, rfl⟩ := Prod.mk.inj (Option.some.inj heq)
      exact Bool.noConfusion
    | true =>
      obtain ⟨rfl, heq⟩ := Option.ite_none_right_eq_some.mp h
      obtain ⟨rfl, rfl⟩ := Prod.mk.inj (Option.some.inj heq)
      exact Bool.noConfusion

/-- A job that asks the second node for one thing, and then one that asks it for two, of
which one has to wait and the other is granted. -/
def dosPedidos : List (Bool × Suceso) :=
  [(false, .call (.announce 0 ['B'] "ANNOUNCE 9000 cpu:4 mem:8 gpu:1".toList)),
   (false, .call (.message 1 "JOB_REQUEST 1 @B:cpu:1 @A:gpu:1".toList [some 7])),
   (false, .call (.ready 7)),
   (true, .call (.message 3 (Message.reserve 1 .cpu 1).line [])),
   (false, .call (.message 7 (Message.granted 1).line [])),
   (false, .call (.message 1 "JOB_REQUEST 2 @B:cpu:4 @B:mem:2".toList [])),
   (true, .call (.message 3 (Message.reserve 2 .cpu 4).line [])),
   (true, .call (.message 3 (Message.reserve 2 .mem 2).line []))]

/-- The state a list of moves leads to. -/
theorem alcanza_of_checked {pasos : List (Bool × Suceso)} {test : (Bool → Enlaces) → Bool}
    (hcheck : (Reaches.checked (Async.step Enlaces.step) parConectado.admite
      (parConectado.inicio (fun _ => 4) (fun _ => 8) (fun _ => 1)) pasos).any test = true) :
    ∃ x, parConectado.Alcanza (fun _ => 4) (fun _ => 8) (fun _ => 1) x ∧ test x = true := by
  obtain ⟨x, -, hrun, hx⟩ := Reaches.of_checked (fun _ _ => admite_sound) hcheck
  exact ⟨x, hrun, hx⟩

end Cluster

end Hpc
