import HpcAgent.Addresses
import HpcAgent.Connections
import HpcAgent.Serving

/-!
# Each request is asked for once

A remote entry of a `JOB_REQUEST` is asked for with a `RESERVE`: at once, over a
connection of the table, or when the connection created for it comes up, from the
copy of the line in its `OutRequest`. Which of the two it is depends on whether the
connection was up when the job was requested, and the buffer of the line is only
filled in the second case.

A `RESERVE` names the job, the resource and the amount, so what can be counted on a
connection are the requests that agree in these. Since the line that requested a job
(`Job.Historial`), as many were sent as the job was inserted with, if the connection
is up, and none if it is not (`Job.Pedido`). That rests on the table of connections
having only connections that are up, so that at most one request waits for each of the
others (`Enlaces.Pregunta`).
-/

namespace Hpc

/-! ## What is counted -/

/-- The times the request was sent for the job of that id. -/
def OutRequest.pedidas (o : OutRequest) (jobId : Int32) (log : List Event) : ℕ :=
  (enviados log).count (o.conn, .reserve jobId o.tipo o.amount)

/-- The requests for the same amount of the same resource on the same connection. -/
def OutRequest.iguales (o : OutRequest) (l : List OutRequest) : ℕ :=
  l.countP (fun p => p.conn == o.conn && p.tipo == o.tipo && p.amount == o.amount)

/-- **The history of a job of the table**: `desde` is what was recorded since the line
that requested it, and `nuevo` the job as the handler of that line inserted it. -/
structure Job.Historial (j nuevo : Job) (log desde : List Event) : Prop where
  log : ∃ previo conn requests llamada resto,
    log = previo ++ .rx conn (.jobRequest j.jobId requests) :: desde ∧
    desde = llamada ++ .inserted nuevo requests :: resto ∧
    (∀ c m, .rx c m ∉ llamada) ∧
    ∀ job r, .inserted job r ∈ resto → job.jobId ≠ j.jobId
  jobId : nuevo.jobId = j.jobId
  pendientes : j.pendientes.Sublist nuevo.pendientes

/-- **Each pending request was asked for once**, if its connection is up, and else not
yet, and then its line is kept. -/
structure Job.Pedido (listas : List Conn) (j nuevo : Job) (desde : List Event) : Prop where
  lista : ∀ o ∈ j.pendientes, o.conn ∈ listas →
    o.pedidas j.jobId desde = o.iguales nuevo.pendientes
  enCurso : ∀ o ∈ j.pendientes, o.conn ∉ listas →
    o.pedidas j.jobId desde = 0 ∧ o.msg = some (.reserve j.jobId o.tipo o.amount)

/-- The job's requests on connections that are not up, each alone on its own. -/
def Job.Solas (listas : List Conn) (nuevo : Job) : Prop :=
  ∀ c, c ∉ listas → (nuevo.pendientes.map (·.conn)).count c ≤ 1

namespace Enlaces

/-- **The runs**: `connect_remote_node` returns connections that are new, and
`process_connection_ready` is called at most once for each. -/
def UnaVez (x : Enlaces) : Suceso → Prop
  | .call (.message _ _ red) => (red.filterMap id).Nodup
      ∧ ∀ c ∈ red.filterMap id, ¬x.manager.Creada c
  | .call (.ready conn) => x.manager.Creada conn ∧ conn ∉ x.listas
  | _ => True

/-- **The invariant.** -/
structure Pregunta (x : Enlaces) : Prop where
  /-- The table of connections has only connections that are up. -/
  conns : ∀ i, ∀ e ∈ x.manager.conns.buckets i, e.conn ∈ x.listas
  listas : ∀ c ∈ x.listas, x.manager.Creada c
  creadas : ∀ c ∈ x.manager.esperadas, x.manager.Creada c
  una : ∀ c, c ∉ x.listas → x.manager.esperadas.count c ≤ 1
  jobs : ∀ j ∈ x.manager.jobs, ∃ nuevo desde, j.Historial nuevo x.manager.log desde
    ∧ j.Pedido x.listas nuevo desde ∧ nuevo.Solas x.listas
  limpia : ∀ c, .tx c .garbage ∉ x.manager.log

end Enlaces

/-! ## More is recorded -/

/-- What is recorded asks for nothing of the job, and does not insert it. -/
structure Calla (jobId : Int32) (es : List Event) : Prop where
  reserve : ∀ c t a, .tx c (.reserve jobId t a) ∉ es
  inserted : ∀ job r, .inserted job r ∈ es → job.jobId ≠ jobId

theorem mem_enviados {c : Conn} {m : Message} {log : List Event} :
    (c, m) ∈ enviados log ↔ .tx c m ∈ log := by
  unfold enviados
  rw [List.mem_filterMap]
  constructor
  · rintro ⟨e, he, heq⟩
    cases e with
    | tx conn msg =>
      obtain ⟨rfl, rfl⟩ := Prod.mk.inj (Option.some.inj heq)
      exact he
    | _ => exact nomatch heq
  · exact fun h => ⟨_, h, rfl⟩

theorem OutRequest.pedidas_append (o : OutRequest) (jobId : Int32) (l m : List Event) :
    o.pedidas jobId (l ++ m) = o.pedidas jobId l + o.pedidas jobId m := by
  unfold pedidas
  rw [enviados_append, List.count_append]

theorem Calla.pedidas {jobId : Int32} {es : List Event} (h : Calla jobId es) (o : OutRequest) :
    o.pedidas jobId es = 0 :=
  List.count_eq_zero.mpr (fun hmem => h.reserve _ _ _ (mem_enviados.mp hmem))

theorem Calla.of_interno {es : List Event} (hes : ∀ e ∈ es, e.interno = true) (jobId : Int32) :
    Calla jobId es :=
  ⟨fun _ _ _ hmem => Bool.false_ne_true (hes _ hmem),
    fun _ _ hmem => absurd (hes _ hmem) Bool.false_ne_true⟩

theorem Job.Historial.append {j nuevo : Job} {log desde es : List Event}
    (h : j.Historial nuevo log desde)
    (hes : ∀ job r, .inserted job r ∈ es → job.jobId ≠ j.jobId) :
    j.Historial nuevo (log ++ es) (desde ++ es) := by
  obtain ⟨previo, conn, requests, llamada, resto, hlog, hdesde, hrx, hresto⟩ := h.log
  refine ⟨⟨previo, conn, requests, llamada, resto ++ es, ?_, ?_, hrx, fun job r hmem => ?_⟩,
    h.jobId, h.pendientes⟩
  · rw [hlog, List.append_assoc, List.cons_append]
  · rw [hdesde, List.append_assoc, List.cons_append]
  · rcases List.mem_append.mp hmem with hmem | hmem
    · exact hresto job r hmem
    · exact hes job r hmem

theorem Job.Pedido.append {listas : List Conn} {j nuevo : Job} {desde es : List Event}
    (h : j.Pedido listas nuevo desde) (hes : Calla j.jobId es) :
    j.Pedido listas nuevo (desde ++ es) := by
  refine ⟨fun o ho hup => ?_, fun o ho hdown => ?_⟩
  · rw [o.pedidas_append, hes.pedidas, Nat.add_zero]
    exact h.lista o ho hup
  · rw [o.pedidas_append, hes.pedidas, Nat.add_zero]
    exact h.enCurso o ho hdown

/-- A job with fewer pending requests. -/
theorem Job.Pedido.sublist {listas : List Conn} {j j' nuevo : Job} {desde : List Event}
    (h : j.Pedido listas nuevo desde) (hid : j'.jobId = j.jobId)
    (hsub : j'.pendientes.Sublist j.pendientes) : j'.Pedido listas nuevo desde := by
  refine ⟨fun o ho hup => ?_, fun o ho hdown => ?_⟩
  · rw [hid]
    exact h.lista o (hsub.subset ho) hup
  · rw [hid]
    exact h.enCurso o (hsub.subset ho) hdown

theorem Job.Historial.sublist {j j' nuevo : Job} {log desde : List Event}
    (h : j.Historial nuevo log desde) (hid : j'.jobId = j.jobId)
    (hsub : j'.pendientes.Sublist j.pendientes) : j'.Historial nuevo log desde :=
  ⟨hid ▸ h.log, h.jobId.trans hid.symm, hsub.trans h.pendientes⟩

/-- What is left of the pending requests of a job. -/
theorem Job.Sigue.pendientes_sublist {j j' : Job} (h : j.Sigue j') :
    j'.pendientes.Sublist j.pendientes := by
  rcases h with (h | ⟨ip, jobId, rfl⟩) | ⟨conn, h⟩
  · rw [h.pendientes]
  · unfold jobConfirmar
    split
    · exact .refl _
    · exact List.eraseP_sublist
  · rw [h.pendientes]
    exact .refl _

namespace Enlaces.Pregunta

variable {x : Enlaces}

/-- **More is recorded**, and the tables stay. -/
theorem extiende (h : x.Pregunta) {u : Manager} {es : List Event}
    (htabla : u.tabla = x.manager.tabla) (hconns : u.conns = x.manager.conns)
    (hlog : u.log = x.manager.log ++ es) (hes : ∀ j ∈ x.manager.jobs, Calla j.jobId es)
    (hlimpia : ∀ c, .tx c .garbage ∉ es) : Pregunta { x with manager := u } := by
  have hjobs : u.jobs = x.manager.jobs := congrArg TablaJobs.jobs htabla
  have hesperadas : u.esperadas = x.manager.esperadas := by
    unfold Manager.esperadas
    rw [hjobs]
  have hcreada : ∀ c, x.manager.Creada c → u.Creada c :=
    fun c => Manager.Creada.mono (hlog ▸ List.subset_append_left _ _)
  refine ⟨fun i e he => h.conns i e (hconns ▸ he), fun c hc => hcreada c (h.listas c hc),
    fun c hc => hcreada c (h.creadas c (hesperadas ▸ hc)), fun c hc => ?_, fun j hj => ?_,
    fun c hmem => ?_⟩
  · show u.esperadas.count c ≤ 1
    rw [hesperadas]
    exact h.una c hc
  · have hj : j ∈ x.manager.jobs := hjobs ▸ hj
    obtain ⟨nuevo, desde, hhist, hped, hsola⟩ := h.jobs j hj
    refine ⟨nuevo, desde ++ es, ?_, hped.append (hes j hj), hsola⟩
    show j.Historial nuevo u.log _
    rw [hlog]
    exact hhist.append (hes j hj).inserted
  · have hmem : .tx c .garbage ∈ u.log := hmem
    rw [hlog] at hmem
    rcases List.mem_append.mp hmem with hmem | hmem
    · exact h.limpia c hmem
    · exact hlimpia c hmem

/-- **A call that only lets go.** -/
theorem sigue (h : x.Pregunta) {conn? : Option Conn} {s' : Manager}
    (hs : x.manager.Sigue conn? s') {y : Enlaces} (hy : y.manager = s')
    (hlistas : y.listas = x.listas) : y.Pregunta := by
  obtain ⟨es, hlog, hes⟩ := hs.log
  subst hy
  refine ⟨fun i e he => hlistas ▸ h.conns i e ((hs.conns i).subset he), fun c hc => ?_,
    fun c hc => (hs.creada c).mpr (h.creadas c (hs.esperadas.subset hc)), fun c hc => ?_,
    fun j' hj' => ?_, fun c hmem => ?_⟩
  · rw [hlistas] at hc
    exact (hs.creada c).mpr (h.listas c hc)
  · rw [hlistas] at hc
    exact (hs.esperadas.count_le c).trans (h.una c hc)
  · obtain ⟨j, hj, hjj'⟩ := hs.tabla.exists_of_mem_toList hj'
    obtain ⟨nuevo, desde, hhist, hped, hsola⟩ := h.jobs j hj
    have hcalla := Calla.of_interno hes j.jobId
    refine ⟨nuevo, desde ++ es, ?_, ?_, hlistas ▸ hsola⟩
    · rw [hlog]
      exact (hhist.append hcalla.inserted).sublist hjj'.jobId hjj'.pendientes_sublist
    · rw [hlistas]
      exact (hped.append hcalla).sublist hjj'.jobId hjj'.pendientes_sublist
  · rw [hlog] at hmem
    rcases List.mem_append.mp hmem with hmem | hmem
    · exact h.limpia c hmem
    · exact Bool.false_ne_true (hes _ hmem)

end Enlaces.Pregunta

/-! ## A connection comes up -/

/-- The only request that waits is the one it finds. -/
theorem getPendientesByConn_eq {s : Manager} {conn : Conn} (huna : s.esperadas.count conn ≤ 1)
    {j : Job} (hj : j ∈ s.jobs) {o : OutRequest} (ho : o ∈ j.pendientes) (hconn : o.conn = conn) :
    tablaJobsGetPendientesByConn s.tabla conn
      = [crearOutrequest o.ip o.conn o.tipo o.amount o.msg] := by
  have hlength := length_getPendientesByConn s.tabla conn
  have hmem : crearOutrequest o.ip o.conn o.tipo o.amount o.msg
      ∈ tablaJobsGetPendientesByConn s.tabla conn := by
    unfold tablaJobsGetPendientesByConn
    refine List.mem_reverse.mpr (List.mem_flatMap.mpr ⟨j, hj, List.mem_map.mpr ⟨o, ?_, rfl⟩⟩)
    exact List.mem_filter.mpr ⟨ho, beq_iff_eq.mpr hconn⟩
  have hone : (tablaJobsGetPendientesByConn s.tabla conn).length = 1 :=
    le_antisymm (hlength ▸ huna) (List.length_pos_of_mem hmem)
  obtain ⟨req, hlista⟩ := List.length_eq_one_iff.mp hone
  rw [hlista] at hmem ⊢
  rw [List.mem_singleton.mp hmem]

/-- A request that is alone on its connection. -/
theorem OutRequest.iguales_eq_one {o : OutRequest} {l : List OutRequest} (ho : o ∈ l)
    (hsola : (l.map (·.conn)).count o.conn ≤ 1) : o.iguales l = 1 := by
  have hpos : 0 < o.iguales l := List.countP_pos_iff.mpr ⟨o, ho, by simp⟩
  have hle : o.iguales l ≤ (l.map (·.conn)).count o.conn := by
    rw [List.count, List.countP_map]
    refine List.countP_mono_left (fun p _ hp => ?_)
    simp only [Bool.and_eq_true] at hp
    exact hp.1.1
  omega

/-- What `process_connection_ready` records. -/
def preguntas (conn : Conn) (t : TablaJobs) : List Event :=
  (tablaJobsGetPendientesByConn t conn).map (fun req => .tx conn (req.msg.getD .garbage))

theorem enviados_preguntas (conn : Conn) (t : TablaJobs) :
    enviados (preguntas conn t)
      = (tablaJobsGetPendientesByConn t conn).map (fun req => (conn, req.msg.getD .garbage)) := by
  unfold preguntas
  induction tablaJobsGetPendientesByConn t conn with
  | nil => rfl
  | cons req lista ih =>
    rw [List.map_cons, List.map_cons, ← ih]
    rfl

/-- On other connections nothing is sent. -/
theorem pedidas_preguntas_of_ne {o : OutRequest} {conn : Conn} (h : o.conn ≠ conn)
    (jobId : Int32) (t : TablaJobs) : o.pedidas jobId (preguntas conn t) = 0 := by
  rw [OutRequest.pedidas, enviados_preguntas, List.count_eq_zero]
  intro hmem
  obtain ⟨req, -, heq⟩ := List.mem_map.mp hmem
  exact h (Prod.mk.inj heq).1.symm

/-- **The requests of a job when a connection comes up**: the one that waited for it is
sent. -/
theorem Job.Pedido.ready {listas : List Conn} {s : Manager} {conn : Conn} {j nuevo : Job}
    {desde : List Event} (h : j.Pedido listas nuevo desde) (hsola : nuevo.Solas listas)
    (hsub : j.pendientes.Sublist nuevo.pendientes) (hj : j ∈ s.jobs) (hnot : conn ∉ listas)
    (huna : s.esperadas.count conn ≤ 1) :
    j.Pedido (conn :: listas) nuevo (desde ++ preguntas conn s.tabla) := by
  refine ⟨fun o ho hup => ?_, fun o ho hdown => ?_⟩
  · by_cases hconn : o.conn = conn
    · have hdown : o.conn ∉ listas := hconn ▸ hnot
      obtain ⟨hzero, hmsg⟩ := h.enCurso o ho hdown
      have hone : enviados (preguntas conn s.tabla)
          = [(o.conn, .reserve j.jobId o.tipo o.amount)] := by
        rw [enviados_preguntas, getPendientesByConn_eq huna hj ho hconn]
        show [(conn, o.msg.getD .garbage)] = _
        rw [hmsg, hconn]
        rfl
      rw [o.pedidas_append, hzero, Nat.zero_add, OutRequest.pedidas, hone,
        List.count_singleton_self,
        OutRequest.iguales_eq_one (hsub.subset ho) (hsola o.conn hdown)]
    · have hother : o.conn ∈ listas := (List.mem_cons.mp hup).resolve_left hconn
      rw [o.pedidas_append, pedidas_preguntas_of_ne hconn, Nat.add_zero]
      exact h.lista o ho hother
  · obtain ⟨hconn, hdown⟩ := not_or.mp (fun hor => hdown (List.mem_cons.mpr hor))
    rw [o.pedidas_append, pedidas_preguntas_of_ne hconn, Nat.add_zero]
    exact h.enCurso o ho hdown

/-- **`process_connection_ready`** keeps the invariant. -/
theorem Enlaces.Pregunta.ready {x : Enlaces} (h : x.Pregunta) {conn : Conn}
    (hcreada : x.manager.Creada conn) (hnot : conn ∉ x.listas) :
    Pregunta { x with manager := processConnectionReady conn x.manager
                      listas := conn :: x.listas } := by
  obtain ⟨conns, heq⟩ := processConnectionReady_eq x.manager conn
  have hlog : (processConnectionReady conn x.manager).log
      = x.manager.log ++ preguntas conn x.manager.tabla := by
    rw [heq]
    rfl
  have hjobs : (processConnectionReady conn x.manager).jobs = x.manager.jobs := by
    rw [heq]
    rfl
  have hesperadas : (processConnectionReady conn x.manager).esperadas = x.manager.esperadas := by
    unfold Manager.esperadas
    rw [hjobs]
  have hpersiste : ∀ c, x.manager.Creada c → (processConnectionReady conn x.manager).Creada c :=
    fun c => Manager.Creada.mono (hlog ▸ List.subset_append_left _ _)
  refine ⟨fun i e he => ?_, fun c hc => ?_, fun c hc => ?_, fun c hc => ?_, fun j hj => ?_,
    fun c hmem => ?_⟩
  · rcases conns_processConnectionReady he with he | ⟨j, -, o, -, -, -, rfl⟩
    · exact List.mem_cons_of_mem conn (h.conns i e he)
    · exact List.mem_cons_self
  · rcases List.mem_cons.mp hc with rfl | hc
    · exact hpersiste _ hcreada
    · exact hpersiste c (h.listas c hc)
  · exact hpersiste c (h.creadas c (hesperadas ▸ hc))
  · show (processConnectionReady conn x.manager).esperadas.count c ≤ 1
    rw [hesperadas]
    exact h.una c (fun hmem => hc (List.mem_cons_of_mem conn hmem))
  · have hj : j ∈ x.manager.jobs := hjobs ▸ hj
    obtain ⟨nuevo, desde, hhist, hped, hsola⟩ := h.jobs j hj
    refine ⟨nuevo, desde ++ preguntas conn x.manager.tabla, ?_,
      hped.ready hsola hhist.pendientes hj hnot (h.una conn hnot),
      fun c hc => hsola c (fun hmem => hc (List.mem_cons_of_mem conn hmem))⟩
    show j.Historial nuevo (processConnectionReady conn x.manager).log _
    rw [hlog]
    refine hhist.append (fun job r hmem => ?_)
    obtain ⟨req, -, heq⟩ := List.mem_map.mp hmem
    exact nomatch heq
  · have hmem : .tx c .garbage ∈ (processConnectionReady conn x.manager).log := hmem
    rw [hlog] at hmem
    rcases List.mem_append.mp hmem with hmem | hmem
    · exact h.limpia c hmem
    · -- what is sent was kept by a request whose connection was not up
      obtain ⟨req, hreq, heq⟩ := List.mem_map.mp hmem
      obtain ⟨j, hj, o, ho, hconn, hmsg⟩ := mem_getPendientesByConn hreq
      obtain ⟨nuevo, desde, -, hped, -⟩ := h.jobs j hj
      obtain ⟨-, hkept⟩ := hped.enCurso o ho (by rw [hconn]; exact hnot)
      rw [hmsg, hkept] at heq
      exact nomatch heq

/-! ## The requests of a new job -/

/-- **The loop over the entries of a `JOB_REQUEST`**: what it recorded has a `RESERVE`
for each request on a connection that is up, and the others keep theirs. -/
structure Job.Preguntado (listas : List Conn) (s : Manager) (red : Network) (job : Job)
    (u : Manager) : Prop where
  log : ∃ es, u.log = s.log ++ es ∧ (∀ c m, .rx c m ∉ es) ∧ (∀ j r, .inserted j r ∉ es) ∧
    (∀ c m, .tx c m ∈ es → ∃ t a, m = .reserve job.jobId t a) ∧
    ∀ o : OutRequest, o.pedidas job.jobId es
      = if o.conn ∈ listas then o.iguales job.pendientes else 0
  msg : ∀ o ∈ job.pendientes, o.conn ∉ listas → o.msg = some (.reserve job.jobId o.tipo o.amount)
  conns : u.conns = s.conns
  quedan : ∀ c, some c ∈ red → c ∉ listas

namespace Job.Preguntado

variable {listas : List Conn} {s u : Manager} {red : Network} {job : Job} {head : ResourceRequest}

/-- A local entry, granted or queued. -/
theorem addLocal (h : job.Preguntado listas s red u) (r : Result) {u' : Manager} {fs : List Event}
    (hlog : u'.log = u.log ++ fs) (hfs : ∀ e ∈ fs, ∃ t p, e = .grant t p)
    (hconns : u'.conns = u.conns) : (job.addLocal head u.ip r).Preguntado listas s red u' := by
  obtain ⟨es, hes, hrx, hins, hres, hcount⟩ := h.log
  have hnot : ∀ e, (∀ t p, e ≠ .grant t p) → e ∉ fs := by
    intro e hne hmem
    obtain ⟨t, p, heq⟩ := hfs e hmem
    exact hne t p heq
  refine ⟨⟨es ++ fs, ?_, fun c m hmem => ?_, fun j r hmem => ?_, fun c m hmem => ?_, fun o => ?_⟩,
    h.msg, hconns.trans h.conns, h.quedan⟩
  · rw [hlog, hes, List.append_assoc]
  · exact (List.mem_append.mp hmem).elim (hrx c m) (hnot _ (fun _ _ => Event.noConfusion))
  · exact (List.mem_append.mp hmem).elim (hins j r) (hnot _ (fun _ _ => Event.noConfusion))
  · exact (List.mem_append.mp hmem).elim (hres c m)
      (fun hmem => absurd hmem (hnot _ (fun _ _ => Event.noConfusion)))
  · have hnone : o.pedidas job.jobId fs = 0 :=
      List.count_eq_zero.mpr (fun hmem =>
        hnot _ (fun _ _ => Event.noConfusion) (mem_enviados.mp hmem))
    show o.pedidas job.jobId (es ++ fs) = _
    rw [o.pedidas_append, hnone, Nat.add_zero]
    exact hcount o

/-- The new request is one more of those like it. -/
theorem iguales_cons (o : OutRequest) (ip : CString) (conn : Conn) (msg : Option Message)
    (l : List OutRequest) :
    o.iguales (crearOutrequest ip conn head.type head.amount msg :: l)
      = o.iguales l + if conn = o.conn ∧ head.type = o.tipo ∧ head.amount = o.amount then 1 else 0
      := by
  unfold OutRequest.iguales
  rw [List.countP_cons]
  refine congrArg _ (if_congr ?_ rfl rfl)
  show (conn == o.conn && head.type == o.tipo && head.amount == o.amount) = true ↔ _
  rw [Bool.and_eq_true, Bool.and_eq_true, beq_iff_eq, beq_iff_eq, beq_iff_eq, and_assoc]

/-- A remote entry over a connection of the table: its `RESERVE` is sent. -/
theorem addSent (h : job.Preguntado listas s red u) {remote : Conn} (hup : remote ∈ listas) :
    (job.addRemote head remote none).Preguntado listas s red
      (sendMessage remote (head.reserve job.jobId) u) := by
  obtain ⟨es, hes, hrx, hins, hres, hcount⟩ := h.log
  refine ⟨⟨es ++ [.tx remote (head.reserve job.jobId)], ?_, fun c m hmem => ?_, fun j r hmem => ?_,
      fun c m hmem => ?_, fun o => ?_⟩, fun o ho hdown => ?_, h.conns, h.quedan⟩
  · rw [log_sendMessage, hes, List.append_assoc]
  · exact (List.mem_append.mp hmem).elim (hrx c m) (fun hmem => nomatch List.mem_singleton.mp hmem)
  · exact (List.mem_append.mp hmem).elim (hins j r) (fun hmem => nomatch List.mem_singleton.mp hmem)
  · rcases List.mem_append.mp hmem with hmem | hmem
    · exact hres c m hmem
    · obtain ⟨-, rfl⟩ := Event.tx.inj (List.mem_singleton.mp hmem)
      exact ⟨head.type, head.amount, rfl⟩
  · have hlast : o.pedidas job.jobId [.tx remote (head.reserve job.jobId)]
        = if remote = o.conn ∧ head.type = o.tipo ∧ head.amount = o.amount then 1 else 0 := by
      show [(remote, head.reserve job.jobId)].count (o.conn, .reserve job.jobId o.tipo o.amount) = _
      rw [List.count_singleton]
      refine if_congr ?_ rfl rfl
      rw [beq_iff_eq, Prod.mk.injEq, ResourceRequest.reserve, Message.reserve.injEq]
      tauto
    show o.pedidas job.jobId (es ++ _) = if o.conn ∈ listas then o.iguales (crearOutrequest
      head.ip remote head.type head.amount none :: job.pendientes) else 0
    rw [o.pedidas_append, hcount o, hlast, iguales_cons]
    by_cases ho : o.conn ∈ listas
    · rw [if_pos ho, if_pos ho]
    · have hother : ¬(remote = o.conn ∧ head.type = o.tipo ∧ head.amount = o.amount) :=
        fun heq => ho (heq.1 ▸ hup)
      rw [if_neg ho, if_neg ho, if_neg hother]
  · rcases List.mem_cons.mp ho with rfl | ho
    · exact absurd hup hdown
    · exact h.msg o ho hdown

/-- A remote entry over a new connection: its `RESERVE` is kept. -/
theorem addConnecting {remote : Conn} (h : job.Preguntado listas s (some remote :: red) u) :
    (job.addRemote head remote (some (head.reserve job.jobId))).Preguntado listas s red
      (u.emit (.connecting head.ip remote)) := by
  obtain ⟨es, hes, hrx, hins, hres, hcount⟩ := h.log
  have hnew : remote ∉ listas := h.quedan remote List.mem_cons_self
  refine ⟨⟨es ++ [.connecting head.ip remote], ?_, fun c m hmem => ?_, fun j r hmem => ?_,
      fun c m hmem => ?_, fun o => ?_⟩, fun o ho hdown => ?_, h.conns,
    fun c hc => h.quedan c (List.mem_cons_of_mem _ hc)⟩
  · rw [Manager.log_emit, hes, List.append_assoc]
  · exact (List.mem_append.mp hmem).elim (hrx c m) (fun hmem => nomatch List.mem_singleton.mp hmem)
  · exact (List.mem_append.mp hmem).elim (hins j r) (fun hmem => nomatch List.mem_singleton.mp hmem)
  · exact (List.mem_append.mp hmem).elim (hres c m)
      (fun hmem => nomatch List.mem_singleton.mp hmem)
  · show o.pedidas job.jobId (es ++ _) = if o.conn ∈ listas then o.iguales (crearOutrequest
      head.ip remote head.type head.amount _ :: job.pendientes) else 0
    rw [o.pedidas_append, hcount o, iguales_cons]
    by_cases ho : o.conn ∈ listas
    · have hother : ¬(remote = o.conn ∧ head.type = o.tipo ∧ head.amount = o.amount) :=
        fun heq => hnew (heq.1 ▸ ho)
      rw [if_pos ho, if_pos ho, if_neg hother]
      rfl
    · rw [if_neg ho, if_neg ho]
      rfl
  · rcases List.mem_cons.mp ho with rfl | ho
    · rfl
    · exact h.msg o ho hdown

/-- **The loop.** -/
theorem requestLoop {red : Network} (hup : ∀ i, ∀ e ∈ s.conns.buckets i, e.conn ∈ listas)
    (hnew : ∀ c, some c ∈ red → c ∉ listas) (requests : List ResourceRequest) (jobId : Int32)
    (conn : Conn) :
    ∃ red', (requestLoop requests red ⟨jobId, conn, [], []⟩ s).2.1.Preguntado listas s red'
      (requestLoop requests red ⟨jobId, conn, [], []⟩ s).2.2 := by
  have hloop := requestLoop_network requests
    (P := fun _ left job u => job.Preguntado listas s left u)
    (fun _ _ job u head _ _ h _ => h.addLocal .granted (log_takeUnits u head.type _)
      (fun e he => ⟨_, _, List.mem_singleton.mp he⟩) rfl)
    (fun _ _ job u head _ _ h _ _ => h.addLocal .queued (List.append_nil _).symm
      (fun e he => absurd he List.not_mem_nil) rfl)
    (fun _ _ job u head _ remote _ h hlookup => by
      rw [h.conns] at hlookup
      obtain ⟨e, hfind, rfl⟩ := Option.map_eq_some_iff.mp hlookup
      exact h.addSent (hup _ e (List.mem_of_find?_eq_some hfind)))
    (fun _ _ job u head _ remote _ h _ _ => h.addConnecting)
    [] red ⟨jobId, conn, [], []⟩ s
    ⟨⟨[], (List.append_nil _).symm, fun _ _ => List.not_mem_nil, fun _ _ => List.not_mem_nil,
      fun _ _ hmem => absurd hmem List.not_mem_nil, fun o => by split <;> rfl⟩,
      fun _ ho => absurd ho List.not_mem_nil, rfl, hnew⟩
  rcases hloop with ⟨-, red', h⟩ | ⟨-, -, red', h⟩
  · exact ⟨red', h⟩
  · exact ⟨red', h⟩

end Job.Preguntado

/-- An id that the table does not have is the id of none of its jobs. -/
theorem TablaJobs.ne_of_buscarPorId_eq_none {t : TablaJobs} {jobId : Int32}
    (h : tablaJobsBuscarPorId t jobId = none) {j : Job} (hj : j ∈ t.jobs) : j.jobId ≠ jobId := by
  rintro rfl
  obtain ⟨hmem, -⟩ := Buckets.mem_toList.mp hj
  exact List.find?_eq_none.mp h j hmem (beq_iff_eq.mpr rfl)

/-- What a job that is requested records asks for nothing of the others. -/
theorem Calla.of_ne {id jobId : Int32} (hne : id ≠ jobId) {es : List Event}
    (hres : ∀ c m, .tx c m ∈ es → ∃ t a, m = .reserve jobId t a)
    (hins : ∀ j r, .inserted j r ∉ es) : Calla id es := by
  refine ⟨fun c t a hmem => ?_, fun job r hmem => absurd hmem (hins job r)⟩
  obtain ⟨t', a', heq⟩ := hres _ _ hmem
  exact hne (Message.reserve.inj heq).1

theorem Calla.append {id : Int32} {es fs : List Event} (h : Calla id es) (h' : Calla id fs) :
    Calla id (es ++ fs) :=
  ⟨fun c t a hmem => (List.mem_append.mp hmem).elim (h.reserve c t a) (h'.reserve c t a),
    fun job r hmem => (List.mem_append.mp hmem).elim (h.inserted job r) (h'.inserted job r)⟩

/-- The line of a request. -/
theorem Calla.rx (id : Int32) (conn : Conn) (m : Message) : Calla id [.rx conn m] :=
  ⟨fun _ _ _ hmem => Event.noConfusion (List.mem_singleton.mp hmem),
    fun _ _ hmem => Event.noConfusion (List.mem_singleton.mp hmem)⟩

/-- **The job the loop made**: its requests on connections that are up were sent. -/
theorem Job.Preguntado.pedido {listas : List Conn} {job : Job} {es fs : List Event}
    (hmsg : ∀ o ∈ job.pendientes, o.conn ∉ listas →
      o.msg = some (.reserve job.jobId o.tipo o.amount))
    (hcount : ∀ o : OutRequest, o.pedidas job.jobId es
      = if o.conn ∈ listas then o.iguales job.pendientes else 0)
    (hfs : ∀ c t a, .tx c (.reserve job.jobId t a) ∉ fs) : job.Pedido listas job (es ++ fs) := by
  have hnone : ∀ o : OutRequest, o.pedidas job.jobId fs = 0 := fun o =>
    List.count_eq_zero.mpr (fun hmem => hfs _ _ _ (mem_enviados.mp hmem))
  refine ⟨fun o _ hup => ?_, fun o ho hdown => ⟨?_, hmsg o ho hdown⟩⟩
  · rw [o.pedidas_append, hnone, hcount o, if_pos hup, Nat.add_zero]
  · rw [o.pedidas_append, hnone, hcount o, if_neg hdown]

/-- The connections the new job waits for are its own. -/
theorem Job.Enlazado.sola {conn c : Conn} {s u : Manager} {nuevas listas : List Conn}
    {red : Network} {job : Job} (h : job.Enlazado conn s nuevas red u)
    (hup : ∀ i, ∀ e ∈ s.conns.buckets i, e.conn ∈ listas) (hc : c ∉ listas) :
    (job.pendientes.map (·.conn)).count c ≤ 1
      ∧ (c ∈ job.pendientes.map (·.conn) → c ∈ nuevas) := by
  have hnueva : c ∈ job.pendientes.map (·.conn) → c ∈ nuevas := by
    intro hmem
    obtain ⟨o, ho, rfl⟩ := List.mem_map.mp hmem
    rcases h.pendientes o ho with ⟨i, e, he, heq⟩ | ⟨hmem, -⟩
    · exact absurd (heq ▸ hup i e he) hc
    · exact hmem
  refine ⟨?_, hnueva⟩
  by_cases hmem : c ∈ job.pendientes.map (·.conn)
  · exact (Nat.le_add_right _ _).trans (h.una c (hnueva hmem))
  · rw [List.count_eq_zero_of_not_mem hmem]
    exact Nat.zero_le 1

/-- **A new job is inserted.** -/
theorem Enlaces.Pregunta.inserta {x : Enlaces} (h : x.Pregunta) {conn : Conn} {job : Job}
    {requests : List ResourceRequest} {nuevas : List Conn} {red red' : Network} {s u : Manager}
    (hs : s = x.manager.emit (.rx conn (.jobRequest job.jobId requests)))
    (hfresh : ∀ c ∈ nuevas, ¬x.manager.Creada c) (hid : ∀ j ∈ x.manager.jobs, j.jobId ≠ job.jobId)
    (hpreg : job.Preguntado x.listas s red u) (henl : job.Enlazado conn s nuevas red' u) :
    Pregunta { x with manager := insertJob job requests u } := by
  subst hs
  obtain ⟨es, hes, hrx, hins, hres, hcount⟩ := hpreg.log
  obtain ⟨fs, hfs, hinterno⟩ := log_insertJob_append job requests u
  have hlog : (insertJob job requests u).log = x.manager.log
      ++ .rx conn (.jobRequest job.jobId requests) :: (es ++ .inserted job requests :: fs) := by
    rw [hfs, hes, Manager.log_emit]
    simp
  have hpersiste : ∀ c, x.manager.Creada c → (insertJob job requests u).Creada c :=
    fun c => Manager.Creada.mono (hlog ▸ List.subset_append_left _ _)
  have htabla : (insertJob job requests u).tabla = tablaJobsInsertarJob x.manager.tabla job := by
    rw [tabla_insertJob, henl.tabla]
    rfl
  have hesperadas : ∀ c, (insertJob job requests u).esperadas.count c
      ≤ (job.pendientes.map (·.conn)).count c + x.manager.esperadas.count c := by
    intro c
    have hle := esperadas_insertar x.manager job c
    unfold Manager.esperadas Manager.jobs at hle ⊢
    rw [htabla]
    exact hle
  have hsola : ∀ c, c ∉ x.listas → _ := fun c => henl.sola h.conns (c := c)
  have hfin : ∀ id, id ≠ job.jobId → Calla id (.inserted job requests :: fs) := by
    intro id hne
    have hcalla := Calla.of_interno hinterno id
    refine ⟨fun c t a hmem => ?_, fun j r hmem => ?_⟩
    · exact hcalla.reserve c t a ((List.mem_cons.mp hmem).resolve_left Event.noConfusion)
    · rcases List.mem_cons.mp hmem with heq | hmem
      · obtain ⟨rfl, -⟩ := Event.inserted.inj heq
        exact hne.symm
      · exact hcalla.inserted j r hmem
  refine ⟨fun i e he => ?_, fun c hc => hpersiste c (h.listas c hc), fun c hc => ?_,
    fun c hc => ?_, fun j hj => ?_, fun c hmem => ?_⟩
  · have he : e ∈ (insertJob job requests u).conns.buckets i := he
    rw [conns_insertJob, henl.conns] at he
    exact h.conns i e he
  · by_cases hold : c ∈ x.manager.esperadas
    · exact hpersiste c (h.creadas c hold)
    · -- the new job waits for it
      have hle := hesperadas c
      have hpos : 0 < (insertJob job requests u).esperadas.count c := List.count_pos_iff.mpr hc
      rw [List.count_eq_zero_of_not_mem hold, Nat.add_zero] at hle
      obtain ⟨o, ho, rfl⟩ := List.mem_map.mp (List.count_pos_iff.mp (hpos.trans_le hle))
      rcases henl.pendientes o ho with ⟨i, e, he, heq⟩ | ⟨-, hcreada⟩
      · exact hpersiste _ (heq ▸ h.listas _ (h.conns i e he))
      · exact creada_insertJob.mpr hcreada
  · show (insertJob job requests u).esperadas.count c ≤ 1
    have hle := hesperadas c
    obtain ⟨hone, hnew⟩ := hsola c hc
    by_cases hmem : c ∈ job.pendientes.map (·.conn)
    · have hzero : x.manager.esperadas.count c = 0 :=
        List.count_eq_zero.mpr (fun hold => hfresh c (hnew hmem) (h.creadas c hold))
      omega
    · have hold := h.una c hc
      rw [List.count_eq_zero_of_not_mem hmem] at hle
      omega
  · have hj : j ∈ (insertJob job requests u).jobs := hj
    have hj : j ∈ (tablaJobsInsertarJob x.manager.tabla job).jobs := by
      unfold Manager.jobs at hj
      rwa [htabla] at hj
    show ∃ nuevo desde, j.Historial nuevo (insertJob job requests u).log desde ∧ _
    rw [hlog]
    rcases TablaJobs.mem_jobs_insertar hj with rfl | hj
    · have hcalla := Calla.of_interno hinterno j.jobId
      refine ⟨j, _, ⟨⟨x.manager.log, conn, requests, es, fs, rfl, rfl, hrx, hcalla.inserted⟩, rfl,
        .refl _⟩, Job.Preguntado.pedido hpreg.msg hcount (fun c t a hmem => ?_),
        fun c hc => (hsola c hc).1⟩
      exact hcalla.reserve c t a ((List.mem_cons.mp hmem).resolve_left Event.noConfusion)
    · obtain ⟨nuevo, desde, hhist, hped, hold⟩ := h.jobs j hj
      have hcalla : Calla j.jobId (.rx conn (.jobRequest job.jobId requests)
          :: (es ++ .inserted job requests :: fs)) :=
        (Calla.rx j.jobId conn _).append ((Calla.of_ne (hid j hj) hres hins).append
          (hfin j.jobId (hid j hj)))
      exact ⟨nuevo, _, hhist.append hcalla.inserted, hped.append hcalla, hold⟩
  · have hmem : .tx c .garbage ∈ (insertJob job requests u).log := hmem
    rw [hlog] at hmem
    rcases List.mem_append.mp hmem with hmem | hmem
    · exact h.limpia c hmem
    · rcases List.mem_append.mp ((List.mem_cons.mp hmem).resolve_left Event.noConfusion) with
        hmem | hmem
      · obtain ⟨t, a, heq⟩ := hres c _ hmem
        exact nomatch heq
      · exact Bool.false_ne_true
          (hinterno _ ((List.mem_cons.mp hmem).resolve_left Event.noConfusion))

/-! ## Runs -/

namespace Enlaces

/-- **A `JOB_REQUEST`** whose id is new. -/
theorem Pregunta.pide {x : Enlaces} (h : x.Pregunta) {red : Network}
    (hnodup : (red.filterMap id).Nodup) (hfresh : ∀ c ∈ red.filterMap id, ¬x.manager.Creada c)
    (conn : Conn) (jobId : Int32) (requests : List ResourceRequest) :
    Pregunta { x with manager := processJobRequest conn jobId requests red
                        (x.manager.emit (.rx conn (.jobRequest jobId requests))) } := by
  have hrx : ∀ c m, .tx c m ∉ [Event.rx conn (.jobRequest jobId requests)] :=
    fun _ _ hmem => Event.noConfusion (List.mem_singleton.mp hmem)
  have hlinea := h.extiende (u := x.manager.emit (.rx conn (.jobRequest jobId requests))) rfl rfl
    rfl (fun j _ => Calla.rx j.jobId conn _) (fun c => hrx c _)
  have hnuevas : ∀ c ∈ red.filterMap id, ∀ i, ∀ e ∈ x.manager.conns.buckets i, e.conn ≠ c := by
    rintro c hc i e he rfl
    exact hfresh _ hc (h.listas _ (h.conns i e he))
  have hnolistas : ∀ c, some c ∈ red → c ∉ x.listas := fun c hc hmem =>
    hfresh c (List.mem_filterMap.mpr ⟨some c, hc, rfl⟩) (h.listas c hmem)
  obtain ⟨left, hpreg⟩ := Job.Preguntado.requestLoop
    (s := x.manager.emit (.rx conn (.jobRequest jobId requests))) h.conns hnolistas requests
    jobId conn
  obtain ⟨left', henl⟩ := enlazado_requestLoop
    (s := x.manager.emit (.rx conn (.jobRequest jobId requests))) hnodup hnuevas requests
    jobId conn
  have hjobId := (tabla_requestLoop requests red ⟨jobId, conn, [], []⟩
    (x.manager.emit (.rx conn (.jobRequest jobId requests)))).2
  rcases processJobRequest_cases conn jobId requests red
    (x.manager.emit (.rx conn (.jobRequest jobId requests))) with
    ⟨_, -, heq⟩ | ⟨hnone, -, heq⟩ | ⟨hnone, -, heq⟩
  · rw [heq]
    exact hlinea
  all_goals
    have hid : ∀ j ∈ x.manager.jobs, j.jobId ≠ jobId :=
      fun j hj => TablaJobs.ne_of_buscarPorId_eq_none hnone hj
    rw [heq]
    generalize (requestLoop requests red ⟨jobId, conn, [], []⟩
      (x.manager.emit (.rx conn (.jobRequest jobId requests)))).2.2 = u at hpreg henl ⊢
    generalize (requestLoop requests red ⟨jobId, conn, [], []⟩
      (x.manager.emit (.rx conn (.jobRequest jobId requests)))).2.1 = job at hpreg henl hjobId ⊢
    obtain rfl : job.jobId = jobId := hjobId
  · exact h.inserta rfl hfresh hid hpreg henl
  · obtain ⟨es, hes, -, hins, hres, -⟩ := hpreg.log
    have hloop := hlinea.extiende (u := u) henl.tabla henl.conns hes
      (fun j hj => Calla.of_ne (hid j hj) hres hins) (fun c hmem => by
        obtain ⟨t, a, heq⟩ := hres c _ hmem
        exact nomatch heq)
    exact hloop.sigue (Manager.Sigue.rollbackJob job u) rfl rfl

/-- **Every step keeps the invariant.** -/
theorem Pregunta.step {x y : Enlaces} (h : x.Pregunta) {suceso : Suceso}
    (hred : x.UnaVez suceso) (hstep : x.step suceso = some y) : y.Pregunta := by
  cases suceso with
  | accept conn =>
    obtain rfl := Option.some.inj hstep
    exact ⟨h.conns, h.listas, h.creadas, h.una, h.jobs, h.limpia⟩
  | call call =>
    obtain rfl := Option.some.inj hstep
    rcases call.sigue x.manager with
      hsigue | ⟨conn, rfl⟩ | ⟨conn, msg, red, jobId, requests, rfl, hparse⟩
    · cases call with
      | ready conn => exact h.ready hred.1 hred.2
      | message conn msg red => exact h.sigue hsigue rfl rfl
      | failed conn => exact h.sigue hsigue rfl rfl
      | disconnect conn => exact h.sigue hsigue rfl rfl
      | announce now ipSender msg => exact h.sigue hsigue rfl rfl
      | purge now timeout => exact h.sigue hsigue rfl rfl
    · exact h.ready hred.1 hred.2
    · have heq : (Call.message conn msg red).run x.manager
          = processJobRequest conn jobId requests red
            (x.manager.emit (.rx conn (.jobRequest jobId requests))) := by
        show processMessage conn msg red x.manager = _
        unfold processMessage
        rw [hparse]
        rfl
      rw [heq]
      exact h.pide hred.1 hred.2 conn jobId requests

/-- Nothing is pending at the start. -/
theorem pregunta_inicio (cpu mem gpu : Int32) (ip : CString) :
    (inicio (managerInit cpu mem gpu ip)).Pregunta := by
  have hjobs : (managerInit cpu mem gpu ip).jobs = [] := TablaJobs.jobs_init
  have hesperadas : (managerInit cpu mem gpu ip).esperadas = [] := by
    unfold Manager.esperadas
    rw [hjobs]
    rfl
  refine ⟨fun i e he => absurd he List.not_mem_nil, fun c hc => absurd hc List.not_mem_nil,
    fun c hc => ?_, fun c _ => ?_, fun j hj => ?_, fun c hmem => absurd hmem List.not_mem_nil⟩
  · exact absurd (hesperadas ▸ hc) List.not_mem_nil
  · show (managerInit cpu mem gpu ip).esperadas.count c ≤ 1
    rw [hesperadas]
    exact Nat.zero_le 1
  · exact absurd (hjobs ▸ hj) List.not_mem_nil

/-- **Each request is asked for once.** In every state of every run, since the line that
requested a job, each of its pending requests was sent once on its connection if that is
up, and not at all if it is not, which then has the line; and no line that was not filled
in was ever sent. -/
theorem asked_once {cpu mem gpu : Int32} {ip : CString} {x : Enlaces}
    (hrun : Reaches step UnaVez (inicio (managerInit cpu mem gpu ip)) x) :
    (∀ j ∈ x.manager.jobs, ∃ nuevo desde, j.Historial nuevo x.manager.log desde
        ∧ j.Pedido x.listas nuevo desde)
      ∧ ∀ c, .tx c .garbage ∉ x.manager.log := by
  have hinv := hrun.invariant (pregunta_inicio cpu mem gpu ip)
    (fun _ _ _ hu hred hstep => hu.step hred hstep)
  refine ⟨fun j hj => ?_, hinv.limpia⟩
  obtain ⟨nuevo, desde, hhist, hped, -⟩ := hinv.jobs j hj
  exact ⟨nuevo, desde, hhist, hped⟩

instance (x : Enlaces) : (suceso : Suceso) → Decidable (x.UnaVez suceso)
  | .accept _ => .isTrue trivial
  | .call (.message ..) => inferInstanceAs (Decidable (_ ∧ ∀ c ∈ _, ¬_))
  | .call (.ready _) => inferInstanceAs (Decidable (_ ∧ _))
  | .call (.failed _) => .isTrue trivial
  | .call (.disconnect _) => .isTrue trivial
  | .call (.announce ..) => .isTrue trivial
  | .call (.purge ..) => .isTrue trivial

/-- One job waits for its connection to come up, and another finds it in the table. -/
theorem asked_once_dosJobs :
    ∃ x, Reaches.trace step (inicio (managerInit 4 8 1 ['A']))
        [.accept 1, .call (.announce 0 ['B'] "ANNOUNCE 9000 cpu:4 mem:8 gpu:1".toList),
         .call (.message 1 "JOB_REQUEST 1 @B:cpu:1".toList [some 7]), .call (.ready 7),
         .call (.message 1 "JOB_REQUEST 2 @B:cpu:1 @B:mem:2".toList [])] = some x
      ∧ enviados x.manager.log
        = [(7, .reserve 1 .cpu 1), (7, .reserve 2 .cpu 1), (7, .reserve 2 .mem 2)]
      ∧ ∀ j ∈ x.manager.jobs, ∃ nuevo desde, j.Historial nuevo x.manager.log desde
        ∧ j.Pedido x.listas nuevo desde := by
  have hcheck : (Reaches.checked step (fun x suceso => decide (x.UnaVez suceso))
      (inicio (managerInit 4 8 1 ['A']))
      [.accept 1, .call (.announce 0 ['B'] "ANNOUNCE 9000 cpu:4 mem:8 gpu:1".toList),
       .call (.message 1 "JOB_REQUEST 1 @B:cpu:1".toList [some 7]), .call (.ready 7),
       .call (.message 1 "JOB_REQUEST 2 @B:cpu:1 @B:mem:2".toList [])]).any (fun x =>
        decide (enviados x.manager.log
          = [(7, .reserve 1 .cpu 1), (7, .reserve 2 .cpu 1), (7, .reserve 2 .mem 2)])) = true := by
    decide +kernel
  obtain ⟨x, htrace, hrun, hx⟩ := Reaches.of_checked (fun _ _ => of_decide_eq_true) hcheck
  exact ⟨x, htrace, of_decide_eq_true hx, (asked_once hrun).1⟩

end Enlaces

end Hpc
