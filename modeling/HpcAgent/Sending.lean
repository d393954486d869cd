import HpcAgent.Agreement
import HpcAgent.Requests

/-!
# What a node asks of others

The `RESERVE` lines sent to a host for a job are among what its `JOB_REQUEST` lists for
that host: one is sent when the request is placed, or when the connection created for it
comes up, and never both. Those that wait for a connection are counted with those sent
(`Manda.cabe`). A job is inserted once, since its id is new.
-/

namespace Hpc

/-- The `RESERVE` lines sent to a host for a job. -/
def enviadasA (D : Rumbo) (jobId : Int32) (host : CString) (log : List Event) :
    Multiset (Resource × Int32) :=
  ↑(log.filterMap (fun e => match e with
    | .tx c (.reserve i t a) => if D c = some host ∧ i = jobId then some (t, a) else none
    | _ => none))

/-- The requests to a host whose connection is not up. -/
def OutRequest.porSalir (D : Rumbo) (listas : List Conn) (host : CString) (l : List OutRequest) :
    List (Resource × Int32) :=
  (l.filter (fun o => D o.conn = some host ∧ o.conn ∉ listas)).map (fun o => (o.tipo, o.amount))

/-- Those of a job, if it has the id. -/
def Job.porSalir (D : Rumbo) (listas : List Conn) (jobId : Int32) (host : CString) (j : Job) :
    List (Resource × Int32) :=
  if j.jobId = jobId then OutRequest.porSalir D listas host j.pendientes else []

/-- The requests for a job to a host whose connection is not up. -/
def Enlaces.porSalir (D : Rumbo) (x : Enlaces) (jobId : Int32) (host : CString) :
    Multiset (Resource × Int32) :=
  ↑(x.manager.jobs.flatMap (Job.porSalir D x.listas jobId host))

/-- **What the node asks of others**: a job is inserted once, and no more is sent for it
to a host, or waits to be sent, than it asks of it. -/
structure Manda (D : Rumbo) (x : Enlaces) : Prop where
  enviadas : ∀ c i t a, .tx c (.reserve i t a) ∈ x.manager.log →
    ∃ conn requests, .rx conn (.jobRequest i requests) ∈ x.manager.log
  pedida : ∀ job requests, .inserted job requests ∈ x.manager.log →
    ∃ conn requests', .rx conn (.jobRequest job.jobId requests') ∈ x.manager.log
  cabe : ∀ job requests, .inserted job requests ∈ x.manager.log → ∀ host,
    enviadasA D job.jobId host x.manager.log + x.porSalir D job.jobId host ≤ pideA host requests

section Envios

variable {D : Rumbo} {jobId : Int32} {host : CString}

theorem enviadasA_append (log es : List Event) :
    enviadasA D jobId host (log ++ es) = enviadasA D jobId host log + enviadasA D jobId host es := by
  unfold enviadasA
  rw [List.filterMap_append, Multiset.coe_add]

/-- Nothing of it is sent. -/
theorem enviadasA_eq_zero {es : List Event} (hes : ∀ c t a, .tx c (.reserve jobId t a) ∉ es) :
    enviadasA D jobId host es = 0 := by
  refine congrArg _ (List.filterMap_eq_nil_iff.mpr (fun e he => ?_))
  split
  · next c i t a =>
    refine if_neg (fun h => hes c t a ?_)
    rw [← h.2]
    exact he
  · rfl

theorem enviadasA_reserve (c : Conn) (i : Int32) (t : Resource) (a : Int32) :
    enviadasA D jobId host [.tx c (.reserve i t a)]
      = if D c = some host ∧ i = jobId then {(t, a)} else 0 := by
  unfold enviadasA
  by_cases h : D c = some host ∧ i = jobId
  · simp [h]
  · rw [if_neg h]
    exact congrArg _ (List.filterMap_cons_none (if_neg h))

theorem porSalir_cons (listas : List Conn) (o : OutRequest) (l : List OutRequest) :
    (↑(OutRequest.porSalir D listas host (o :: l)) : Multiset (Resource × Int32))
      = (if D o.conn = some host ∧ o.conn ∉ listas then {(o.tipo, o.amount)} else 0)
        + ↑(OutRequest.porSalir D listas host l) := by
  unfold OutRequest.porSalir
  by_cases h : D o.conn = some host ∧ o.conn ∉ listas
  · rw [if_pos h, List.filter_cons_of_pos (by simpa using h)]
    rfl
  · rw [if_neg h, List.filter_cons_of_neg (by simpa using h), zero_add]

/-- The requests of a job when a connection comes up. -/
theorem porSalir_ready {listas : List Conn} {conn : Conn} (hnot : conn ∉ listas) {i : Int32}
    (l : List OutRequest)
    (hmsg : ∀ o ∈ l, o.conn = conn → o.msg = some (.reserve i o.tipo o.amount)) :
    enviadasA D i host ((l.filter (fun o => o.conn == conn)).map
        (fun o => .tx conn (o.msg.getD .garbage)))
      + ↑(OutRequest.porSalir D (conn :: listas) host l)
      = (↑(OutRequest.porSalir D listas host l) : Multiset (Resource × Int32)) := by
  induction l with
  | nil => rfl
  | cons o l ih =>
    have htail := ih (fun o ho => hmsg o (List.mem_cons_of_mem _ ho))
    rw [porSalir_cons, porSalir_cons]
    by_cases hconn : o.conn = conn
    · have hline := hmsg o List.mem_cons_self hconn
      subst hconn
      rw [List.filter_cons_of_pos (by simp), List.map_cons, hline, ← List.singleton_append,
        enviadasA_append, if_neg (fun h => h.2 List.mem_cons_self), zero_add, add_assoc, htail]
      refine congrArg (· + _) ?_
      show enviadasA D i host [.tx o.conn (.reserve i o.tipo o.amount)] = _
      rw [enviadasA_reserve]
      exact if_congr (and_congr_right (fun _ => iff_of_true rfl hnot)) rfl rfl
    · have hsame : o.conn ∉ conn :: listas ↔ o.conn ∉ listas := by
        rw [List.mem_cons, not_or]
        exact and_iff_right hconn
      rw [List.filter_cons_of_neg (by simpa using hconn), add_left_comm, htail]
      exact congrArg (· + _) (if_congr (and_congr_right (fun _ => hsame)) rfl rfl)

/-- **A connection comes up**: what waited for it is sent. -/
theorem enviadasA_preguntas {listas : List Conn} {conn : Conn} {t : TablaJobs}
    (hnot : conn ∉ listas) (hmsg : ∀ j ∈ t.jobs, ∀ o ∈ j.pendientes, o.conn = conn →
      o.msg = some (.reserve j.jobId o.tipo o.amount)) :
    enviadasA D jobId host (preguntas conn t)
        + ↑(t.jobs.flatMap (Job.porSalir D (conn :: listas) jobId host))
      = (↑(t.jobs.flatMap (Job.porSalir D listas jobId host)) : Multiset (Resource × Int32)) := by
  have hlines : enviadasA D jobId host (preguntas conn t)
      = enviadasA D jobId host (t.jobs.flatMap (fun j =>
          (j.pendientes.filter (fun o => o.conn == conn)).map
            (fun o => .tx conn (o.msg.getD .garbage)))) := by
    unfold preguntas tablaJobsGetPendientesByConn enviadasA
    rw [List.map_reverse, List.filterMap_reverse, List.map_flatMap]
    simp only [List.map_map]
    exact Multiset.coe_reverse _
  rw [hlines]
  revert hmsg
  induction t.jobs with
  | nil => exact fun _ => rfl
  | cons j jobs ih =>
    intro hmsg
    have htail := ih (fun j hj => hmsg j (List.mem_cons_of_mem _ hj))
    rw [List.flatMap_cons, List.flatMap_cons, List.flatMap_cons, enviadasA_append,
      ← Multiset.coe_add, ← Multiset.coe_add, add_add_add_comm, htail]
    refine congrArg (· + _) ?_
    by_cases hid : j.jobId = jobId
    · subst hid
      unfold Job.porSalir
      rw [if_pos rfl, if_pos rfl]
      exact porSalir_ready hnot j.pendientes (hmsg j List.mem_cons_self)
    · unfold Job.porSalir
      rw [if_neg hid, if_neg hid, enviadasA_eq_zero (fun c t a hmem => ?_)]
      · rfl
      · obtain ⟨o, ho, heq⟩ := List.mem_map.mp hmem
        obtain ⟨ho, hconn⟩ := List.mem_filter.mp ho
        rw [hmsg j List.mem_cons_self o ho (eq_of_beq hconn)] at heq
        exact hid (Message.reserve.inj (Event.tx.inj heq).2).1

/-- **The loop over the entries of a `JOB_REQUEST`**: what it sends to a host, and what
waits, is asked of it. -/
theorem pideA_requestLoop {listas : List Conn} {s : Manager}
    (hconns : ∀ i, ∀ e ∈ s.conns.buckets i, D e.conn = some e.ip ∧ e.conn ∈ listas)
    (requests : List ResourceRequest) {red : Network}
    (hred : ∀ c, some c ∈ red → c ∉ listas) (jobId : Int32) (conn : Conn)
    (htrue : (requestLoop requests red ⟨jobId, conn, [], []⟩ s).1 = true) :
    ∃ es, (requestLoop requests red ⟨jobId, conn, [], []⟩ s).2.2.log = s.log ++ es
      ∧ (Dirige D es → ∀ host, enviadasA D jobId host es + ↑(OutRequest.porSalir D listas host
          (requestLoop requests red ⟨jobId, conn, [], []⟩ s).2.1.pendientes)
        ≤ pideA host requests) := by
  have hloop := requestLoop_network requests
    (P := fun done left job u => job.jobId = jobId ∧ u.conns = s.conns
      ∧ (∀ c, some c ∈ left → c ∉ listas) ∧ ∃ es, u.log = s.log ++ es
      ∧ (Dirige D es → ∀ host, enviadasA D jobId host es
        + ↑(OutRequest.porSalir D listas host job.pendientes) ≤ pideA host done))
    (fun done left job u head _ _ ⟨hid, hc, hleft, es, hlog, h⟩ _ => by
      refine ⟨hid, hc, hleft, es ++ [.grant head.type (head.pending job)], ?_, fun hD host => ?_⟩
      · rw [log_takeUnits, hlog, List.append_assoc]
      · rw [enviadasA_append, pideA_cons]
        show enviadasA D jobId host es + 0 + _ ≤ _
        rw [add_zero]
        exact le_trans (h (fun ip c hmem => hD ip c (List.mem_append_left _ hmem)) host)
          (Multiset.le_add_left _ _))
    (fun done left job u head _ _ ⟨hid, hc, hleft, es, hlog, h⟩ _ _ => by
      refine ⟨hid, hc, hleft, es, hlog, fun hD host => ?_⟩
      rw [pideA_cons]
      exact le_trans (h hD host) (Multiset.le_add_left _ _))
    (fun done left job u head _ remote _ ⟨hid, hc, hleft, es, hlog, h⟩ hlookup => by
      refine ⟨hid, hc, hleft, es ++ [.tx remote (head.reserve job.jobId)], ?_, fun hD host => ?_⟩
      · rw [log_sendMessage, hlog, List.append_assoc]
      · rw [hc] at hlookup
        obtain ⟨e, hfind, rfl⟩ := Option.map_eq_some_iff.mp hlookup
        have hip : e.ip = head.ip :=
          eq_of_beq (List.find?_some (p := fun e : ConnEntry => e.ip == head.ip) hfind)
        obtain ⟨hleads, hup⟩ := hconns _ e (List.mem_of_find?_eq_some hfind)
        have hsame : (↑(OutRequest.porSalir D listas host
              (crearOutrequest head.ip e.conn head.type head.amount none :: job.pendientes))
            : Multiset (Resource × Int32)) = ↑(OutRequest.porSalir D listas host job.pendientes) :=
          (porSalir_cons _ _ _).trans ((congrArg (· + _) (if_neg (fun h => h.2 hup))).trans
            (zero_add _))
        rw [enviadasA_append, pideA_cons]
        show _ + enviadasA D jobId host [.tx e.conn (.reserve job.jobId head.type head.amount)]
          + ↑(OutRequest.porSalir D listas host
            (crearOutrequest head.ip e.conn head.type head.amount none :: job.pendientes)) ≤ _
        rw [enviadasA_reserve, hsame, add_right_comm, add_comm, hleads, hip]
        refine add_le_add (le_of_eq (if_congr ?_ rfl rfl))
          (h (fun ip c hmem => hD ip c (List.mem_append_left _ hmem)) host)
        rw [Option.some.injEq]
        exact and_iff_left hid)
    (fun done left job u head _ remote _ ⟨hid, hc, hleft, es, hlog, h⟩ _ _ => by
      refine ⟨hid, hc, fun c hmem => hleft c (List.mem_cons_of_mem _ hmem),
        es ++ [.connecting head.ip remote], ?_, fun hD host => ?_⟩
      · rw [Manager.log_emit, hlog, List.append_assoc]
      · have hleads : D remote = some head.ip :=
          hD head.ip remote (List.mem_append_right _ List.mem_cons_self)
        rw [enviadasA_append, pideA_cons]
        show enviadasA D jobId host es + 0 + ↑(OutRequest.porSalir D listas host
          (crearOutrequest head.ip remote head.type head.amount _ :: job.pendientes)) ≤ _
        rw [add_zero, porSalir_cons, add_left_comm]
        refine add_le_add (le_of_eq (if_congr ?_ rfl rfl))
          (h (fun ip c hmem => hD ip c (List.mem_append_left _ hmem)) host)
        show D remote = some host ∧ _ ↔ _
        rw [hleads, Option.some.injEq]
        exact and_iff_left (hleft remote List.mem_cons_self))
    [] red ⟨jobId, conn, [], []⟩ s
    ⟨rfl, rfl, hred, [], (List.append_nil _).symm, fun _ _ => le_rfl⟩
  rcases hloop with ⟨-, left, -, -, -, es, hlog, h⟩ | ⟨hfalse, -⟩
  · refine ⟨es, hlog, fun hD host => le_of_le_of_eq (h hD host) ?_⟩
    unfold pideA
    rw [List.append_nil, List.filter_reverse, List.map_reverse]
    exact Multiset.coe_reverse _
  · rw [htrue] at hfalse
    exact absurd hfalse Bool.noConfusion

end Envios

namespace Manda

variable {D : Rumbo} {x y : Enlaces}

/-- **What is sent is asked for with a new id**, and nothing is inserted. -/
theorem extiende (h : Manda D x) {es : List Event} (hlog : y.manager.log = x.manager.log ++ es)
    (hsalir : ∀ i host, y.porSalir D i host ≤ x.porSalir D i host)
    (hins : ∀ job r, .inserted job r ∉ es)
    (hes : ∀ c i t a, .tx c (.reserve i t a) ∈ es →
      (∃ conn r, .rx conn (.jobRequest i r) ∈ y.manager.log)
        ∧ ∀ conn r, .rx conn (.jobRequest i r) ∉ x.manager.log) : Manda D y := by
  have hold : ∀ {job r}, Event.inserted job r ∈ y.manager.log →
      .inserted job r ∈ x.manager.log := by
    intro job r hmem
    rw [hlog] at hmem
    exact (List.mem_append.mp hmem).resolve_right (hins job r)
  have hmas : ∀ {e}, e ∈ x.manager.log → e ∈ y.manager.log :=
    fun he => hlog ▸ List.mem_append_left es he
  refine ⟨fun c i t a hmem => ?_, fun job r hmem => ?_, fun job r hmem host => ?_⟩
  · rw [hlog] at hmem
    rcases List.mem_append.mp hmem with hmem | hmem
    · obtain ⟨conn, requests, hrx⟩ := h.enviadas c i t a hmem
      exact ⟨conn, requests, hmas hrx⟩
    · exact (hes c i t a hmem).1
  · obtain ⟨conn, requests, hrx⟩ := h.pedida job r (hold hmem)
    exact ⟨conn, requests, hmas hrx⟩
  · have hcalla : enviadasA D job.jobId host es = 0 := by
      refine enviadasA_eq_zero (fun c t a htx => ?_)
      obtain ⟨conn, requests, hrx⟩ := h.pedida job r (hold hmem)
      exact (hes c job.jobId t a htx).2 conn requests hrx
    rw [hlog, enviadasA_append, hcalla, add_zero]
    exact le_trans (add_le_add_right (hsalir job.jobId host) _) (h.cabe job r (hold hmem) host)

/-- **A call that only lets go.** -/
theorem sigue (h : Manda D x) {conn? : Option Conn} {s' : Manager}
    (hs : x.manager.Sigue conn? s') (hy : y.manager = s') (hlistas : y.listas = x.listas) :
    Manda D y := by
  obtain ⟨es, hlog, hes⟩ := hs.log
  subst hy
  refine h.extiende hlog (fun i host => ?_) (fun job r hmem => ?_) (fun c i t a hmem => ?_)
  · unfold Enlaces.porSalir
    rw [hlistas]
    refine Multiset.coe_le.mpr (hs.tabla.flatMap_sublist (fun j j' hjj' => ?_)
      TAM_TABLA_JOBS).subperm
    unfold Job.porSalir
    rw [hjj'.jobId]
    split
    · exact (hjj'.pendientes_sublist.filter _).map _
    · exact .refl _
  · exact Bool.false_ne_true (hes _ hmem)
  · exact absurd (hes _ hmem) Bool.false_ne_true

/-- **`process_connection_ready`.** -/
theorem ready (h : Manda D x) (hpreg : x.Pregunta) {conn : Conn} (hnot : conn ∉ x.listas)
    (hy : y.manager = processConnectionReady conn x.manager) (hlistas : y.listas = conn :: x.listas) :
    Manda D y := by
  obtain ⟨conns, heq⟩ := processConnectionReady_eq x.manager conn
  have hlog : y.manager.log = x.manager.log ++ preguntas conn x.manager.tabla := by
    rw [hy, heq]
    rfl
  have htabla : y.manager.tabla = x.manager.tabla := by rw [hy, heq]
  have hmsg : ∀ j ∈ x.manager.tabla.jobs, ∀ o ∈ j.pendientes, o.conn = conn →
      o.msg = some (.reserve j.jobId o.tipo o.amount) := by
    rintro j hj o ho rfl
    obtain ⟨nuevo, desde, -, hped, -⟩ := hpreg.jobs j hj
    exact (hped.enCurso o ho hnot).2
  have hmas : ∀ {e}, e ∈ x.manager.log → e ∈ y.manager.log :=
    fun he => hlog ▸ List.mem_append_left _ he
  have hold : ∀ {job r}, Event.inserted job r ∈ y.manager.log →
      .inserted job r ∈ x.manager.log := by
    intro job r hmem
    rw [hlog] at hmem
    refine (List.mem_append.mp hmem).resolve_right (fun hmem => ?_)
    obtain ⟨req, -, heq⟩ := List.mem_map.mp hmem
    exact Event.noConfusion heq
  refine ⟨fun c i t a hmem => ?_, fun job r hmem => ?_, fun job r hmem host => ?_⟩
  · rw [hlog] at hmem
    rcases List.mem_append.mp hmem with hmem | hmem
    · obtain ⟨conn', requests, hrx⟩ := h.enviadas c i t a hmem
      exact ⟨conn', requests, hmas hrx⟩
    · -- the line of a job of the table, which was requested
      obtain ⟨req, hreq, htx⟩ := List.mem_map.mp hmem
      obtain ⟨j, hj, o, ho, hconn, hline⟩ := mem_getPendientesByConn hreq
      rw [hline, hmsg j hj o ho hconn] at htx
      obtain ⟨rfl, -⟩ := Message.reserve.inj (Event.tx.inj htx).2
      obtain ⟨nuevo, desde, hhist, -⟩ := hpreg.jobs j hj
      obtain ⟨previo, conn', requests, -, -, hprevio, -⟩ := hhist.log
      refine ⟨conn', requests, hmas ?_⟩
      rw [hprevio]
      exact List.mem_append_right _ List.mem_cons_self
  · obtain ⟨conn', requests, hrx⟩ := h.pedida job r (hold hmem)
    exact ⟨conn', requests, hmas hrx⟩
  · have hcabe := h.cabe job r (hold hmem) host
    unfold Enlaces.porSalir Manager.jobs at hcabe ⊢
    rw [hlog, enviadasA_append, hlistas, htabla, add_assoc, enviadasA_preguntas hnot hmsg]
    exact hcabe

/-- **A new job is inserted.** -/
theorem inserta (h : Manda D x) {conn : Conn} {job : Job} {requests : List ResourceRequest}
    {es : List Event} {u : Manager}
    (hlog : u.log = x.manager.log ++ .rx conn (.jobRequest job.jobId requests) :: es)
    (htabla : u.tabla = x.manager.tabla)
    (hnuevo : ∀ c r, .rx c (.jobRequest job.jobId r) ∉ x.manager.log)
    (hid : ∀ j ∈ x.manager.jobs, j.jobId ≠ job.jobId)
    (hes : ∀ c m, .tx c m ∈ es → ∃ t a, m = .reserve job.jobId t a)
    (hins : ∀ j r, .inserted j r ∉ es)
    (hcabe : ∀ host, enviadasA D job.jobId host es
      + ↑(OutRequest.porSalir D x.listas host job.pendientes) ≤ pideA host requests)
    (hy : y.manager = insertJob job requests u) (hlistas : y.listas = x.listas) : Manda D y := by
  obtain ⟨fs, hfs, hinterno⟩ := log_insertJob_append job requests u
  have hlog : y.manager.log = x.manager.log ++ ([.rx conn (.jobRequest job.jobId requests)] ++ es
      ++ .inserted job requests :: fs) := by
    rw [hy, hfs, hlog]
    simp
  generalize htail : [Event.rx conn (.jobRequest job.jobId requests)] ++ es
    ++ .inserted job requests :: fs = tail at hlog
  have hmas : ∀ {e}, e ∈ x.manager.log → e ∈ y.manager.log :=
    fun he => hlog ▸ List.mem_append_left _ he
  have hrx : Event.rx conn (.jobRequest job.jobId requests) ∈ y.manager.log :=
    hlog ▸ List.mem_append_right _ (htail ▸ List.mem_cons_self)
  have hfin : ∀ c i t a, .tx c (.reserve i t a) ∉ Event.inserted job requests :: fs := by
    intro c i t a hmem
    exact Bool.false_ne_true (hinterno _ ((List.mem_cons.mp hmem).resolve_left Event.noConfusion))
  have hreserve : ∀ c i t a, .tx c (.reserve i t a) ∈ tail → i = job.jobId := by
    intro c i t a hmem
    rw [← htail] at hmem
    rcases List.mem_append.mp ((List.mem_append.mp hmem).resolve_right (hfin c i t a)) with
      hmem | hmem
    · exact Event.noConfusion (List.mem_singleton.mp hmem)
    · obtain ⟨t', a', heq⟩ := hes c _ hmem
      exact (Message.reserve.inj heq).1
  have hinserta : ∀ j r, .inserted j r ∈ tail → j = job ∧ r = requests := by
    intro j r hmem
    rw [← htail] at hmem
    rcases List.mem_append.mp hmem with hmem | hmem
    · rcases List.mem_append.mp hmem with hmem | hmem
      · exact Event.noConfusion (List.mem_singleton.mp hmem)
      · exact absurd hmem (hins j r)
    · rcases List.mem_cons.mp hmem with heq | hmem
      · exact Event.inserted.inj heq
      · exact absurd (hinterno _ hmem) Bool.false_ne_true
  have henviadas : ∀ host, enviadasA D job.jobId host tail = enviadasA D job.jobId host es := by
    intro host
    rw [← htail, enviadasA_append, enviadasA_append, enviadasA_eq_zero (fun c t a => hfin c _ t a),
      add_zero]
    exact zero_add _
  have hjobs : ∀ i host, y.porSalir D i host
      ≤ ↑(Job.porSalir D x.listas i host job) + x.porSalir D i host := by
    intro i host
    have htablas : y.manager.tabla = tablaJobsInsertarJob x.manager.tabla job := by
      rw [hy, tabla_insertJob, htabla]
    unfold Enlaces.porSalir Manager.jobs
    rw [hlistas, htablas]
    rcases x.manager.tabla.toList_cons job with hperm | hsame
    · refine le_of_eq ?_
      rw [Multiset.coe_add, ← List.flatMap_cons]
      exact Multiset.coe_eq_coe.mpr (hperm.flatMap_right _)
    · have hsame : (tablaJobsInsertarJob x.manager.tabla job).jobs = x.manager.tabla.jobs := hsame
      rw [hsame]
      exact Multiset.le_add_left _ _
  refine ⟨fun c i t a hmem => ?_, fun j r hmem => ?_, fun j r hmem host => ?_⟩
  · rw [hlog] at hmem
    rcases List.mem_append.mp hmem with hmem | hmem
    · obtain ⟨conn', r, hold⟩ := h.enviadas c i t a hmem
      exact ⟨conn', r, hmas hold⟩
    · obtain rfl := hreserve c i t a hmem
      exact ⟨conn, requests, hrx⟩
  · rw [hlog] at hmem
    rcases List.mem_append.mp hmem with hmem | hmem
    · obtain ⟨conn', r', hold⟩ := h.pedida j r hmem
      exact ⟨conn', r', hmas hold⟩
    · obtain ⟨rfl, rfl⟩ := hinserta j r hmem
      exact ⟨conn, r, hrx⟩
  · rw [hlog, enviadasA_append]
    rw [hlog] at hmem
    rcases List.mem_append.mp hmem with hmem | hmem
    · -- a job that was there, of another id
      have hne : job.jobId ≠ j.jobId := by
        intro heq
        obtain ⟨conn', r', hold⟩ := h.pedida j r hmem
        exact hnuevo conn' r' (heq ▸ hold)
      have hnone : (↑(Job.porSalir D x.listas j.jobId host job) : Multiset (Resource × Int32)) = 0 :=
        congrArg _ (if_neg hne)
      have hle := hjobs j.jobId host
      rw [hnone, zero_add] at hle
      rw [enviadasA_eq_zero (fun c t a hmem => hne (hreserve c _ t a hmem).symm), add_zero]
      exact le_trans (add_le_add_right hle _) (h.cabe j r hmem host)
    · -- the new job, for which nothing was sent before
      obtain ⟨rfl, rfl⟩ := hinserta j r hmem
      have hzero : enviadasA D j.jobId host x.manager.log = 0 := by
        refine enviadasA_eq_zero (fun c t a hmem => ?_)
        obtain ⟨conn', r', hold⟩ := h.enviadas c j.jobId t a hmem
        exact hnuevo conn' r' hold
      have hnone : x.porSalir D j.jobId host = 0 := by
        refine congrArg _ (List.flatMap_eq_nil_iff.mpr (fun k hk => ?_))
        exact if_neg (hid k hk)
      have hle := hjobs j.jobId host
      have hself : Job.porSalir D x.listas j.jobId host j
          = OutRequest.porSalir D x.listas host j.pendientes := if_pos rfl
      rw [hnone, add_zero, hself] at hle
      rw [hzero, zero_add, henviadas]
      exact le_trans (add_le_add_right hle _) (hcabe host)

/-- **A `JOB_REQUEST`** whose id is new. -/
theorem pide (h : Manda D x) (hpreg : x.Pregunta)
    (hconns : ∀ i, ∀ e ∈ x.manager.conns.buckets i, D e.conn = some e.ip) {red : Network}
    (hfresh : ∀ c ∈ red.filterMap id, ¬x.manager.Creada c) {conn : Conn} {jobId : Int32}
    {requests : List ResourceRequest}
    (hnuevo : ∀ c r, .rx c (.jobRequest jobId r) ∉ x.manager.log)
    (hy : y.manager = processJobRequest conn jobId requests red
      (x.manager.emit (.rx conn (.jobRequest jobId requests))))
    (hlistas : y.listas = x.listas) (hD : Dirige D y.manager.log) : Manda D y := by
  have hnolistas : ∀ c, some c ∈ red → c ∉ x.listas := fun c hc hmem =>
    hfresh c (List.mem_filterMap.mpr ⟨some c, hc, rfl⟩) (hpreg.listas c hmem)
  obtain ⟨left, hpregunta⟩ := Job.Preguntado.requestLoop
    (s := x.manager.emit (.rx conn (.jobRequest jobId requests))) hpreg.conns hnolistas requests
    jobId conn
  have hpide := pideA_requestLoop (D := D)
    (s := x.manager.emit (.rx conn (.jobRequest jobId requests)))
    (fun i e he => ⟨hconns i e he, hpreg.conns i e he⟩) requests hnolistas jobId conn
  obtain ⟨htabla, hjobId⟩ := tabla_requestLoop requests red ⟨jobId, conn, [], []⟩
    (x.manager.emit (.rx conn (.jobRequest jobId requests)))
  have hsalir : ∀ {z : Enlaces}, z.manager.tabla = x.manager.tabla → z.listas = x.listas →
      ∀ i host, z.porSalir D i host ≤ x.porSalir D i host := by
    intro z hz hl i host
    unfold Enlaces.porSalir Manager.jobs
    rw [hz, hl]
  rcases processJobRequest_cases conn jobId requests red
    (x.manager.emit (.rx conn (.jobRequest jobId requests))) with
    ⟨_, -, heq⟩ | ⟨hnone, htrue, heq⟩ | ⟨hnone, -, heq⟩
  · have hsame := hy.trans heq
    have hsameTabla : y.manager.tabla = x.manager.tabla := by
      rw [hsame]
      rfl
    exact h.extiende (congrArg Manager.log hsame) (hsalir hsameTabla hlistas)
      (fun _ _ hmem => Event.noConfusion (List.mem_singleton.mp hmem))
      (fun _ _ _ _ hmem => Event.noConfusion (List.mem_singleton.mp hmem))
  all_goals
    rw [heq] at hy
    generalize (requestLoop requests red ⟨jobId, conn, [], []⟩
      (x.manager.emit (.rx conn (.jobRequest jobId requests)))).2.2 = u at *
    generalize (requestLoop requests red ⟨jobId, conn, [], []⟩
      (x.manager.emit (.rx conn (.jobRequest jobId requests)))).2.1 = job at *
    obtain rfl : job.jobId = jobId := hjobId
    obtain ⟨es, hes, -, hins, hres, -⟩ := hpregunta.log
    have hlog : u.log = x.manager.log ++ .rx conn (.jobRequest job.jobId requests) :: es := by
      rw [hes, Manager.log_emit, List.append_assoc]
      rfl
  · obtain ⟨es', hes', hcabe⟩ := hpide htrue
    obtain rfl : es = es' := List.append_cancel_left (hes.symm.trans hes')
    refine h.inserta hlog htabla hnuevo (fun j hj => TablaJobs.ne_of_buscarPorId_eq_none hnone hj)
      hres hins (hcabe (fun ip c hmem => hD ip c ?_)) hy hlistas
    obtain ⟨fs, hfs, -⟩ := log_insertJob_append job requests u
    rw [hy, hfs, hlog]
    simp [hmem]
  · have hloop : Manda D { x with manager := u } := by
      refine h.extiende hlog (hsalir htabla rfl) (fun j r hmem => ?_) (fun c i t a hmem => ?_)
      · exact hins j r ((List.mem_cons.mp hmem).resolve_left Event.noConfusion)
      · obtain ⟨t', a', heq⟩ := hres c _ ((List.mem_cons.mp hmem).resolve_left Event.noConfusion)
        obtain ⟨rfl, -⟩ := Message.reserve.inj heq
        refine ⟨⟨conn, requests, ?_⟩, hnuevo⟩
        show _ ∈ u.log
        rw [hlog]
        exact List.mem_append_right _ List.mem_cons_self
    exact hloop.sigue (Manager.Sigue.rollbackJob job u) hy hlistas

end Manda

/-! ## Runs -/

/-- A job of that id was not requested. -/
def sinPedir (log : List Event) (jobId : Int32) : Bool :=
  log.all (fun e => match e with
    | .rx _ (.jobRequest i _) => i != jobId
    | _ => true)

theorem sinPedir_iff {log : List Event} {jobId : Int32} :
    sinPedir log jobId = true ↔ ∀ c r, .rx c (.jobRequest jobId r) ∉ log := by
  unfold sinPedir
  rw [List.all_eq_true]
  constructor
  · intro h c r hmem
    exact bne_iff_ne.mp (h _ hmem) rfl
  · intro h e he
    split
    · next c i r => exact bne_iff_ne.mpr (fun heq => h c r (heq ▸ he))
    · rfl

/-- The line requests no job whose id was used. -/
def Manager.estrena (s : Manager) (msg : CString) : Bool :=
  match parseMessage msg with
  | some (.jobRequest jobId _) => sinPedir s.log jobId
  | _ => true

theorem Manager.estrena_iff {s : Manager} {msg : CString} :
    s.estrena msg = true ↔ ∀ jobId requests, parseMessage msg = some (.jobRequest jobId requests) →
      ∀ c r, .rx c (.jobRequest jobId r) ∉ s.log := by
  unfold Manager.estrena
  split
  · next jobId requests hparse =>
    rw [sinPedir_iff]
    constructor
    · intro h i r hi
      rw [hparse] at hi
      obtain ⟨rfl, -⟩ := Message.jobRequest.inj (Option.some.inj hi)
      exact h
    · exact fun h => h jobId requests hparse
  · next hother => exact ⟨fun _ i r hi => absurd hi (hother i r), fun _ => rfl⟩

namespace Enlaces

/-- **The runs**: connections come up once, and those to other nodes are not lost; the id
of a job is not used twice. -/
def Estrena (D : Rumbo) (x : Enlaces) : Suceso → Prop
  | .call (.message conn msg red) => x.UnaVez (.call (.message conn msg red))
      ∧ ∀ jobId requests, parseMessage msg = some (.jobRequest jobId requests) →
        ∀ c r, .rx c (.jobRequest jobId r) ∉ x.manager.log
  | .call (.failed conn) | .call (.disconnect conn) => D conn = none
  | suceso => x.UnaVez suceso

theorem Estrena.unaVez {D : Rumbo} {x : Enlaces} {suceso : Suceso} (h : x.Estrena D suceso) :
    x.UnaVez suceso := by
  cases suceso with
  | accept conn => exact h
  | call call =>
    cases call with
    | message conn msg red => exact h.1
    | failed conn => trivial
    | disconnect conn => trivial
    | ready conn => exact h
    | announce now ipSender msg => exact h
    | purge now timeout => exact h

theorem Estrena.sinPerdidas {D : Rumbo} {x : Enlaces} {call : Call}
    (h : x.Estrena D (.call call)) : (SinPerdidas D).allows x.manager call := by
  cases call with
  | message conn msg red => exact fun _ _ => trivial
  | ready conn => trivial
  | failed conn => exact h
  | disconnect conn => exact h
  | announce now ipSender msg => trivial
  | purge now timeout => trivial

end Enlaces

/-- **What a step keeps.** -/
theorem Manda.step {D : Rumbo} {x y : Enlaces} (h : Manda D x) (hpreg : x.Pregunta)
    (hconns : ∀ i, ∀ e ∈ x.manager.conns.buckets i, D e.conn = some e.ip) {suceso : Suceso}
    (hok : x.Estrena D suceso) (hstep : x.step suceso = some y) (hD : Dirige D y.manager.log) :
    Manda D y := by
  cases suceso with
  | accept conn =>
    obtain rfl := Option.some.inj hstep
    exact ⟨h.enviadas, h.pedida, h.cabe⟩
  | call call =>
    obtain rfl := Option.some.inj hstep
    rcases call.sigue x.manager with
      hsigue | ⟨conn, rfl⟩ | ⟨conn, msg, red, jobId, requests, rfl, hparse⟩
    · cases call with
      | ready conn => exact h.ready hpreg hok.2 rfl rfl
      | message conn msg red => exact h.sigue hsigue rfl rfl
      | failed conn => exact h.sigue hsigue rfl rfl
      | disconnect conn => exact h.sigue hsigue rfl rfl
      | announce now ipSender msg => exact h.sigue hsigue rfl rfl
      | purge now timeout => exact h.sigue hsigue rfl rfl
    · exact h.ready hpreg hok.2 rfl rfl
    · have hrun : (Call.message conn msg red).run x.manager
          = processJobRequest conn jobId requests red
            (x.manager.emit (.rx conn (.jobRequest jobId requests))) := by
        show processMessage conn msg red x.manager = _
        unfold processMessage
        rw [hparse]
        rfl
      exact h.pide hpreg hconns hok.1.2 (hok.2 jobId requests hparse) hrun rfl hD

/-- A run of the agent with its connections is a run of the agent. -/
theorem Enlaces.reaches_manager {ok : Enlaces → Suceso → Prop} {ok' : Manager → Call → Prop}
    {s : Manager} {x : Enlaces} (h : Reaches Enlaces.step ok (.inicio s) x)
    (himp : ∀ u call, ok u (.call call) → ok' u.manager call) :
    Reaches Manager.step ok' s x.manager := by
  refine h.invariant (I := fun x => Reaches Manager.step ok' s x.manager) (.refl s)
    (fun u suceso v hu hok hstep => ?_)
  cases suceso with
  | accept conn =>
    obtain rfl := Option.some.inj hstep
    exact hu
  | call call =>
    obtain rfl := Option.some.inj hstep
    exact hu.tail (himp u call hok) rfl

theorem Enlaces.log_subset {x y : Enlaces} {suceso : Suceso} (hstep : x.step suceso = some y) :
    x.manager.log ⊆ y.manager.log := by
  cases suceso with
  | accept conn =>
    obtain rfl := Option.some.inj hstep
    exact List.Subset.refl _
  | call call =>
    obtain rfl := Option.some.inj hstep
    obtain ⟨es, hlog, -⟩ := call.log_run x.manager
    exact fun e he => hlog ▸ List.mem_append_left es he

/-- **What a node asks and is granted, along every run.** -/
theorem manda_of_reaches {D : Rumbo} (hcorta : D.Corta) {cpu mem gpu : Int32} {ip : CString}
    {x : Enlaces}
    (hrun : Reaches Enlaces.step (Enlaces.Estrena D) (.inicio (managerInit cpu mem gpu ip)) x)
    (hD : Dirige D x.manager.log) : Recibe D (x.manager, []) ∧ Manda D x := by
  have hrecibe : ∀ {u : Enlaces}, Reaches Enlaces.step (Enlaces.Estrena D)
      (.inicio (managerInit cpu mem gpu ip)) u → Dirige D u.manager.log →
      Recibe D (u.manager, []) :=
    fun hu => recibe_of_reaches hcorta (Enlaces.reaches_manager hu (fun _ _ => (·.sinPerdidas)))
  refine ⟨hrecibe hrun hD, ?_⟩
  have hinv := hrun.invariant (I := fun x => Reaches Enlaces.step (Enlaces.Estrena D)
      (.inicio (managerInit cpu mem gpu ip)) x ∧ x.Pregunta
        ∧ (Dirige D x.manager.log → Manda D x))
    ⟨.refl _, Enlaces.pregunta_inicio cpu mem gpu ip, fun _ =>
      ⟨fun _ _ _ _ hmem => absurd hmem List.not_mem_nil,
        fun _ _ hmem => absurd hmem List.not_mem_nil,
        fun _ _ hmem => absurd hmem List.not_mem_nil⟩⟩
    (fun u suceso v ⟨hu, hpreg, hmanda⟩ hok hstep => ?_)
  · exact hinv.2.2 hD
  · refine ⟨hu.tail hok hstep, hpreg.step hok.unaVez hstep, fun hD => ?_⟩
    have hD' : Dirige D u.manager.log :=
      fun host c hmem => hD host c (Enlaces.log_subset hstep hmem)
    exact (hmanda hD').step hpreg (hrecibe hu hD').conns hok hstep hD

instance (D : Rumbo) (x : Enlaces) : (suceso : Suceso) → Decidable (x.Estrena D suceso)
  | .accept _ => .isTrue trivial
  | .call (.message conn msg red) =>
    decidable_of_iff (x.UnaVez (.call (.message conn msg red)) ∧ x.manager.estrena msg = true)
      (and_congr_right (fun _ => Manager.estrena_iff))
  | .call (.failed conn) | .call (.disconnect conn) => inferInstanceAs (Decidable (D conn = none))
  | .call (.ready conn) => inferInstanceAs (Decidable (x.UnaVez (.call (.ready conn))))
  | .call (.announce ..) | .call (.purge ..) => .isTrue trivial

end Hpc
