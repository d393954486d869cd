import HpcAgent.Marks

/-!
# No dangling connection

The caller frees a connection right after `process_disconnect` or
`process_connection_failed`, and five structures refer to connections: the
queues (`owner_conn`), the jobs, their allocations, their pending requests and
the table of connections. `Enlaces` is the agent with what the network layer
knows of each connection: whether the server accepted it or
`connect_remote_node` created it, whether it came up, whether it was freed. A
connection is a fresh identity when it appears, and lines arrive on
connections that are up and not freed.

The invariant is `Enlaces.Sanos`. `process_disconnect` deletes one entry of each
bucket of the table of connections, so a bucket must not have two for one
connection; that rests on `process_connection_ready` being called once, while at
most one request awaits the connection (`Manager.EnCurso`). Extraction looks at
remote allocations only, so the local ones must carry the connection of their
job.
-/

namespace Hpc

/-! ## References -/

/-- **Nothing refers to the connection.** -/
structure Manager.SinReferencia (s : Manager) (conn : Conn) : Prop where
  cola : ∀ t, ∀ p ∈ s.cola t, p.ownerConn ≠ conn
  jobs : ∀ j ∈ s.jobs, j.conn ≠ conn
  confirmadas : ∀ j ∈ s.jobs, ∀ a ∈ j.confirmadas, a.conn ≠ conn
  pendientes : ∀ j ∈ s.jobs, ∀ o ∈ j.pendientes, o.conn ≠ conn
  conns : ∀ i, ∀ e ∈ s.conns.buckets i, e.conn ≠ conn

/-- The connections the pending requests of the table wait for. -/
def Manager.esperadas (s : Manager) : List Conn :=
  s.jobs.flatMap (fun j => j.pendientes.map (·.conn))

/-- **A connection that is not up yet** owns nothing, and at most one request waits
for it. -/
structure Manager.EnCurso (s : Manager) (conn : Conn) : Prop where
  cola : ∀ t, ∀ p ∈ s.cola t, p.ownerConn ≠ conn
  jobs : ∀ j ∈ s.jobs, j.conn ≠ conn
  conns : ∀ i, ∀ e ∈ s.conns.buckets i, e.conn ≠ conn
  una : s.esperadas.count conn ≤ 1

/-- The local allocations of a job carry its connection. -/
def Job.Propias (j : Job) : Prop :=
  ∀ a ∈ j.confirmadas, a.type = .localAlloc → a.conn = j.conn

/-- Where the connections of a job's allocations come from. -/
def Job.Hereda (j j' : Job) : Prop :=
  ∀ b ∈ j'.confirmadas, (∃ a ∈ j.confirmadas, b.type = a.type ∧ b.conn = a.conn)
    ∨ (b.type = .remoteAlloc ∧ ∃ o ∈ j.pendientes, b.conn = o.conn)

/-! ## What a call leaves -/

theorem Job.Marcado.hereda {j j' : Job} (h : j.Marcado j') : j.Hereda j' := by
  intro b hb
  obtain ⟨a, ha, rfl | ⟨-, rfl⟩⟩ := List.exists_of_forall₂ h.confirmadas.flip hb
  · exact Or.inl ⟨b, ha, rfl, rfl⟩
  · exact Or.inl ⟨a, ha, rfl, rfl⟩

/-- A confirmed request keeps its connection. -/
theorem hereda_jobConfirmar (j : Job) (ip : CString) (jobId : Int32) :
    j.Hereda (jobConfirmar j ip jobId).2 := by
  unfold jobConfirmar
  cases hfind : j.pendientes.find? (fun sal => sal.ip == ip) with
  | none => exact fun b hb => Or.inl ⟨b, hb, rfl, rfl⟩
  | some sal =>
    intro b hb
    rcases List.mem_cons.mp hb with rfl | hb
    · exact Or.inr ⟨rfl, sal, List.mem_of_find?_eq_some hfind, rfl⟩
    · exact Or.inl ⟨b, hb, rfl, rfl⟩

theorem Job.Sigue.hereda {j j' : Job} (h : j.Sigue j') : j.Hereda j' := by
  rcases h with (h | ⟨ip, jobId, rfl⟩) | ⟨conn, h⟩
  · exact h.hereda
  · exact hereda_jobConfirmar j ip jobId
  · intro b hb
    rcases h.hereda b hb with ⟨a, ha, heq⟩ | hpend
    · exact Or.inl ⟨a, (List.mem_filter.mp ha).1, heq⟩
    · exact Or.inr hpend

theorem Job.Sigue.conn {j j' : Job} (h : j.Sigue j') : j'.conn = j.conn := by
  rcases h with (h | ⟨ip, jobId, rfl⟩) | ⟨conn, h⟩
  · exact h.conn
  · unfold jobConfirmar
    split <;> rfl
  · exact h.conn

theorem Job.Sigue.pendientes (j j' : Job) (h : j.Sigue j') :
    (j'.pendientes.map (·.conn)).Sublist (j.pendientes.map (·.conn)) := by
  rcases h with (h | ⟨ip, jobId, rfl⟩) | ⟨conn, h⟩
  · rw [h.pendientes]
  · unfold jobConfirmar
    split
    · exact .refl _
    · exact List.eraseP_sublist.map _
  · rw [h.pendientes]
    exact .refl _

theorem Job.Propias.sigue {j j' : Job} (hj : j.Propias) (h : j.Sigue j') : j'.Propias := by
  intro b hb hlocal
  rcases h.hereda b hb with ⟨a, ha, htype, hconn⟩ | ⟨hremote, -⟩
  · rw [hconn, h.conn]
    exact hj a ha (htype.symm.trans hlocal)
  · exact absurd (hremote.symm.trans hlocal) (by decide)

section Sigue

variable {s s' : Manager} {conn? : Option Conn} {conn : Conn}

theorem Manager.Sigue.esperadas (h : s.Sigue conn? s') : s'.esperadas.Sublist s.esperadas :=
  h.tabla.flatMap_sublist Job.Sigue.pendientes TAM_TABLA_JOBS

/-- A new entry of a queue has the connection of the line. -/
theorem Manager.Sigue.ownerConn (h : s.Sigue conn? s') (hne : conn? ≠ some conn)
    (hcola : ∀ t, ∀ p ∈ s.cola t, p.ownerConn ≠ conn) :
    ∀ t, ∀ p ∈ s'.cola t, p.ownerConn ≠ conn := by
  intro t p hp hconn
  rcases h.cola t p hp with hp | heq
  · exact hcola t p hp hconn
  · exact hne (heq.trans (congrArg some hconn))

/-- **A call on another connection makes no reference.** -/
theorem Manager.SinReferencia.sigue (h : s.SinReferencia conn) (hs : s.Sigue conn? s')
    (hne : conn? ≠ some conn) : s'.SinReferencia conn := by
  refine ⟨hs.ownerConn hne h.cola, fun j' hj' => ?_, fun j' hj' b hb => ?_, fun j' hj' o ho => ?_,
    fun i e he => h.conns i e ((hs.conns i).subset he)⟩
  · obtain ⟨j, hj, hjj'⟩ := hs.tabla.exists_of_mem_toList hj'
    rw [hjj'.conn]
    exact h.jobs j hj
  · obtain ⟨j, hj, hjj'⟩ := hs.tabla.exists_of_mem_toList hj'
    rcases hjj'.hereda b hb with ⟨a, ha, -, hconn⟩ | ⟨-, o, ho, hconn⟩
    · rw [hconn]
      exact h.confirmadas j hj a ha
    · rw [hconn]
      exact h.pendientes j hj o ho
  · obtain ⟨j, hj, hjj'⟩ := hs.tabla.exists_of_mem_toList hj'
    obtain ⟨o', ho', heq⟩ := List.mem_map.mp
      ((Job.Sigue.pendientes j j' hjj').subset (List.mem_map_of_mem ho))
    rw [← heq]
    exact h.pendientes j hj o' ho'

theorem Manager.EnCurso.sigue (h : s.EnCurso conn) (hs : s.Sigue conn? s')
    (hne : conn? ≠ some conn) : s'.EnCurso conn := by
  refine ⟨hs.ownerConn hne h.cola, fun j' hj' => ?_,
    fun i e he => h.conns i e ((hs.conns i).subset he), (hs.esperadas.count_le conn).trans h.una⟩
  obtain ⟨j, hj, hjj'⟩ := hs.tabla.exists_of_mem_toList hj'
  rw [hjj'.conn]
  exact h.jobs j hj

/-- A connection without references awaits nothing. -/
theorem Manager.SinReferencia.enCurso (h : s.SinReferencia conn) : s.EnCurso conn := by
  refine ⟨h.cola, h.jobs, h.conns, ?_⟩
  rw [List.count_eq_zero_of_not_mem (fun hmem => ?_)]
  · exact Nat.zero_le 1
  · obtain ⟨j, hj, hmem⟩ := List.mem_flatMap.mp hmem
    obtain ⟨o, ho, hconn⟩ := List.mem_map.mp hmem
    exact h.pendientes j hj o ho hconn

end Sigue

/-! ## A connection that ends -/

/-- What the loss of a connection leaves of the jobs does not refer to it. -/
theorem sinReferencia_jobs {s : Manager} {conn : Conn} (hpropias : s.tabla.Forall Job.Propias)
    {j : Job} (hj : j ∈ TablaJobs.jobs (tablaJobsExtractByRemoteConn s.tabla conn).2) :
    j.conn ≠ conn ∧ (∀ a ∈ j.confirmadas, a.conn ≠ conn) ∧ ∀ o ∈ j.pendientes, o.conn ≠ conn := by
  rw [TablaJobs.jobs_extractByRemoteConn] at hj
  obtain ⟨hj, hkeep⟩ := List.mem_filter.mp hj
  obtain ⟨k, hk, rfl⟩ := List.mem_map.mp hj
  have hkeep : (k.dropRemote conn).affected conn = false := by simpa using hkeep
  obtain ⟨hown, hpend⟩ := Bool.or_eq_false_iff.mp (Bool.or_eq_false_iff.mp hkeep).1
  have hconn : k.conn ≠ conn := fun heq => Bool.false_ne_true (hown.symm.trans (beq_iff_eq.mpr heq))
  refine ⟨hconn, fun a ha haconn => ?_, fun o ho hoconn => ?_⟩
  · obtain ⟨ha, hnot⟩ := List.mem_filter.mp ha
    cases htype : a.type with
    | localAlloc =>
      exact hconn ((hpropias.of_mem_toList hk a ha htype).symm.trans haconn)
    | remoteAlloc => simp [htype, haconn] at hnot
  · exact List.any_eq_false.mp hpend o ho (beq_iff_eq.mpr hoconn)

/-- **The loss of a connection** leaves no reference to it, if the table of connections
is left without it. -/
theorem sinReferencia_dropJobs {s : Manager} {conn : Conn} (hpropias : s.tabla.Forall Job.Propias)
    (hcola : ∀ t, ∀ p ∈ s.cola t, p.ownerConn ≠ conn) (conns : TablaConns)
    (hconns : ∀ i, ∀ e ∈ conns.buckets i, e.conn ≠ conn) :
    Manager.SinReferencia { dropJobs conn s with conns := conns } conn := by
  have hjobs := fun j (hj : j ∈ TablaJobs.jobs (tablaJobsExtractByRemoteConn s.tabla conn).2) =>
    sinReferencia_jobs hpropias hj
  have hextract : Manager.SinReferencia
      { s.setTabla (tablaJobsExtractByRemoteConn s.tabla conn).2 with conns := conns } conn :=
    ⟨hcola, fun j hj => (hjobs j hj).1, fun j hj => (hjobs j hj).2.1,
      fun j hj => (hjobs j hj).2.2, hconns⟩
  have hsirve := Manager.Sigue.of_sirve (.dropJobs conn s) (.refl Job.Suelta.refl _)
    (fun _ => .refl _) rfl rfl rfl none
  exact hextract.sigue ⟨hsirve.tabla, hsirve.cola, fun _ => .refl _, hsirve.ip, hsirve.log⟩
    (Option.some_ne_none conn).symm

/-- **`process_disconnect` leaves no reference to the connection.** -/
theorem sinReferencia_processDisconnect {s : Manager} {conn : Conn}
    (hpropias : s.tabla.Forall Job.Propias)
    (hunica : ∀ i, ((s.conns.buckets i).map (·.conn)).Nodup)
    (hbucket : ∀ i, TAM_TABLA_CONN ≤ i → s.conns.buckets i = []) :
    (processDisconnect conn s).SinReferencia conn := by
  refine sinReferencia_dropJobs (s := limpiarColasPorConn conn s) hpropias
    (fun t p hp hconn => ?_) _ (fun i e he => ?_)
  · obtain ⟨-, hnot⟩ := List.mem_filter.mp hp
    simp [hconn] at hnot
  · have hconns : (dropJobs conn (limpiarColasPorConn conn s)).conns = s.conns :=
      (Manager.Sirve.dropJobs conn (limpiarColasPorConn conn s)).conns
    have he : e ∈ (if i < TAM_TABLA_CONN then
        ((dropJobs conn (limpiarColasPorConn conn s)).conns.buckets i).eraseP
          (fun e => e.conn == conn)
      else (dropJobs conn (limpiarColasPorConn conn s)).conns.buckets i) := he
    rw [hconns] at he
    split at he
    · intro hconn
      obtain ⟨A, B, hAB⟩ := List.append_of_mem (List.mem_of_mem_eraseP he)
      have hnd := hunica i
      rw [hAB, List.map_append, List.map_cons, List.nodup_middle, List.nodup_cons,
        ← List.map_append] at hnd
      have hother : ∀ e' ∈ A ++ B, e'.conn ≠ conn := fun e' he' heq =>
        hnd.1 (List.mem_map.mpr ⟨e', he', heq.trans hconn.symm⟩)
      rw [hAB, List.eraseP_append_right _ (fun e' he' => by
          simpa using hother e' (List.mem_append_left _ he')),
        List.eraseP_cons_of_pos (p := fun e : ConnEntry => e.conn == conn)
          (beq_iff_eq.mpr hconn)] at he
      exact hother e he hconn
    · next hi =>
      rw [hbucket i (Nat.le_of_not_lt hi)] at he
      exact absurd he List.not_mem_nil

/-- **`process_connection_failed` leaves no reference to a connection that is not up.** -/
theorem sinReferencia_processConnectionFailed {s : Manager} {conn : Conn}
    (hpropias : s.tabla.Forall Job.Propias) (h : s.EnCurso conn) :
    (processConnectionFailed conn s).SinReferencia conn := by
  have hconns : (dropJobs conn s).conns = s.conns := (Manager.Sirve.dropJobs conn s).conns
  exact sinReferencia_dropJobs hpropias h.cola (dropJobs conn s).conns (hconns ▸ h.conns)

/-! ## A connection that comes up -/

/-- As many requests are sent as waited for the connection. -/
theorem length_getPendientesByConn (t : TablaJobs) (conn : Conn) :
    (tablaJobsGetPendientesByConn t conn).length
      = (t.jobs.flatMap (fun j => j.pendientes.map (·.conn))).count conn := by
  unfold tablaJobsGetPendientesByConn
  rw [List.length_reverse]
  induction t.jobs with
  | nil => rfl
  | cons j l ih =>
    rw [List.flatMap_cons, List.flatMap_cons, List.length_append, List.count_append, ih,
      List.length_map, ← List.countP_eq_length_filter, List.count, List.countP_map]
    rfl

/-- **A connection that comes up** is filed at most once. -/
theorem conns_of_enCurso {s : Manager} {conn : Conn} (h : s.EnCurso conn) :
    (processConnectionReady conn s).conns = s.conns
      ∨ conn ∈ s.esperadas ∧ ∃ ip,
        (processConnectionReady conn s).conns = tablaConnsInsert s.conns ip conn := by
  have hlength := length_getPendientesByConn s.tabla conn
  have huna : (tablaJobsGetPendientesByConn s.tabla conn).length ≤ 1 := hlength ▸ h.una
  unfold processConnectionReady
  match hlista : tablaJobsGetPendientesByConn s.tabla conn with
  | [] => exact Or.inl rfl
  | [req] =>
    refine Or.inr ⟨?_, req.ip, rfl⟩
    rw [hlista, List.length_singleton] at hlength
    exact List.count_pos_iff.mp (hlength ▸ Nat.one_pos)
  | _ :: _ :: _ =>
    rw [hlista, List.length_cons, List.length_cons] at huna
    exact absurd huna (by omega)

/-! ## The requests of a new job -/

/-- `connect_remote_node` has created the connection. -/
def Manager.Creada (s : Manager) (conn : Conn) : Prop := ∃ ip, Event.connecting ip conn ∈ s.log

/-- **What the loop over the entries of a `JOB_REQUEST` refers to**: the connection of the
line, connections of the table, and those it creates, each once. `nuevas` are all the
network has to give, `red` what is left of them. -/
structure Job.Enlazado (conn : Conn) (s : Manager) (nuevas : List Conn) (red : Network)
    (job : Job) (u : Manager) : Prop where
  tabla : u.tabla = s.tabla
  conns : u.conns = s.conns
  cola : ∀ t, ∀ p ∈ u.cola t, p ∈ s.cola t ∨ p.ownerConn = conn
  duena : job.conn = conn
  confirmadas : ∀ a ∈ job.confirmadas, a.type = .localAlloc ∧ a.conn = conn
  pendientes : ∀ o ∈ job.pendientes, (∃ i, ∃ e ∈ s.conns.buckets i, e.conn = o.conn)
    ∨ (o.conn ∈ nuevas ∧ u.Creada o.conn)
  creadas : ∀ c, u.Creada c → s.Creada c ∨ c ∈ nuevas
  log : s.log ⊆ u.log
  quedan : ∀ c, some c ∈ red → c ∈ nuevas
  una : ∀ c ∈ nuevas, (job.pendientes.map (·.conn)).count c + (red.filterMap id).count c ≤ 1

theorem Manager.Creada.mono {s s' : Manager} (h : s.log ⊆ s'.log) {conn : Conn}
    (hc : s.Creada conn) : s'.Creada conn := by
  obtain ⟨ip, hmem⟩ := hc
  exact ⟨ip, h hmem⟩

/-- What is not a new connection creates none. -/
theorem Manager.creada_append {s s' : Manager} {es : List Event} (hlog : s'.log = s.log ++ es)
    (hes : ∀ e ∈ es, ∀ ip c, e ≠ .connecting ip c) {conn : Conn} (hc : s'.Creada conn) :
    s.Creada conn := by
  obtain ⟨ip, hmem⟩ := hc
  rw [hlog] at hmem
  rcases List.mem_append.mp hmem with hmem | hmem
  · exact ⟨ip, hmem⟩
  · exact absurd rfl (hes _ hmem ip conn)

namespace Job.Enlazado

variable {conn : Conn} {s u : Manager} {nuevas : List Conn} {red : Network} {job : Job}
  {head : ResourceRequest}

/-- A local entry, and what the queues have after it. -/
theorem addLocal (h : job.Enlazado conn s nuevas red u) (r : Result) {u' : Manager}
    (htabla : u'.tabla = u.tabla) (hconns : u'.conns = u.conns)
    (hcola : ∀ t, ∀ p ∈ u'.cola t, p ∈ u.cola t ∨ p = head.pending job) {es : List Event}
    (hlog : u'.log = u.log ++ es) (hes : ∀ e ∈ es, ∀ ip c, e ≠ .connecting ip c) :
    (job.addLocal head u.ip r).Enlazado conn s nuevas red u' := by
  have hsub : u.log ⊆ u'.log := hlog ▸ List.subset_append_left _ _
  refine ⟨htabla.trans h.tabla, hconns.trans h.conns, fun t p hp => ?_, h.duena,
    List.forall_mem_cons.mpr ⟨⟨rfl, h.duena⟩, h.confirmadas⟩,
    fun o ho => (h.pendientes o ho).imp id (fun hnew => ⟨hnew.1, hnew.2.mono hsub⟩),
    fun c hc => h.creadas c (Manager.creada_append hlog hes hc), List.Subset.trans h.log hsub,
    h.quedan, h.una⟩
  rcases hcola t p hp with hp | rfl
  · exact h.cola t p hp
  · exact Or.inr h.duena

/-- A remote entry over a connection of the table. -/
theorem addSent (h : job.Enlazado conn s nuevas red u)
    (hnuevas : ∀ c ∈ nuevas, ∀ i, ∀ e ∈ s.conns.buckets i, e.conn ≠ c) {remote : Conn}
    (hlookup : tablaConnsLookup u.conns head.ip = some remote) (m : Message) :
    (job.addRemote head remote none).Enlazado conn s nuevas red (sendMessage remote m u) := by
  rw [h.conns] at hlookup
  obtain ⟨e, hfind, rfl⟩ := Option.map_eq_some_iff.mp hlookup
  have he := List.mem_of_find?_eq_some hfind
  have hsub : u.log ⊆ (sendMessage e.conn m u).log := List.subset_append_left _ _
  refine ⟨h.tabla, h.conns, h.cola, h.duena, h.confirmadas,
    List.forall_mem_cons.mpr ⟨Or.inl ⟨_, e, he, rfl⟩,
      fun o ho => (h.pendientes o ho).imp id (fun hnew => ⟨hnew.1, hnew.2.mono hsub⟩)⟩,
    fun c hc => h.creadas c (Manager.creada_append rfl (fun e' he' ip c => ?_) hc),
    List.Subset.trans h.log hsub, h.quedan, fun c hc => ?_⟩
  · rw [List.mem_singleton.mp he']
    exact Event.noConfusion
  · show (e.conn :: job.pendientes.map (·.conn)).count c + _ ≤ 1
    rw [List.count_cons_of_ne (hnuevas c hc _ e he)]
    exact h.una c hc

/-- A remote entry over a new connection. -/
theorem addConnecting {remote : Conn} (h : job.Enlazado conn s nuevas (some remote :: red) u)
    (msg : Option Message) :
    (job.addRemote head remote msg).Enlazado conn s nuevas red
      (u.emit (.connecting head.ip remote)) := by
  have hsub : u.log ⊆ (u.emit (.connecting head.ip remote)).log := List.subset_append_left _ _
  have hremote : remote ∈ nuevas := h.quedan remote List.mem_cons_self
  have hcreada : (u.emit (.connecting head.ip remote)).Creada remote :=
    ⟨head.ip, List.mem_append_right _ List.mem_cons_self⟩
  refine ⟨h.tabla, h.conns, h.cola, h.duena, h.confirmadas,
    List.forall_mem_cons.mpr ⟨Or.inr ⟨hremote, hcreada⟩,
      fun o ho => (h.pendientes o ho).imp id (fun hnew => ⟨hnew.1, hnew.2.mono hsub⟩)⟩,
    fun c hc => ?_, List.Subset.trans h.log hsub,
    fun c hc => h.quedan c (List.mem_cons_of_mem _ hc), fun c hc => ?_⟩
  · obtain ⟨ip, hmem⟩ := hc
    rcases List.mem_append.mp hmem with hmem | hmem
    · exact h.creadas c ⟨ip, hmem⟩
    · obtain ⟨-, rfl⟩ := Event.connecting.inj (List.mem_singleton.mp hmem)
      exact Or.inr hremote
  · have huna := h.una c hc
    have hcons : (some remote :: red).filterMap id = remote :: red.filterMap id := rfl
    show (remote :: job.pendientes.map (·.conn)).count c + _ ≤ 1
    rw [hcons, List.count_cons] at huna
    rw [List.count_cons]
    omega

end Job.Enlazado

/-- **The loop over the entries.** -/
theorem enlazado_requestLoop {s : Manager} {red : Network}
    (hnodup : (red.filterMap id).Nodup)
    (hnuevas : ∀ c ∈ red.filterMap id, ∀ i, ∀ e ∈ s.conns.buckets i, e.conn ≠ c)
    (requests : List ResourceRequest) (jobId : Int32) (conn : Conn) :
    ∃ red', (requestLoop requests red ⟨jobId, conn, [], []⟩ s).2.1.Enlazado conn s
      (red.filterMap id) red' (requestLoop requests red ⟨jobId, conn, [], []⟩ s).2.2 := by
  have hloop := requestLoop_network requests
    (P := fun _ left job u => job.Enlazado conn s (red.filterMap id) left u)
    (fun _ _ job u head _ _ h _ => h.addLocal .granted rfl rfl
      (fun t p hp => Or.inl (by rwa [cola_takeUnits] at hp)) rfl
      (fun e he => (List.mem_singleton.mp he).symm ▸ fun _ _ => Event.noConfusion))
    (fun _ _ job u head _ _ h _ _ => h.addLocal .queued rfl rfl
      (fun t p hp => by
        rw [cola_enqueue] at hp
        split at hp
        · next ht =>
          rw [ht]
          exact (List.mem_append.mp hp).imp id List.mem_singleton.mp
        · exact Or.inl hp) (List.append_nil _).symm (fun _ he => absurd he List.not_mem_nil))
    (fun _ _ job u head _ remote _ h hlookup => h.addSent hnuevas hlookup _)
    (fun _ _ job u head _ remote _ h _ _ => h.addConnecting _)
    [] red ⟨jobId, conn, [], []⟩ s
    ⟨rfl, rfl, fun _ _ => Or.inl, rfl, fun _ ha => absurd ha List.not_mem_nil,
      fun _ ho => absurd ho List.not_mem_nil, fun _ => Or.inl, List.Subset.refl _,
      fun c hc => List.mem_filterMap.mpr ⟨some c, hc, rfl⟩,
      fun c _ => (Nat.zero_add _).symm ▸ List.nodup_iff_count_le_one.mp hnodup c⟩
  rcases hloop with ⟨-, red', h⟩ | ⟨-, -, red', h⟩
  · exact ⟨red', h⟩
  · exact ⟨red', h⟩

/-! ## The job inserted -/

/-- The table has the jobs it had, and the new one if its bucket exists. -/
theorem TablaJobs.mem_jobs_insertar {t : TablaJobs} {job j : Job}
    (hj : j ∈ (tablaJobsInsertarJob t job).jobs) : j = job ∨ j ∈ t.jobs := by
  obtain ⟨hj, hlt⟩ := Buckets.mem_toList.mp hj
  have hj : j ∈ Function.update t.bucket (bucketOf job.jobId)
    (job :: t.bucket (bucketOf job.jobId)) (bucketOf j.jobId) := hj
  rw [Function.update_apply] at hj
  split at hj
  · next hbucket =>
    rcases List.mem_cons.mp hj with heq | hj
    · exact Or.inl heq
    · exact Or.inr (Buckets.mem_toList.mpr ⟨hbucket ▸ hj, hlt⟩)
  · exact Or.inr (Buckets.mem_toList.mpr ⟨hj, hlt⟩)

theorem esperadas_insertar (s : Manager) (job : Job) (conn : Conn) :
    (s.setTabla (tablaJobsInsertarJob s.tabla job)).esperadas.count conn
      ≤ (job.pendientes.map (·.conn)).count conn + s.esperadas.count conn := by
  unfold Manager.esperadas
  by_cases hlt : bucketOf job.jobId < TAM_TABLA_JOBS
  · have hperm : (tablaJobsInsertarJob s.tabla job).jobs.Perm (job :: s.jobs) :=
      Buckets.toList_cons_perm s.tabla (a := job) hlt
    show ((tablaJobsInsertarJob s.tabla job).jobs.flatMap _).count conn ≤ _
    rw [(hperm.flatMap_right _).count_eq, List.flatMap_cons, List.count_append]
  · have hsame : (tablaJobsInsertarJob s.tabla job).jobs = s.jobs := by
      unfold TablaJobs.jobs Buckets.toList
      refine List.flatMap_congr (fun i hi => ?_)
      show Function.update s.tabla.bucket (bucketOf job.jobId) _ i = s.tabla.bucket i
      rw [Function.update_of_ne (fun heq : i = bucketOf job.jobId =>
        hlt (heq ▸ List.mem_range.mp hi))]
    show ((tablaJobsInsertarJob s.tabla job).jobs.flatMap _).count conn ≤ _
    rw [hsame]
    exact Nat.le_add_left _ _

namespace Job.Enlazado

variable {conn c : Conn} {s u : Manager} {nuevas : List Conn} {red : Network} {job : Job}

/-- The queues of the new state. -/
theorem ownerConn (h : job.Enlazado conn s nuevas red u) (hne : conn ≠ c)
    (hcola : ∀ t, ∀ p ∈ s.cola t, p.ownerConn ≠ c) : ∀ t, ∀ p ∈ u.cola t, p.ownerConn ≠ c := by
  intro t p hp hconn
  rcases h.cola t p hp with hp | heq
  · exact hcola t p hp hconn
  · exact hne (heq.symm.trans hconn)

/-- Before the job is inserted, or after its rollback. -/
theorem sinReferencia (h : job.Enlazado conn s nuevas red u) (hs : s.SinReferencia c)
    (hne : conn ≠ c) : u.SinReferencia c := by
  have hjobs : u.jobs = s.jobs := congrArg TablaJobs.jobs h.tabla
  exact ⟨h.ownerConn hne hs.cola, hjobs ▸ hs.jobs, hjobs ▸ hs.confirmadas,
    hjobs ▸ hs.pendientes, h.conns ▸ hs.conns⟩

theorem enCurso (h : job.Enlazado conn s nuevas red u) (hs : s.EnCurso c) (hne : conn ≠ c) :
    u.EnCurso c := by
  have hjobs : u.jobs = s.jobs := congrArg TablaJobs.jobs h.tabla
  refine ⟨h.ownerConn hne hs.cola, hjobs ▸ hs.jobs, h.conns ▸ hs.conns, ?_⟩
  unfold Manager.esperadas
  rw [hjobs]
  exact hs.una

/-- **The new job refers to no connection that was free**, unless it created it. -/
theorem sinReferencia_insertJob (h : job.Enlazado conn s nuevas red u)
    (hs : s.SinReferencia c) (hne : conn ≠ c) (hfree : c ∈ nuevas → ¬u.Creada c)
    (requests : List ResourceRequest) : (insertJob job requests u).SinReferencia c := by
  have hu := h.sinReferencia hs hne
  have hmem : ∀ j ∈ (insertJob job requests u).jobs, j = job ∨ j ∈ u.jobs := fun j hj => by
    unfold Manager.jobs at hj
    rw [tabla_insertJob] at hj
    exact TablaJobs.mem_jobs_insertar hj
  refine ⟨fun t p hp => ?_, fun j hj => ?_, fun j hj a ha => ?_, fun j hj o ho => ?_,
    fun i e he => ?_⟩
  · rw [cola_insertJob] at hp
    exact hu.cola t p hp
  · rcases hmem j hj with rfl | hj
    · rw [h.duena]
      exact hne
    · exact hu.jobs j hj
  · rcases hmem j hj with rfl | hj
    · rw [(h.confirmadas a ha).2]
      exact hne
    · exact hu.confirmadas j hj a ha
  · rcases hmem j hj with rfl | hj
    · rintro rfl
      rcases h.pendientes o ho with ⟨i, e, he, heq⟩ | ⟨hnueva, hcreada⟩
      · exact hs.conns i e he heq
      · exact hfree hnueva hcreada
    · exact hu.pendientes j hj o ho
  · rw [conns_insertJob] at he
    exact hu.conns i e he

/-- **A connection that is not up** awaits at most one request, also of the new job. -/
theorem enCurso_insertJob (h : job.Enlazado conn s nuevas red u) (hs : s.EnCurso c)
    (hne : conn ≠ c) (hnueva : c ∈ nuevas → s.SinReferencia c)
    (requests : List ResourceRequest) : (insertJob job requests u).EnCurso c := by
  have hu := h.enCurso hs hne
  have hcount : (insertJob job requests u).esperadas.count c
      ≤ (job.pendientes.map (·.conn)).count c + u.esperadas.count c := by
    have hle := esperadas_insertar u job c
    unfold Manager.esperadas Manager.jobs at hle ⊢
    rw [tabla_insertJob]
    exact hle
  refine ⟨fun t p hp => ?_, fun j hj => ?_, fun i e he => ?_, hcount.trans ?_⟩
  · rw [cola_insertJob] at hp
    exact hu.cola t p hp
  · unfold Manager.jobs at hj
    rw [tabla_insertJob] at hj
    rcases TablaJobs.mem_jobs_insertar hj with rfl | hj
    · rw [h.duena]
      exact hne
    · exact hu.jobs j hj
  · rw [conns_insertJob] at he
    exact hu.conns i e he
  · by_cases hc : c ∈ nuevas
    · -- created by this line: nothing waited for it before
      have hzero : u.esperadas.count c = 0 := by
        refine List.count_eq_zero_of_not_mem (fun hmem => ?_)
        obtain ⟨j, hj, hmem⟩ := List.mem_flatMap.mp hmem
        obtain ⟨o, ho, heq⟩ := List.mem_map.mp hmem
        exact (h.sinReferencia (hnueva hc) hne).pendientes j hj o ho heq
      have huna := h.una c hc
      omega
    · have hzero : (job.pendientes.map (·.conn)).count c = 0 := by
        refine List.count_eq_zero_of_not_mem (fun hmem => ?_)
        obtain ⟨o, ho, rfl⟩ := List.mem_map.mp hmem
        rcases h.pendientes o ho with ⟨i, e, he, heq⟩ | ⟨hnueva', -⟩
        · exact hs.conns i e he heq
        · exact hc hnueva'
      rw [hzero, Nat.zero_add]
      exact hu.una

end Job.Enlazado

/-- **What a `JOB_REQUEST` refers to**: `nuevas` are the connections the network has to
give. -/
structure Manager.Pide (conn : Conn) (nuevas : List Conn) (s v : Manager) : Prop where
  sinReferencia : ∀ c, conn ≠ c → s.SinReferencia c → (c ∈ nuevas → ¬v.Creada c) →
    v.SinReferencia c
  enCurso : ∀ c, conn ≠ c → s.EnCurso c → (c ∈ nuevas → s.SinReferencia c) → v.EnCurso c
  propias : s.tabla.Forall Job.Propias → v.tabla.Forall Job.Propias
  conns : v.conns = s.conns
  creadas : ∀ c, v.Creada c → s.Creada c ∨ c ∈ nuevas
  persiste : ∀ c, s.Creada c → v.Creada c

theorem Manager.Sigue.creada {s s' : Manager} {conn? : Option Conn} (h : s.Sigue conn? s')
    (conn : Conn) : s'.Creada conn ↔ s.Creada conn := by
  obtain ⟨es, hlog, hes⟩ := h.log
  constructor
  · refine Manager.creada_append hlog (fun e he ip c heq => ?_)
    rw [heq] at he
    exact Bool.false_ne_true (hes _ he)
  · exact Manager.Creada.mono (hlog ▸ List.subset_append_left _ _)

theorem creada_insertJob {u : Manager} {job : Job} {requests : List ResourceRequest} {c : Conn} :
    (insertJob job requests u).Creada c ↔ u.Creada c := by
  obtain ⟨es, hlog, hes⟩ := log_insertJob_append job requests u
  rw [List.append_assoc] at hlog
  constructor
  · refine Manager.creada_append hlog (fun e he ip c heq => ?_)
    rcases List.mem_append.mp he with he | he
    · exact nomatch heq.symm.trans (List.mem_singleton.mp he)
    · rw [heq] at he
      exact Bool.false_ne_true (hes _ he)
  · exact Manager.Creada.mono (hlog ▸ List.subset_append_left _ _)

/-- **`JOB_REQUEST`.** -/
theorem pide_processJobRequest {s : Manager} {red : Network} (hnodup : (red.filterMap id).Nodup)
    (hnuevas : ∀ c ∈ red.filterMap id, s.SinReferencia c) (conn : Conn) (jobId : Int32)
    (requests : List ResourceRequest) :
    s.Pide conn (red.filterMap id) (processJobRequest conn jobId requests red s) := by
  obtain ⟨red', h⟩ := enlazado_requestLoop hnodup (fun c hc => (hnuevas c hc).conns) requests
    jobId conn
  rcases processJobRequest_cases conn jobId requests red s with
    ⟨_, -, heq⟩ | ⟨-, -, heq⟩ | ⟨-, -, heq⟩
  · rw [heq]
    exact ⟨fun _ _ hs _ => hs, fun _ _ hs _ => hs, id, rfl, fun _ => Or.inl, fun _ => id⟩
  all_goals
    rw [heq]
    generalize (requestLoop requests red ⟨jobId, conn, [], []⟩ s).2.2 = u at h ⊢
    generalize (requestLoop requests red ⟨jobId, conn, [], []⟩ s).2.1 = job at h ⊢
  · refine ⟨fun c hne hs hfree => ?_, fun c hne hs hnueva => ?_, fun hs => ?_, ?_, fun c hc => ?_,
      fun c hc => ?_⟩
    · exact h.sinReferencia_insertJob hs hne (fun hc hcreada =>
        hfree hc (creada_insertJob.mpr hcreada)) requests
    · exact h.enCurso_insertJob hs hne hnueva requests
    · rw [tabla_insertJob]
      refine Buckets.Forall.cons (h.tabla ▸ hs) (fun a ha _ => ?_)
      rw [h.duena]
      exact (h.confirmadas a ha).2
    · rw [conns_insertJob]
      exact h.conns
    · exact h.creadas c (creada_insertJob.mp hc)
    · exact creada_insertJob.mpr (hc.mono h.log)
  · have hsigue := Manager.Sigue.rollbackJob job u
    refine ⟨fun c hne hs _ => ?_, fun c hne hs _ => ?_, fun hs i j hj => ?_, ?_, fun c hc => ?_,
      fun c hc => ?_⟩
    · exact (h.sinReferencia hs hne).sigue hsigue (Option.some_ne_none c).symm
    · exact (h.enCurso hs hne).sigue hsigue (Option.some_ne_none c).symm
    · obtain ⟨k, hk, hjk⟩ := hsigue.tabla.exists_of_mem hj
      rw [h.tabla] at hk
      exact (hs i k hk).sigue hjk
    · have hconns := (Manager.Sirve.freeAllocations job.jobId job.confirmadas
        (limpiarColasPorId job.jobId u)).conns
      exact hconns.trans h.conns
    · exact h.creadas c ((hsigue.creada c).mp hc)
    · exact (hsigue.creada c).mpr (hc.mono h.log)

/-! ## Runs -/

/-- **The agent and the network layer**: what became of each connection. -/
structure Enlaces where
  manager : Manager
  /-- Accepted by the server. -/
  aceptadas : List Conn
  /-- Created by `connect_remote_node`, and up. -/
  listas : List Conn
  /-- Freed, after `process_disconnect` or `process_connection_failed`. -/
  cerradas : List Conn

/-- What the network layer does. -/
inductive Suceso
  | accept (conn : Conn)
  | call (call : Call)

namespace Enlaces

/-- The state before any connection. -/
def inicio (s : Manager) : Enlaces := ⟨s, [], [], []⟩

/-- A connection accepted, or a call of the resource manager. -/
def step (x : Enlaces) : Suceso → Option Enlaces
  | .accept conn => some { x with aceptadas := conn :: x.aceptadas }
  | .call call => some
      { manager := call.run x.manager
        aceptadas := x.aceptadas
        listas := match call with
          | .ready conn => conn :: x.listas
          | _ => x.listas
        cerradas := match call with
          | .failed conn | .disconnect conn => conn :: x.cerradas
          | _ => x.cerradas }

/-- The identity has been used. -/
def Conocida (x : Enlaces) (conn : Conn) : Prop :=
  conn ∈ x.aceptadas ∨ x.manager.Creada conn ∨ conn ∈ x.cerradas

/-- **What the network layer keeps to**: identities are fresh; lines arrive on
connections that are up and not freed; a created connection comes up at most once, and
fails only if it did not. -/
def Legal (x : Enlaces) : Suceso → Prop
  | .accept conn => ¬x.Conocida conn
  | .call (.message conn _ red) => (conn ∈ x.aceptadas ∨ conn ∈ x.listas) ∧ conn ∉ x.cerradas
      ∧ (red.filterMap id).Nodup ∧ ∀ c ∈ red.filterMap id, ¬x.Conocida c
  | .call (.ready conn) | .call (.failed conn) => x.manager.Creada conn ∧ conn ∉ x.listas
  | .call _ => True

/-- **The invariant.** -/
structure Sanos (x : Enlaces) : Prop where
  /-- Nothing refers to a connection that is freed or not there yet. -/
  libres : ∀ c, ¬x.Conocida c ∨ c ∈ x.cerradas → x.manager.SinReferencia c
  enCurso : ∀ c, x.manager.Creada c → c ∉ x.listas → x.manager.EnCurso c
  propias : x.manager.tabla.Forall Job.Propias
  /-- A bucket has one entry for a connection. -/
  unica : ∀ i, ((x.manager.conns.buckets i).map (·.conn)).Nodup
  fuera : ∀ i, TAM_TABLA_CONN ≤ i → x.manager.conns.buckets i = []
  aceptadas : ∀ c ∈ x.aceptadas, ¬x.manager.Creada c
  listas : ∀ c ∈ x.listas, x.manager.Creada c

namespace Sanos

variable {x : Enlaces}

/-- A connection that lines arrive on is neither free nor on its way. -/
theorem viva (h : x.Sanos) {conn : Conn} (hup : conn ∈ x.aceptadas ∨ conn ∈ x.listas)
    (hopen : conn ∉ x.cerradas) :
    (∀ c, ¬x.Conocida c ∨ c ∈ x.cerradas → conn ≠ c)
      ∧ ∀ c, x.manager.Creada c → c ∉ x.listas → conn ≠ c := by
  constructor
  · rintro c (hnew | hclosed) rfl
    · rcases hup with hup | hup
      · exact hnew (Or.inl hup)
      · exact hnew (Or.inr (Or.inl (h.listas conn hup)))
    · exact hopen hclosed
  · rintro c hcreada hnot rfl
    rcases hup with hup | hup
    · exact h.aceptadas conn hup hcreada
    · exact hnot hup

/-- **A call that only lets go.** -/
theorem sigue (h : x.Sanos) {conn? : Option Conn} {s' : Manager} (hs : x.manager.Sigue conn? s')
    (hlegal : ∀ conn, conn? = some conn →
      (conn ∈ x.aceptadas ∨ conn ∈ x.listas) ∧ conn ∉ x.cerradas) :
    Sanos { x with manager := s' } := by
  have hconocida : ∀ c, Conocida { x with manager := s' } c ↔ x.Conocida c := fun c => by
    unfold Conocida
    rw [hs.creada c]
  have hviva : ∀ conn, conn? = some conn → _ := fun conn heq =>
    h.viva (hlegal conn heq).1 (hlegal conn heq).2
  refine ⟨fun c hc => ?_, fun c hc hnot => ?_, fun i j' hj' => ?_, fun i => ?_, fun i hi => ?_,
    fun c hc hcreada => h.aceptadas c hc ((hs.creada c).mp hcreada),
    fun c hc => (hs.creada c).mpr (h.listas c hc)⟩
  · rw [hconocida c] at hc
    exact (h.libres c hc).sigue hs (fun heq => (hviva c heq).1 c hc rfl)
  · have hc := (hs.creada c).mp hc
    exact (h.enCurso c hc hnot).sigue hs (fun heq => (hviva c heq).2 c hc hnot rfl)
  · obtain ⟨j, hj, hjj'⟩ := hs.tabla.exists_of_mem hj'
    exact (h.propias i j hj).sigue hjj'
  · exact (h.unica i).sublist ((hs.conns i).map _)
  · exact List.sublist_nil.mp (h.fuera i hi ▸ hs.conns i)

/-- A connection that nothing refers to is freed. -/
theorem cerrar (h : x.Sanos) {conn : Conn} (hfree : x.manager.SinReferencia conn) :
    Sanos { x with cerradas := conn :: x.cerradas } := by
  refine ⟨fun c hc => ?_, h.enCurso, h.propias, h.unica, h.fuera, h.aceptadas, h.listas⟩
  rcases hc with hnew | hclosed
  · exact h.libres c (Or.inl (fun hknown => hnew (hknown.imp id (.imp id
      (List.mem_cons_of_mem conn)))))
  · rcases List.mem_cons.mp hclosed with rfl | hclosed
    · exact hfree
    · exact h.libres c (Or.inr hclosed)

/-- **A connection comes up.** -/
theorem ready (h : x.Sanos) {conn : Conn} (hcreada : x.manager.Creada conn)
    (hnot : conn ∉ x.listas) :
    Sanos { x with manager := processConnectionReady conn x.manager
                   listas := conn :: x.listas } := by
  have hcurso := h.enCurso conn hcreada hnot
  obtain ⟨conns, heq⟩ := processConnectionReady_eq x.manager conn
  have hlog : (processConnectionReady conn x.manager).log = x.manager.log
      ++ (tablaJobsGetPendientesByConn x.manager.tabla conn).map
        (fun req => .tx conn (req.msg.getD .garbage)) := by
    rw [heq]
  have hiff : ∀ c, (processConnectionReady conn x.manager).Creada c ↔ x.manager.Creada c := by
    refine fun c => ⟨Manager.creada_append hlog (fun e he ip c heq => ?_),
      Manager.Creada.mono (hlog ▸ List.subset_append_left _ _)⟩
    obtain ⟨req, -, rfl⟩ := List.mem_map.mp he
    exact nomatch heq
  have hcola : ∀ t, (processConnectionReady conn x.manager).cola t = x.manager.cola t :=
    fun t => by rw [heq]; rfl
  have htabla : (processConnectionReady conn x.manager).tabla = x.manager.tabla := by rw [heq]
  have hjobs : (processConnectionReady conn x.manager).jobs = x.manager.jobs :=
    congrArg TablaJobs.jobs htabla
  -- the entries of the table of connections
  have hentries : ∀ i, ∀ e ∈ (processConnectionReady conn x.manager).conns.buckets i,
      e ∈ x.manager.conns.buckets i ∨ (e.conn = conn ∧ conn ∈ x.manager.esperadas) := by
    intro i e he
    rcases conns_of_enCurso hcurso with hsame | ⟨hmem, ip, hinsert⟩
    · rw [hsame] at he
      exact Or.inl he
    · rw [hinsert] at he
      have he : e ∈ Function.update x.manager.conns.buckets (hashIp ip)
        (⟨copyTo 16 ip, conn⟩ :: x.manager.conns.buckets (hashIp ip)) i := he
      rw [Function.update_apply] at he
      split at he
      · next hi =>
        rcases List.mem_cons.mp he with rfl | he
        · exact Or.inr ⟨rfl, hmem⟩
        · exact Or.inl (hi ▸ he)
      · exact Or.inl he
  refine ⟨fun c hc => ?_, fun c hc hmem => ?_, htabla ▸ h.propias, fun i => ?_, fun i hi => ?_,
    fun c hc hcreada' => h.aceptadas c hc ((hiff c).mp hcreada'), fun c hc => ?_⟩
  · have hc : ¬x.Conocida c ∨ c ∈ x.cerradas :=
      hc.imp (fun hnew hknown => hnew (hknown.imp id (.imp (hiff c).mpr id))) id
    have hs := h.libres c hc
    refine ⟨fun t => hcola t ▸ hs.cola t, hjobs ▸ hs.jobs, hjobs ▸ hs.confirmadas,
      hjobs ▸ hs.pendientes, fun i e he => ?_⟩
    rcases hentries i e he with he | ⟨rfl, hmem⟩
    · exact hs.conns i e he
    · rintro rfl
      obtain ⟨j, hj, hmem⟩ := List.mem_flatMap.mp hmem
      obtain ⟨o, ho, hconn⟩ := List.mem_map.mp hmem
      exact hs.pendientes j hj o ho hconn
  · obtain ⟨hne, hmem⟩ := not_or.mp (fun hor => hmem (List.mem_cons.mpr hor))
    have hs := h.enCurso c ((hiff c).mp hc) hmem
    refine ⟨fun t => hcola t ▸ hs.cola t, hjobs ▸ hs.jobs, fun i e he => ?_, ?_⟩
    · rcases hentries i e he with he | ⟨rfl, -⟩
      · exact hs.conns i e he
      · exact Ne.symm hne
    · unfold Manager.esperadas
      rw [hjobs]
      exact hs.una
  · rcases conns_of_enCurso hcurso with hsame | ⟨-, ip, hinsert⟩
    · rw [hsame]
      exact h.unica i
    · show (((processConnectionReady conn x.manager).conns.buckets i).map (·.conn)).Nodup
      rw [hinsert]
      show ((Function.update x.manager.conns.buckets (hashIp ip) _ i).map (·.conn)).Nodup
      rw [Function.update_apply]
      split
      · rw [List.map_cons, List.nodup_cons]
        refine ⟨fun hmem => ?_, h.unica _⟩
        obtain ⟨e, he, hconn⟩ := List.mem_map.mp hmem
        exact hcurso.conns _ e he hconn
      · exact h.unica i
  · rcases conns_of_enCurso hcurso with hsame | ⟨-, ip, hinsert⟩
    · rw [hsame]
      exact h.fuera i hi
    · show (processConnectionReady conn x.manager).conns.buckets i = []
      rw [hinsert]
      show Function.update x.manager.conns.buckets (hashIp ip) _ i = []
      rw [Function.update_of_ne (fun heq : i = hashIp ip =>
        absurd (heq ▸ hashIp_lt ip) (Nat.not_lt_of_le hi))]
      exact h.fuera i hi
  · rcases List.mem_cons.mp hc with rfl | hc
    · exact (hiff _).mpr hcreada
    · exact (hiff c).mpr (h.listas c hc)

/-- **A `JOB_REQUEST`.** -/
theorem pide (h : x.Sanos) {conn : Conn} (hup : conn ∈ x.aceptadas ∨ conn ∈ x.listas)
    (hopen : conn ∉ x.cerradas) {nuevas : List Conn} (hfresh : ∀ c ∈ nuevas, ¬x.Conocida c)
    {v : Manager} (hv : x.manager.Pide conn nuevas v) : Sanos { x with manager := v } := by
  obtain ⟨hlibre, hcurso⟩ := h.viva hup hopen
  refine ⟨fun c hc => ?_, fun c hc hnot => ?_, hv.propias h.propias, fun i => ?_, fun i hi => ?_,
    fun c hc hcreada => ?_, fun c hc => hv.persiste c (h.listas c hc)⟩
  · have hbefore : ¬x.Conocida c ∨ c ∈ x.cerradas :=
      hc.imp (fun hnew hknown => hnew (hknown.imp id (.imp (hv.persiste c) id))) id
    refine hv.sinReferencia c (hlibre c hbefore) (h.libres c hbefore) (fun hmem hcreada => ?_)
    rcases hc with hnew | hclosed
    · exact hnew (Or.inr (Or.inl hcreada))
    · exact hfresh c hmem (Or.inr (Or.inr hclosed))
  · by_cases hmem : c ∈ nuevas
    · have hfree := h.libres c (Or.inl (hfresh c hmem))
      exact hv.enCurso c (hlibre c (Or.inl (hfresh c hmem))) hfree.enCurso (fun _ => hfree)
    · rcases hv.creadas c hc with hc | hc
      · exact hv.enCurso c (hcurso c hc hnot) (h.enCurso c hc hnot) (fun hc => absurd hc hmem)
      · exact absurd hc hmem
  · show ((v.conns.buckets i).map (·.conn)).Nodup
    rw [hv.conns]
    exact h.unica i
  · show v.conns.buckets i = []
    rw [hv.conns]
    exact h.fuera i hi
  · rcases hv.creadas c hcreada with hold | hnew
    · exact h.aceptadas c hc hold
    · exact hfresh c hnew (Or.inl hc)

end Sanos

/-- **Every step keeps the invariant.** -/
theorem Sanos.step {x y : Enlaces} (h : x.Sanos) {suceso : Suceso} (hlegal : x.Legal suceso)
    (hstep : x.step suceso = some y) : y.Sanos := by
  cases suceso with
  | accept conn =>
    obtain rfl := Option.some.inj hstep
    refine ⟨fun c hc => h.libres c (hc.imp (fun hnew hknown =>
        hnew (hknown.imp (List.mem_cons_of_mem conn) id)) id),
      h.enCurso, h.propias, h.unica, h.fuera, fun c hc hcreada => ?_, h.listas⟩
    rcases List.mem_cons.mp hc with rfl | hc
    · exact hlegal (Or.inr (Or.inl hcreada))
    · exact h.aceptadas c hc hcreada
  | call call =>
    obtain rfl := Option.some.inj hstep
    rcases call.sigue x.manager with
      hsigue | ⟨conn, rfl⟩ | ⟨conn, msg, red, jobId, requests, rfl, hparse⟩
    · cases call with
      | message conn msg red =>
        refine h.sigue hsigue (fun c hc => ?_)
        obtain rfl := Option.some.inj hc
        exact ⟨hlegal.1, hlegal.2.1⟩
      | ready conn => exact h.ready hlegal.1 hlegal.2
      | failed conn =>
        have hafter := h.sigue hsigue (fun _ hc => nomatch hc)
        exact hafter.cerrar (sinReferencia_processConnectionFailed h.propias
          (h.enCurso conn hlegal.1 hlegal.2))
      | disconnect conn =>
        have hafter := h.sigue hsigue (fun _ hc => nomatch hc)
        exact hafter.cerrar (sinReferencia_processDisconnect h.propias h.unica h.fuera)
      | announce now ipSender msg => exact h.sigue hsigue (fun _ hc => nomatch hc)
      | purge now timeout => exact h.sigue hsigue (fun _ hc => nomatch hc)
    · exact h.ready hlegal.1 hlegal.2
    · obtain ⟨hup, hopen, hnodup, hfresh⟩ := hlegal
      have hrx : x.manager.Sigue none (x.manager.emit (.rx conn (.jobRequest jobId requests))) :=
        (Manager.Sigue.refl none x.manager).emit rfl
      have hx := h.sigue hrx (fun _ hc => nomatch hc)
      have hfresh : ∀ c ∈ red.filterMap id,
          ¬Conocida { x with
            manager := x.manager.emit (.rx conn (.jobRequest jobId requests)) } c :=
        fun c hc hknown => hfresh c hc (hknown.imp id (.imp (hrx.creada c).mp id))
      have hpide := hx.pide hup hopen hfresh (pide_processJobRequest hnodup
        (fun c hc => hx.libres c (Or.inl (hfresh c hc))) conn jobId requests)
      have heq : (Call.message conn msg red).run x.manager
          = processJobRequest conn jobId requests red
            (x.manager.emit (.rx conn (.jobRequest jobId requests))) := by
        show processMessage conn msg red x.manager = _
        unfold processMessage
        rw [hparse]
        rfl
      rw [heq]
      exact hpide

/-- **No dangling connection.** In every state of every run, nothing refers to a
connection that was freed: no queue entry, job, allocation, pending request or entry of
the table of connections. -/
theorem no_dangling {cpu mem gpu : Int32} {ip : CString} {x : Enlaces}
    (hrun : Reaches step Legal (inicio (managerInit cpu mem gpu ip)) x) {conn : Conn}
    (hclosed : conn ∈ x.cerradas) : x.manager.SinReferencia conn := by
  have hinit : (inicio (managerInit cpu mem gpu ip)).Sanos := by
    have hcola : ∀ t, (managerInit cpu mem gpu ip).cola t = [] := fun t => by cases t <;> rfl
    have hjobs : (managerInit cpu mem gpu ip).jobs = [] := TablaJobs.jobs_init
    have hcreada : ∀ c, ¬(managerInit cpu mem gpu ip).Creada c :=
      fun c ⟨_, hmem⟩ => List.not_mem_nil hmem
    refine ⟨fun c _ => ⟨fun t p hp => ?_, fun j hj => ?_, fun j hj => ?_, fun j hj => ?_,
        fun i e he => absurd he List.not_mem_nil⟩, fun c hc => absurd hc (hcreada c),
      fun i j hj => absurd hj List.not_mem_nil, fun i => List.nodup_nil, fun i _ => rfl,
      fun c hc => absurd hc List.not_mem_nil, fun c hc => absurd hc List.not_mem_nil⟩
    · exact absurd (hcola t ▸ hp) List.not_mem_nil
    all_goals exact absurd (hjobs ▸ hj) List.not_mem_nil
  have hinv := hrun.invariant hinit (fun _ _ _ hu hlegal hstep => hu.step hlegal hstep)
  exact hinv.libres conn (Or.inr hclosed)

/-- `Creada` as a test. -/
def creadaTest (s : Manager) (conn : Conn) : Bool :=
  s.log.any (fun e => match e with
    | .connecting _ c => c == conn
    | _ => false)

theorem creada_iff (s : Manager) (conn : Conn) : s.Creada conn ↔ creadaTest s conn = true := by
  unfold Manager.Creada creadaTest
  rw [List.any_eq_true]
  constructor
  · rintro ⟨ip, hmem⟩
    exact ⟨_, hmem, beq_self_eq_true conn⟩
  · rintro ⟨e, hmem, he⟩
    cases e with
    | connecting ip c => exact ⟨ip, eq_of_beq he ▸ hmem⟩
    | _ => exact absurd he Bool.false_ne_true

instance (s : Manager) (conn : Conn) : Decidable (s.Creada conn) :=
  decidable_of_iff _ (creada_iff s conn).symm

instance (x : Enlaces) (conn : Conn) : Decidable (x.Conocida conn) :=
  inferInstanceAs (Decidable (_ ∨ _ ∨ _))

instance (x : Enlaces) : (suceso : Suceso) → Decidable (x.Legal suceso)
  | .accept _ => inferInstanceAs (Decidable (¬_))
  | .call (.message ..) => inferInstanceAs (Decidable ((_ ∨ _) ∧ _ ∧ _ ∧ ∀ c ∈ _, ¬_))
  | .call (.ready _) => inferInstanceAs (Decidable (_ ∧ _))
  | .call (.failed _) => inferInstanceAs (Decidable (_ ∧ _))
  | .call (.disconnect _) => .isTrue trivial
  | .call (.announce ..) => .isTrue trivial
  | .call (.purge ..) => .isTrue trivial

/-- A peer that granted a unit is lost, and another connection never comes up. -/
theorem no_dangling_peer :
    ∃ x, Reaches.trace step (inicio (managerInit 4 8 1 ['A']))
        [.accept 1, .call (.announce 0 ['B'] "ANNOUNCE 9000 cpu:4 mem:8 gpu:1".toList),
         .call (.announce 0 ['C'] "ANNOUNCE 9000 cpu:4 mem:8 gpu:1".toList),
         .call (.message 1 "JOB_REQUEST 1 @A:cpu:1 @B:cpu:1".toList [some 7]),
         .call (.ready 7), .call (.message 7 "GRANTED 1".toList []),
         .call (.message 1 "JOB_REQUEST 2 @B:mem:1 @C:cpu:1".toList [some 8]),
         .call (.failed 8), .call (.disconnect 7)] = some x
      ∧ x.cerradas = [7, 8] ∧ x.manager.SinReferencia 7 ∧ x.manager.SinReferencia 8 := by
  have hcheck : (Reaches.checked step (fun x suceso => decide (x.Legal suceso))
      (inicio (managerInit 4 8 1 ['A']))
      [.accept 1, .call (.announce 0 ['B'] "ANNOUNCE 9000 cpu:4 mem:8 gpu:1".toList),
       .call (.announce 0 ['C'] "ANNOUNCE 9000 cpu:4 mem:8 gpu:1".toList),
       .call (.message 1 "JOB_REQUEST 1 @A:cpu:1 @B:cpu:1".toList [some 7]),
       .call (.ready 7), .call (.message 7 "GRANTED 1".toList []),
       .call (.message 1 "JOB_REQUEST 2 @B:mem:1 @C:cpu:1".toList [some 8]),
       .call (.failed 8), .call (.disconnect 7)]).any (fun x =>
        decide (x.cerradas = [7, 8])) = true := by
    decide +kernel
  obtain ⟨x, htrace, hrun, hx⟩ := Reaches.of_checked (fun _ _ => of_decide_eq_true) hcheck
  have hclosed := of_decide_eq_true hx
  refine ⟨x, htrace, hclosed, no_dangling hrun (hclosed ▸ ?_), no_dangling hrun (hclosed ▸ ?_)⟩
  · exact List.mem_cons_self
  · exact List.mem_cons_of_mem 7 List.mem_cons_self

end Enlaces

end Hpc
