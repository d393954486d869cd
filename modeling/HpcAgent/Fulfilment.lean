import HpcAgent.Completion

/-!
# A granted job holds what it asked for

A job of the table lists what it holds or waits for here (`confirmadas`), what
other nodes granted it (the remote part of `confirmadas`) and what they have
not answered (`pendientes`). Read as a multiset of place, resource and amount,
the two lists together are the requests of the job's `JOB_REQUEST`: a dequeue
only marks an allocation, a `GRANTED` moves a request from one list to the
other, whatever the order. When the owner of a complete job is told, nothing is
pending, so the job holds all of it (`Cumplido`).

The exception is the loss of a connection: `tabla_jobs_extract_by_remote_conn`
unlinks the remote allocations on it from every job, and leaves in the table
the jobs that are owned elsewhere and still have something. If such a job is
not complete yet, it may become so without what was unlinked.
`SinDespojo` says that no loss meets such a job.
-/

namespace Hpc

/-! ## The multiset of what a job asks for -/

/-- Place, resource and amount. -/
abbrev Clave := AllocType × Resource × Int32

/-- A request, seen from the node with that address. -/
def ResourceRequest.clave (ip : CString) (r : ResourceRequest) : Clave :=
  (if r.ip = ip then .localAlloc else .remoteAlloc, r.type, r.amount)

/-- An allocation. -/
def Allocation.clave (a : Allocation) : Clave := (a.type, a.name, a.amount)

/-- A request another node has not answered. -/
def OutRequest.clave (o : OutRequest) : Clave := (.remoteAlloc, o.tipo, o.amount)

/-- What the requests of a `JOB_REQUEST` ask for. -/
def pedidos (ip : CString) (requests : List ResourceRequest) : Multiset Clave :=
  ↑(requests.map (ResourceRequest.clave ip))

/-- What a job holds or waits for. -/
def Job.claves (j : Job) : Multiset Clave :=
  ↑(j.confirmadas.map Allocation.clave) + ↑(j.pendientes.map OutRequest.clave)

/-- No local allocation of the job was denied. -/
def Job.NoDenied (j : Job) : Prop :=
  ∀ a ∈ j.confirmadas, a.type = .localAlloc → a.result ≠ .denied

@[simp] theorem pedidos_cons (ip : CString) (r : ResourceRequest) (l : List ResourceRequest) :
    pedidos ip (r :: l) = r.clave ip ::ₘ pedidos ip l := rfl

theorem claves_markGranted (j : Job) (conn : Conn) (tipo : Resource) :
    (j.markGranted conn tipo).claves = j.claves := by
  refine congrArg (fun l : List Clave => (↑l : Multiset Clave) + _) ?_
  exact List.map_modifyFirst_of_eq (f := fun a : Allocation => { a with result := .granted })
    Allocation.clave (fun _ _ => rfl) j.confirmadas

/-- **A confirmation moves a request**, it loses none. -/
theorem claves_jobConfirmar (j : Job) (ip : CString) (jobId : Int32) :
    (jobConfirmar j ip jobId).2.claves = j.claves := by
  unfold jobConfirmar
  cases hfind : j.pendientes.find? (fun sal => sal.ip == ip) with
  | none => rfl
  | some sal =>
    obtain ⟨l₁, l₂, hl, -, -, herase, -⟩ := List.find?_split hfind
    have hclave : (crearAllocation sal.tipo sal.amount .remoteAlloc sal.ip jobId .granted
        sal.conn).clave = sal.clave := rfl
    unfold Job.claves
    dsimp only
    rw [herase, hl, List.map_cons, hclave, List.map_append, List.map_append, List.map_cons,
      ← Multiset.cons_coe, ← Multiset.coe_add, ← Multiset.coe_add, ← Multiset.cons_coe,
      Multiset.cons_add, Multiset.add_cons, Multiset.add_cons]

theorem claves_addLocal (job : Job) (head : ResourceRequest) (ip : CString) (r : Result)
    (hip : head.ip = ip) :
    (job.addLocal head ip r).claves = head.clave ip ::ₘ job.claves := by
  unfold Job.claves Job.addLocal ResourceRequest.clave
  rw [if_pos hip, List.map_cons, ← Multiset.cons_coe, Multiset.cons_add]
  rfl

theorem claves_addRemote (job : Job) (head : ResourceRequest) (ip : CString) (conn : Conn)
    (msg : Option Message) (hip : head.ip ≠ ip) :
    (job.addRemote head conn msg).claves = head.clave ip ::ₘ job.claves := by
  unfold Job.claves Job.addRemote ResourceRequest.clave
  rw [if_neg hip, List.map_cons, ← Multiset.cons_coe, Multiset.add_cons]
  rfl

theorem Job.NoDenied.markGranted {j : Job} (h : j.NoDenied) (conn : Conn) (tipo : Resource) :
    (j.markGranted conn tipo).NoDenied := by
  intro a ha hlocal
  rcases List.mem_of_mem_modifyFirst ha with ha | ⟨b, -, -, rfl⟩
  · exact h a ha hlocal
  · exact Result.noConfusion

theorem Job.NoDenied.confirmar {j : Job} (h : j.NoDenied) (ip : CString) (jobId : Int32) :
    (jobConfirmar j ip jobId).2.NoDenied := by
  unfold jobConfirmar
  split
  · exact h
  · intro a ha hlocal
    rcases List.mem_cons.mp ha with rfl | ha
    · exact Result.noConfusion
    · exact h a ha hlocal

theorem Job.NoDenied.addLocal {job : Job} (h : job.NoDenied) (head : ResourceRequest)
    (ip : CString) {r : Result} (hr : r ≠ .denied) : (job.addLocal head ip r).NoDenied := by
  intro a ha hlocal
  rcases List.mem_cons.mp ha with rfl | ha
  · exact hr
  · exact h a ha hlocal

/-- A job that waits for no more after a dequeue may have waited before, not the
other way around. -/
theorem Job.complete_markGranted {j : Job} (h : j.complete = true) (conn : Conn)
    (tipo : Resource) : (j.markGranted conn tipo).complete = true := by
  obtain ⟨hwait, hpend⟩ := Job.complete_iff.mp h
  refine Job.complete_iff.mpr ⟨fun t => ?_, hpend⟩
  have hnone := List.countP_eq_zero.mp (hwait t)
  refine List.countP_eq_zero.mpr (fun a ha => ?_)
  rcases List.mem_of_mem_modifyFirst ha with ha | ⟨b, -, -, rfl⟩
  · exact hnone a ha
  · simp [Allocation.waiting]

/-- **A complete job holds all of it, here and elsewhere.** -/
theorem Job.confirmadas_of_complete {j : Job} (hcomplete : j.complete = true)
    (hdenied : j.NoDenied) :
    ↑(j.confirmadas.map Allocation.clave) = j.claves
      ∧ ∀ a ∈ j.confirmadas, a.type = .localAlloc → a.result = .granted := by
  obtain ⟨hwait, hpend⟩ := Job.complete_iff.mp hcomplete
  refine ⟨?_, fun a ha hlocal => ?_⟩
  · unfold Job.claves
    rw [hpend]
    simp
  · have hnone := List.countP_eq_zero.mp (hwait a.name) a ha
    have hnot := hdenied a ha hlocal
    cases hr : a.result with
    | granted => rfl
    | denied => exact absurd hr hnot
    | queued => exact absurd (by simp [Allocation.waiting, hlocal, hr]) hnone

/-! ## What the log says about it -/

/-- The requests a job was last inserted with. -/
def pedidoStep (jobId : Int32) (pedido : Option (List ResourceRequest)) :
    Event → Option (List ResourceRequest)
  | .inserted job requests => if job.jobId = jobId then some requests else pedido
  | _ => pedido

/-- The requests of the `JOB_REQUEST` a job was last inserted for. -/
def pedido (jobId : Int32) (log : List Event) : Option (List ResourceRequest) :=
  log.foldl (pedidoStep jobId) none

theorem pedido_concat (jobId : Int32) (log : List Event) (e : Event) :
    pedido jobId (log ++ [e]) = pedidoStep jobId (pedido jobId log) e := by
  unfold pedido
  rw [List.foldl_append]
  rfl

theorem pedido_append_of_quiet {es : List Event} (hes : ∀ e ∈ es, e.quiet = true)
    (jobId : Int32) (log : List Event) : pedido jobId (log ++ es) = pedido jobId log := by
  induction es generalizing log with
  | nil => rw [List.append_nil]
  | cons e es ih =>
    rw [List.append_cons, ih (fun e he => hes e (List.mem_cons_of_mem _ he)), pedido_concat]
    have he := hes e List.mem_cons_self
    cases e with
    | inserted job requests => exact absurd he Bool.false_ne_true
    | _ => rfl

theorem pedido_told (jobId : Int32) (conn : Conn) (job : Job) (log : List Event) :
    pedido jobId (log ++ job.told conn) = pedido jobId log := by
  unfold Job.told
  split
  · rw [List.append_cons, pedido_concat, pedido_concat]
    rfl
  · rw [List.append_nil]

/-- **Every `JOB_GRANTED` of the log was deserved**: just before it the job is
as the table has it, all its local allocations are granted, and its
`confirmadas` are the requests of its `JOB_REQUEST`. -/
def Cumplido (ip : CString) (log : List Event) : Prop :=
  ∀ pre post conn jobId, log = pre ++ .tx conn (.jobGranted jobId) :: post →
    ∃ before job requests, pre = before ++ [.completed jobId (some job)]
      ∧ pedido jobId before = some requests
      ∧ (∀ a ∈ job.confirmadas, a.type = .localAlloc → a.result = .granted)
      ∧ (↑(job.confirmadas.map Allocation.clave) : Multiset Clave) = pedidos ip requests

namespace Cumplido

variable {ip : CString} {log : List Event}

theorem append_of_quiet (h : Cumplido ip log) {es : List Event}
    (hes : ∀ e ∈ es, e.quiet = true) : Cumplido ip (log ++ es) := by
  intro pre post conn jobId heq
  rcases List.append_eq_append_iff.mp heq with ⟨mid, hpre, hes'⟩ | ⟨mid, hlog, hmid⟩
  · have hquiet := hes (.tx conn (.jobGranted jobId)) (hes' ▸ List.mem_append_right _
      List.mem_cons_self)
    exact absurd hquiet Bool.false_ne_true
  · cases mid with
    | nil =>
      rw [List.nil_append] at hmid
      have hquiet := hes (.tx conn (.jobGranted jobId)) (hmid ▸ List.mem_cons_self)
      exact absurd hquiet Bool.false_ne_true
    | cons e mid =>
      obtain ⟨rfl, -⟩ := List.cons.inj hmid
      exact h pre mid conn jobId hlog

theorem told (h : Cumplido ip log) {job : Job} (conn : Conn) (hdenied : job.NoDenied)
    {requests : List ResourceRequest} (hpedido : pedido job.jobId log = some requests)
    (hclaves : job.complete = true → job.claves = pedidos ip requests) :
    Cumplido ip (log ++ job.told conn) := by
  unfold Job.told
  split
  · next hcomplete =>
    obtain ⟨hconf, hlocal⟩ := Job.confirmadas_of_complete hcomplete hdenied
    have hmid : Cumplido ip (log ++ [.completed job.jobId (some job)]) :=
      h.append_of_quiet (fun e he => by rw [List.mem_singleton.mp he]; rfl)
    intro pre post c jobId heq
    rw [List.append_cons] at heq
    rcases List.append_eq_append_iff.mp heq with ⟨mid, hpre, htx⟩ | ⟨mid, hlog, hmid'⟩
    · cases mid with
      | nil =>
        obtain ⟨he, -⟩ := List.cons.inj htx
        cases he
        rw [List.append_nil] at hpre
        exact ⟨log, job, requests, hpre, hpedido, hlocal, hconf.trans (hclaves hcomplete)⟩
      | cons e mid =>
        have hlen := congrArg List.length htx
        simp at hlen
    · cases mid with
      | nil =>
        obtain ⟨he, -⟩ := List.cons.inj hmid'
        cases he
        rw [List.append_nil] at hlog
        exact ⟨log, job, requests, hlog.symm, hpedido, hlocal, hconf.trans (hclaves hcomplete)⟩
      | cons e mid =>
        obtain ⟨rfl, -⟩ := List.cons.inj hmid'
        exact hmid pre mid c jobId hlog
  · rw [List.append_nil]
    exact h

end Cumplido

/-! ## The invariant -/

/-- **What keeps `Cumplido`**: a job of the table that is not complete still has
all its requests. -/
structure Entregas (ip : CString) (R : Conn → Prop) (c : Manager × List Obra) : Prop where
  avisos : AvisosPaso R c
  ip_eq : c.1.ip = ip
  jobs : ∀ j ∈ c.1.jobs, j.NoDenied ∧ ∃ requests, pedido j.jobId c.1.log = some requests
    ∧ (j.complete = false → j.claves = pedidos ip requests)
  nueva : ∀ requests next job, .nueva requests next job ∈ c.2 →
    job.NoDenied ∧ job.claves + pedidos ip next = pedidos ip requests
  cumplido : Cumplido ip c.1.log

/-- A loss that takes nothing from a job that is not complete and stays in the
table. -/
def SinDespojo (t : TablaJobs) (conn : Conn) : Prop :=
  ∀ j ∈ t.jobs, j.complete = false → (j.dropRemote conn).affected conn = false →
    ∀ a ∈ j.confirmadas, a.type = .remoteAlloc → a.conn ≠ conn

/-- The calls of the agent's life with no such loss. -/
def Enteras (R : Conn → Prop) : Guardia where
  message := (Origenes R).message
  carries := (Origenes R).carries
  lost t conn := (Origenes R).lost t conn ∧ SinDespojo t conn
  ready := (Origenes R).ready

namespace Entregas

variable {ip : CString} {R : Conn → Prop} {s s' : Manager} {w w' : List Obra}
  {requests : List ResourceRequest} {job : Job}

/-- A step that changes no job, says nothing that counts and starts no job. -/
theorem of_quiet (h : Entregas ip R (s, w)) (havisos : AvisosPaso R (s', w'))
    (hip : s'.ip = s.ip) (hjobs : ∀ j ∈ s'.jobs, j ∈ s.jobs) {l : List Event}
    (hlog : s'.log = s.log ++ l) (hes : ∀ e ∈ l, e.quiet = true)
    (hnueva : ∀ requests next job, .nueva requests next job ∈ w' →
      .nueva requests next job ∈ w) : Entregas ip R (s', w') where
  avisos := havisos
  ip_eq := hip.trans h.ip_eq
  jobs := fun j hj => by
    show _ ∧ ∃ requests, pedido j.jobId s'.log = some requests ∧ _
    rw [hlog, pedido_append_of_quiet hes]
    exact h.jobs j (hjobs j hj)
  nueva := fun requests next job hmem => h.nueva requests next job (hnueva _ _ _ hmem)
  cumplido := by
    show Cumplido ip s'.log
    rw [hlog]
    exact h.cumplido.append_of_quiet hes

/-- A step that changes one job, whose owner is told if the change completes
it. -/
theorem of_update (h : Entregas ip R (s, w)) (havisos : AvisosPaso R (s', w'))
    (hip : s'.ip = s.ip) {job : Job} (hjob : job ∈ s.jobs) {f : Job → Job}
    (hf : ∀ j, (f j).jobId = j.jobId)
    (hjobs : s'.jobs = s.jobs.modifyFirst (fun j => j.jobId == job.jobId) f)
    (hdenied : (f job).NoDenied) (hclaves : (f job).claves = job.claves)
    (hcomplete : job.complete = true → (f job).complete = true)
    {es : List Event} (hes : ∀ e ∈ es, e.quiet = true) {told : List Event} {c : Conn}
    (htold : told = [] ∨ (told = (f job).told c ∧ job.complete = false))
    (hlog : s'.log = s.log ++ es ++ told)
    (hnueva : ∀ requests next job, .nueva requests next job ∈ w' →
      .nueva requests next job ∈ w) : Entregas ip R (s', w') := by
  have hd : TablaJobs.Distinct s.jobs := h.avisos.avisos.distinct
  have hpedido : ∀ i, pedido i s'.log = pedido i s.log := by
    intro i
    rw [hlog]
    rcases htold with rfl | ⟨rfl, -⟩
    · rw [List.append_nil, pedido_append_of_quiet hes]
    · rw [pedido_told, pedido_append_of_quiet hes]
  obtain ⟨-, requests, hreq, hall⟩ := h.jobs job hjob
  refine ⟨havisos, hip.trans h.ip_eq, fun j hj => ?_,
    fun requests next job hmem => h.nueva requests next job (hnueva _ _ _ hmem), ?_⟩
  · show _ ∧ ∃ requests, pedido j.jobId s'.log = some requests ∧ _
    rw [hpedido]
    have hj : j ∈ s.jobs.modifyFirst (fun j => j.jobId == job.jobId) f := hjobs ▸ hj
    rcases hd.mem_modifyFirst hf hj with ⟨hj, -⟩ | ⟨i, hi, hid, rfl⟩
    · exact h.jobs j hj
    · obtain rfl := hd.eq_of_jobId hi hjob hid
      refine ⟨hdenied, requests, (hf i).symm ▸ hreq, fun hnot => ?_⟩
      rw [hclaves]
      refine hall ?_
      rw [← Bool.not_eq_true]
      intro hc
      rw [hcomplete hc] at hnot
      exact Bool.noConfusion hnot
  · show Cumplido ip s'.log
    rw [hlog]
    have hquiet := h.cumplido.append_of_quiet hes
    rcases htold with rfl | ⟨rfl, hnot⟩
    · rw [List.append_nil]
      exact hquiet
    · refine @Cumplido.told _ _ hquiet _ c hdenied requests ?_ (fun _ => ?_)
      · rw [hf, pedido_append_of_quiet hes]
        exact hreq
      · rw [hclaves]
        exact hall hnot

/-- A step that works on the job in hand only. -/
theorem of_nueva (h : Entregas ip R (s, w)) {requests next : List ResourceRequest} {job : Job}
    (havisos : AvisosPaso R (s', [.nueva requests next job])) (hip : s'.ip = s.ip)
    (hjobs : s'.jobs = s.jobs) {es : List Event} (hlog : s'.log = s.log ++ es)
    (hes : ∀ e ∈ es, e.quiet = true) (hdenied : job.NoDenied)
    (hclaves : job.claves + pedidos ip next = pedidos ip requests) :
    Entregas ip R (s', [.nueva requests next job]) where
  avisos := havisos
  ip_eq := hip.trans h.ip_eq
  jobs := fun j hj => by
    show _ ∧ ∃ requests, pedido j.jobId s'.log = some requests ∧ _
    rw [hlog, pedido_append_of_quiet hes]
    exact h.jobs j (hjobs ▸ hj)
  nueva := fun r n j hmem => by
    obtain ⟨rfl, rfl, rfl⟩ := Obra.nueva.inj (List.mem_singleton.mp hmem)
    exact ⟨hdenied, hclaves⟩
  cumplido := by
    show Cumplido ip s'.log
    rw [hlog]
    exact h.cumplido.append_of_quiet hes

/-- The entry at the head of the requests is placed on the job. -/
theorem placed (h : Entregas ip R (s, w)) {head : ResourceRequest}
    {next : List ResourceRequest} {m : Multiset Clave}
    (hclaves : job.claves + pedidos ip (head :: next) = m) :
    head.clave s.ip ::ₘ job.claves + pedidos ip next = m := by
  have hip : s.ip = ip := h.ip_eq
  rw [← hclaves, pedidos_cons, hip, Multiset.cons_add, Multiset.add_cons]

/-- The new job joins the table with all its requests. -/
theorem of_insertar (h : Entregas ip R (s, [.nueva requests [] job]))
    (havisos : AvisosPaso R (insertJob job requests s, [])) :
    Entregas ip R (insertJob job requests s, []) := by
  obtain ⟨hav, -, hpos, hjob⟩ := h.avisos.nueva_inv
  obtain ⟨hdenied, hclaves⟩ := h.nueva requests [] job List.mem_cons_self
  have hclaves : job.claves = pedidos ip requests := (add_zero _).symm.trans hclaves
  have hlog := log_insertJob requests hav.distinct hpos hjob.fresh
  have hpedido : ∀ i, pedido i (insertJob job requests s).log
      = if job.jobId = i then some requests else pedido i s.log := by
    intro i
    rw [hlog, pedido_told, pedido_concat]
    rfl
  refine ⟨havisos, (ip_insertJob ..).trans h.ip_eq, fun j hj => ?_,
    fun _ _ _ hmem => absurd hmem List.not_mem_nil, ?_⟩
  · show _ ∧ ∃ requests', pedido j.jobId (insertJob job requests s).log = some requests' ∧ _
    rw [hpedido]
    rcases List.mem_cons.mp ((jobs_insertJob_perm requests hpos).mem_iff.mp hj) with rfl | hj
    · exact ⟨hdenied, requests, if_pos rfl, fun _ => hclaves⟩
    · rw [if_neg (Ne.symm (hjob.fresh j hj))]
      exact h.jobs j hj
  · show Cumplido ip (insertJob job requests s).log
    rw [hlog]
    have hquiet : Cumplido ip (s.log ++ [.inserted job requests]) := by
      intro pre post conn jobId heq
      rcases List.eq_nil_or_concat post with rfl | ⟨post', e, rfl⟩
      · have hlast := (List.append_inj' heq rfl).2
        cases hlast
      · rw [List.concat_eq_append, ← List.cons_append, ← List.append_assoc] at heq
        exact h.cumplido pre post' conn jobId (List.append_inj' heq rfl).1
    refine hquiet.told job.conn hdenied ?_ (fun _ => hclaves)
    rw [pedido_concat]
    exact if_pos rfl

/-- **The jobs of a lost connection** leave the table; those that stay keep what
the loss does not take from them. -/
theorem of_lose (h : Entregas ip R (s, w)) {conn : Conn}
    (havisos : AvisosPaso R (s.setTabla (tablaJobsExtractByRemoteConn s.tabla conn).2,
      (tablaJobsExtractByRemoteConn s.tabla conn).1.map .muerta ++ [.llamada]))
    (hloss : SinDespojo s.tabla conn) :
    Entregas ip R (s.setTabla (tablaJobsExtractByRemoteConn s.tabla conn).2,
      (tablaJobsExtractByRemoteConn s.tabla conn).1.map .muerta ++ [.llamada]) := by
  refine ⟨havisos, h.ip_eq, fun j hj => ?_, fun _ _ _ hmem => ?_, h.cumplido⟩
  · have hj : j ∈ TablaJobs.jobs (tablaJobsExtractByRemoteConn s.tabla conn).2 := hj
    rw [TablaJobs.jobs_extractByRemoteConn, List.mem_filter, List.mem_map] at hj
    obtain ⟨⟨i, hi, rfl⟩, hstays⟩ := hj
    obtain ⟨hdenied, requests, hreq, hclaves⟩ := h.jobs i hi
    refine ⟨fun a ha => hdenied a (List.mem_filter.mp ha).1, requests, hreq, fun hnot => ?_⟩
    rw [Job.complete_dropRemote] at hnot
    have hkeep := hloss i hi hnot (by simpa using hstays)
    have hself : i.dropRemote conn = i := by
      unfold Job.dropRemote
      rw [List.filter_eq_self.mpr (fun a ha => ?_)]
      cases ht : a.type with
      | localAlloc => rfl
      | remoteAlloc => simpa using hkeep a ha ht
    rw [hself]
    exact hclaves hnot
  · simp at hmem

/-- A connection that comes up is sent requests. -/
theorem of_listo (h : Entregas ip R (s, [])) {conn : Conn}
    (havisos : AvisosPaso R (processConnectionReady conn s, [])) :
    Entregas ip R (processConnectionReady conn s, []) := by
  obtain ⟨conns, heq⟩ := processConnectionReady_eq s conn
  have hip : (processConnectionReady conn s).ip = s.ip := by rw [heq]
  have hjobs : (processConnectionReady conn s).jobs = s.jobs := by rw [heq]; rfl
  have hlog : (processConnectionReady conn s).log = s.log
      ++ (tablaJobsGetPendientesByConn s.tabla conn).map
        (fun req => .tx conn (req.msg.getD .garbage)) := by rw [heq]
  refine h.of_quiet havisos hip (fun j hj => hjobs ▸ hj) hlog (fun e he => ?_)
    (fun _ _ _ => id)
  obtain ⟨req, hreq, rfl⟩ := List.mem_map.mp he
  obtain ⟨j, hj, hreq⟩ := List.mem_flatMap.mp (List.mem_reverse.mp hreq)
  obtain ⟨o, ho, rfl⟩ := List.mem_map.mp hreq
  have hquiet := (h.avisos.avisos.own j hj).quiet o (List.mem_filter.mp ho).1
  refine Event.quiet_tx (fun i => ?_)
  show o.msg.getD .garbage ≠ .jobGranted i
  cases hmsg : o.msg with
  | none => exact fun hm => nomatch hm
  | some m => exact hquiet m hmsg i

/-- **Every small step keeps the invariant.** -/
theorem paso {c d : Manager × List Obra} (h : Entregas ip R c) (hpaso : Paso (Enteras R) c d) :
    Entregas ip R d := by
  have havisos : AvisosPaso R d := h.avisos.paso
    (hpaso.mono (G := Enteras R) (H := Origenes R) (fun _ _ _ => id) (fun _ => id)
      (fun _ _ hlost => hlost.1) (fun _ _ => id))
  have hquiet : ∀ {e : Event}, e.quiet = true → ∀ e' ∈ [e], e'.quiet = true :=
    fun he e' he' => by rw [List.mem_singleton.mp he']; exact he
  have hnil : ∀ {u : Manager}, u.log = u.log ++ [] := (List.append_nil _).symm
  cases hpaso with
  | mensaje conn m hG hm =>
    exact h.of_quiet havisos rfl (fun _ => id) rfl (hquiet rfl) (by simp)
  | cerrar => exact h.of_quiet havisos rfl (fun _ => id) hnil (by simp) (by simp)
  | @reserve s conn jobId type amount hG =>
    rcases processReserve_cases conn jobId type amount
        (s.emit (.rx conn (.reserve jobId type amount))) with
      ⟨-, heq⟩ | ⟨-, -, heq⟩ | ⟨-, -, heq⟩
    · rw [heq] at havisos ⊢
      exact h.of_quiet havisos rfl (fun _ => id) (l := [.rx conn (.reserve jobId type amount),
        .grant type ⟨jobId, amount, conn, .originRemote⟩, .tx conn (.granted jobId)])
        (by simp) (by simp [Event.quiet]) (by simp)
    · rw [heq] at havisos ⊢
      exact h.of_quiet havisos rfl (fun _ => id)
        (l := [.rx conn (.reserve jobId type amount), .tx conn (.denied jobId)])
        (by simp) (by simp [Event.quiet]) (by simp)
    · rw [heq] at havisos ⊢
      exact h.of_quiet havisos rfl (fun _ => id)
        (l := [.rx conn (.reserve jobId type amount)]) rfl (hquiet rfl) (by simp)
  | returned conn jobId type amount hG hne haccepts =>
    exact h.of_quiet havisos rfl (fun _ => id)
      (l := [.rx conn (.release jobId type amount), .returned type jobId amount])
      (by simp) (by simp [Event.quiet]) (by simp)
  | refused conn jobId type amount hG hne haccepts =>
    exact h.of_quiet havisos rfl (fun _ => id)
      (l := [.rx conn (.release jobId type amount), .returned type jobId amount])
      (by simp) (by simp [Event.quiet]) (by simp)
  | @granted s conn jobId hG =>
    have hrx : ∀ e ∈ [Event.rx conn (.granted jobId)], e.quiet = true := hquiet rfl
    have hpos : 0 ≤ jobId := hG.2.1 _ rfl
    rcases processGranted_cases (s.emit (.rx conn (.granted jobId))) conn hpos with
      ⟨-, heq⟩ | ⟨ip', -, -, heq⟩ | ⟨ip', -, job, hjob, hid, -, -, hip, hjobs, hlog⟩
    · rw [heq] at havisos ⊢
      exact h.of_quiet havisos rfl (fun _ => id) rfl hrx (by simp)
    · rw [heq] at havisos ⊢
      exact h.of_quiet havisos rfl (fun _ => id) (l := [.rx conn (.granted jobId),
        .tx conn (.release jobId .cpu 0), .tx conn (.release jobId .mem 0),
        .tx conn (.release jobId .gpu 0)]) (by simp) (by simp [Event.quiet]) (by simp)
    · subst hid
      refine h.of_update havisos hip hjob (fun j => jobId_jobConfirmar j ip' job.jobId) hjobs
        ((h.jobs job hjob).1.confirmar ip' job.jobId) (claves_jobConfirmar job ip' job.jobId)
        (fun hcomplete => ?_) hrx (c := job.conn) ?_ hlog (by simp)
      · cases hflag : (jobConfirmar job ip' job.jobId).1
        · rw [jobConfirmar_of_not hflag]
          exact hcomplete
        · rw [complete_of_jobConfirmar hflag] at hcomplete
          exact absurd hcomplete Bool.false_ne_true
      · cases hflag : (jobConfirmar job ip' job.jobId).1
        · exact Or.inl (if_neg Bool.false_ne_true)
        · exact Or.inr ⟨if_pos rfl, complete_of_jobConfirmar hflag⟩
  | @dequeue s w tipo top rest hc hfits =>
    have hsep := h.avisos.separadas (List.cons_ne_nil _ _)
    have hpos : 0 ≤ top.jobId := h.avisos.avisos.ids tipo top (hc ▸ List.mem_cons_self)
    have hip : (dequeueTop tipo top s).ip = s.ip := ip_dequeueTop ..
    rcases top.ajena_or_of_job s.jobs with hother | ⟨hlocal, job, hjob, hid⟩
    · obtain ⟨hjobs, es, hlog, hes⟩ := h.avisos.avisos.dequeueTop_of_other hsep hc hother
      exact h.of_quiet havisos hip (fun j hj => hjobs ▸ hj) hlog hes (fun _ _ _ => id)
    · have hnot := (h.avisos.avisos.dequeueTop_of_job hc hlocal hjob hid).1
      refine h.of_update havisos hip hjob (f := Job.markGranted top.ownerConn tipo)
        (fun _ => rfl) ?_ ((h.jobs job hjob).1.markGranted _ _) (claves_markGranted ..)
        (fun hcomplete => Job.complete_markGranted hcomplete _ _)
        (hquiet (e := .grant tipo top) rfl) (Or.inr ⟨rfl, hnot⟩)
        (log_dequeueTop_local tipo h.avisos.avisos.distinct hpos hlocal hjob hid)
        (fun _ _ _ => id)
      rw [hid]
      exact jobs_dequeueTop s tipo top hpos
  | parar tipo hstop =>
    exact h.of_quiet havisos rfl (fun _ => id) hnil (by simp)
      (fun _ _ _ => List.mem_cons_of_mem _)
  | purgeId jobId hid =>
    exact h.of_quiet havisos rfl (fun _ => id) hnil (by simp) (fun _ _ _ => id)
  | purgeConn conn hG => exact h.of_quiet havisos rfl (fun _ => id) hnil (by simp) (by simp)
  | @extract s jobId job hpos hfind =>
    refine h.of_quiet havisos rfl (fun j hj => ?_) hnil (by simp) (by simp)
    rw [Manager.jobs_setTabla, TablaJobs.jobs_extractById _ hpos] at hj
    exact List.mem_of_mem_eraseP hj
  | @lose s conn hG => exact h.of_lose havisos hG.2
  | soltar job a rest hjob hheld haccepts =>
    exact h.of_quiet havisos rfl (fun _ => id) rfl (hquiet rfl) (by simp)
  | perder job a rest hjob hheld haccepts =>
    exact h.of_quiet havisos rfl (fun _ => id) rfl (hquiet rfl) (by simp)
  | avisar job a rest jobId conn hjob hremote hid hconn =>
    exact h.of_quiet havisos rfl (fun _ => id) rfl (hquiet rfl) (by simp)
  | olvidar job a rest hjob hheld hremote =>
    exact h.of_quiet havisos rfl (fun _ => id) hnil (by simp) (by simp)
  | descartar job hjob hpurged =>
    exact h.of_quiet havisos rfl (fun _ => id) hnil (by simp)
      (fun _ _ _ => List.mem_cons_of_mem _)
  | nuevo conn jobId requests hG hnew =>
    refine h.of_nueva havisos rfl rfl rfl (hquiet rfl) (fun _ hmem => ?_) (zero_add _)
    exact absurd hmem List.not_mem_nil
  | @localGranted s requests next head job hip hfits =>
    obtain ⟨hdenied, hclaves⟩ := h.nueva _ _ _ List.mem_cons_self
    refine h.of_nueva havisos rfl rfl rfl (hquiet rfl)
      (hdenied.addLocal head _ (r := .granted) Result.noConfusion) ?_
    rw [claves_addLocal job head s.ip .granted hip]
    exact h.placed hclaves
  | @localQueued s requests next head job hip hfits htotal =>
    obtain ⟨hdenied, hclaves⟩ := h.nueva _ _ _ List.mem_cons_self
    refine h.of_nueva havisos rfl rfl hnil (by simp)
      (hdenied.addLocal head _ (r := .queued) Result.noConfusion) ?_
    rw [claves_addLocal job head s.ip .queued hip]
    exact h.placed hclaves
  | @remoteSent s requests next head job remote hip hlookup =>
    obtain ⟨hdenied, hclaves⟩ := h.nueva _ _ _ List.mem_cons_self
    refine h.of_nueva havisos rfl rfl rfl (hquiet rfl) hdenied ?_
    rw [claves_addRemote job head s.ip remote none hip]
    exact h.placed hclaves
  | @remoteConnecting s requests next head job conn hip hlookup =>
    obtain ⟨hdenied, hclaves⟩ := h.nueva _ _ _ List.mem_cons_self
    refine h.of_nueva havisos rfl rfl rfl (hquiet rfl) hdenied ?_
    rw [claves_addRemote job head s.ip conn _ hip]
    exact h.placed hclaves
  | insertar requests job => exact h.of_insertar havisos
  | abandonar requests next job =>
    exact h.of_quiet havisos rfl (fun _ => id) hnil (by simp) (by simp)
  | decir conn m hm =>
    refine h.of_quiet havisos rfl (fun _ => id) rfl (hquiet ?_) (fun _ _ _ => id)
    refine Event.quiet_tx (fun i heq => ?_)
    rw [heq] at hm
    exact Bool.false_ne_true hm
  | @listo s conn hG => exact h.of_listo havisos
  | conexiones conn hG => exact h.of_quiet havisos rfl (fun _ => id) hnil (by simp) (by simp)
  | nodos nodos => exact h.of_quiet havisos rfl (fun _ => id) hnil (by simp) (by simp)

end Entregas

/-! ## Runs -/

/-- **A granted job holds everything it asked for.** In every run in which no
loss of a connection strips a job that is not complete and stays in the table,
whenever `JOB_GRANTED` is sent, all local allocations of the job are granted and
its `confirmadas` are the requests of its `JOB_REQUEST`. -/
theorem jobGranted_holds_requests (R : Conn → Prop) {cpu mem gpu : Int32} {ip : CString}
    {s : Manager}
    (hrun : Reaches Manager.step (Enteras R).allows (managerInit cpu mem gpu ip) s) :
    Cumplido s.ip s.log := by
  have hinit : Entregas (copyTo 16 ip) R (managerInit cpu mem gpu ip, []) := by
    refine ⟨.of_nil (Avisos.managerInit R cpu mem gpu ip), rfl, fun j hj => ?_,
      fun _ _ _ hmem => absurd hmem List.not_mem_nil, fun pre post conn jobId heq => ?_⟩
    · rw [show (managerInit cpu mem gpu ip).jobs = [] from TablaJobs.jobs_init] at hj
      exact absurd hj List.not_mem_nil
    · exact absurd heq (by simp [managerInit])
  have hinv := pasos_of_reaches (I := Entregas (copyTo 16 ip) R) hrun hinit
    (fun _ _ h hpaso => h.paso hpaso)
  have hip : s.ip = copyTo 16 ip := hinv.ip_eq
  rw [hip]
  exact hinv.cumplido

/-- The guard of `Origenes` as a test. -/
def Origenes.test (r : Conn → Bool) (s : Manager) : Call → Bool
  | .message conn msg _ => (parseMessage msg).all (fun m =>
      s.jobs.all (fun j => !r j.conn) && m.jobId?.all (fun i => decide (0 ≤ i))
        && (match m with | .reserve .. => r conn | _ => true))
  | .failed _ | .disconnect _ => s.jobs.all (fun j => !r j.conn)
  | _ => true

theorem Origenes.of_test {r : Conn → Bool} {s : Manager} {call : Call}
    (h : Origenes.test r s call = true) : (Origenes fun c => r c = true).allows s call := by
  cases call with
  | message conn msg red =>
    intro m hm
    simp only [test, hm, Option.all_some, Bool.and_eq_true, List.all_eq_true] at h
    obtain ⟨⟨hsep, hpos⟩, hreserve⟩ := h
    refine ⟨fun j hj => by simpa using hsep j hj, fun i hi => ?_, fun i t a hmsg => ?_⟩
    · rw [Option.mem_def.mp hi] at hpos
      simpa using hpos
    · rw [hmsg] at hreserve
      exact hreserve
  | failed conn => exact fun j hj => by simpa using List.all_eq_true.mp h j hj
  | disconnect conn => exact fun j hj => by simpa using List.all_eq_true.mp h j hj
  | ready conn => exact trivial
  | announce now ipSender msg => exact trivial
  | purge now timeout => exact trivial

/-- The guard of `Enteras` as a test. -/
def Enteras.test (r : Conn → Bool) (s : Manager) (call : Call) : Bool :=
  Origenes.test r s call && match call with
    | .failed conn | .disconnect conn => s.jobs.all (fun j =>
        j.complete || (j.dropRemote conn).affected conn
          || j.confirmadas.all (fun a => !(a.type == .remoteAlloc && a.conn == conn)))
    | _ => true

theorem Enteras.of_test {r : Conn → Bool} {s : Manager} {call : Call}
    (h : Enteras.test r s call = true) : (Enteras fun c => r c = true).allows s call := by
  obtain ⟨horigen, hloss⟩ := Bool.and_eq_true_iff.mp h
  have hallows := Origenes.of_test horigen
  have hkept : ∀ conn, s.jobs.all (fun j => j.complete || (j.dropRemote conn).affected conn
      || j.confirmadas.all (fun a => !(a.type == .remoteAlloc && a.conn == conn))) = true →
      SinDespojo s.tabla conn := by
    intro conn hall j hj hnot haff a ha hremote
    have hj := List.all_eq_true.mp hall j hj
    rw [hnot, haff, Bool.false_or, Bool.false_or, List.all_eq_true] at hj
    simpa [hremote] using hj a ha
  cases call with
  | failed conn => exact ⟨hallows, hkept conn hloss⟩
  | disconnect conn => exact ⟨hallows, hkept conn hloss⟩
  | message conn msg red => exact hallows
  | ready conn => exact trivial
  | announce now ipSender msg => exact trivial
  | purge now timeout => exact trivial

/-- **A lost peer strips a waiting job.** Job 2 waits for a unit of this node and
has been granted one by the node of connection 5; that connection is lost, and
when job 1 releases its units, job 2 is told `JOB_GRANTED` although it holds only
one of the two units it asked for. -/
theorem jobGranted_not_holds_requests :
    ∃ s, Reaches.trace Manager.step (managerInit 4 8 1 ['A'])
        [.announce 0 ['B'] "ANNOUNCE 9000 cpu:4 mem:8 gpu:1".toList,
         .message 1 "JOB_REQUEST 1 @A:cpu:4".toList [],
         .message 1 "JOB_REQUEST 2 @A:cpu:1 @B:cpu:1".toList [some 5],
         .ready 5,
         .message 5 "GRANTED 2".toList [],
         .disconnect 5,
         .message 1 "JOB_RELEASE 1".toList []] = some s
      ∧ Reaches Manager.step (Origenes fun c => (c == 5) = true).allows
        (managerInit 4 8 1 ['A']) s
      ∧ ¬Cumplido s.ip s.log := by
  have hcheck : (Reaches.checked Manager.step (Origenes.test fun c => c == 5)
      (managerInit 4 8 1 ['A'])
      [.announce 0 ['B'] "ANNOUNCE 9000 cpu:4 mem:8 gpu:1".toList,
       .message 1 "JOB_REQUEST 1 @A:cpu:4".toList [],
       .message 1 "JOB_REQUEST 2 @A:cpu:1 @B:cpu:1".toList [some 5],
       .ready 5,
       .message 5 "GRANTED 2".toList [],
       .disconnect 5,
       .message 1 "JOB_RELEASE 1".toList []]).any (fun s => decide (s.ip = ['A']
        ∧ s.log = s.log.dropLast.dropLast
          ++ [.completed 2 (some ⟨2, 1, [⟨.cpu, 1, .localAlloc, ['A'], 2, .granted, 1⟩], []⟩),
            .tx 1 (.jobGranted 2)]
        ∧ pedido 2 s.log.dropLast.dropLast
          = some [⟨['A'], .cpu, 1⟩, ⟨['B'], .cpu, 1⟩])) = true := by
    decide +kernel
  obtain ⟨s, htrace, hrun, hs⟩ := Reaches.of_checked (fun _ _ => Origenes.of_test) hcheck
  refine ⟨s, htrace, hrun, fun hcumplido => ?_⟩
  obtain ⟨hip, hlog, hpedido⟩ := of_decide_eq_true hs
  obtain ⟨before, job, requests, hpre, hreq, -, hclaves⟩ := hcumplido
    (s.log.dropLast.dropLast ++ [.completed 2 (some ⟨2, 1,
      [⟨.cpu, 1, .localAlloc, ['A'], 2, .granted, 1⟩], []⟩)]) [] 1 2
    (hlog.trans (List.append_assoc _ [_] [_]).symm)
  obtain ⟨rfl, hjob⟩ := List.append_inj' hpre rfl
  obtain rfl := Option.some.inj (hpedido.symm.trans hreq)
  cases hjob
  have hcard := congrArg Multiset.card hclaves
  exact absurd hcard (by simp [pedidos])

/-- The same run with the peer alive: job 2 is told, and holds both units. -/
theorem jobGranted_holds_requests_peer :
    ∃ s, Reaches.trace Manager.step (managerInit 4 8 1 ['A'])
        [.announce 0 ['B'] "ANNOUNCE 9000 cpu:4 mem:8 gpu:1".toList,
         .message 1 "JOB_REQUEST 1 @A:cpu:4".toList [],
         .message 1 "JOB_REQUEST 2 @A:cpu:1 @B:cpu:1".toList [some 5],
         .ready 5,
         .message 5 "GRANTED 2".toList [],
         .message 1 "JOB_RELEASE 1".toList [],
         .disconnect 5] = some s
      ∧ .tx 1 (.jobGranted 2) ∈ s.log ∧ Cumplido s.ip s.log := by
  have hcheck : (Reaches.checked Manager.step (Enteras.test fun c => c == 5)
      (managerInit 4 8 1 ['A'])
      [.announce 0 ['B'] "ANNOUNCE 9000 cpu:4 mem:8 gpu:1".toList,
       .message 1 "JOB_REQUEST 1 @A:cpu:4".toList [],
       .message 1 "JOB_REQUEST 2 @A:cpu:1 @B:cpu:1".toList [some 5],
       .ready 5,
       .message 5 "GRANTED 2".toList [],
       .message 1 "JOB_RELEASE 1".toList [],
       .disconnect 5]).any (fun s => decide (.tx 1 (.jobGranted 2) ∈ s.log)) = true := by
    decide +kernel
  obtain ⟨s, htrace, hrun, hs⟩ := Reaches.of_checked (fun _ _ => Enteras.of_test) hcheck
  exact ⟨s, htrace, of_decide_eq_true hs,
    jobGranted_holds_requests (fun c => (c == 5) = true) hrun⟩

end Hpc
