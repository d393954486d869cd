import HpcAgent.Cluster
import HpcAgent.Conservation

/-!
# What a node returns to others

A job that ends with everything it asked for gives each host back what that granted: the
`RELEASE` lines sent to the host are, resource by resource, what the `JOB_REQUEST` lists
for it, and no other line gives anything back (`Devuelve`). It holds along the runs of a
node whose planners keep to the protocol (`Leal`): ids are new, and a job is released once
its owner has been told.
-/

namespace Hpc

/-- The event gives something back to another node. -/
def Event.devuelve : Event → Bool
  | .tx _ (.release ..) => true
  | _ => false

/-- What the `RELEASE` lines sent to a host for a job give back. -/
def devueltasA (D : Rumbo) (jobId : Int32) (host : CString) (log : List Event) :
    Multiset (Resource × Int32) :=
  ↑(log.filterMap (fun e => match e with
    | .tx c (.release i t a) => if D c = some host ∧ i = jobId then some (t, a) else none
    | _ => none))

section Lineas

variable {D : Rumbo} {jobId : Int32} {host : CString} {s s' : Manager}

theorem devueltasA_append (log es : List Event) :
    devueltasA D jobId host (log ++ es)
      = devueltasA D jobId host log + devueltasA D jobId host es := by
  unfold devueltasA
  rw [List.filterMap_append, Multiset.coe_add]

theorem devueltasA_eq_zero {es : List Event} (hes : ∀ e ∈ es, e.devuelve = false) :
    devueltasA D jobId host es = 0 := by
  refine congrArg _ (List.filterMap_eq_nil_iff.mpr (fun e he => ?_))
  have hnone := hes e he
  split
  · exact absurd hnone.symm Bool.false_ne_true
  · rfl

theorem devueltasA_of_calla (h : s.Calla Event.devuelve s') :
    devueltasA D jobId host s'.log = devueltasA D jobId host s.log := by
  obtain ⟨es, hlog, hes⟩ := h
  rw [hlog, devueltasA_append, devueltasA_eq_zero hes, add_zero]

/-- A round of the loop of `release_resource` tells jobs that got their units. -/
theorem calla_dequeueTop (tipo : Resource) (top : PendingRequest) (s : Manager) :
    s.Calla Event.devuelve (dequeueTop tipo top s) := by
  have hpop : s.Calla Event.devuelve (markTop tipo top (popTop tipo top s)) :=
    ⟨_, log_popTop s tipo top, fun e he => (List.mem_singleton.mp he) ▸ rfl⟩
  rw [dequeueTop_eq]
  unfold answerTop
  split
  · exact hpop.emit rfl
  · split
    · exact (hpop.emit rfl).emit rfl
    · exact hpop

theorem calla_serveQueue (tipo : Resource) (n : ℕ) (s : Manager) :
    s.Calla Event.devuelve (serveQueue tipo n s) := by
  induction n generalizing s with
  | zero => exact .of_eq rfl
  | succ n ih =>
    rw [serveQueue]
    split
    · exact .of_eq rfl
    · next top _ _ =>
      split
      · exact (calla_dequeueTop tipo top s).trans (ih _)
      · exact .of_eq rfl

theorem calla_releaseResource (tipo : Resource) (amount : Int32) (s : Manager) :
    s.Calla Event.devuelve (releaseResource tipo amount s) := by
  unfold releaseResource
  dsimp only
  split
  · exact (Manager.Calla.of_eq rfl).trans (calla_serveQueue tipo _ _)
  · exact .of_eq rfl

theorem calla_releaseHeld (a : Allocation) (s : Manager) :
    s.Calla Event.devuelve (releaseHeld a s) :=
  ((Manager.Calla.of_eq rfl).emit rfl).trans (calla_releaseResource _ _ _)

/-- A job that has nothing of other nodes gives nothing back to them. -/
theorem calla_freeAllocations {l : List Allocation} (h : ∀ a ∈ l, a.type = .localAlloc)
    (i : Int32) (s : Manager) : s.Calla Event.devuelve (freeAllocations i l s) := by
  unfold freeAllocations
  induction l generalizing s with
  | nil => exact .of_eq rfl
  | cons a l ih =>
    have hone : s.Calla Event.devuelve (freeAllocation i a s) := by
      unfold freeAllocation
      split
      · exact calla_releaseHeld a s
      · rw [h a List.mem_cons_self, if_neg AllocType.noConfusion]
        exact .of_eq rfl
    rw [List.foldl_cons]
    exact hone.trans (ih (fun a ha => h a (List.mem_cons_of_mem _ ha)) _)

/-- **The loop of `JOB_RELEASE`** gives back what the allocations of the job have. -/
theorem devueltasA_foldl (l : List Allocation) (s : Manager) :
    devueltasA D jobId host (l.foldl (fun s alloc => jobReleaseAllocation alloc s) s).log
      = devueltasA D jobId host s.log + ↑(l.filterMap (fun a =>
        if a.jobId = jobId then a.deHost D host else none)) := by
  induction l generalizing s with
  | nil => exact (add_zero _).symm
  | cons a l ih =>
    have hfree : s.Calla Event.devuelve
        (if a.held then releaseHeld a s else limpiarColasPorId a.jobId s) := by
      split
      · exact calla_releaseHeld a s
      · exact .of_eq rfl
    have hone : devueltasA D jobId host (jobReleaseAllocation a s).log
        = devueltasA D jobId host s.log + ↑((if a.jobId = jobId then
          a.deHost D host else none).toList) := by
      unfold jobReleaseAllocation
      dsimp only
      by_cases htype : a.type = .remoteAlloc
      · rw [if_pos htype, log_sendMessage, devueltasA_append, devueltasA_of_calla hfree]
        unfold devueltasA Allocation.deHost
        by_cases hconn : D a.conn = some host
        · by_cases hid : a.jobId = jobId
          · simp [htype, hconn, hid]
          · simp [hconn, hid]
        · simp [hconn]
      · rw [if_neg htype, devueltasA_of_calla hfree]
        simp [Allocation.deHost, htype]
    rw [List.foldl_cons, ih, hone, add_assoc]
    refine congrArg _ ?_
    rw [List.filterMap_cons]
    cases (if a.jobId = jobId then a.deHost D host else none) with
    | none => exact zero_add _
    | some r => rfl

/-- **`JOB_RELEASE`** gives back what the job has. -/
theorem devueltasA_processJobRelease {j : Job}
    (hfind : tablaJobsBuscarPorId s.tabla j.jobId = some j)
    (hids : ∀ a ∈ j.confirmadas, a.jobId = j.jobId) (i : Int32) : devueltasA D i host (processJobRelease j.jobId s).log
      = devueltasA D i host s.log + if i = j.jobId then j.retiene D host else 0 := by
  have hloop : devueltasA D i host (processJobRelease j.jobId s).log
      = devueltasA D i host s.log + ↑(j.confirmadas.filterMap (fun a =>
        if a.jobId = i then a.deHost D host else none)) := by
    rw [processJobRelease_of_some hfind]
    exact devueltasA_foldl j.confirmadas _
  rw [hloop]
  refine congrArg _ ?_
  split
  · next hi =>
    exact congrArg _ (List.filterMap_congr (fun a ha => if_pos ((hids a ha).trans hi.symm)))
  · next hi =>
    exact congrArg _ (List.filterMap_eq_nil_iff.mpr (fun a ha => if_neg (fun hid =>
      hi (hid.symm.trans (hids a ha)))))

/-- The jobs that `JOB_REQUEST` builds have nothing of other nodes yet. -/
theorem locales_requestLoop (requests : List ResourceRequest) (red : Network) (jobId : Int32)
    (conn : Conn) (s : Manager) :
    ∀ a ∈ (requestLoop requests red ⟨jobId, conn, [], []⟩ s).2.1.confirmadas,
      a.type = .localAlloc := by
  have h := requestLoop_invariant requests
    (P := fun _ job _ => ∀ a ∈ job.confirmadas, a.type = .localAlloc)
    (fun _ _ _ _ _ _ h _ => List.forall_mem_cons.mpr ⟨rfl, h⟩)
    (fun _ _ _ _ _ _ h _ _ => List.forall_mem_cons.mpr ⟨rfl, h⟩)
    (fun _ _ _ _ _ _ _ h _ => h) (fun _ _ _ _ _ _ _ h _ => h)
    [] red ⟨jobId, conn, [], []⟩ s (fun _ ha => absurd ha List.not_mem_nil)
  rcases h with ⟨-, h⟩ | ⟨-, -, h⟩
  · exact h
  · exact h

/-- **A line that ends no job of the table** gives nothing back, unless it is a `GRANTED`
for a job that is gone. -/
theorem calla_devuelve_handle {m : Message}
    (hends : ∀ i, m.ends = some i → tablaJobsBuscarPorId s.tabla i = none)
    (hgranted : ∀ i, m = .granted i → tablaJobsBuscarPorId s.tabla i ≠ none) (conn : Conn)
    (red : Network) : s.Calla Event.devuelve (handle conn red m s) := by
  cases m with
  | reserve jobId type amount =>
    show s.Calla Event.devuelve (processReserve conn jobId type amount s)
    rcases processReserve_cases conn jobId type amount s with ⟨-, heq⟩ | ⟨-, -, heq⟩ | ⟨-, -, heq⟩
    · rw [heq]
      exact ((Manager.Calla.of_eq rfl).emit rfl).emit rfl
    · rw [heq]
      exact (Manager.Calla.of_eq rfl).emit rfl
    · rw [heq]
      exact .of_eq rfl
  | granted jobId =>
    exact Manager.Calla.processGranted (fun hnone => absurd hnone (hgranted jobId rfl))
      (fun _ _ => rfl) (fun _ _ => rfl) conn
  | jobRequest jobId requests =>
    show s.Calla Event.devuelve (processJobRequest conn jobId requests red s)
    have hloop := Manager.Calla.requestLoop (b := Event.devuelve) (fun _ _ => rfl)
      (fun _ _ _ _ => rfl) (fun _ _ => rfl) requests red ⟨jobId, conn, [], []⟩ s
    rcases processJobRequest_cases conn jobId requests red s with
      ⟨_, -, heq⟩ | ⟨-, -, heq⟩ | ⟨-, -, heq⟩
    · rw [heq]
      exact .of_eq rfl
    · rw [heq]
      exact hloop.trans (.insertJob (fun _ _ => rfl) (fun _ _ => rfl) (fun _ _ => rfl) _ _ _)
    · rw [heq]
      exact hloop.trans (((Manager.Calla.of_eq rfl).trans (calla_freeAllocations
        (locales_requestLoop requests red jobId conn s) _ _)).emit rfl)
  | release jobId type amount =>
    show s.Calla Event.devuelve (processRelease jobId type amount s)
    have hback : s.Calla Event.devuelve (if amount ≠ 0 then
          releaseResource type amount (s.emit (.returned type jobId amount)) else s)
        ∧ tablaJobsBuscarPorId (if amount ≠ 0 then
          releaseResource type amount (s.emit (.returned type jobId amount)) else s).tabla jobId
          = none := by
      split
      · exact ⟨((Manager.Calla.of_eq rfl).emit rfl).trans (calla_releaseResource _ _ _),
          ((Manager.Sirve.releaseResource type amount _).tabla.buscarPorId_eq_none jobId).mpr
            (hends jobId rfl)⟩
      · exact ⟨.of_eq rfl, hends jobId rfl⟩
    unfold processRelease
    dsimp only
    rw [tablaJobsRemove_of_none hback.2]
    exact hback.1.trans (.of_eq rfl)
  | denied jobId =>
    show s.Calla Event.devuelve (processDenied jobId s)
    have hconn : tablaJobsGetConn s.tabla jobId = none :=
      Option.map_eq_none_iff.mpr (hends jobId rfl)
    unfold processDenied
    rw [hconn]
    exact .of_eq rfl
  | jobRelease jobId =>
    show s.Calla Event.devuelve (processJobRelease jobId s)
    rw [processJobRelease_of_none (hends jobId rfl)]
    exact .of_eq rfl
  | jobTimeout jobId =>
    show s.Calla Event.devuelve (processJobTimeout jobId s)
    unfold processJobTimeout
    rw [tablaJobsRemove_of_none (hends jobId rfl)]
    exact .of_eq rfl
  | getNodes => exact (Manager.Calla.of_eq rfl).emit rfl
  | jobStatus jobId => exact (Manager.Calla.of_eq rfl).emit rfl
  | jobGranted jobId => exact .of_eq rfl
  | jobDenied jobId => exact .of_eq rfl
  | jobStatusIs jobId active => exact .of_eq rfl
  | nodes line => exact .of_eq rfl
  | garbage => exact .of_eq rfl

end Lineas

/-! ## Whether the table has a job -/

section Presentes

variable {s : Manager}

theorem buscarPorId_insertar (t : TablaJobs) (job : Job) (i : Int32) :
    tablaJobsBuscarPorId (tablaJobsInsertarJob t job) i = none
      ↔ i ≠ job.jobId ∧ tablaJobsBuscarPorId t i = none := by
  unfold tablaJobsBuscarPorId tablaJobsInsertarJob Buckets.cons Buckets.setBucket
  dsimp only
  rw [Function.update_apply]
  split
  · next hi =>
    rw [List.find?_cons, hi]
    by_cases hid : job.jobId = i
    · simp [hid]
    · rw [beq_false_of_ne hid]
      exact (and_iff_right (Ne.symm hid)).symm
  · next hi => exact (and_iff_right (fun hid => hi (congrArg bucketOf hid))).symm

theorem buscarPorId_of_sitio {t t' : TablaJobs} (h : Buckets.Rel Job.EnSitio t t') (i : Int32) :
    tablaJobsBuscarPorId t' i = none ↔ tablaJobsBuscarPorId t i = none := by
  have hrel := Buckets.Rel.find? h (p := fun j => j.jobId == i)
    (fun j j' hjj' => by rw [hjj'.jobId]) (bucketOf i)
  unfold tablaJobsBuscarPorId
  generalize (t.bucket (bucketOf i)).find? (fun j => j.jobId == i) = a at hrel
  generalize (t'.bucket (bucketOf i)).find? (fun j => j.jobId == i) = b at hrel
  cases hrel with
  | none => exact Iff.rfl
  | some _ => exact ⟨(fun h => nomatch h), (fun h => nomatch h)⟩

/-- **A line that ends no job of the table** leaves the jobs there, and inserts none but
its own. -/
theorem buscarPorId_handle {m : Message}
    (hends : ∀ i, m.ends = some i → tablaJobsBuscarPorId s.tabla i = none)
    (hrequest : ∀ jobId requests, m ≠ .jobRequest jobId requests) (conn : Conn) (red : Network)
    (i : Int32) : tablaJobsBuscarPorId (handle conn red m s).tabla i = none
      ↔ tablaJobsBuscarPorId s.tabla i = none := by
  cases hm : m.ends with
  | none => exact buscarPorId_of_sitio (anota_handle hm hrequest conn red s).tabla i
  | some jobId =>
    rw [(marcadas_handle hm conn red s).buscarPorId_eq_none, extractById_of_none (hends jobId hm)]

end Presentes

/-! ## What was given back for each job -/

/-- The jobs that were inserted have ids of their own, and ask for something. -/
structure Altas (log : List Event) : Prop where
  unica : ∀ job r job' r', .inserted job r ∈ log → .inserted job' r' ∈ log →
    job.jobId = job'.jobId → r = r'
  positivas : ∀ job r, .inserted job r ∈ log → ∀ q ∈ r, 0 < q.amount

/-- **What a node gave back**: nothing for the jobs of its table, and for a job that is
gone what it asked for, its owner having been told. -/
structure Devuelve (D : Rumbo) (s : Manager) : Prop where
  altas : Altas s.log
  nada : ∀ i host, host ≠ s.ip → devueltasA D i host s.log ≠ 0 →
    tablaJobsBuscarPorId s.tabla i = none
      ∧ ∃ job requests, .inserted job requests ∈ s.log ∧ job.jobId = i
  todo : ∀ job requests, .inserted job requests ∈ s.log →
    tablaJobsBuscarPorId s.tabla job.jobId = none →
    (∃ c, .tx c (.jobGranted job.jobId) ∈ s.log)
      ∧ ∀ host, host ≠ s.ip → devueltasA D job.jobId host s.log = pideA host requests

theorem Event.esAlta_of_interno (e : Event) (h : e.interno = true) : e.esAlta = false := by
  cases e with
  | inserted => exact absurd h Bool.false_ne_true
  | _ => rfl

namespace Devuelve

variable {D : Rumbo} {s s' : Manager}

/-- A call that gives nothing back, and inserts and ends no job. -/
theorem calla (h : Devuelve D s) (hdev : s.Calla Event.devuelve s')
    (halta : s.Calla Event.esAlta s') (hip : s'.ip = s.ip)
    (htabla : ∀ i, tablaJobsBuscarPorId s'.tabla i = none
      ↔ tablaJobsBuscarPorId s.tabla i = none) : Devuelve D s' := by
  obtain ⟨es, hlog, hes⟩ := halta
  have hmas : ∀ {e}, e ∈ s.log → e ∈ s'.log := fun he => hlog ▸ List.mem_append_left es he
  have hold : ∀ {job r}, Event.inserted job r ∈ s'.log → .inserted job r ∈ s.log := by
    intro job r hmem
    rw [hlog] at hmem
    exact (List.mem_append.mp hmem).resolve_right (fun hmem =>
      Bool.false_ne_true (hes _ hmem).symm)
  refine ⟨⟨fun job r job' r' hmem hmem' => h.altas.unica job r job' r' (hold hmem) (hold hmem'),
    fun job r hmem => h.altas.positivas job r (hold hmem)⟩, fun i host hne hdevuelta => ?_,
    fun job r hmem hnone => ?_⟩
  · rw [devueltasA_of_calla hdev] at hdevuelta
    obtain ⟨hnone, job, r, hmem, hid⟩ := h.nada i host (hip ▸ hne) hdevuelta
    exact ⟨(htabla i).mpr hnone, job, r, hmas hmem, hid⟩
  · obtain ⟨⟨c, htold⟩, htodo⟩ := h.todo job r (hold hmem) ((htabla _).mp hnone)
    refine ⟨⟨c, hmas htold⟩, fun host hne => ?_⟩
    rw [devueltasA_of_calla hdev]
    exact htodo host (hip ▸ hne)

/-- **A new job** has given nothing back. -/
theorem inserta (h : Devuelve D s) (hdev : s.Calla Event.devuelve s') (hip : s'.ip = s.ip)
    {job : Job} {requests : List ResourceRequest} (hpos : ∀ q ∈ requests, 0 < q.amount)
    (hnew : ∀ nuevo r, .inserted nuevo r ∈ s.log → nuevo.jobId ≠ job.jobId)
    (halta : ∃ es, s'.log = s.log ++ es
      ∧ ∀ nuevo r, .inserted nuevo r ∈ es → nuevo = job ∧ r = requests)
    (htabla : ∀ i, tablaJobsBuscarPorId s'.tabla i = none
      ↔ i ≠ job.jobId ∧ tablaJobsBuscarPorId s.tabla i = none) : Devuelve D s' := by
  obtain ⟨es, hlog, hes⟩ := halta
  have hmas : ∀ {e}, e ∈ s.log → e ∈ s'.log := fun he => hlog ▸ List.mem_append_left es he
  have hinserted : ∀ {nuevo r}, Event.inserted nuevo r ∈ s'.log →
      .inserted nuevo r ∈ s.log ∨ nuevo = job ∧ r = requests := by
    intro nuevo r hmem
    rw [hlog] at hmem
    exact (List.mem_append.mp hmem).imp_right (hes nuevo r)
  refine ⟨⟨fun nuevo r nuevo' r' hmem hmem' hid => ?_, fun nuevo r hmem => ?_⟩,
    fun i host hne hdevuelta => ?_, fun nuevo r hmem hnone => ?_⟩
  · rcases hinserted hmem with hmem | ⟨rfl, rfl⟩
    · rcases hinserted hmem' with hmem' | ⟨rfl, rfl⟩
      · exact h.altas.unica nuevo r nuevo' r' hmem hmem' hid
      · exact absurd hid (hnew nuevo r hmem)
    · rcases hinserted hmem' with hmem' | ⟨rfl, rfl⟩
      · exact absurd hid.symm (hnew nuevo' r' hmem')
      · rfl
  · rcases hinserted hmem with hmem | ⟨rfl, rfl⟩
    · exact h.altas.positivas nuevo r hmem
    · exact hpos
  · rw [devueltasA_of_calla hdev] at hdevuelta
    obtain ⟨hnone, nuevo, r, hmem, hid⟩ := h.nada i host (hip ▸ hne) hdevuelta
    exact ⟨(htabla i).mpr ⟨hid ▸ hnew nuevo r hmem, hnone⟩, nuevo, r, hmas hmem, hid⟩
  · obtain ⟨hid, hnone⟩ := (htabla _).mp hnone
    have hmem : Event.inserted nuevo r ∈ s.log :=
      (hinserted hmem).resolve_right (fun heq => hid (congrArg Job.jobId heq.1))
    obtain ⟨⟨c, htold⟩, htodo⟩ := h.todo nuevo r hmem hnone
    refine ⟨⟨c, hmas htold⟩, fun host hne => ?_⟩
    rw [devueltasA_of_calla hdev]
    exact htodo host (hip ▸ hne)

/-- **`JOB_RELEASE`** of a job that was told: everything it asked for is given back. -/
theorem processJobRelease (h : Devuelve D s) {j : Job}
    (hfind : tablaJobsBuscarPorId s.tabla j.jobId = some j) (hu : s.tabla.Unicos)
    (hcuenta : j.Cuenta D s.ip s.log) (hids : ∀ a ∈ j.confirmadas, a.jobId = j.jobId)
    (hnada : j.pendientes = []) (htold : ∃ c, .tx c (.jobGranted j.jobId) ∈ s.log) :
    Devuelve D (processJobRelease j.jobId s) := by
  have hsirve := Manager.Sirve.processJobRelease j.jobId s
  obtain ⟨es, hlog, hes⟩ := hsirve.log
  have hlog : (Hpc.processJobRelease j.jobId s).log = s.log ++ es := hlog
  have hmas : ∀ {e}, e ∈ s.log → e ∈ (Hpc.processJobRelease j.jobId s).log :=
    fun he => hlog ▸ List.mem_append_left es he
  have hold : ∀ {job r}, Event.inserted job r ∈ (Hpc.processJobRelease j.jobId s).log →
      .inserted job r ∈ s.log := by
    intro job r hmem
    rw [hlog] at hmem
    exact (List.mem_append.mp hmem).resolve_right (fun hmem => Bool.false_ne_true (hes _ hmem))
  have hip : (Hpc.processJobRelease j.jobId s).ip = s.ip := hsirve.ip
  have hfuera : tablaJobsBuscarPorId (Hpc.processJobRelease j.jobId s).tabla j.jobId = none :=
    (hsirve.tabla.buscarPorId_eq_none _).mpr (hu.buscarPorId_extractById j.jobId)
  have hotras : ∀ {i}, i ≠ j.jobId →
      (tablaJobsBuscarPorId (Hpc.processJobRelease j.jobId s).tabla i = none
        ↔ tablaJobsBuscarPorId s.tabla i = none) := by
    intro i hne
    have hsame : tablaJobsBuscarPorId (s.sinJob j.jobId).tabla i
        = tablaJobsBuscarPorId s.tabla i := buscarPorId_extractById_of_ne s.tabla hne
    rw [hsirve.tabla.buscarPorId_eq_none, hsame]
  obtain ⟨nuevo, requests, hmem, hid, hpedida⟩ := hcuenta.pedida
  -- what the job has of a host is what it asked of it
  have hretiene : ∀ {host}, host ≠ s.ip → j.retiene D host = pideA host requests := by
    intro host hne
    rw [← hpedida host hne, Job.aguarda_of_nil hnada, zero_add]
  have hdevuelve : ∀ i, ∀ {host}, host ≠ s.ip →
      devueltasA D i host (Hpc.processJobRelease j.jobId s).log
        = devueltasA D i host s.log + if i = j.jobId then pideA host requests else 0 := by
    intro i host hne
    rw [← hretiene hne]
    exact devueltasA_processJobRelease hfind hids i
  have hnadaOtra : ∀ {i}, i ≠ j.jobId → ∀ {host}, host ≠ s.ip →
      devueltasA D i host (Hpc.processJobRelease j.jobId s).log = devueltasA D i host s.log := by
    intro i hi host hne
    rw [hdevuelve i hne, if_neg hi, add_zero]
  have htodo : ∀ {host}, host ≠ s.ip →
      devueltasA D j.jobId host (Hpc.processJobRelease j.jobId s).log = pideA host requests := by
    intro host hne
    have hcero : devueltasA D j.jobId host s.log = 0 := by
      by_contra hdevuelta
      rw [(h.nada j.jobId host hne hdevuelta).1] at hfind
      exact Option.some_ne_none j hfind.symm
    rw [hdevuelve _ hne, hcero, zero_add, if_pos rfl]
  refine ⟨⟨fun job r job' r' hmem hmem' => h.altas.unica job r job' r' (hold hmem) (hold hmem'),
    fun job r hmem => h.altas.positivas job r (hold hmem)⟩, fun i host hne hdevuelta => ?_,
    fun job r hmem' hnone => ?_⟩
  · by_cases hi : i = j.jobId
    · subst hi
      exact ⟨hfuera, nuevo, requests, hmas hmem, hid⟩
    · rw [hnadaOtra hi (hip ▸ hne)] at hdevuelta
      obtain ⟨hnone, job, r, hjob, hjobId⟩ := h.nada i host (hip ▸ hne) hdevuelta
      exact ⟨(hotras hi).mpr hnone, job, r, hmas hjob, hjobId⟩
  · by_cases hi : job.jobId = j.jobId
    · obtain rfl := h.altas.unica job r nuevo requests (hold hmem') hmem (hi.trans hid.symm)
      rw [hi]
      obtain ⟨c, hc⟩ := htold
      exact ⟨⟨c, hmas hc⟩, fun host hne => htodo (hip ▸ hne)⟩
    · obtain ⟨⟨c, hc⟩, hall⟩ := h.todo job r (hold hmem') ((hotras hi).mp hnone)
      refine ⟨⟨c, hmas hc⟩, fun host hne => ?_⟩
      rw [hnadaOtra hi (hip ▸ hne)]
      exact hall host (hip ▸ hne)

/-- Any other line. -/
theorem handle (h : Devuelve D s) {m : Message}
    (hends : ∀ i, m.ends = some i → tablaJobsBuscarPorId s.tabla i = none)
    (hgranted : ∀ i, m = .granted i → tablaJobsBuscarPorId s.tabla i ≠ none)
    (hrequest : ∀ jobId requests, m ≠ .jobRequest jobId requests) (conn : Conn) (red : Network) :
    Devuelve D (handle conn red m s) := by
  have hsigue := sigue_handle hrequest conn red s
  obtain ⟨es, hlog, hes⟩ := hsigue.log
  exact h.calla (calla_devuelve_handle hends hgranted conn red)
    ⟨es, hlog, fun e he => e.esAlta_of_interno (hes e he)⟩ hsigue.ip
    (buscarPorId_handle hends hrequest conn red)

/-- **`JOB_REQUEST`** with a new id. -/
theorem processJobRequest (h : Devuelve D s) {jobId : Int32} {requests : List ResourceRequest}
    (hpos : ∀ q ∈ requests, 0 < q.amount)
    (hnew : ∀ nuevo r, .inserted nuevo r ∈ s.log → nuevo.jobId ≠ jobId) (conn : Conn)
    (red : Network) : Devuelve D (processJobRequest conn jobId requests red s) := by
  have hdev : s.Calla Event.devuelve (Hpc.processJobRequest conn jobId requests red s) :=
    calla_devuelve_handle (m := .jobRequest jobId requests) (fun _ h => nomatch h)
      (fun _ h => nomatch h) conn red
  have hloop := Manager.Calla.requestLoop (b := Event.esAlta) (fun _ _ => rfl)
    (fun _ _ _ _ => rfl) (fun _ _ => rfl) requests red ⟨jobId, conn, [], []⟩ s
  have hip := ip_requestLoop requests red ⟨jobId, conn, [], []⟩ s
  obtain ⟨htabla, hid⟩ := tabla_requestLoop requests red ⟨jobId, conn, [], []⟩ s
  rcases processJobRequest_cases conn jobId requests red s with
    ⟨_, -, heq⟩ | ⟨-, -, heq⟩ | ⟨-, -, heq⟩
  · rw [heq]
    exact h
  all_goals
    rw [heq] at hdev ⊢
    generalize (requestLoop requests red ⟨jobId, conn, [], []⟩ s).2.1 = job at *
    generalize (requestLoop requests red ⟨jobId, conn, [], []⟩ s).2.2 = u at *
    obtain rfl : job.jobId = jobId := hid
    obtain ⟨es, hlog, hes⟩ := hloop
  · obtain ⟨fs, hfs, hinterno⟩ := log_insertJob_append job requests u
    refine h.inserta hdev ((ip_insertJob u job requests).trans hip) hpos hnew
      ⟨es ++ .inserted job requests :: fs, ?_, fun nuevo r hmem => ?_⟩ (fun i => ?_)
    · rw [hfs, hlog]
      simp only [List.append_assoc, List.singleton_append]
    · rcases List.mem_append.mp hmem with hmem | hmem
      · exact absurd (hes _ hmem).symm Bool.false_ne_true
      · rcases List.mem_cons.mp hmem with heq | hmem
        · exact Event.inserted.inj heq
        · exact absurd (hinterno _ hmem) Bool.false_ne_true
    · rw [tabla_insertJob, htabla]
      exact buscarPorId_insertar s.tabla job i
  · have hsigue := Manager.Sigue.rollbackJob job u
    obtain ⟨fs, hfs, hinterno⟩ := hsigue.log
    have hmarcadas : u.tabla.Marcadas (rollbackJob job u).tabla :=
      (Manager.Sirve.freeAllocations job.jobId job.confirmadas
        (limpiarColasPorId job.jobId u)).tabla
    refine h.calla hdev (Manager.Calla.trans ⟨es, hlog, hes⟩
      ⟨fs, hfs, fun e he => e.esAlta_of_interno (hinterno e he)⟩) (hsigue.ip.trans hip)
      (fun i => ?_)
    rw [hmarcadas.buscarPorId_eq_none, htabla]

/-- A connection that comes up. -/
theorem processConnectionReady (h : Devuelve D s) (hsolo : s.tabla.Forall Job.SoloReserva)
    (conn : Conn) : Devuelve D (processConnectionReady conn s) := by
  obtain ⟨conns, heq⟩ := processConnectionReady_eq s conn
  rw [heq]
  refine h.calla ⟨_, rfl, fun e he => ?_⟩ ⟨_, rfl, fun e he => ?_⟩ rfl (fun i => Iff.rfl)
  · obtain ⟨req, hreq, rfl⟩ := List.mem_map.mp he
    obtain ⟨j, hj, o, ho, -, hmsg⟩ := mem_getPendientesByConn hreq
    rw [hmsg]
    cases hline : o.msg with
    | none => rfl
    | some m =>
      obtain ⟨i, type, amount, rfl⟩ := Buckets.Forall.of_mem_toList hsolo hj o ho m hline
      rfl
  · obtain ⟨req, -, rfl⟩ := List.mem_map.mp he
    rfl

end Devuelve

/-! ## Runs -/

/-- A job that was told since it was inserted was told. -/
theorem mem_of_avisos_pos {jobId : Int32} {conn : Conn} {log : List Event}
    (h : 0 < avisos jobId conn log) : .tx conn (.jobGranted jobId) ∈ log := by
  induction log using List.reverseRecOn with
  | nil => exact absurd h (Nat.lt_irrefl 0)
  | append_singleton log e ih =>
    rw [avisos_concat] at h
    by_cases htold : e = .tx conn (.jobGranted jobId)
    · exact List.mem_append_right _ (List.mem_singleton.mpr htold.symm)
    · refine List.mem_append_left _ (ih (lt_of_lt_of_le h ?_))
      unfold avisosStep
      split
      · split
        · exact Nat.zero_le _
        · exact le_rfl
      · split
        · next c i hsame => exact absurd (by rw [hsame.1, hsame.2]) htold
        · exact le_rfl
      · exact le_rfl

/-- What arrives at a node whose planners ask for jobs over connections of their own and
release them once they were told, no job being denied; and what other nodes send is of
their jobs, or grants one of the table. -/
def Fiel (Loc : Int32 → Prop) (D : Rumbo) (s : Manager) (conn : Conn) : Message → Prop
  | .jobRequest .. => D conn = none
  | .reserve .. => D conn ≠ none
  | .release jobId _ _ => ¬Loc jobId
  | .granted jobId => tablaJobsBuscarPorId s.tabla jobId ≠ none
  | .jobRelease jobId => ∀ j ∈ s.jobs, j.jobId = jobId → 0 < avisos jobId j.conn s.log
  | .denied _ | .jobTimeout _ => False
  | _ => True

/-- Honest calls that keep to it. -/
def Fieles (Loc : Int32 → Prop) (D : Rumbo) : Guardia where
  message s conn m := (Honestas Loc).message s conn m ∧ Fiel Loc D s conn m
  carries h := h.1.1
  lost _ _ := False
  ready _ _ := True

section Fieles

variable {Loc : Int32 → Prop} {D : Rumbo} {cpu mem gpu : Int32} {ip : CString} {s : Manager}

theorem Fieles.honestas {call : Call} (h : (Fieles Loc D).allows s call) :
    (Honestas Loc).allows s call := by
  cases call with
  | message conn msg red => exact fun m hparse => (h m hparse).1
  | failed conn => exact h
  | disconnect conn => exact h
  | ready conn => trivial
  | announce now ipSender msg => trivial
  | purge now timeout => trivial

/-- The jobs belong to planners. -/
theorem separadas_of_fieles
    (hrun : Reaches Manager.step (Fieles Loc D).allows (managerInit cpu mem gpu ip) s) :
    Separadas (fun c => D c ≠ none) s := by
  have hestable : Job.Estable (Fieles Loc D) (fun j => D j.conn = none) := by
    refine ⟨fun _ _ _ _ hG => hG.2, fun _ _ _ _ h => h, fun _ _ _ h => h, fun _ _ _ h => h,
      fun _ _ _ h => h, fun job ip h => ?_, fun _ _ h => h⟩
    rw [conn_jobConfirmar]
    exact h
  intro j hj hne
  have hall := Todos.of_reaches hestable hrun
  exact hne (hall.of_mem_toList hj)

/-- A job is told once it has everything. -/
theorem avisos_of_fieles
    (hrun : Reaches Manager.step (Fieles Loc D).allows (managerInit cpu mem gpu ip) s) :
    Avisos (fun c => D c ≠ none) (fun _ => False) s := by
  have horigenes := (hrun.invariant (I := fun u =>
    Reaches Manager.step (Fieles Loc D).allows (managerInit cpu mem gpu ip) u
      ∧ Reaches Manager.step (Origenes (fun c => D c ≠ none)).allows (managerInit cpu mem gpu ip) u)
    ⟨.refl _, .refl _⟩ (fun u call v hu hok hstep => ⟨hu.1.tail hok hstep,
      hu.2.tail ?_ hstep⟩)).2
  · exact (pasos_of_reaches horigenes (AvisosPaso.of_nil (Avisos.managerInit _ cpu mem gpu ip))
      (fun _ _ => AvisosPaso.paso)).nil
  · cases call with
    | message conn msg red =>
      intro m hparse
      obtain ⟨⟨hids, -⟩, hfiel⟩ := hok m hparse
      refine ⟨separadas_of_fieles hu.1, hids, fun i t a hm => ?_⟩
      subst hm
      exact hfiel
    | failed conn => exact hok.elim
    | disconnect conn => exact hok.elim
    | ready conn => trivial
    | announce now ipSender msg => trivial
    | purge now timeout => trivial

end Fieles

namespace Enlaces

/-- **The runs**: those of `Estrena` whose calls keep to it. -/
def Leal (Loc : Int32 → Prop) (D : Rumbo) (x : Enlaces) (suceso : Suceso) : Prop :=
  x.Estrena D suceso ∧ ∀ call, suceso = .call call → (Fieles Loc D).allows x.manager call

end Enlaces

section Leal

variable {Loc : Int32 → Prop} {D : Rumbo} {cpu mem gpu : Int32} {ip : CString} {x : Enlaces}

/-- **What a call keeps.** -/
theorem Devuelve.call (hcorta : D.Corta)
    (hrun : Reaches Enlaces.step (Enlaces.Leal Loc D) (.inicio (managerInit cpu mem gpu ip)) x)
    (hD : Dirige D x.manager.log) (h : Devuelve D x.manager) {call : Call}
    (hok : x.Leal Loc D (.call call)) : Devuelve D (call.run x.manager) := by
  have hmanager := Enlaces.reaches_manager hrun (fun _ _ hleal => hleal.2 _ rfl)
  obtain ⟨hrecibe, hmanda⟩ := manda_of_reaches hcorta (hrun.mono (fun _ _ => And.left)) hD
  have hcuadra := cuadra_of_reaches (hmanager.mono (fun _ _ => Fieles.honestas))
  have hunicos := unicos_of_reaches hmanager
  obtain ⟨hestrena, hfieles⟩ := hok
  have hfieles := hfieles call rfl
  cases call with
  | message conn msg red =>
    show Devuelve D (processMessage conn msg red x.manager)
    unfold processMessage
    cases hparse : parseMessage msg with
    | none => exact h
    | some m =>
      obtain ⟨⟨hids, -⟩, hfiel⟩ := hfieles m hparse
      have hrx : Devuelve D (x.manager.emit (.rx conn m)) :=
        h.calla ((Manager.Calla.of_eq rfl).emit rfl) ((Manager.Calla.of_eq rfl).emit rfl) rfl
          (fun _ => Iff.rfl)
      show Devuelve D (Hpc.handle conn red m (x.manager.emit (.rx conn m)))
      -- the lines that may end a job are a `JOB_RELEASE`, and those of no job of the table
      cases m with
      | jobRequest jobId requests =>
        refine hrx.processJobRequest (requests_pos hparse) (fun nuevo r hmem hid => ?_) conn red
        have hmem : .inserted nuevo r ∈ x.manager.log :=
          (List.mem_append.mp hmem).resolve_right (fun hmem =>
            Event.noConfusion (List.mem_singleton.mp hmem))
        obtain ⟨c, r', hold⟩ := hmanda.pedida nuevo r hmem
        exact hestrena.2 jobId requests hparse c r' (hid ▸ hold)
      | jobRelease jobId =>
        cases hfind : tablaJobsBuscarPorId x.manager.tabla jobId with
        | none =>
          refine hrx.handle (fun i hi => ?_) (by rintro _ ⟨⟩) (by rintro _ _ ⟨⟩) conn red
          obtain rfl := Option.some.inj hi
          exact hfind
        | some j =>
          obtain rfl : j.jobId = jobId := eq_of_beq
            (List.find?_some (p := fun j : Job => j.jobId == jobId) hfind)
          have hfound := hfind
          rw [TablaJobs.buscarPorId_eq _ (hids _ rfl)] at hfound
          have hj : j ∈ x.manager.jobs := List.mem_of_find?_eq_some hfound
          have htold := hfiel j hj rfl
          have havisos := (avisos_of_fieles hmanager).sent j hj
          have hcomplete : j.complete = true := by
            by_contra hnot
            rw [havisos, if_neg hnot] at htold
            exact absurd htold (Nat.lt_irrefl 0)
          exact hrx.processJobRelease hfind hunicos
            ((Buckets.Forall.of_mem_toList hrecibe.tabla hj).append _)
            (hcuadra.jobs j hj).2.1.ids (Job.complete_iff.mp hcomplete).2
            ⟨j.conn, List.mem_append_left _ (mem_of_avisos_pos htold)⟩
      | release jobId type amount =>
        refine hrx.handle (fun i hi => ?_) (by rintro _ ⟨⟩) (by rintro _ _ ⟨⟩) conn red
        obtain rfl := Option.some.inj hi
        show tablaJobsBuscarPorId x.manager.tabla jobId = none
        rw [TablaJobs.buscarPorId_eq _ (hids _ rfl), List.find?_eq_none]
        intro j hj hid
        exact hfiel (eq_of_beq hid ▸ (hcuadra.jobs j hj).1)
      | granted jobId =>
        refine hrx.handle (by rintro _ ⟨⟩) (fun i hm => ?_) (by rintro _ _ ⟨⟩) conn red
        obtain rfl := Message.granted.inj hm
        exact hfiel
      | denied jobId => exact hfiel.elim
      | jobTimeout jobId => exact hfiel.elim
      | _ => exact hrx.handle (by rintro _ ⟨⟩) (by rintro _ ⟨⟩) (by rintro _ _ ⟨⟩) conn red
  | ready conn =>
    exact h.processConnectionReady (Todos.of_reaches soloReserva_estable
      (hmanager.mono (fun u c _ => Cualquiera.allows_all u c))) conn
  | failed conn => exact hfieles.elim
  | disconnect conn => exact hfieles.elim
  | announce now ipSender msg =>
    have hsame : (processAnnounce now ipSender msg x.manager).log = x.manager.log
        ∧ (processAnnounce now ipSender msg x.manager).tabla = x.manager.tabla
        ∧ (processAnnounce now ipSender msg x.manager).ip = x.manager.ip := by
      unfold processAnnounce
      split <;> exact ⟨rfl, rfl, rfl⟩
    exact h.calla (.of_eq hsame.1) (.of_eq hsame.1) hsame.2.2 (fun i => by
      show tablaJobsBuscarPorId (processAnnounce now ipSender msg x.manager).tabla i = none ↔ _
      rw [hsame.2.1])
  | purge now timeout => exact h.calla (.of_eq rfl) (.of_eq rfl) rfl (fun _ => Iff.rfl)

/-- **What a node gave back, along every run.** -/
theorem devuelve_of_reaches (hcorta : D.Corta)
    (hrun : Reaches Enlaces.step (Enlaces.Leal Loc D) (.inicio (managerInit cpu mem gpu ip)) x)
    (hD : Dirige D x.manager.log) : Devuelve D x.manager := by
  refine (hrun.invariant (I := fun u => Reaches Enlaces.step (Enlaces.Leal Loc D)
    (.inicio (managerInit cpu mem gpu ip)) u ∧ (Dirige D u.manager.log → Devuelve D u.manager))
    ⟨.refl _, fun _ => ?_⟩ (fun u suceso v ⟨hu, hdevuelve⟩ hok hstep =>
      ⟨hu.tail hok hstep, fun hD => ?_⟩)).2 hD
  · exact ⟨⟨fun _ _ _ _ hmem => absurd hmem List.not_mem_nil,
      fun _ _ hmem => absurd hmem List.not_mem_nil⟩, fun _ _ _ hne => absurd rfl hne,
      fun _ _ hmem => absurd hmem List.not_mem_nil⟩
  · have hD' : Dirige D u.manager.log :=
      fun host c hmem => hD host c (Enlaces.log_subset hstep hmem)
    cases suceso with
    | accept conn =>
      obtain rfl := Option.some.inj hstep
      exact hdevuelve hD'
    | call call =>
      obtain rfl := Option.some.inj hstep
      exact (hdevuelve hD').call hcorta hu hD' hok

/-- **A job that is requested** is in the table already, or inserted, or denied. -/
theorem atendida_processJobRequest (conn : Conn) (jobId : Int32)
    (requests : List ResourceRequest) (red : Network) (s : Manager) :
    (∃ job, tablaJobsBuscarPorId s.tabla jobId = some job
        ∧ processJobRequest conn jobId requests red s = s)
      ∨ (∃ job r, .inserted job r ∈ (processJobRequest conn jobId requests red s).log
        ∧ job.jobId = jobId)
      ∨ ∃ c, .tx c (.jobDenied jobId) ∈ (processJobRequest conn jobId requests red s).log := by
  obtain ⟨-, hid⟩ := tabla_requestLoop requests red ⟨jobId, conn, [], []⟩ s
  rcases processJobRequest_cases conn jobId requests red s with hold | ⟨-, -, heq⟩ | ⟨-, -, heq⟩
  · exact Or.inl hold
  · obtain ⟨es, hlog, -⟩ := log_insertJob_append
      (requestLoop requests red ⟨jobId, conn, [], []⟩ s).2.1 requests
      (requestLoop requests red ⟨jobId, conn, [], []⟩ s).2.2
    refine Or.inr (Or.inl ⟨_, requests, ?_, hid⟩)
    rw [heq, hlog]
    exact List.mem_append_left es (List.mem_append_right _ (List.mem_singleton.mpr rfl))
  · refine Or.inr (Or.inr ⟨(requestLoop requests red ⟨jobId, conn, [], []⟩ s).2.1.conn, ?_⟩)
    rw [heq]
    unfold rollbackJob
    rw [log_sendMessage, hid]
    exact List.mem_append_right _ (List.mem_singleton.mpr rfl)

/-- **Every `JOB_REQUEST`** was inserted or denied. -/
theorem atendida_of_reaches (hcorta : D.Corta)
    (hrun : Reaches Enlaces.step (Enlaces.Estrena D) (.inicio (managerInit cpu mem gpu ip)) x)
    (hD : Dirige D x.manager.log) {c : Conn} {i : Int32} {r : List ResourceRequest}
    (hrx : .rx c (.jobRequest i r) ∈ x.manager.log) :
    (∃ job r', .inserted job r' ∈ x.manager.log ∧ job.jobId = i)
      ∨ ∃ c', .tx c' (.jobDenied i) ∈ x.manager.log := by
  refine (hrun.invariant (I := fun u => Reaches Enlaces.step (Enlaces.Estrena D)
      (.inicio (managerInit cpu mem gpu ip)) u ∧ (Dirige D u.manager.log → ∀ c i r,
        .rx c (.jobRequest i r) ∈ u.manager.log →
          (∃ job r', .inserted job r' ∈ u.manager.log ∧ job.jobId = i)
            ∨ ∃ c', .tx c' (.jobDenied i) ∈ u.manager.log))
    ⟨.refl _, fun _ _ _ _ hmem => absurd hmem List.not_mem_nil⟩
    (fun u suceso v ⟨hu, h⟩ hok hstep => ⟨hu.tail hok hstep, fun hD c i r hrx => ?_⟩)).2 hD c i r
    hrx
  have hmas := Enlaces.log_subset hstep
  have hD' : Dirige D u.manager.log := fun host c hmem => hD host c (hmas hmem)
  by_cases hold : .rx c (.jobRequest i r) ∈ u.manager.log
  · rcases h hD' c i r hold with ⟨job, r', hmem, hid⟩ | ⟨c', hmem⟩
    · exact Or.inl ⟨job, r', hmas hmem, hid⟩
    · exact Or.inr ⟨c', hmas hmem⟩
  cases suceso with
  | accept conn =>
    obtain rfl := Option.some.inj hstep
    exact absurd hrx hold
  | call call =>
    obtain rfl := Option.some.inj hstep
    -- it is the line of the call
    have hrecibidos := mem_recibidos.mpr hrx
    change _ ∈ recibidos (call.run u.manager).log at hrecibidos
    rw [recibidos_run] at hrecibidos
    have hlinea := (List.mem_append.mp hrecibidos).resolve_left
      (fun hmem => hold (mem_recibidos.mp hmem))
    cases call with
    | message conn msg red =>
      obtain ⟨m, hm, heq⟩ := List.mem_map.mp hlinea
      obtain ⟨rfl, rfl⟩ := Prod.mk.inj heq
      have hparse := Option.mem_toList.mp hm
      show (∃ job r', .inserted job r' ∈ (processMessage conn msg red u.manager).log ∧ _)
        ∨ ∃ c', _ ∈ (processMessage conn msg red u.manager).log
      unfold processMessage
      rw [hparse]
      show (∃ job r', .inserted job r' ∈ (processJobRequest conn i r red _).log ∧ _)
        ∨ ∃ c', _ ∈ (processJobRequest conn i r red _).log
      rcases atendida_processJobRequest conn i r red
        (u.manager.emit (.rx conn (.jobRequest i r))) with ⟨job, hfind, heq⟩ | hnew
      · have hrecibe := (manda_of_reaches hcorta hu hD').1.tabla
        have hfind : tablaJobsBuscarPorId u.manager.tabla i = some job := hfind
        have hcuenta := hrecibe _ job (List.mem_of_find?_eq_some hfind)
        obtain ⟨nuevo, requests, hmem, hid, -⟩ := hcuenta.pedida
        have hjob : job.jobId = i :=
          eq_of_beq (List.find?_some (p := fun j : Job => j.jobId == i) hfind)
        rw [heq]
        exact Or.inl ⟨nuevo, requests, List.mem_append_left _ hmem, hid.trans hjob⟩
      · exact hnew
    | _ => exact absurd hlinea List.not_mem_nil

end Leal

end Hpc
