import HpcAgent.Steps

/-!
# The steps that answer a planner

`JOB_GRANTED` is sent in three places: a round of the dequeue loop, the handler
of `GRANTED`, and the end of `JOB_REQUEST`. Each changes at most one job of the
table and then tells its owner if the job has become complete. This module says
so once, on the list of the jobs and on the log, for a table whose ids are
distinct; what remains of the state has a field lemma each.
-/

namespace Hpc

open TablaJobs (Distinct)

/-- What is recorded when the owner of a complete job is told. -/
def Job.told (conn : Conn) (j : Job) : List Event :=
  if j.complete then [.completed j.jobId (some j), .tx conn (.jobGranted j.jobId)] else []

/-! ## A round of the dequeue loop -/

section Dequeue

variable (s : Manager) (tipo t : Resource) (top : PendingRequest)

theorem available_dequeueTop :
    (dequeueTop tipo top s).available t
      = if t = tipo then s.available tipo - top.amount else s.available t := by
  rw [dequeueTop_eq, available_answerTop, markTop, Manager.available_setTabla,
    available_popTop]

@[simp] theorem total_dequeueTop : (dequeueTop tipo top s).total t = s.total t := by
  rw [dequeueTop_eq, total_answerTop, markTop, Manager.total_setTabla, total_popTop]

@[simp] theorem ip_dequeueTop : (dequeueTop tipo top s).ip = s.ip := by
  rw [dequeueTop_eq, ip_answerTop, markTop, Manager.ip_setTabla, ip_popTop]

theorem cola_dequeueTop {top : PendingRequest} {rest : List PendingRequest}
    (hc : s.cola tipo = top :: rest) :
    (dequeueTop tipo top s).cola t = if t = tipo then rest else s.cola t := by
  rw [dequeueTop_eq, cola_answerTop, markTop, Manager.cola_setTabla, cola_popTop s t tipo hc]

theorem cola_dequeueTop_sublist {top : PendingRequest} {rest : List PendingRequest}
    (hc : s.cola tipo = top :: rest) :
    ((dequeueTop tipo top s).cola t).Sublist (s.cola t) := by
  rw [cola_dequeueTop s tipo t hc]
  split
  · next ht => rw [ht, hc]; exact List.sublist_cons_self _ _
  · exact List.Sublist.refl _

theorem jobs_dequeueTop (hpos : 0 ≤ top.jobId) :
    (dequeueTop tipo top s).jobs
      = s.jobs.modifyFirst (fun j => j.jobId == top.jobId)
        (Job.markGranted top.ownerConn tipo) := by
  rw [dequeueTop_eq, jobs_answerTop, markTop, Manager.jobs_setTabla, tabla_popTop,
    TablaJobs.jobs_cambioAlloc _ hpos]
  rfl

theorem ids_dequeueTop (hpos : 0 ≤ top.jobId) :
    (dequeueTop tipo top s).jobs.map (·.jobId) = s.jobs.map (·.jobId) := by
  rw [jobs_dequeueTop s tipo top hpos]
  exact List.map_modifyFirst_of_eq (f := Job.markGranted top.ownerConn tipo) _ (fun _ _ => rfl) _

/-- The jobs behind a round: the others, and the one of the entry, marked. -/
theorem mem_jobs_dequeueTop (hd : Distinct s.jobs) (hpos : 0 ≤ top.jobId) {j : Job}
    (hj : j ∈ (dequeueTop tipo top s).jobs) : (j ∈ s.jobs ∧ j.jobId ≠ top.jobId)
      ∨ ∃ i ∈ s.jobs, i.jobId = top.jobId ∧ j = i.markGranted top.ownerConn tipo := by
  rw [jobs_dequeueTop s tipo top hpos] at hj
  exact hd.mem_modifyFirst (fun _ => rfl) hj

/-- A remote request is answered on its connection. -/
theorem log_dequeueTop_remote (hremote : top.origen = .originRemote) :
    (dequeueTop tipo top s).log
      = s.log ++ [.grant tipo top] ++ [.tx top.ownerConn (.granted top.jobId)] := by
  rw [dequeueTop_eq]
  unfold answerTop
  rw [hremote]
  rfl

/-- **A local request may complete its job.** -/
theorem log_dequeueTop_local {s : Manager} {top : PendingRequest} (hd : Distinct s.jobs)
    (hpos : 0 ≤ top.jobId) (hlocal : top.origen = .originLocal) {job : Job}
    (hjob : job ∈ s.jobs) (hid : job.jobId = top.jobId) :
    (dequeueTop tipo top s).log
      = s.log ++ [.grant tipo top]
        ++ (job.markGranted top.ownerConn tipo).told top.ownerConn := by
  have hfind : tablaJobsBuscarPorId (markTop tipo top (popTop tipo top s)).tabla top.jobId
      = some (job.markGranted top.ownerConn tipo) := by
    rw [markTop, Manager.tabla_setTabla, tabla_popTop, TablaJobs.buscarPorId_cambioAlloc,
      if_pos rfl, TablaJobs.buscarPorId_eq _ hpos, ← hid]
    exact congrArg _ (hd.find_eq hjob)
  have hverificar : tablaJobsVerificar (markTop tipo top (popTop tipo top s)).tabla top.jobId
      = (job.markGranted top.ownerConn tipo).complete := congrArg (Option.any _) hfind
  rw [dequeueTop_eq]
  unfold answerTop Job.told
  rw [hlocal]
  dsimp only
  rw [hverificar]
  split
  · rw [log_sendJobGranted, hfind, List.append_assoc]
    show _ = s.log ++ [.grant tipo top] ++ [.completed job.jobId _, .tx _ (.jobGranted job.jobId)]
    rw [hid]
    rfl
  · exact (List.append_nil _).symm

/-- A local request of a job that is not in the table is answered nobody. -/
theorem log_dequeueTop_orphan {s : Manager} {top : PendingRequest} (hpos : 0 ≤ top.jobId)
    (hlocal : top.origen = .originLocal) (hnone : ∀ j ∈ s.jobs, j.jobId ≠ top.jobId) :
    (dequeueTop tipo top s).log = s.log ++ [.grant tipo top] := by
  have hfind : tablaJobsBuscarPorId (markTop tipo top (popTop tipo top s)).tabla top.jobId
      = none := by
    rw [markTop, Manager.tabla_setTabla, tabla_popTop, TablaJobs.buscarPorId_cambioAlloc,
      if_pos rfl, TablaJobs.buscarPorId_eq _ hpos,
      List.find?_eq_none.mpr (fun j hj => by simpa using hnone j hj), Option.map_none]
  have hverificar : tablaJobsVerificar (markTop tipo top (popTop tipo top s)).tabla top.jobId
      = false := congrArg (Option.any _) hfind
  rw [dequeueTop_eq]
  unfold answerTop
  rw [hlocal]
  dsimp only
  rw [hverificar, if_neg Bool.false_ne_true]
  rfl

end Dequeue

/-! ## `RESERVE` -/

/-- **The three ways `RESERVE` ends.** -/
theorem processReserve_cases (conn : Conn) (jobId : Int32) (type : Resource) (amount : Int32)
    (s : Manager) :
    (amount ≤ s.available type ∧ processReserve conn jobId type amount s
        = sendMessage conn (.granted jobId)
          (takeUnits type ⟨jobId, amount, conn, .originRemote⟩ s))
      ∨ (¬amount ≤ s.available type ∧ s.total type < amount ∧
        processReserve conn jobId type amount s = sendMessage conn (.denied jobId) s)
      ∨ (¬amount ≤ s.available type ∧ ¬s.total type < amount ∧
        processReserve conn jobId type amount s
          = enqueue type ⟨jobId, amount, conn, .originRemote⟩ s) := by
  unfold processReserve
  rcases reserveResource_cases type amount jobId conn .originRemote s with
    ⟨hfits, heq⟩ | ⟨hfits, htotal, heq⟩ | ⟨hfits, htotal, heq⟩
  · rw [heq]
    exact Or.inl ⟨hfits, rfl⟩
  · rw [heq]
    exact Or.inr (Or.inl ⟨hfits, htotal, rfl⟩)
  · rw [heq]
    exact Or.inr (Or.inr ⟨hfits, htotal, rfl⟩)

/-! ## `GRANTED` -/

/-- **The three ways `GRANTED` ends**: the connection is unknown, the job is
gone, or a request of the job is confirmed if one is pending there. -/
theorem processGranted_cases (s : Manager) (conn : Conn) {jobId : Int32} (hpos : 0 ≤ jobId) :
    (tablaConnsGetIpByConn s.conns conn = none ∧ processGranted conn jobId s = s)
      ∨ (∃ ip, tablaConnsGetIpByConn s.conns conn = some ip
        ∧ (∀ j ∈ s.jobs, j.jobId ≠ jobId)
        ∧ processGranted conn jobId s = sendMessage conn (.release jobId .gpu 0)
          (sendMessage conn (.release jobId .mem 0)
            (sendMessage conn (.release jobId .cpu 0) s)))
      ∨ ∃ ip, tablaConnsGetIpByConn s.conns conn = some ip ∧ ∃ job ∈ s.jobs,
        job.jobId = jobId ∧ (processGranted conn jobId s).recursos = s.recursos
        ∧ (processGranted conn jobId s).conns = s.conns
        ∧ (processGranted conn jobId s).ip = s.ip
        ∧ (processGranted conn jobId s).jobs
          = s.jobs.modifyFirst (fun j => j.jobId == jobId)
            (fun j => (jobConfirmar j ip jobId).2)
        ∧ (processGranted conn jobId s).log
          = s.log ++ if (jobConfirmar job ip jobId).1 then
              (jobConfirmar job ip jobId).2.told job.conn else [] := by
  cases hip : tablaConnsGetIpByConn s.conns conn with
  | none =>
    refine Or.inl ⟨rfl, ?_⟩
    unfold processGranted
    rw [hip]
  | some ip =>
    refine Or.inr ?_
    cases hfind : tablaJobsBuscarPorId s.tabla jobId with
    | none =>
      refine Or.inl ⟨ip, rfl, fun j hj hid => ?_, ?_⟩
      · rw [TablaJobs.buscarPorId_eq _ hpos] at hfind
        exact List.find?_eq_none.mp hfind j hj (beq_iff_eq.mpr hid)
      · unfold processGranted
        rw [hip, hfind]
    | some job =>
      have hfind' := hfind
      rw [TablaJobs.buscarPorId_eq _ hpos] at hfind'
      have hjob : job ∈ s.jobs := List.mem_of_find?_eq_some hfind'
      have hid : job.jobId = jobId := eq_of_beq
        (List.find?_some (p := fun j : Job => j.jobId == jobId) hfind')
      have hafter : tablaJobsBuscarPorId (tablaJobsJobConfirmar s.tabla ip jobId) jobId
          = some (jobConfirmar job ip jobId).2 := by
        rw [TablaJobs.buscarPorId_jobConfirmar, if_pos rfl, hfind, Option.map_some]
      have hverificar : tablaJobsVerificar (tablaJobsJobConfirmar s.tabla ip jobId) jobId
          = (jobConfirmar job ip jobId).2.complete := congrArg (Option.any _) hafter
      have hjobs := TablaJobs.jobs_jobConfirmar s.tabla hpos ip
      refine Or.inr ⟨ip, rfl, job, hjob, hid, ?_⟩
      unfold processGranted
      rw [hip, hfind]
      dsimp only
      rw [Manager.tabla_setTabla, hverificar]
      have hid' : (jobConfirmar job ip jobId).2.jobId = jobId := by
        unfold jobConfirmar
        split <;> exact hid
      cases (jobConfirmar job ip jobId).1
      · exact ⟨rfl, rfl, rfl, hjobs, (List.append_nil _).symm⟩
      · rw [Bool.true_and, if_pos rfl]
        unfold Job.told
        split
        · refine ⟨rfl, rfl, rfl, hjobs, ?_⟩
          rw [log_sendJobGranted, Manager.tabla_setTabla, hafter, hid', List.append_assoc]
          rfl
        · exact ⟨rfl, rfl, rfl, hjobs, (List.append_nil _).symm⟩

/-! ## The end of `JOB_REQUEST` -/

section Insert

variable (s : Manager) (t : Resource) (job : Job) (requests : List ResourceRequest)

@[simp] theorem recursos_insertJob : (insertJob job requests s).recursos = s.recursos := by
  unfold insertJob
  dsimp only
  split <;> rfl

@[simp] theorem cola_insertJob : (insertJob job requests s).cola t = s.cola t := by
  unfold Manager.cola
  rw [recursos_insertJob]

@[simp] theorem available_insertJob : (insertJob job requests s).available t = s.available t := by
  unfold Manager.available
  rw [recursos_insertJob]

@[simp] theorem total_insertJob : (insertJob job requests s).total t = s.total t := by
  unfold Manager.total
  rw [recursos_insertJob]

@[simp] theorem conns_insertJob : (insertJob job requests s).conns = s.conns := by
  unfold insertJob
  dsimp only
  split <;> rfl

@[simp] theorem ip_insertJob : (insertJob job requests s).ip = s.ip := by
  unfold insertJob
  dsimp only
  split <;> rfl

@[simp] theorem tabla_insertJob :
    (insertJob job requests s).tabla = tablaJobsInsertarJob s.tabla job := by
  unfold insertJob
  dsimp only
  split <;> rfl

variable {s job}

theorem jobs_insertJob_perm (hpos : 0 ≤ job.jobId) :
    (insertJob job requests s).jobs.Perm (job :: s.jobs) := by
  unfold Manager.jobs
  rw [tabla_insertJob]
  exact TablaJobs.jobs_insertarJob_perm s.tabla hpos

/-- **The new job is told at once if it is complete.** -/
theorem log_insertJob (hd : Distinct s.jobs) (hpos : 0 ≤ job.jobId)
    (hfresh : ∀ j ∈ s.jobs, j.jobId ≠ job.jobId) :
    (insertJob job requests s).log
      = s.log ++ [.inserted job requests] ++ job.told job.conn := by
  have hperm := TablaJobs.jobs_insertarJob_perm s.tabla hpos
  have hfind : tablaJobsBuscarPorId (tablaJobsInsertarJob s.tabla job) job.jobId = some job := by
    rw [TablaJobs.buscarPorId_eq _ hpos]
    exact ((hd.cons hpos hfresh).perm hperm).find_eq
      (hperm.mem_iff.mpr List.mem_cons_self)
  have hverificar : tablaJobsVerificar (tablaJobsInsertarJob s.tabla job) job.jobId
      = job.complete := congrArg (Option.any _) hfind
  unfold insertJob Job.told
  dsimp only
  rw [Manager.tabla_emit, Manager.tabla_setTabla, hverificar]
  split
  · rw [log_sendJobGranted, Manager.tabla_emit, Manager.tabla_setTabla, hfind,
      List.append_assoc]
    rfl
  · exact (List.append_nil _).symm

end Insert

/-! ## A connection that comes up -/

section Ready

variable (s : Manager) (conn : Conn) (t : Resource)

/-- Every pending request of the connection is sent, in the order of the list,
and nothing but the connection table changes. -/
theorem foldl_readyRequest (lista : List OutRequest) :
    ∃ conns, lista.foldl (fun s req => readyRequest conn req s) s
      = { s with
          conns := conns
          log := s.log ++ lista.map (fun req => .tx conn (req.msg.getD .garbage)) } := by
  induction lista generalizing s with
  | nil => exact ⟨s.conns, by rw [List.map_nil, List.append_nil]; rfl⟩
  | cons req lista ih =>
    obtain ⟨conns, heq⟩ := ih (readyRequest conn req s)
    refine ⟨conns, heq.trans ?_⟩
    rw [List.map_cons, List.append_cons]
    rfl

theorem processConnectionReady_eq :
    ∃ conns, processConnectionReady conn s
      = { s with
          conns := conns
          log := s.log ++ (tablaJobsGetPendientesByConn s.tabla conn).map
            (fun req => .tx conn (req.msg.getD .garbage)) } :=
  foldl_readyRequest s conn _

/-- The requests that a connection coming up finds. -/
theorem mem_getPendientesByConn {t : TablaJobs} {conn : Conn} {req : OutRequest}
    (h : req ∈ tablaJobsGetPendientesByConn t conn) :
    ∃ j ∈ t.jobs, ∃ o ∈ j.pendientes, o.conn = conn ∧ req.msg = o.msg := by
  unfold tablaJobsGetPendientesByConn at h
  obtain ⟨j, hj, hreq⟩ := List.mem_flatMap.mp (List.mem_reverse.mp h)
  obtain ⟨o, ho, rfl⟩ := List.mem_map.mp hreq
  obtain ⟨ho, hconn⟩ := List.mem_filter.mp ho
  exact ⟨j, hj, o, ho, eq_of_beq hconn, rfl⟩

end Ready

end Hpc
