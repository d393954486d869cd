import HpcAgent.Types

/-!
# The job table

`tabla_jobs.c`, the functions that only touch the table. The table is a
bucketed table over the bucket `job_id % TAM_TABLA_JOBS`, computed as the
machine does: the signed remainder, then the conversion to `unsigned`. The
functions that also release resources are with the resource manager.

Each function walks one bucket; `jobs` chains the buckets of the array, and
the lemmas of the last section say what the walk does to that list, for an id
whose bucket exists.
-/

namespace Hpc

/-- `TAM_TABLA_JOBS`. -/
def TAM_TABLA_JOBS : ℕ := 71

/-- `unsigned idx = job_id % TAM_TABLA_JOBS`. -/
def bucketOf (jobId : Int32) : ℕ := (jobId % 71).toUInt32.toNat

/-- `TablaJobs`: every job is in the bucket of its id. -/
abbrev TablaJobs := Buckets Job (fun j => bucketOf j.jobId)

/-- `tabla_jobs_init`. -/
def tablaJobsInit : TablaJobs := Buckets.empty

/-- The jobs of the array, in the order a walk over the buckets meets them. -/
def TablaJobs.jobs (t : TablaJobs) : List Job := t.toList TAM_TABLA_JOBS

/-- `crear_outrequest`; `none` is the call with a null `msg`. -/
def crearOutrequest (ip : CString) (conn : Conn) (type : Resource) (amount : Int32)
    (msg : Option Message) : OutRequest :=
  { ip := copyTo 15 ip, conn := conn, tipo := type, amount := amount, msg := msg }

/-- `crear_allocation`. -/
def crearAllocation (type : Resource) (amount : Int32) (allocType : AllocType)
    (ip : CString) (jobId : Int32) (result : Result) (conn : Conn) : Allocation :=
  { name := type, amount := amount, type := allocType, ip := copyTo 16 ip,
    jobId := jobId, result := result, conn := conn }

/-- The test of `tabla_jobs_verificar`: nothing queued here, nothing
unanswered elsewhere. -/
def Job.complete (j : Job) : Bool :=
  !j.confirmadas.any (fun s => s.type == .localAlloc && s.result == .queued)
    && j.pendientes.isEmpty

/-- `tabla_jobs_buscar_por_id`. -/
def tablaJobsBuscarPorId (t : TablaJobs) (jobId : Int32) : Option Job :=
  (t.bucket (bucketOf jobId)).find? (fun j => j.jobId == jobId)

/-- `tabla_jobs_get_conn`. -/
def tablaJobsGetConn (t : TablaJobs) (jobId : Int32) : Option Conn :=
  ((t.bucket (bucketOf jobId)).find? (fun j => j.jobId == jobId)).map (·.conn)

/-- `tabla_jobs_verificar`. -/
def tablaJobsVerificar (t : TablaJobs) (jobId : Int32) : Bool :=
  ((t.bucket (bucketOf jobId)).find? (fun j => j.jobId == jobId)).any (·.complete)

/-- `tabla_jobs_insertar_job`. -/
def tablaJobsInsertarJob (t : TablaJobs) (j : Job) : TablaJobs := t.cons j

/-- `tabla_jobs_extract_by_id`: the job, unlinked, and the table without it. -/
def tablaJobsExtractById (t : TablaJobs) (jobId : Int32) : Option Job × TablaJobs :=
  ((t.bucket (bucketOf jobId)).find? (fun j => j.jobId == jobId),
    t.eraseFirst (bucketOf jobId) (fun j => j.jobId == jobId))

/-- The walk of `tabla_jobs_cambio_alloc` over the allocations of a job: the
first local one of that connection and type is marked as granted. -/
def Job.markGranted (conn : Conn) (tipo : Resource) (j : Job) : Job :=
  { j with
    confirmadas := j.confirmadas.modifyFirst
      (fun a => a.type == .localAlloc && a.conn == conn && a.name == tipo)
      (fun a => { a with result := .granted }) }

/-- `tabla_jobs_cambio_alloc`. -/
def tablaJobsCambioAlloc (t : TablaJobs) (jobId : Int32) (conn : Conn)
    (tipo : Resource) : TablaJobs :=
  t.modifyFirst (bucketOf jobId) (fun j => j.jobId == jobId)
    (Job.markGranted conn tipo) (fun _ => rfl)

/-- Without an allocation to mark nothing changes. -/
theorem tablaJobsCambioAlloc_eq_self {t : TablaJobs} {jobId : Int32} {conn : Conn}
    {tipo : Resource} (h : ∀ job ∈ tablaJobsBuscarPorId t jobId, ∀ a ∈ job.confirmadas,
      (a.type == .localAlloc && a.conn == conn && a.name == tipo) = false) :
    tablaJobsCambioAlloc t jobId conn tipo = t := by
  refine Buckets.modifyFirst_eq_self (fun job hjob => ?_)
  unfold Job.markGranted
  rw [List.modifyFirst_of_forall_not (h job hjob)]

/-- `job_confirmar`: the first request of the list with that address becomes a
remote allocation; the flag says whether there was one. -/
def jobConfirmar (job : Job) (ip : CString) (jobId : Int32) : Bool × Job :=
  match job.pendientes.find? (fun sal => sal.ip == ip) with
  | none => (false, job)
  | some sal => (true, { job with
      pendientes := job.pendientes.eraseP (fun sal => sal.ip == ip)
      confirmadas := crearAllocation sal.tipo sal.amount .remoteAlloc sal.ip jobId
        .granted sal.conn :: job.confirmadas })

/-- `job_confirmar` on the job of the table, in place. -/
def tablaJobsJobConfirmar (t : TablaJobs) (ip : CString) (jobId : Int32) : TablaJobs :=
  t.modifyFirst (bucketOf jobId) (fun j => j.jobId == jobId)
    (fun j => (jobConfirmar j ip jobId).2)
    (fun j => by unfold jobConfirmar; split <;> rfl)

/-- `tabla_jobs_get_pendientes_by_conn`: copies of the requests waiting for
that connection, the last one met first. -/
def tablaJobsGetPendientesByConn (t : TablaJobs) (conn : Conn) : List OutRequest :=
  (t.jobs.flatMap (fun j => (j.pendientes.filter (fun req => req.conn == conn)).map
    (fun req => crearOutrequest req.ip req.conn req.tipo req.amount req.msg))).reverse

/-! ## Extraction by connection -/

/-- The first step of `tabla_jobs_extract_by_remote_conn` on a job: its remote
allocations on the connection are unlinked. -/
def Job.dropRemote (conn : Conn) (j : Job) : Job :=
  { j with
    confirmadas := j.confirmadas.filter
      (fun a => !(a.type == .remoteAlloc && a.conn == conn)) }

/-- The second step: whether what is left of the job is taken out of the
table. -/
def Job.affected (conn : Conn) (j : Job) : Bool :=
  (j.conn == conn || j.pendientes.any (fun out => out.conn == conn))
    || (j.confirmadas.isEmpty && j.pendientes.isEmpty)

/-- The walk over one bucket: the chain that stays, and the extracted jobs put
one by one in front of those extracted before. -/
def extractBucket (conn : Conn) : List Job → List Job → List Job × List Job
  | [], extraidos => ([], extraidos)
  | j :: js, extraidos =>
    if (j.dropRemote conn).affected conn then
      extractBucket conn js (j.dropRemote conn :: extraidos)
    else
      (j.dropRemote conn :: (extractBucket conn js extraidos).1,
        (extractBucket conn js extraidos).2)

/-- What the walk over one bucket leaves and what it extracts. -/
theorem extractBucket_eq (conn : Conn) (l extraidos : List Job) :
    extractBucket conn l extraidos
      = ((l.map (Job.dropRemote conn)).filter (fun j => !j.affected conn),
        ((l.map (Job.dropRemote conn)).filter (Job.affected conn)).reverse
          ++ extraidos) := by
  induction l generalizing extraidos with
  | nil => rfl
  | cons j l ih =>
    rw [extractBucket]
    split
    · next h =>
      rw [ih, List.map_cons, List.filter_cons_of_neg (by simp [h]),
        List.filter_cons_of_pos h]
      simp
    · next h =>
      rw [ih, List.map_cons, List.filter_cons_of_pos (by simp [h]),
        List.filter_cons_of_neg h]

/-- `tabla_jobs_extract_by_remote_conn`: the extracted jobs and the table that
stays. -/
def tablaJobsExtractByRemoteConn (t : TablaJobs) (conn : Conn) :
    List Job × TablaJobs :=
  ((List.range TAM_TABLA_JOBS).foldl
      (fun extraidos idx => (extractBucket conn (t.bucket idx) extraidos).2) [],
    t.mapBuckets
      (fun idx l => if idx < TAM_TABLA_JOBS then (extractBucket conn l []).1 else l)
      (fun i l hl a ha => by
        split at ha
        · rw [extractBucket_eq, List.mem_filter, List.mem_map] at ha
          obtain ⟨⟨j, hj, rfl⟩, -⟩ := ha
          exact hl j hj
        · exact hl a ha))

/-! ## The table as the list of its jobs -/

/-- A non-negative id has a bucket of the array. -/
theorem bucketOf_lt {jobId : Int32} (h : 0 ≤ jobId) : bucketOf jobId < TAM_TABLA_JOBS := by
  have h0 : 0 ≤ jobId.toInt := by simpa [Int32.le_iff_toInt_le] using h
  have h71 : (jobId % 71).toInt = jobId.toInt % 71 := by
    rw [Int32.toInt_mod, Int.tmod_eq_emod_of_nonneg h0]
    rfl
  have hr : 0 ≤ jobId % 71 := by
    rw [Int32.le_iff_toInt_le, h71]
    exact Int.emod_nonneg _ (by decide)
  have hlt : jobId.toInt % 71 < 71 := Int.emod_lt_of_pos _ (by decide)
  unfold bucketOf TAM_TABLA_JOBS
  rw [Int32.toNat_toUInt32_of_le hr]
  unfold Int32.toNatClampNeg
  omega

namespace TablaJobs

/-- A job looked up after a change in place is the job, changed if it is the
one the change is about. -/
theorem buscarPorId_modifyFirst (t : TablaJobs) (jobId id : Int32) (f : Job → Job)
    (hf : ∀ j : Job, (f j).jobId = j.jobId) :
    tablaJobsBuscarPorId (t.modifyFirst (bucketOf jobId) (fun j => j.jobId == jobId) f
        (fun j => congrArg bucketOf (hf j))) id
      = if id = jobId then (tablaJobsBuscarPorId t id).map f
        else tablaJobsBuscarPorId t id := by
  unfold tablaJobsBuscarPorId
  show (Function.update t.bucket _ _ _).find? _ = _
  by_cases hid : id = jobId
  · rw [hid, Function.update_self, if_pos rfl,
      List.find?_modifyFirst_self (fun j hj => by rw [hf, hj])]
  · rw [if_neg hid, Function.update_apply]
    split
    · next hbucket =>
      rw [hbucket, List.find?_modifyFirst_of_disjoint]
      intro j hj
      have hj : j.jobId ≠ id := fun h => hid (h.symm.trans (eq_of_beq hj))
      exact ⟨beq_false_of_ne hj, beq_false_of_ne (by rw [hf]; exact hj)⟩
    · rfl

theorem buscarPorId_cambioAlloc (t : TablaJobs) (jobId id : Int32) (conn : Conn)
    (tipo : Resource) :
    tablaJobsBuscarPorId (tablaJobsCambioAlloc t jobId conn tipo) id
      = if id = jobId then (tablaJobsBuscarPorId t id).map (Job.markGranted conn tipo)
        else tablaJobsBuscarPorId t id :=
  buscarPorId_modifyFirst t jobId id (Job.markGranted conn tipo) (fun _ => rfl)

theorem buscarPorId_jobConfirmar (t : TablaJobs) (jobId id : Int32) (ip : CString) :
    tablaJobsBuscarPorId (tablaJobsJobConfirmar t ip jobId) id
      = if id = jobId then
          (tablaJobsBuscarPorId t id).map (fun j => (jobConfirmar j ip jobId).2)
        else tablaJobsBuscarPorId t id :=
  buscarPorId_modifyFirst t jobId id (fun j => (jobConfirmar j ip jobId).2)
    (fun j => by unfold jobConfirmar; split <;> rfl)

/-- What holds of all jobs holds of the one looked up. -/
theorem forall_buscarPorId {Q : Job → Prop} {t : TablaJobs} (h : t.Forall Q)
    {jobId : Int32} {job : Job} (hfind : tablaJobsBuscarPorId t jobId = some job) :
    Q job :=
  Buckets.Forall.find h hfind

/-- A predicate a change in place preserves holds of all jobs after it. -/
theorem forall_cambioAlloc {Q : Job → Prop} {t : TablaJobs} (h : t.Forall Q)
    {jobId : Int32} {conn : Conn} {tipo : Resource}
    (hQ : ∀ j, Q j → Q (j.markGranted conn tipo)) :
    (tablaJobsCambioAlloc t jobId conn tipo).Forall Q :=
  Buckets.Forall.modifyFirst (f := Job.markGranted conn tipo) h hQ

theorem forall_jobConfirmar {Q : Job → Prop} {t : TablaJobs} (h : t.Forall Q)
    {jobId : Int32} {ip : CString} (hQ : ∀ j, Q j → Q (jobConfirmar j ip jobId).2) :
    (tablaJobsJobConfirmar t ip jobId).Forall Q :=
  Buckets.Forall.modifyFirst (f := fun j => (jobConfirmar j ip jobId).2) h hQ

theorem forall_extractById {Q : Job → Prop} {t : TablaJobs} (h : t.Forall Q)
    (jobId : Int32) : Buckets.Forall Q (tablaJobsExtractById t jobId).2 :=
  Buckets.Forall.eraseFirst h

/-- An id pins its bucket. -/
theorem bucketOf_of_beq {jobId : Int32} (j : Job) (h : (j.jobId == jobId) = true) :
    bucketOf j.jobId = bucketOf jobId := by
  rw [eq_of_beq h]

variable {jobId : Int32} (t : TablaJobs)

@[simp] theorem jobs_init : TablaJobs.jobs tablaJobsInit = [] :=
  Buckets.toList_empty _

theorem buscarPorId_eq (h : 0 ≤ jobId) :
    tablaJobsBuscarPorId t jobId = t.jobs.find? (fun j => j.jobId == jobId) :=
  (Buckets.find?_toList (bucketOf_lt h) bucketOf_of_beq t).symm

theorem verificar_eq (h : 0 ≤ jobId) :
    tablaJobsVerificar t jobId
      = (t.jobs.find? (fun j => j.jobId == jobId)).any (·.complete) :=
  congrArg (Option.any _) (buscarPorId_eq t h)

theorem jobs_cambioAlloc (h : 0 ≤ jobId) (conn : Conn) (tipo : Resource) :
    (tablaJobsCambioAlloc t jobId conn tipo).jobs
      = t.jobs.modifyFirst (fun j => j.jobId == jobId) (Job.markGranted conn tipo) :=
  Buckets.toList_modifyFirst (bucketOf_lt h) bucketOf_of_beq _ _ t

theorem jobs_jobConfirmar (h : 0 ≤ jobId) (ip : CString) :
    (tablaJobsJobConfirmar t ip jobId).jobs
      = t.jobs.modifyFirst (fun j => j.jobId == jobId)
        (fun j => (jobConfirmar j ip jobId).2) :=
  Buckets.toList_modifyFirst (bucketOf_lt h) bucketOf_of_beq _ _ t

theorem jobs_extractById (h : 0 ≤ jobId) :
    TablaJobs.jobs (tablaJobsExtractById t jobId).2
      = t.jobs.eraseP (fun j => j.jobId == jobId) :=
  Buckets.toList_eraseFirst (bucketOf_lt h) bucketOf_of_beq t

theorem jobs_insertarJob_perm {j : Job} (h : 0 ≤ j.jobId) :
    (tablaJobsInsertarJob t j).jobs.Perm (j :: t.jobs) :=
  Buckets.toList_cons_perm t (a := j) (bucketOf_lt h)

/-- **What extraction by connection leaves in the table**: the jobs it does
not affect, without their remote allocations on the connection, in order. -/
theorem jobs_extractByRemoteConn (conn : Conn) :
    TablaJobs.jobs (tablaJobsExtractByRemoteConn t conn).2
      = (t.jobs.map (Job.dropRemote conn)).filter (fun j => !j.affected conn) := by
  unfold TablaJobs.jobs Buckets.toList tablaJobsExtractByRemoteConn
  rw [List.map_flatMap, List.filter_flatMap]
  refine List.flatMap_congr (fun idx hidx => ?_)
  simp only [Buckets.mapBuckets, if_pos (List.mem_range.mp hidx), extractBucket_eq]

/-- **What extraction by connection returns**: the affected jobs, the last one
met first. -/
theorem extractByRemoteConn_fst (conn : Conn) :
    (tablaJobsExtractByRemoteConn t conn).1
      = ((t.jobs.map (Job.dropRemote conn)).filter (Job.affected conn)).reverse := by
  have walk : ∀ (ids : List ℕ) (extraidos : List Job),
      ids.foldl (fun extraidos idx => (extractBucket conn (t.bucket idx) extraidos).2)
          extraidos
        = (((ids.flatMap t.bucket).map (Job.dropRemote conn)).filter
            (Job.affected conn)).reverse ++ extraidos := by
    intro ids
    induction ids with
    | nil => intro extraidos; rfl
    | cons i ids ih =>
      intro extraidos
      rw [List.foldl_cons, ih, extractBucket_eq, List.flatMap_cons, List.map_append,
        List.filter_append, List.reverse_append, List.append_assoc]
  exact (walk _ _).trans (List.append_nil _)

/-! ## Tables without repeated ids -/

/-- The ids of the jobs are distinct and their buckets exist. -/
structure Distinct (l : List Job) : Prop where
  nodup : (l.map (·.jobId)).Nodup
  nonneg : ∀ j ∈ l, 0 ≤ j.jobId

namespace Distinct

variable {l : List Job} {job : Job}

theorem nil : Distinct [] := ⟨List.nodup_nil, fun _ h => absurd h List.not_mem_nil⟩

/-- The id finds the job. -/
theorem find_eq (h : Distinct l) (hj : job ∈ l) :
    l.find? (fun j => j.jobId == job.jobId) = some job := by
  obtain ⟨A, B, rfl⟩ := List.append_of_mem hj
  have hnd := h.nodup
  rw [List.map_append, List.map_cons, List.nodup_middle, List.nodup_cons,
    List.mem_append, not_or] at hnd
  have hA : A.find? (fun j => j.jobId == job.jobId) = none :=
    List.find?_eq_none.mpr (fun j hj hid =>
      hnd.1.1 (List.mem_map.mpr ⟨j, hj, eq_of_beq hid⟩))
  have hjob : (job :: B).find? (fun j => j.jobId == job.jobId) = some job :=
    List.find?_cons_of_pos (beq_iff_eq.mpr rfl)
  rw [List.find?_append, hA, hjob, Option.none_or]

theorem eq_of_jobId (h : Distinct l) {j : Job} (hj : j ∈ l) (hjob : job ∈ l)
    (hid : j.jobId = job.jobId) : j = job := by
  have hfind := h.find_eq hj
  rw [hid, h.find_eq hjob] at hfind
  exact (Option.some.inj hfind).symm

theorem sublist (h : Distinct l) {l' : List Job} (hs : l'.Sublist l) : Distinct l' :=
  ⟨h.nodup.sublist (hs.map _), fun j hj => h.nonneg j (hs.subset hj)⟩

theorem perm (h : Distinct l) {l' : List Job} (hp : l'.Perm l) : Distinct l' :=
  ⟨(hp.map _).nodup_iff.mpr h.nodup, fun j hj => h.nonneg j (hp.mem_iff.mp hj)⟩

theorem cons (h : Distinct l) (hpos : 0 ≤ job.jobId) (hnew : ∀ j ∈ l, j.jobId ≠ job.jobId) :
    Distinct (job :: l) := by
  refine ⟨?_, List.forall_mem_cons.mpr ⟨hpos, h.nonneg⟩⟩
  rw [List.map_cons, List.nodup_cons]
  refine ⟨fun hmem => ?_, h.nodup⟩
  obtain ⟨j, hj, hid⟩ := List.mem_map.mp hmem
  exact hnew j hj hid

/-- A change of the jobs that keeps their ids keeps them distinct. -/
theorem of_map_eq (h : Distinct l) {l' : List Job}
    (hmap : l'.map (·.jobId) = l.map (·.jobId)) : Distinct l' := by
  refine ⟨hmap ▸ h.nodup, fun j hj => ?_⟩
  have hmem : j.jobId ∈ l'.map (·.jobId) := List.mem_map_of_mem hj
  rw [hmap] at hmem
  obtain ⟨i, hi, hid⟩ := List.mem_map.mp hmem
  exact hid ▸ h.nonneg i hi

theorem modifyFirst (h : Distinct l) {p : Job → Bool} {f : Job → Job}
    (hf : ∀ j, (f j).jobId = j.jobId) : Distinct (l.modifyFirst p f) :=
  h.of_map_eq (List.map_modifyFirst_of_eq _ (fun j _ => hf j) l)

/-- **What a change of the job with an id leaves**: the other jobs, and the
changed one. -/
theorem mem_modifyFirst (h : Distinct l) {jobId : Int32} {f : Job → Job}
    (hf : ∀ j, (f j).jobId = j.jobId)
    (hj : job ∈ l.modifyFirst (fun j => j.jobId == jobId) f) :
    (job ∈ l ∧ job.jobId ≠ jobId) ∨ ∃ j ∈ l, j.jobId = jobId ∧ job = f j := by
  by_cases hid : job.jobId = jobId
  · refine Or.inr ?_
    rcases List.mem_of_mem_modifyFirst hj with hmem | ⟨j, hmem, hp, rfl⟩
    · have hfind := (h.modifyFirst (p := fun j => j.jobId == jobId) hf).find_eq hj
      rw [hid, List.find?_modifyFirst_self (fun j hj => by rw [hf, hj])] at hfind
      obtain ⟨j, hfound, rfl⟩ := Option.map_eq_some_iff.mp hfind
      have hp : (j.jobId == jobId) = true :=
        List.find?_some (p := fun j : Job => j.jobId == jobId) hfound
      exact ⟨j, List.mem_of_find?_eq_some hfound, eq_of_beq hp, rfl⟩
    · exact ⟨j, hmem, eq_of_beq hp, rfl⟩
  · refine Or.inl ⟨?_, hid⟩
    rcases List.mem_of_mem_modifyFirst hj with hmem | ⟨j, hmem, hp, rfl⟩
    · exact hmem
    · exact absurd ((hf j).trans (eq_of_beq hp)) hid

/-- **What unlinking the job with an id leaves**: the other jobs. -/
theorem mem_eraseP (h : Distinct l) {jobId : Int32}
    (hj : job ∈ l.eraseP (fun j => j.jobId == jobId)) :
    job ∈ l ∧ job.jobId ≠ jobId := by
  refine ⟨List.mem_of_mem_eraseP hj, fun hid => ?_⟩
  cases hfind : l.find? (fun j => j.jobId == jobId) with
  | none =>
    have hnone := List.find?_eq_none.mp hfind job (List.mem_of_mem_eraseP hj)
    exact hnone (beq_iff_eq.mpr hid)
  | some j =>
    obtain ⟨A, B, rfl, hp, -, herase, -⟩ := List.find?_split hfind
    rw [herase] at hj
    have hnd := h.nodup
    rw [List.map_append, List.map_cons, List.nodup_middle, List.nodup_cons,
      ← List.map_append] at hnd
    exact hnd.1 (List.mem_map.mpr ⟨job, hj, hid.trans (eq_of_beq hp).symm⟩)

end Distinct

end TablaJobs

end Hpc
