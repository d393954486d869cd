import HpcAgent.Marks

/-!
# The job table as a finite map

A job is in the bucket of its id and the only one with it, so the functions of
`tabla_jobs.c` that look up an id all meet the same job, and taking it out leaves
the others where they are.

`tabla_jobs_remove` also releases what the job held, and a release serves the
queues: jobs that wait there may have allocations marked as granted afterwards.
What it does to the other jobs is exactly that (`Job.Marcado`), and to a job that
waits in no queue it does nothing (`Manager.SinCola`).
-/

namespace Hpc

/-- The ids of the lines are not negative. -/
def NoNegativas (_ : Manager) : Call → Prop
  | .message _ msg _ => ∀ m, parseMessage msg = some m → ∀ jobId ∈ m.jobId?, 0 ≤ jobId
  | _ => True

instance (s : Manager) (call : Call) : Decidable (NoNegativas s call) :=
  match call with
  | .message _ msg _ => decidable_of_iff
      ((parseMessage msg).all (fun m => m.jobId?.all (fun jobId => decide (0 ≤ jobId))) = true)
      (by simp [NoNegativas, Option.all_eq_true])
  | .ready _ | .failed _ | .disconnect _ | .announce .. | .purge .. => isTrue trivial

/-- The bucket of a non-negative id, as a number. -/
theorem cast_bucketOf {jobId : Int32} (h : 0 ≤ jobId) :
    (bucketOf jobId : ℤ) = jobId.toInt % 71 := by
  have h0 : 0 ≤ jobId.toInt := by simpa [Int32.le_iff_toInt_le] using h
  have h71 : (jobId % 71).toInt = jobId.toInt % 71 := by
    rw [Int32.toInt_mod, Int.tmod_eq_emod_of_nonneg h0]
    rfl
  have hr : 0 ≤ jobId % 71 := by
    rw [Int32.le_iff_toInt_le, h71]
    exact Int.emod_nonneg _ (by decide)
  have hpos : 0 ≤ jobId.toInt % 71 := Int.emod_nonneg _ (by decide)
  unfold bucketOf
  rw [Int32.toNat_toUInt32_of_le hr]
  unfold Int32.toNatClampNeg
  omega

/-- **Every job of a run has a bucket of the array.** -/
theorem nonneg_of_reaches {cpu mem gpu : Int32} {ip : CString} {s : Manager}
    (hrun : Reaches Manager.step NoNegativas (managerInit cpu mem gpu ip) s) :
    Buckets.Forall (fun j => 0 ≤ j.jobId) s.tabla := by
  refine hrun.invariant (I := fun u => Buckets.Forall (fun j => 0 ≤ j.jobId) u.tabla)
    (fun _ _ h => absurd h List.not_mem_nil) (fun u call v hu hok hstep => ?_)
  obtain rfl := Option.some.inj hstep
  refine forall_run (fun j j' hj h => ?_) (fun _ _ h => h)
    (fun conn msg red jobId requests u' hcall hparse => ?_) hu
  · rw [hj.jobId]
    exact h
  · subst hcall
    rw [(tabla_requestLoop requests red ⟨jobId, conn, [], []⟩ u').2]
    exact hok _ hparse jobId rfl

/-! ## Jobs that wait in no queue -/

/-- No queue has an entry of the job. -/
def Manager.SinCola (s : Manager) (i : Int32) : Prop := ∀ t, ∀ p ∈ s.cola t, p.jobId ≠ i

namespace Manager.SinCola

variable {s s' : Manager} {i : Int32}

theorem sirve (h : s.SinCola i) (hs : s.Sirve s') : s'.SinCola i :=
  fun t p hp => h t p ((hs.cola t).subset hp)

/-- **A release does not touch the job.** -/
theorem releaseResource (h : s.SinCola i) (tipo : Resource) (amount : Int32) :
    tablaJobsBuscarPorId (releaseResource tipo amount s).tabla i
      = tablaJobsBuscarPorId s.tabla i := by
  rw [releaseResource_eq]
  split
  · have hround : ∀ (u : Manager) (top : PendingRequest) (rest : List PendingRequest),
        u.cola tipo = top :: rest → top.amount ≤ u.available tipo →
        (u.SinCola i ∧ tablaJobsBuscarPorId u.tabla i = tablaJobsBuscarPorId s.tabla i) →
        (dequeueTop tipo top u).SinCola i
          ∧ tablaJobsBuscarPorId (dequeueTop tipo top u).tabla i
            = tablaJobsBuscarPorId s.tabla i := by
      rintro u top rest hc - ⟨hu, hsame⟩
      have htop : i ≠ top.jobId := (hu tipo top (hc ▸ List.mem_cons_self)).symm
      refine ⟨hu.sirve (Manager.Sirve.dequeueTop hc), ?_⟩
      have htabla : (dequeueTop tipo top u).tabla
          = tablaJobsCambioAlloc u.tabla top.jobId top.ownerConn tipo := by
        rw [dequeueTop_eq, tabla_answerTop]
        rfl
      rw [htabla, TablaJobs.buscarPorId_cambioAlloc, if_neg htop, hsame]
    have hgive : (giveUnits tipo amount s).SinCola i := fun t p hp =>
      h t p (cola_giveUnits s t tipo amount ▸ hp)
    exact (serveQueue_invariant (P := fun u => u.SinCola i
      ∧ tablaJobsBuscarPorId u.tabla i = tablaJobsBuscarPorId s.tabla i) hround _ _
      ⟨hgive, rfl⟩).2
  · rfl

theorem freeAllocation (h : s.SinCola i) (jobId : Int32) (a : Allocation) :
    tablaJobsBuscarPorId (freeAllocation jobId a s).tabla i = tablaJobsBuscarPorId s.tabla i := by
  unfold Hpc.freeAllocation
  split
  · have hemit : (s.emit (.giveBack a.name a.request)).SinCola i := h
    exact hemit.releaseResource a.name a.amount
  · split
    · split
      · rfl
      · rfl
    · rfl

theorem freeAllocations (h : s.SinCola i) (jobId : Int32) (allocs : List Allocation) :
    tablaJobsBuscarPorId (freeAllocations jobId allocs s).tabla i
      = tablaJobsBuscarPorId s.tabla i := by
  unfold Hpc.freeAllocations
  induction allocs generalizing s with
  | nil => rfl
  | cons a allocs ih =>
    rw [List.foldl_cons, ih (h.sirve (Manager.Sirve.freeAllocation jobId a s)),
      h.freeAllocation jobId a]

/-- **`tabla_jobs_remove` of another job does not touch it.** -/
theorem tablaJobsRemove (h : s.SinCola i) {jobId : Int32} (hne : i ≠ jobId) :
    tablaJobsBuscarPorId (tablaJobsRemove jobId s).tabla i = tablaJobsBuscarPorId s.tabla i := by
  cases hfind : tablaJobsBuscarPorId s.tabla jobId with
  | none => rw [tablaJobsRemove_of_none hfind]
  | some job =>
    have hsin : (s.sinJob jobId).SinCola i := h
    rw [tablaJobsRemove_of_some hfind]
    exact (hsin.freeAllocations jobId job.confirmadas).trans
      (buscarPorId_extractById_of_ne s.tabla hne)

end Manager.SinCola

/-! ## The lookups -/

/-- No lookup finds a job with this id. -/
def TablaJobs.NoEsta (t : TablaJobs) (jobId : Int32) : Prop :=
  tablaJobsBuscarPorId t jobId = none ∧ tablaJobsGetConn t jobId = none
    ∧ tablaJobsVerificar t jobId = false ∧ (tablaJobsExtractById t jobId).1 = none

theorem TablaJobs.noEsta_of_none {t : TablaJobs} {jobId : Int32}
    (h : tablaJobsBuscarPorId t jobId = none) : t.NoEsta jobId := by
  refine ⟨h, ?_, ?_, h⟩
  · show (tablaJobsBuscarPorId t jobId).map _ = none
    rw [h, Option.map_none]
  · show (tablaJobsBuscarPorId t jobId).any _ = false
    rw [h, Option.any_none]

/-- No id is twice in the array. -/
theorem TablaJobs.Unicos.nodup_jobs {t : TablaJobs} (h : t.Unicos) :
    (t.jobs.map (·.jobId)).Nodup := by
  unfold TablaJobs.jobs Buckets.toList
  rw [List.map_flatMap]
  refine List.nodup_flatMap.mpr ⟨fun i _ => h i, ?_⟩
  refine List.Nodup.pairwise_of_forall_ne List.nodup_range (fun i _ k _ hik => ?_)
  intro jobId hi hk
  obtain ⟨j, hj, rfl⟩ := List.mem_map.mp hi
  obtain ⟨j', hj', hid⟩ := List.mem_map.mp hk
  refine hik ?_
  rw [← t.idx_of_mem hj, ← t.idx_of_mem hj']
  exact congrArg bucketOf hid.symm

/-- **The job table is a finite map by id.** In every state of a run with non-negative
ids a job is in the bucket `job_id % TAM_TABLA_JOBS` and no two jobs have the same id,
so each lookup finds the job with that id. After `tabla_jobs_extract_by_id` no lookup
finds the id, and every other job is found unchanged; after `tabla_jobs_remove` the
same, but for the local allocations the releases mark as granted, and of a job that
waits in no queue they mark none. -/
theorem jobs_by_id {cpu mem gpu : Int32} {ip : CString} {s : Manager}
    (hrun : Reaches Manager.step NoNegativas (managerInit cpu mem gpu ip) s) :
    (∀ i, ∀ j ∈ s.tabla.bucket i, 0 ≤ j.jobId ∧ i < TAM_TABLA_JOBS ∧ (i : ℤ) = j.jobId.toInt % 71)
      ∧ (s.jobs.map (·.jobId)).Nodup
      ∧ ∀ jobId, 0 ≤ jobId →
        (∀ j, tablaJobsBuscarPorId s.tabla jobId = some j ↔ j ∈ s.jobs ∧ j.jobId = jobId)
        ∧ tablaJobsGetConn s.tabla jobId = (tablaJobsBuscarPorId s.tabla jobId).map (·.conn)
        ∧ tablaJobsVerificar s.tabla jobId = (tablaJobsBuscarPorId s.tabla jobId).any (·.complete)
        ∧ (∀ conn tipo i,
          tablaJobsBuscarPorId (tablaJobsCambioAlloc s.tabla jobId conn tipo) i
            = if i = jobId then (tablaJobsBuscarPorId s.tabla i).map (Job.markGranted conn tipo)
              else tablaJobsBuscarPorId s.tabla i)
        ∧ (tablaJobsExtractById s.tabla jobId).1 = tablaJobsBuscarPorId s.tabla jobId
        ∧ TablaJobs.NoEsta (tablaJobsExtractById s.tabla jobId).2 jobId
        ∧ (∀ i, i ≠ jobId → tablaJobsBuscarPorId (tablaJobsExtractById s.tabla jobId).2 i
          = tablaJobsBuscarPorId s.tabla i)
        ∧ (tablaJobsRemove jobId s).tabla.NoEsta jobId
        ∧ ∀ i, i ≠ jobId →
          Option.Rel Job.Marcado (tablaJobsBuscarPorId s.tabla i)
              (tablaJobsBuscarPorId (tablaJobsRemove jobId s).tabla i)
            ∧ ((∀ t, ∀ p ∈ s.cola t, p.jobId ≠ i) →
              tablaJobsBuscarPorId (tablaJobsRemove jobId s).tabla i
                = tablaJobsBuscarPorId s.tabla i) := by
  have hunicos := unicos_of_reaches hrun
  have hnonneg := nonneg_of_reaches hrun
  have hlt : ∀ i, ∀ j ∈ s.tabla.bucket i, i < TAM_TABLA_JOBS := by
    intro i j hj
    rw [← s.tabla.idx_of_mem hj]
    exact bucketOf_lt (hnonneg i j hj)
  have hfind : ∀ jobId j,
      tablaJobsBuscarPorId s.tabla jobId = some j ↔ j ∈ s.jobs ∧ j.jobId = jobId := by
    intro jobId j
    constructor
    · intro h
      have hj := List.mem_of_find?_eq_some h
      refine ⟨List.mem_flatMap.mpr ⟨_, List.mem_range.mpr (hlt _ j hj), hj⟩, ?_⟩
      exact eq_of_beq (List.find?_some (p := fun j : Job => j.jobId == jobId) h)
    · rintro ⟨hj, rfl⟩
      exact hunicos.buscarPorId_of_mem hj
  refine ⟨fun i j hj => ⟨hnonneg i j hj, hlt i j hj, ?_⟩, ?_, fun jobId _ => ?_⟩
  · rw [← s.tabla.idx_of_mem hj]
    exact cast_bucketOf (hnonneg i j hj)
  · exact hunicos.nodup_jobs
  · have hgone := hunicos.buscarPorId_extractById jobId
    have hothers := fun i (hi : i ≠ jobId) => buscarPorId_extractById_of_ne s.tabla hi
    have hmarks := (Manager.Sirve.tablaJobsRemove jobId s).tabla
    refine ⟨hfind jobId, rfl, rfl,
      fun conn tipo i => TablaJobs.buscarPorId_cambioAlloc s.tabla jobId i conn tipo, rfl,
      TablaJobs.noEsta_of_none hgone, hothers, TablaJobs.noEsta_of_none ?_, fun i hi => ⟨?_, ?_⟩⟩
    · have hrel := hmarks.buscarPorId jobId
      rw [Manager.sinJob, Manager.tabla_setTabla, hgone] at hrel
      generalize tablaJobsBuscarPorId (tablaJobsRemove jobId s).tabla jobId = found at hrel ⊢
      cases hrel
      rfl
    · have hrel := hmarks.buscarPorId i
      rw [Manager.sinJob, Manager.tabla_setTabla, hothers i hi] at hrel
      exact hrel
    · exact fun hcola => Manager.SinCola.tablaJobsRemove hcola hi

/-- Two jobs of one bucket: taking out the one behind leaves the other. -/
theorem jobs_by_id_collision :
    ∃ s, Reaches.trace Manager.step (managerInit 4 0 0 "10.0.0.1".toList)
        [.message 4 "JOB_REQUEST 1 @10.0.0.1:cpu:2".toList [],
          .message 5 "JOB_REQUEST 72 @10.0.0.1:cpu:1".toList []] = some s
      ∧ (s.tabla.bucket 1).map (·.jobId) = [72, 1]
      ∧ (tablaJobsRemove 1 s).tabla.NoEsta 1
      ∧ tablaJobsBuscarPorId (tablaJobsRemove 1 s).tabla 72 = tablaJobsBuscarPorId s.tabla 72 := by
  have hcheck : (Reaches.checked Manager.step (fun s call => decide (NoNegativas s call))
      (managerInit 4 0 0 "10.0.0.1".toList)
      [.message 4 "JOB_REQUEST 1 @10.0.0.1:cpu:2".toList [],
        .message 5 "JOB_REQUEST 72 @10.0.0.1:cpu:1".toList []]).any (fun s =>
      decide ((s.tabla.bucket 1).map (·.jobId) = [72, 1]
        ∧ s.cola .cpu = [] ∧ s.cola .mem = [] ∧ s.cola .gpu = [])) = true := by
    decide +kernel
  obtain ⟨s, htrace, hrun, hs⟩ := Reaches.of_checked (fun _ _ => of_decide_eq_true) hcheck
  obtain ⟨hbucket, hcpu, hmem, hgpu⟩ := of_decide_eq_true hs
  obtain ⟨-, -, hlookups⟩ := jobs_by_id hrun
  obtain ⟨-, -, -, -, -, -, -, hgone, hothers⟩ := hlookups 1 (by decide)
  refine ⟨s, htrace, hbucket, hgone, (hothers 72 (by decide)).2 (fun t p hp => ?_)⟩
  cases t
  · exact absurd hp (hcpu ▸ List.not_mem_nil)
  · exact absurd hp (hmem ▸ List.not_mem_nil)
  · exact absurd hp (hgpu ▸ List.not_mem_nil)

/-- **A job that waits is not the same afterwards**: what `tabla_jobs_remove` releases
is granted to it. -/
theorem tablaJobsRemove_marks :
    ¬ ∀ (cpu mem gpu : Int32) (ip : CString) (s : Manager),
      Reaches Manager.step NoNegativas (managerInit cpu mem gpu ip) s →
      ∀ jobId i, 0 ≤ jobId → i ≠ jobId →
        tablaJobsBuscarPorId (tablaJobsRemove jobId s).tabla i
          = tablaJobsBuscarPorId s.tabla i := by
  intro h
  have hcheck : (Reaches.checked Manager.step (fun s call => decide (NoNegativas s call))
      (managerInit 2 0 0 "10.0.0.1".toList)
      [.message 4 "JOB_REQUEST 1 @10.0.0.1:cpu:2".toList [],
        .message 5 "JOB_REQUEST 2 @10.0.0.1:cpu:1".toList []]).any (fun s =>
      decide (tablaJobsBuscarPorId (tablaJobsRemove 1 s).tabla 2
        ≠ tablaJobsBuscarPorId s.tabla 2)) = true := by
    decide +kernel
  obtain ⟨s, -, hrun, hs⟩ := Reaches.of_checked (fun _ _ => of_decide_eq_true) hcheck
  exact of_decide_eq_true hs (h 2 0 0 _ s hrun 1 2 (by decide) (by decide))

end Hpc
