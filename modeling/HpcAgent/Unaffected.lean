import HpcAgent.Fulfilment
import HpcAgent.Removal

/-!
# Jobs a lost connection has nothing to do with

Losing a connection extracts the jobs that use it. The others keep what they
had, and at most get what the extracted jobs give back. The test of
`tabla_jobs_extract_by_remote_conn` for a job that was left empty does not ask
whether the connection emptied it: a job that never asked for anything is taken
out by the loss of any connection (`keeps_unaffected`).
-/

namespace Hpc

/-- The connection is neither the job's nor that of anything the job holds or waits
for. -/
structure Job.Ajeno (conn : Conn) (job : Job) : Prop where
  owner : job.conn ≠ conn
  confirmadas : ∀ a ∈ job.confirmadas, a.conn ≠ conn
  pendientes : ∀ o ∈ job.pendientes, o.conn ≠ conn

/-- The table still has the job, with the same requests pending and the same
allocations, but for some that waited and are granted. -/
def Manager.Conserva (s : Manager) (job : Job) : Prop :=
  ∃ j ∈ s.jobs, j.jobId = job.jobId ∧ j.conn = job.conn ∧ j.pendientes = job.pendientes
    ∧ List.Forall₂ (fun a b => b = a ∨ (a.result = .queued ∧ b = { a with result := .granted }))
      job.confirmadas j.confirmadas

/-- **No local allocation of the table was denied**, in any run. -/
theorem noDenied_of_reaches {cpu mem gpu : Int32} {ip : CString} {ok : Manager → Call → Prop}
    {s : Manager} (hrun : Reaches Manager.step ok (managerInit cpu mem gpu ip) s) :
    ∀ j ∈ s.jobs, j.NoDenied := by
  have hall : Buckets.Forall Job.NoDenied s.tabla := by
    refine forall_of_reaches (fun j j' hj h => ?_) (fun conn j h => ?_) ?_ hrun
    · rcases hj with hj | ⟨ip, jobId, rfl⟩
      · intro b hb hlocal
        obtain ⟨a, ha, hab⟩ := List.exists_of_forall₂ hj.confirmadas.flip hb
        rcases hab with rfl | ⟨-, rfl⟩
        · exact h b ha hlocal
        · exact Result.noConfusion
      · exact h.confirmar ip jobId
    · exact fun a ha => h a (List.mem_filter.mp ha).1
    · intro requests red jobId conn u
      have hloop := requestLoop_invariant requests
        (P := fun _ j _ => Job.NoDenied j)
        (fun _ _ _ head _ _ h _ => h.addLocal head _ Result.noConfusion)
        (fun _ _ _ head _ _ h _ _ => h.addLocal head _ Result.noConfusion)
        (fun _ _ _ _ _ _ _ h _ => h) (fun _ _ _ _ _ _ _ h _ => h)
        [] red ⟨jobId, conn, [], []⟩ u (fun _ h => absurd h List.not_mem_nil)
      rcases hloop with ⟨-, h⟩ | ⟨-, -, h⟩
      · exact h
      · exact h
  exact fun j hj => hall.of_mem_toList hj

section Unaffected

variable {s : Manager} {conn : Conn} {job : Job}

/-- Nothing of such a job is dropped. -/
theorem Job.Ajeno.dropRemote_eq (h : job.Ajeno conn) : job.dropRemote conn = job := by
  obtain ⟨jobId, owner, confirmadas, pendientes⟩ := job
  unfold Job.dropRemote
  rw [List.filter_eq_self.mpr (fun a ha => ?_)]
  have hne := h.confirmadas a ha
  simp [hne]

/-- Such a job is affected only if it has nothing. -/
theorem Job.Ajeno.affected_eq (h : job.Ajeno conn) :
    job.affected conn = (job.confirmadas.isEmpty && job.pendientes.isEmpty) := by
  have hconn : (job.conn == conn) = false := beq_false_of_ne h.owner
  have hpend : job.pendientes.any (fun out => out.conn == conn) = false :=
    List.any_eq_false.mpr (fun o ho => by simpa using h.pendientes o ho)
  unfold Job.affected
  rw [hconn, hpend, Bool.false_or, Bool.false_or]

/-- Marks on allocations none of which was denied are grants. -/
theorem Job.Marcado.conserva (hdenied : job.NoDenied) {j : Job} (hj : j ∈ s.jobs)
    (h : job.Marcado j) : s.Conserva job := by
  refine ⟨j, hj, h.jobId, h.conn, h.pendientes, ?_⟩
  have hmarks := h.confirmadas
  unfold Job.NoDenied at hdenied
  generalize job.confirmadas = l at hmarks hdenied
  generalize j.confirmadas = m at hmarks
  induction hmarks with
  | nil => exact .nil
  | @cons a b l m hab _ ih =>
    refine .cons ?_ (ih (fun c hc => hdenied c (List.mem_cons_of_mem _ hc)))
    rcases hab with rfl | ⟨hlocal, rfl⟩
    · exact Or.inl rfl
    · have hnot := hdenied a List.mem_cons_self hlocal
      obtain ⟨name, amount, type, ip, jobId, result, conn⟩ := a
      cases result with
      | granted => exact Or.inl rfl
      | queued => exact Or.inr ⟨rfl, rfl⟩
      | denied => exact absurd rfl hnot

/-- **Extraction and what follows** keep such a job exactly if it has something. -/
theorem conserva_dropJobs_iff (hu : s.tabla.Unicos) (hdenied : job.NoDenied) (hjob : job ∈ s.jobs)
    (hajeno : job.Ajeno conn) :
    (dropJobs conn s).Conserva job ↔ job.confirmadas ≠ [] ∨ job.pendientes ≠ [] := by
  constructor
  · rintro ⟨j, hj, hid, -⟩
    by_contra hnot
    rw [not_or, not_not, not_not] at hnot
    have haff : (job.dropRemote conn).affected conn = true := by
      rw [hajeno.dropRemote_eq, hajeno.affected_eq, hnot.1, hnot.2]
      rfl
    have hnone := (removes_failed_iff hu conn (hu.buscarPorId_of_mem hjob)).mpr ⟨hjob, haff⟩
    have hmem := (Buckets.mem_toList.mp hj).1
    rw [hid] at hmem
    exact List.find?_eq_none.mp hnone j hmem (beq_iff_eq.mpr hid)
  · intro hsome
    have hstays : job ∈ TablaJobs.jobs (tablaJobsExtractByRemoteConn s.tabla conn).2 := by
      rw [TablaJobs.jobs_extractByRemoteConn, List.mem_filter]
      refine ⟨List.mem_map.mpr ⟨job, hjob, hajeno.dropRemote_eq⟩, ?_⟩
      rw [hajeno.affected_eq]
      simpa [Decidable.imp_iff_not_or] using hsome
    obtain ⟨j, hj, hmarks⟩ := (Manager.Sirve.dropJobs conn s).tabla.exists_of_mem hstays
    exact hmarks.conserva hdenied hj

/-- **Losing a connection leaves unrelated jobs alone, unless they have nothing.** A
job of the table that the connection is no part of is kept by its disconnect and by
its failure if and only if the job has an allocation or a pending request. -/
theorem keeps_unaffected {cpu mem gpu : Int32} {ip : CString}
    (hrun : Reaches Manager.step (fun _ _ => True) (managerInit cpu mem gpu ip) s)
    (hjob : job ∈ s.jobs) (hajeno : job.Ajeno conn) :
    ((processDisconnect conn s).Conserva job ∧ (processConnectionFailed conn s).Conserva job)
      ↔ job.confirmadas ≠ [] ∨ job.pendientes ≠ [] := by
  have hu := unicos_of_reaches hrun
  have hdenied := noDenied_of_reaches hrun job hjob
  have hdisconnect : (processDisconnect conn s).Conserva job
      ↔ job.confirmadas ≠ [] ∨ job.pendientes ≠ [] :=
    conserva_dropJobs_iff (s := limpiarColasPorConn conn s) hu hdenied hjob hajeno
  have hfailed : (processConnectionFailed conn s).Conserva job
      ↔ job.confirmadas ≠ [] ∨ job.pendientes ≠ [] :=
    conserva_dropJobs_iff hu hdenied hjob hajeno
  rw [hdisconnect, hfailed, and_self]

end Unaffected

/-- A job with an allocation outlives the loss of another connection. -/
theorem keeps_unaffected_local :
    ∃ s job, Reaches.trace Manager.step (managerInit 4 8 1 ['A'])
        [.message 9 "JOB_REQUEST 1 @A:cpu:1".toList []] = some s
      ∧ job ∈ s.jobs ∧ (processDisconnect 5 s).Conserva job
      ∧ (processConnectionFailed 5 s).Conserva job := by
  have hcheck : (Reaches.checked Manager.step (fun _ _ => true) (managerInit 4 8 1 ['A'])
      [.message 9 "JOB_REQUEST 1 @A:cpu:1".toList []]).any (fun s => decide (
        s.jobs = [⟨1, 9, [⟨.cpu, 1, .localAlloc, ['A'], 1, .granted, 9⟩], []⟩])) = true := by
    decide +kernel
  obtain ⟨s, htrace, hrun, hs⟩ := Reaches.of_checked (fun _ _ _ => trivial) hcheck
  have hjob : (⟨1, 9, [⟨.cpu, 1, .localAlloc, ['A'], 1, .granted, 9⟩], []⟩ : Job) ∈ s.jobs := by
    rw [of_decide_eq_true hs]
    exact List.mem_singleton_self _
  have hajeno : Job.Ajeno 5 ⟨1, 9, [⟨.cpu, 1, .localAlloc, ['A'], 1, .granted, 9⟩], []⟩ :=
    ⟨by decide, by decide, by decide⟩
  exact ⟨s, _, htrace, hjob, (keeps_unaffected hrun hjob hajeno).mpr
    (Or.inl (List.cons_ne_nil _ _))⟩

/-- **A job that asked for nothing is lost with any connection.** -/
theorem empty_job_not_kept :
    ∃ s job, Reaches.trace Manager.step (managerInit 4 8 1 ['A'])
        [.message 9 "JOB_REQUEST 1".toList []] = some s
      ∧ job ∈ s.jobs ∧ job.Ajeno 5 ∧ ¬(processDisconnect 5 s).Conserva job
      ∧ ¬(processConnectionFailed 5 s).Conserva job := by
  have hcheck : (Reaches.checked Manager.step (fun _ _ => true) (managerInit 4 8 1 ['A'])
      [.message 9 "JOB_REQUEST 1".toList []]).any (fun s => decide (
        s.jobs = [⟨1, 9, [], []⟩] ∧ (processDisconnect 5 s).jobs = []
        ∧ (processConnectionFailed 5 s).jobs = [])) = true := by
    decide +kernel
  obtain ⟨s, htrace, -, hs⟩ := Reaches.of_checked (fun _ _ _ => trivial) hcheck
  obtain ⟨hjobs, hdisconnect, hfailed⟩ := of_decide_eq_true hs
  refine ⟨s, ⟨1, 9, [], []⟩, htrace, hjobs ▸ List.mem_singleton_self _,
    ⟨by decide, by decide, by decide⟩, ?_, ?_⟩
  · rintro ⟨j, hj, -⟩
    rw [hdisconnect] at hj
    exact List.not_mem_nil hj
  · rintro ⟨j, hj, -⟩
    rw [hfailed] at hj
    exact List.not_mem_nil hj

end Hpc
