import HpcAgent.Marks

/-!
# Who is told that a job is gone

A job leaves the table through five handlers. `DENIED` tells the owner with a
`JOB_DENIED`; `JOB_RELEASE` and `JOB_TIMEOUT` come from the planner, and a
disconnect may be the owner's own. The others say nothing: `RELEASE` ends the
job of its id, if the table has one, and the loss of a peer takes jobs out
whose owners are still there. `removed_told` says when that does not happen.
-/

namespace Hpc

/-- Serving queues tells no owner that its job is gone. -/
theorem Manager.Sirve.count_jobDenied {s s' : Manager} (h : s.Sirve s') (conn : Conn)
    (jobId : Int32) : s'.log.count (.tx conn (.jobDenied jobId))
      = s.log.count (.tx conn (.jobDenied jobId)) := by
  obtain ⟨es, hlog, hes⟩ := h.log
  have hnone : es.count (.tx conn (.jobDenied jobId)) = 0 :=
    List.count_eq_zero.mpr (fun hmem => Bool.false_ne_true (hes _ hmem))
  rw [hlog, List.count_append, hnone, Nat.add_zero]

/-! ## Removals -/

namespace Call

/-- The call takes the job out of the table. -/
def Removes (call : Call) (s : Manager) (job : Job) : Prop :=
  tablaJobsBuscarPorId s.tabla job.jobId = some job
    ∧ tablaJobsBuscarPorId (call.run s).tabla job.jobId = none

/-- The owner has no need to be told: the call handles its `JOB_RELEASE` or
`JOB_TIMEOUT`, or is the disconnect of its connection. -/
def Excuses (call : Call) (job : Job) : Prop :=
  match call with
  | .message _ msg _ => parseMessage msg = some (.jobRelease job.jobId)
      ∨ parseMessage msg = some (.jobTimeout job.jobId)
  | .disconnect conn => job.conn = conn
  | _ => False

/-- The call sends the owner one `JOB_DENIED`. -/
def Tells (call : Call) (s : Manager) (job : Job) : Prop :=
  (call.run s).log.count (.tx job.conn (.jobDenied job.jobId))
    = s.log.count (.tx job.conn (.jobDenied job.jobId)) + 1

/-- A `RELEASE` names no job of the table, a failed connection takes no job with
it, and a disconnect only jobs of its own. -/
def SinMudos (call : Call) (s : Manager) : Prop :=
  match call with
  | .message _ msg _ => ∀ jobId type amount, parseMessage msg = some (.release jobId type amount) →
      tablaJobsBuscarPorId s.tabla jobId = none
  | .failed conn => ∀ j ∈ s.jobs, (j.dropRemote conn).affected conn = false
  | .disconnect conn => ∀ j ∈ s.jobs, (j.dropRemote conn).affected conn = true → j.conn = conn
  | _ => True

end Call

section Extraction

variable {t : TablaJobs} {conn : Conn} {job : Job}

/-- A job that is not found after the extraction was in the array and was
affected. -/
theorem affected_of_extracted (hfind : tablaJobsBuscarPorId t job.jobId = some job)
    (hnone : tablaJobsBuscarPorId (tablaJobsExtractByRemoteConn t conn).2 job.jobId = none) :
    job ∈ t.jobs ∧ (job.dropRemote conn).affected conn = true := by
  have hmem : job ∈ t.bucket (bucketOf job.jobId) := List.mem_of_find?_eq_some hfind
  unfold tablaJobsBuscarPorId tablaJobsExtractByRemoteConn Buckets.mapBuckets at hnone
  dsimp only at hnone
  by_cases hlt : bucketOf job.jobId < TAM_TABLA_JOBS
  · rw [if_pos hlt, extractBucket_eq, List.find?_eq_none] at hnone
    refine ⟨Buckets.mem_toList.mpr ⟨hmem, hlt⟩, ?_⟩
    by_contra haff
    exact hnone (job.dropRemote conn)
      (List.mem_filter.mpr ⟨List.mem_map_of_mem hmem, by simpa using haff⟩)
      (beq_self_eq_true job.jobId)
  · rw [if_neg hlt] at hnone
    exact absurd (hfind.symm.trans hnone) (Option.some_ne_none job)

/-- An affected job is not found after the extraction. -/
theorem extracted_of_affected (hu : t.Unicos) (hjob : job ∈ t.jobs)
    (haff : (job.dropRemote conn).affected conn = true) :
    tablaJobsBuscarPorId (tablaJobsExtractByRemoteConn t conn).2 job.jobId = none := by
  obtain ⟨hmem, hlt⟩ := Buckets.mem_toList.mp hjob
  unfold tablaJobsBuscarPorId tablaJobsExtractByRemoteConn Buckets.mapBuckets
  dsimp only
  rw [if_pos hlt, extractBucket_eq, List.find?_eq_none]
  intro k hk hid
  obtain ⟨hmap, hnot⟩ := List.mem_filter.mp hk
  obtain ⟨j, hj, rfl⟩ := List.mem_map.mp hmap
  have hsame : j = job := by
    have hfind := hu.buscarPorId_eq hj
    have hid : j.jobId = job.jobId := eq_of_beq hid
    rw [hid, hu.buscarPorId_eq hmem] at hfind
    exact (Option.some.inj hfind).symm
  rw [hsame, haff] at hnot
  exact Bool.false_ne_true hnot

end Extraction

/-- What is missing in a table is missing in the marked one, and the other way
around. -/
theorem TablaJobs.Marcadas.buscarPorId_eq_none {t t' : TablaJobs} (h : t.Marcadas t')
    (jobId : Int32) :
    tablaJobsBuscarPorId t' jobId = none ↔ tablaJobsBuscarPorId t jobId = none := by
  have hrel := h.buscarPorId jobId
  generalize tablaJobsBuscarPorId t jobId = a at hrel
  generalize tablaJobsBuscarPorId t' jobId = b at hrel
  cases hrel with
  | none => exact Iff.rfl
  | some _ => exact ⟨(fun h => nomatch h), (fun h => nomatch h)⟩

section Removed

variable {s : Manager} {job : Job}

/-- A line takes out the job it ends, and no other. -/
theorem eq_of_removes_message {conn : Conn} {msg : CString} {red : Network} {m : Message}
    (hparse : parseMessage msg = some m) (h : (Call.message conn msg red).Removes s job) :
    m.ends = some job.jobId := by
  obtain ⟨hbefore, hafter⟩ := h
  have hrun : (Call.message conn msg red).run s = handle conn red m (s.emit (.rx conn m)) := by
    show processMessage conn msg red s = _
    unfold processMessage
    rw [hparse]
  rw [hrun] at hafter
  cases hm : m.ends with
  | some jobId =>
    have hmarcadas := marcadas_handle hm conn red (s.emit (.rx conn m))
    rw [hmarcadas.buscarPorId_eq_none] at hafter
    by_contra hne
    rw [buscarPorId_extractById_of_ne _ (fun h => hne (by rw [h]))] at hafter
    exact Option.some_ne_none job (hbefore.symm.trans hafter)
  | none =>
    rcases tabla_handle hm conn red (s.emit (.rx conn m)) with
      hrel | ⟨jobId, requests, -, hnew, heq⟩
    · have hfound := Buckets.Rel.find? (p := fun j : Job => j.jobId == job.jobId) hrel
        (fun j j' hj => by rw [hj.jobId]) (bucketOf job.jobId)
      unfold tablaJobsBuscarPorId at hbefore hafter
      rw [hafter, Manager.tabla_emit, hbefore] at hfound
      exact nomatch hfound
    · rw [heq] at hafter
      have hmem : job ∈ s.tabla.bucket (bucketOf job.jobId) := List.mem_of_find?_eq_some hbefore
      have hstill : job ∈ (tablaJobsInsertarJob s.tabla (requestLoop requests red
          ⟨jobId, conn, [], []⟩ (s.emit (.rx conn m))).2.1).bucket (bucketOf job.jobId) := by
        show job ∈ Function.update s.tabla.bucket _ _ (bucketOf job.jobId)
        rw [Function.update_apply]
        split
        · next heq => exact List.mem_cons_of_mem _ (heq ▸ hmem)
        · exact hmem
      exact absurd (beq_self_eq_true job.jobId) (List.find?_eq_none.mp hafter job hstill)

/-- A lost connection takes out what it affects, and nothing else. -/
theorem removes_failed_iff (hu : s.tabla.Unicos) (conn : Conn)
    (hfind : tablaJobsBuscarPorId s.tabla job.jobId = some job) :
    tablaJobsBuscarPorId (dropJobs conn s).tabla job.jobId = none
      ↔ job ∈ s.jobs ∧ (job.dropRemote conn).affected conn = true := by
  rw [(Manager.Sirve.dropJobs conn s).tabla.buscarPorId_eq_none]
  exact ⟨affected_of_extracted hfind, fun h => extracted_of_affected hu h.1 h.2⟩

end Removed

/-- `DENIED` tells the owner. -/
theorem tells_denied {s : Manager} {conn : Conn} {msg : CString} {red : Network} {job : Job}
    (hparse : parseMessage msg = some (.denied job.jobId))
    (hfind : tablaJobsBuscarPorId s.tabla job.jobId = some job) :
    (Call.message conn msg red).Tells s job := by
  have hrun : (Call.message conn msg red).run s
      = limpiarColasPorId job.jobId (sendMessage job.conn (.jobDenied job.jobId)
        (tablaJobsRemove job.jobId (s.emit (.rx conn (.denied job.jobId))))) := by
    show processMessage conn msg red s = _
    unfold processMessage
    rw [hparse]
    show processDenied job.jobId _ = _
    unfold processDenied
    rw [show tablaJobsGetConn (s.emit (.rx conn (.denied job.jobId))).tabla job.jobId
      = some job.conn from congrArg (Option.map Job.conn) hfind]
  have hcount : (tablaJobsRemove job.jobId (s.emit (.rx conn (.denied job.jobId)))).log.count
      (.tx job.conn (.jobDenied job.jobId))
      = (s.emit (.rx conn (.denied job.jobId))).log.count (.tx job.conn (.jobDenied job.jobId)) :=
    (Manager.Sirve.tablaJobsRemove job.jobId _).count_jobDenied job.conn job.jobId
  unfold Call.Tells
  rw [hrun, log_limpiarColasPorId, log_sendMessage, List.count_append, hcount,
    Manager.log_emit, List.count_append]
  simp

/-- `RELEASE` tells nobody. -/
theorem not_tells_release {s : Manager} {conn : Conn} {msg : CString} {red : Network}
    {jobId : Int32} {type : Resource} {amount : Int32} (job : Job)
    (hparse : parseMessage msg = some (.release jobId type amount)) :
    ¬(Call.message conn msg red).Tells s job := by
  have hrun : (Call.message conn msg red).run s
      = processRelease jobId type amount (s.emit (.rx conn (.release jobId type amount))) := by
    show processMessage conn msg red s = _
    unfold processMessage
    rw [hparse]
    rfl
  have hcount : (processRelease jobId type amount
      (s.emit (.rx conn (.release jobId type amount)))).log.count
      (.tx job.conn (.jobDenied job.jobId))
      = (s.emit (.rx conn (.release jobId type amount))).log.count
        (.tx job.conn (.jobDenied job.jobId)) :=
    (Manager.Sirve.processRelease jobId type amount _).count_jobDenied job.conn job.jobId
  unfold Call.Tells
  rw [hrun, hcount, Manager.log_emit, List.count_append]
  simp

/-- A line leaves no owner untold just if it is no `RELEASE` of a job of the table. -/
theorem told_message_iff {s : Manager} (hu : s.tabla.Unicos) (conn : Conn) (msg : CString)
    (red : Network) :
    (∀ job, (Call.message conn msg red).Removes s job →
        (Call.message conn msg red).Excuses job ∨ (Call.message conn msg red).Tells s job)
      ↔ (Call.message conn msg red).SinMudos s := by
  constructor
  · intro htold jobId type amount hparse
    by_contra hne
    obtain ⟨job, hfind⟩ := Option.ne_none_iff_exists'.mp hne
    have hid : jobId = job.jobId := (eq_of_beq
      (List.find?_some (p := fun j : Job => j.jobId == jobId) hfind)).symm
    subst hid
    have hremoves : (Call.message conn msg red).Removes s job := by
      refine ⟨hfind, ?_⟩
      show tablaJobsBuscarPorId (processMessage conn msg red s).tabla job.jobId = none
      unfold processMessage
      rw [hparse]
      have hmarcadas := marcadas_handle (m := .release job.jobId type amount) rfl conn red
        (s.emit (.rx conn (.release job.jobId type amount)))
      exact (hmarcadas.buscarPorId_eq_none job.jobId).mpr
        (hu.buscarPorId_extractById job.jobId)
    rcases htold job hremoves with (h | h) | h
    · exact nomatch hparse.symm.trans h
    · exact nomatch hparse.symm.trans h
    · exact not_tells_release job hparse h
  · intro hsin job hjob
    cases hparse : parseMessage msg with
    | none =>
      have hsame : (Call.message conn msg red).run s = s := by
        show processMessage conn msg red s = s
        unfold processMessage
        rw [hparse]
      have hafter := hjob.2
      rw [hsame, hjob.1] at hafter
      exact nomatch hafter
    | some m =>
      have hends := eq_of_removes_message hparse hjob
      cases m with
      | release jobId type amount =>
        have hnone := hsin jobId type amount hparse
        rw [Option.some.inj hends, hjob.1] at hnone
        exact nomatch hnone
      | denied jobId =>
        obtain rfl : jobId = job.jobId := Option.some.inj hends
        exact Or.inr (tells_denied hparse hjob.1)
      | jobRelease jobId =>
        obtain rfl : jobId = job.jobId := Option.some.inj hends
        exact Or.inl (Or.inl hparse)
      | jobTimeout jobId =>
        obtain rfl : jobId = job.jobId := Option.some.inj hends
        exact Or.inl (Or.inr hparse)
      | _ => exact nomatch hends

/-- The loss of a connection tells nobody, so it leaves no owner untold just if it
affects no job but the excused ones. -/
theorem told_dropJobs_iff {s : Manager} (hu : s.tabla.Unicos) (conn : Conn) {P : Job → Prop} :
    (∀ job, tablaJobsBuscarPorId s.tabla job.jobId = some job →
        tablaJobsBuscarPorId (dropJobs conn s).tabla job.jobId = none →
        P job ∨ (dropJobs conn s).log.count (.tx job.conn (.jobDenied job.jobId))
          = s.log.count (.tx job.conn (.jobDenied job.jobId)) + 1)
      ↔ ∀ j ∈ s.jobs, (j.dropRemote conn).affected conn = true → P j := by
  constructor
  · intro htold j hj haff
    have hfind := hu.buscarPorId_of_mem hj
    rcases htold j hfind ((removes_failed_iff hu conn hfind).mpr ⟨hj, haff⟩) with h | hcount
    · exact h
    · rw [(Manager.Sirve.dropJobs conn s).count_jobDenied] at hcount
      exact absurd hcount (Nat.ne_of_lt (Nat.lt_succ_self _))
  · intro hsin job hfind hnone
    obtain ⟨hmem, haff⟩ := (removes_failed_iff hu conn hfind).mp hnone
    exact Or.inl (hsin job hmem haff)

/-- **When no job disappears silently.** A call takes no job out of the table
without its planner's order, its owner's disconnect, or exactly one `JOB_DENIED`
to its owner, if and only if it is no `RELEASE` of a job of the table and it loses
no connection that takes a job of another owner along. -/
theorem removed_told {cpu mem gpu : Int32} {ip : CString} {s : Manager}
    (hrun : Reaches Manager.step (fun _ _ => True) (managerInit cpu mem gpu ip) s)
    (call : Call) :
    (∀ job, call.Removes s job → call.Excuses job ∨ call.Tells s job) ↔ call.SinMudos s := by
  have hu := unicos_of_reaches hrun
  cases call with
  | message conn msg red => exact told_message_iff hu conn msg red
  | failed conn =>
    have htold := told_dropJobs_iff hu conn (P := fun _ => False)
    refine ⟨fun h j hj => ?_, fun h job hjob => ?_⟩
    · exact Bool.eq_false_iff.mpr (htold.mp (fun job hfind hnone => h job ⟨hfind, hnone⟩) j hj)
    · exact htold.mpr (fun j hj => Bool.eq_false_iff.mp (h j hj)) job hjob.1 hjob.2
  | disconnect conn =>
    have htold := told_dropJobs_iff (s := limpiarColasPorConn conn s) hu conn
      (P := fun job => job.conn = conn)
    refine ⟨fun h => htold.mp (fun job hfind hnone => h job ⟨hfind, hnone⟩), fun h job hjob => ?_⟩
    exact htold.mpr h job hjob.1 hjob.2
  | ready conn =>
    obtain ⟨conns, heq⟩ := processConnectionReady_eq s conn
    refine ⟨fun _ => trivial, fun _ job hjob => ?_⟩
    have hafter : tablaJobsBuscarPorId (processConnectionReady conn s).tabla job.jobId = none :=
      hjob.2
    rw [heq] at hafter
    exact nomatch hjob.1.symm.trans hafter
  | announce now ipSender msg =>
    refine ⟨fun _ => trivial, fun _ job hjob => ?_⟩
    have hafter : tablaJobsBuscarPorId (processAnnounce now ipSender msg s).tabla job.jobId
        = none := hjob.2
    unfold processAnnounce at hafter
    split at hafter
    · exact nomatch hjob.1.symm.trans hafter
    · exact nomatch hjob.1.symm.trans hafter
  | purge now timeout =>
    exact ⟨fun _ => trivial, fun _ job hjob => nomatch hjob.1.symm.trans hjob.2⟩

/-- A planner that disconnects: its job goes, and it is the owner. -/
theorem removed_told_owner :
    ∃ s, Reaches.trace Manager.step (managerInit 4 8 1 ['A'])
        [.message 9 "JOB_REQUEST 1 @A:cpu:1".toList []] = some s
      ∧ (tablaJobsBuscarPorId s.tabla 1).isSome = true
      ∧ ∀ job, (Call.disconnect 9).Removes s job →
        (Call.disconnect 9).Excuses job ∨ (Call.disconnect 9).Tells s job := by
  have hcheck : (Reaches.checked Manager.step (fun _ _ => true) (managerInit 4 8 1 ['A'])
      [.message 9 "JOB_REQUEST 1 @A:cpu:1".toList []]).any (fun s => decide (
        (tablaJobsBuscarPorId s.tabla 1).isSome = true ∧ ∀ j ∈ s.jobs, j.conn = 9)) = true := by
    decide +kernel
  obtain ⟨s, htrace, hrun, hs⟩ := Reaches.of_checked (fun _ _ _ => trivial) hcheck
  obtain ⟨hsome, hconn⟩ := of_decide_eq_true hs
  exact ⟨s, htrace, hsome, (removed_told hrun (.disconnect 9)).mpr (fun j hj _ => hconn j hj)⟩

/-- **A failed connection takes a job along without a word.** Job 1 of connection 9
waits for host B when the connection to it fails: the job is gone, and nothing
is sent on connection 9. -/
theorem removed_not_told :
    ∃ s job, Reaches.trace Manager.step (managerInit 4 8 1 ['A'])
        [.announce 0 ['B'] "ANNOUNCE 9000 cpu:1 mem:1 gpu:1".toList,
         .message 9 "JOB_REQUEST 1 @B:cpu:1".toList [some 7]] = some s
      ∧ job.conn = 9 ∧ (Call.failed 7).Removes s job
      ∧ ¬(Call.failed 7).Excuses job ∧ ¬(Call.failed 7).Tells s job := by
  have hcheck : (Reaches.checked Manager.step (fun _ _ => true) (managerInit 4 8 1 ['A'])
      [.announce 0 ['B'] "ANNOUNCE 9000 cpu:1 mem:1 gpu:1".toList,
       .message 9 "JOB_REQUEST 1 @B:cpu:1".toList [some 7]]).any (fun s => decide (
        tablaJobsBuscarPorId s.tabla 1 = some ⟨1, 9, [], [⟨['B'], 7, .cpu, 1,
          some (.reserve 1 .cpu 1)⟩]⟩
        ∧ tablaJobsBuscarPorId (processConnectionFailed 7 s).tabla 1 = none
        ∧ (processConnectionFailed 7 s).log.count (.tx 9 (.jobDenied 1)) = 0)) = true := by
    decide +kernel
  obtain ⟨s, htrace, -, hs⟩ := Reaches.of_checked (fun _ _ _ => trivial) hcheck
  obtain ⟨hbefore, hafter, hcount⟩ := of_decide_eq_true hs
  refine ⟨s, ⟨1, 9, [], [⟨['B'], 7, .cpu, 1, some (.reserve 1 .cpu 1)⟩]⟩, htrace, rfl,
    ⟨hbefore, hafter⟩, id, fun htells => ?_⟩
  have htells : (processConnectionFailed 7 s).log.count (.tx 9 (.jobDenied 1))
      = s.log.count (.tx 9 (.jobDenied 1)) + 1 := htells
  rw [hcount] at htells
  exact absurd htells (Nat.zero_ne_add_one _)

end Hpc
