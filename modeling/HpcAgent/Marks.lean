import HpcAgent.Answers

/-!
# What a call does to the job table

Serving a queue marks allocations of the jobs of the table as granted and
changes nothing else of them (`Job.Marcado`). So a call changes which jobs the
table has in few ways: it inserts the job of a `JOB_REQUEST`, it ends the job a
line names, or it extracts the jobs of a lost connection; the other jobs stay,
but for such marks. No two jobs of the table ever have the same id
(`unicos_of_reaches`), and this holds for all ids, also those without a bucket
in the array.
-/

namespace Hpc

/-! ## Marks -/

/-- An allocation, and the same one possibly marked as granted. -/
def Allocation.Marcada (a b : Allocation) : Prop :=
  b = a ∨ (a.type = .localAlloc ∧ b = { a with result := .granted })

/-- A job, and the same one with some local allocations marked as granted. -/
structure Job.Marcado (j j' : Job) : Prop where
  jobId : j'.jobId = j.jobId
  conn : j'.conn = j.conn
  pendientes : j'.pendientes = j.pendientes
  confirmadas : List.Forall₂ Allocation.Marcada j.confirmadas j'.confirmadas

theorem Allocation.Marcada.trans (a b c : Allocation) (h : a.Marcada b) (h' : b.Marcada c) :
    a.Marcada c := by
  rcases h with rfl | ⟨ha, rfl⟩
  · exact h'
  · rcases h' with rfl | ⟨-, rfl⟩
    · exact Or.inr ⟨ha, rfl⟩
    · exact Or.inr ⟨ha, rfl⟩

theorem Job.Marcado.refl (j : Job) : j.Marcado j :=
  ⟨rfl, rfl, rfl, List.forall₂_same.mpr (fun _ _ => Or.inl rfl)⟩

theorem Job.Marcado.trans (j k l : Job) (h : j.Marcado k) (h' : k.Marcado l) : j.Marcado l :=
  ⟨h'.jobId.trans h.jobId, h'.conn.trans h.conn, h'.pendientes.trans h.pendientes,
    List.forall₂_trans Allocation.Marcada.trans h.confirmadas h'.confirmadas⟩

theorem Job.marcado_markGranted (conn : Conn) (tipo : Resource) (j : Job) :
    j.Marcado (j.markGranted conn tipo) := by
  refine ⟨rfl, rfl, rfl, ?_⟩
  show List.Forall₂ _ j.confirmadas (j.confirmadas.modifyFirst _ _)
  generalize j.confirmadas = l
  induction l with
  | nil => exact .nil
  | cons a l ih =>
    rw [List.modifyFirst]
    split
    · next ha =>
      have hlocal : a.type = .localAlloc :=
        eq_of_beq (Bool.and_elim_left (Bool.and_elim_left ha))
      exact .cons (Or.inr ⟨hlocal, rfl⟩) (List.forall₂_same.mpr (fun _ _ => Or.inl rfl))
    · exact .cons (Or.inl rfl) ih

/-- A marked job is found by the same id. -/
theorem Job.Marcado.beq_jobId (jobId : Int32) (j j' : Job) (h : j.Marcado j') :
    (j.jobId == jobId) = (j'.jobId == jobId) := by rw [h.jobId]

/-- **One table has the jobs of the other**, with marks. -/
def TablaJobs.Marcadas (t t' : TablaJobs) : Prop := Buckets.Rel Job.Marcado t t'

namespace TablaJobs.Marcadas

variable {t t' t'' : TablaJobs}

theorem refl (t : TablaJobs) : t.Marcadas t := Buckets.Rel.refl Job.Marcado.refl t

theorem trans (h : t.Marcadas t') (h' : t'.Marcadas t'') : t.Marcadas t'' :=
  Buckets.Rel.trans Job.Marcado.trans h h'

theorem cambioAlloc (t : TablaJobs) (jobId : Int32) (conn : Conn) (tipo : Resource) :
    t.Marcadas (tablaJobsCambioAlloc t jobId conn tipo) :=
  Buckets.Rel.modifyFirst Job.Marcado.refl (Job.marcado_markGranted conn tipo) t _ _

/-- Ending the same job in both. -/
theorem extractById (h : t.Marcadas t') (jobId : Int32) :
    Marcadas (tablaJobsExtractById t jobId).2 (tablaJobsExtractById t' jobId).2 :=
  Buckets.Rel.eraseFirst h (Job.Marcado.beq_jobId jobId) _

theorem buscarPorId (h : t.Marcadas t') (jobId : Int32) :
    Option.Rel Job.Marcado (tablaJobsBuscarPorId t jobId) (tablaJobsBuscarPorId t' jobId) :=
  Buckets.Rel.find? h (Job.Marcado.beq_jobId jobId) _

/-- A job of the array is still there. -/
theorem exists_of_mem (h : t.Marcadas t') {j : Job} (hj : j ∈ t.jobs) :
    ∃ j' ∈ t'.jobs, j.Marcado j' :=
  List.exists_of_forall₂ (Buckets.Rel.toList h _) hj

end TablaJobs.Marcadas

/-! ## The functions that serve a queue -/

/-- What the functions that free jobs and serve queues record. -/
def Event.routine : Event → Bool
  | .grant .. | .giveBack .. | .returned .. | .completed .. => true
  | .tx _ (.granted _) | .tx _ (.jobGranted _) | .tx _ (.release ..) => true
  | _ => false

/-- **What freeing jobs and serving queues does**: allocations are marked, entries
leave the queues, and the log says so. -/
structure Manager.Sirve (s s' : Manager) : Prop where
  tabla : s.tabla.Marcadas s'.tabla
  cola : ∀ t, (s'.cola t).Sublist (s.cola t)
  conns : s'.conns = s.conns
  ip : s'.ip = s.ip
  log : ∃ es : List Event, s'.log = s.log ++ es ∧ ∀ e ∈ es, e.routine = true

namespace Manager.Sirve

variable {s s' s'' : Manager}

/-- The queues shrink, and nothing else happens. -/
theorem of_cola (hcola : ∀ t, (s'.cola t).Sublist (s.cola t)) (htabla : s'.tabla = s.tabla)
    (hconns : s'.conns = s.conns) (hip : s'.ip = s.ip) (hlog : s'.log = s.log) : s.Sirve s' :=
  ⟨htabla ▸ .refl _, hcola, hconns, hip, [], hlog.trans (List.append_nil _).symm,
    fun _ he => absurd he List.not_mem_nil⟩

theorem refl (s : Manager) : s.Sirve s := of_cola (fun _ => .refl _) rfl rfl rfl rfl

theorem trans (h : s.Sirve s') (h' : s'.Sirve s'') : s.Sirve s'' := by
  obtain ⟨es, hlog, hes⟩ := h.log
  obtain ⟨fs, hlog', hfs⟩ := h'.log
  refine ⟨h.tabla.trans h'.tabla, fun t => (h'.cola t).trans (h.cola t),
    h'.conns.trans h.conns, h'.ip.trans h.ip, es ++ fs,
    by rw [hlog', hlog, List.append_assoc], fun e he => ?_⟩
  rcases List.mem_append.mp he with he | he
  · exact hes e he
  · exact hfs e he

theorem emit (h : s.Sirve s') {e : Event} (he : e.routine = true) : s.Sirve (s'.emit e) := by
  obtain ⟨es, hlog, hes⟩ := h.log
  refine ⟨h.tabla, h.cola, h.conns, h.ip, es ++ [e], ?_, fun e' he' => ?_⟩
  · rw [Manager.log_emit, hlog, List.append_assoc]
  · rcases List.mem_append.mp he' with he' | he'
    · exact hes e' he'
    · exact (List.mem_singleton.mp he').symm ▸ he

theorem limpiarColasPorId (jobId : Int32) (s : Manager) :
    s.Sirve (limpiarColasPorId jobId s) :=
  of_cola (fun _ => List.filter_sublist) rfl rfl rfl rfl

theorem dequeueTop {tipo : Resource} {top : PendingRequest} {rest : List PendingRequest}
    (hc : s.cola tipo = top :: rest) : s.Sirve (dequeueTop tipo top s) := by
  have hmark : s.Sirve (markTop tipo top (popTop tipo top s)) := by
    refine ⟨.cambioAlloc s.tabla _ _ _, fun t => ?_, rfl, rfl, [.grant tipo top], rfl,
      fun e he => (List.mem_singleton.mp he).symm ▸ rfl⟩
    rw [markTop, Manager.cola_setTabla, cola_popTop s t tipo hc]
    split
    · next ht =>
      rw [ht, hc]
      exact List.sublist_cons_self top rest
    · exact .refl _
  rw [dequeueTop_eq]
  unfold answerTop
  split
  · exact hmark.emit rfl
  · split
    · exact (hmark.emit rfl).emit rfl
    · exact hmark

theorem releaseResource (tipo : Resource) (amount : Int32) (s : Manager) :
    s.Sirve (releaseResource tipo amount s) := by
  rw [releaseResource_eq]
  split
  · refine serveQueue_invariant (P := fun u => s.Sirve u)
      (fun u top rest hc _ hu => hu.trans (dequeueTop hc)) _ _ ?_
    exact of_cola (fun t => (cola_giveUnits s t tipo amount) ▸ .refl _) rfl rfl rfl rfl
  · exact refl s

theorem freeAllocation (jobId : Int32) (a : Allocation) (s : Manager) :
    s.Sirve (freeAllocation jobId a s) := by
  unfold Hpc.freeAllocation
  split
  · exact ((refl s).emit rfl).trans (releaseResource a.name a.amount _)
  · split
    · split
      · exact (refl s).emit rfl
      · exact refl s
    · exact refl s

/-- What every round of a loop over allocations does, the loop does. -/
theorem foldl {f : Manager → Allocation → Manager}
    (round : ∀ (s : Manager) (a : Allocation), s.Sirve (f s a)) (l : List Allocation)
    (s : Manager) : s.Sirve (l.foldl f s) := by
  induction l generalizing s with
  | nil => exact refl s
  | cons a l ih => exact (round s a).trans (ih (f s a))

theorem freeAllocations (jobId : Int32) (l : List Allocation) (s : Manager) :
    s.Sirve (freeAllocations jobId l s) :=
  foldl (fun s a => freeAllocation jobId a s) l s

theorem jobReleaseAllocation (a : Allocation) (s : Manager) :
    s.Sirve (jobReleaseAllocation a s) := by
  have hfirst : s.Sirve (if a.held then releaseHeld a s else Hpc.limpiarColasPorId a.jobId s) := by
    split
    · exact ((refl s).emit rfl).trans (releaseResource a.name a.amount _)
    · exact limpiarColasPorId a.jobId s
  unfold Hpc.jobReleaseAllocation
  dsimp only
  split
  · exact hfirst.emit rfl
  · exact hfirst

theorem freeJobs (lista : List Job) (s : Manager) : s.Sirve (freeJobs lista s) := by
  induction lista generalizing s with
  | nil => exact refl s
  | cons job lista ih =>
    exact ((limpiarColasPorId job.jobId s).trans
      (freeAllocations job.jobId job.confirmadas _)).trans (ih _)

/-- A lost connection: the jobs it does not extract stay. -/
theorem dropJobs (conn : Conn) (s : Manager) :
    (s.setTabla (tablaJobsExtractByRemoteConn s.tabla conn).2).Sirve (dropJobs conn s) :=
  freeJobs _ (s.setTabla _)

end Manager.Sirve

/-! ## The handlers that end a job -/

/-- Nothing is unlinked where the id is not found. -/
theorem extractById_of_none {t : TablaJobs} {jobId : Int32}
    (h : tablaJobsBuscarPorId t jobId = none) : (tablaJobsExtractById t jobId).2 = t := by
  refine Buckets.ext (fun i => ?_)
  show Function.update t.bucket _ ((t.bucket (bucketOf jobId)).eraseP _) i = t.bucket i
  rw [List.eraseP_of_forall_not (fun j hj => List.find?_eq_none.mp h j hj),
    Function.update_eq_self]

/-- The state without the job of that id. -/
def Manager.sinJob (s : Manager) (jobId : Int32) : Manager :=
  s.setTabla (tablaJobsExtractById s.tabla jobId).2

theorem Manager.sinJob_of_none {s : Manager} {jobId : Int32}
    (h : tablaJobsBuscarPorId s.tabla jobId = none) : s.sinJob jobId = s := by
  unfold Manager.sinJob
  rw [extractById_of_none h]
  rfl

namespace Manager.Sirve

variable {s s' : Manager}

/-- Ending the job first or afterwards. -/
theorem sinJob (h : s.Sirve s') (jobId : Int32) : (s.sinJob jobId).Sirve (s'.sinJob jobId) :=
  ⟨h.tabla.extractById jobId, h.cola, h.conns, h.ip, h.log⟩

theorem tablaJobsRemove (jobId : Int32) (s : Manager) :
    (s.sinJob jobId).Sirve (tablaJobsRemove jobId s) := by
  cases hfind : tablaJobsBuscarPorId s.tabla jobId with
  | none =>
    rw [tablaJobsRemove_of_none hfind, Manager.sinJob_of_none hfind]
    exact refl s
  | some job =>
    rw [tablaJobsRemove_of_some hfind]
    exact freeAllocations jobId job.confirmadas (s.sinJob jobId)

theorem processJobRelease (jobId : Int32) (s : Manager) :
    (s.sinJob jobId).Sirve (processJobRelease jobId s) := by
  cases hfind : tablaJobsBuscarPorId s.tabla jobId with
  | none =>
    rw [processJobRelease_of_none hfind, Manager.sinJob_of_none hfind]
    exact refl s
  | some job =>
    rw [processJobRelease_of_some hfind]
    exact (foldl (fun s a => jobReleaseAllocation a s) job.confirmadas (s.sinJob jobId)).trans
      (limpiarColasPorId jobId _)

theorem processRelease (jobId : Int32) (type : Resource) (amount : Int32) (s : Manager) :
    (s.sinJob jobId).Sirve (processRelease jobId type amount s) := by
  have hfirst : s.Sirve (if amount ≠ 0 then
      Hpc.releaseResource type amount (s.emit (.returned type jobId amount)) else s) := by
    split
    · exact ((refl s).emit rfl).trans (releaseResource type amount _)
    · exact refl s
  exact ((hfirst.sinJob jobId).trans (tablaJobsRemove jobId _)).trans
    (limpiarColasPorId jobId _)

/-- `DENIED` tells the owner, if there is one. -/
theorem processDenied (jobId : Int32) (s : Manager) :
    (tablaJobsGetConn s.tabla jobId = none ∧ s.Sirve (processDenied jobId s))
      ∨ ∃ owner u, tablaJobsGetConn s.tabla jobId = some owner ∧ (s.sinJob jobId).Sirve u
        ∧ processDenied jobId s
          = Hpc.limpiarColasPorId jobId (sendMessage owner (.jobDenied jobId) u) := by
  unfold Hpc.processDenied
  cases howner : tablaJobsGetConn s.tabla jobId with
  | none => exact Or.inl ⟨rfl, limpiarColasPorId jobId s⟩
  | some owner => exact Or.inr ⟨owner, _, rfl, tablaJobsRemove jobId s, rfl⟩

end Manager.Sirve

/-! ## Tables without repeated ids -/

/-- No bucket has two jobs with the same id. -/
def TablaJobs.Unicos (t : TablaJobs) : Prop := ∀ i, ((t.bucket i).map (·.jobId)).Nodup

namespace TablaJobs.Unicos

variable {t t' : TablaJobs}

theorem init : Unicos tablaJobsInit := fun _ => List.nodup_nil

/-- A change of the jobs that keeps their ids. -/
theorem rel (h : t.Unicos) {R : Job → Job → Prop} (hR : ∀ j j', R j j' → j'.jobId = j.jobId)
    (hrel : Buckets.Rel R t t') : t'.Unicos := by
  intro i
  rw [List.map_eq_of_forall₂ hR (hrel i)]
  exact h i

theorem marcadas (h : t.Unicos) (hm : t.Marcadas t') : t'.Unicos :=
  h.rel (fun _ _ hj => hj.jobId) hm

theorem extractById (h : t.Unicos) (jobId : Int32) :
    Unicos (tablaJobsExtractById t jobId).2 := by
  intro i
  show ((Function.update t.bucket (bucketOf jobId) _ i).map (·.jobId)).Nodup
  rw [Function.update_apply]
  split
  · exact (h _).sublist (List.eraseP_sublist.map _)
  · exact h i

theorem insertar (h : t.Unicos) {j : Job} (hnew : tablaJobsBuscarPorId t j.jobId = none) :
    Unicos (tablaJobsInsertarJob t j) := by
  intro i
  show ((Function.update t.bucket (bucketOf j.jobId) (j :: t.bucket (bucketOf j.jobId)) i).map
    (·.jobId)).Nodup
  rw [Function.update_apply]
  split
  · rw [List.map_cons, List.nodup_cons]
    refine ⟨fun hmem => ?_, h _⟩
    obtain ⟨k, hk, hid⟩ := List.mem_map.mp hmem
    exact List.find?_eq_none.mp hnew k hk (beq_iff_eq.mpr hid)
  · exact h i

theorem extractByRemoteConn (h : t.Unicos) (conn : Conn) :
    Unicos (tablaJobsExtractByRemoteConn t conn).2 := by
  intro i
  show ((if i < TAM_TABLA_JOBS then (extractBucket conn (t.bucket i) []).1
    else t.bucket i).map (·.jobId)).Nodup
  split
  · rw [extractBucket_eq]
    have hmap : ((t.bucket i).map (Job.dropRemote conn)).map (·.jobId)
        = (t.bucket i).map (·.jobId) := by
      rw [List.map_map]
      rfl
    exact (hmap ▸ h i).sublist (List.filter_sublist.map _)
  · exact h i

/-- The id finds the job. -/
theorem buscarPorId_eq (h : t.Unicos) {i : ℕ} {j : Job} (hj : j ∈ t.bucket i) :
    tablaJobsBuscarPorId t j.jobId = some j := by
  have hi : bucketOf j.jobId = i := t.idx_of_mem hj
  unfold tablaJobsBuscarPorId
  rw [hi]
  obtain ⟨A, B, hAB⟩ := List.append_of_mem hj
  have hnd := h i
  rw [hAB, List.map_append, List.map_cons, List.nodup_middle, List.nodup_cons,
    List.mem_append, not_or] at hnd
  have hA : A.find? (fun k => k.jobId == j.jobId) = none :=
    List.find?_eq_none.mpr (fun k hk hid => hnd.1.1 (List.mem_map.mpr ⟨k, hk, eq_of_beq hid⟩))
  rw [hAB, List.find?_append, hA, Option.none_or]
  exact List.find?_cons_of_pos (beq_iff_eq.mpr rfl)

theorem buscarPorId_of_mem (h : t.Unicos) {j : Job} (hj : j ∈ t.jobs) :
    tablaJobsBuscarPorId t j.jobId = some j :=
  h.buscarPorId_eq (Buckets.mem_toList.mp hj).1

/-- **Ending a job** leaves no job with its id. -/
theorem buscarPorId_extractById (h : t.Unicos) (jobId : Int32) :
    tablaJobsBuscarPorId (tablaJobsExtractById t jobId).2 jobId = none := by
  unfold tablaJobsBuscarPorId tablaJobsExtractById Buckets.eraseFirst Buckets.setBucket
  dsimp only
  rw [Function.update_self, List.find?_eq_none]
  intro j hj hid
  have hmem := List.mem_of_mem_eraseP hj
  have hfind := h.buscarPorId_eq hmem
  unfold tablaJobsBuscarPorId at hfind
  rw [eq_of_beq hid] at hfind
  obtain ⟨A, B, hAB, -, -, herase, -⟩ := List.find?_split hfind
  have hnd := h (bucketOf jobId)
  rw [hAB, List.map_append, List.map_cons, List.nodup_middle, List.nodup_cons,
    ← List.map_append] at hnd
  exact hnd.1 (List.mem_map.mpr ⟨j, herase ▸ hj, rfl⟩)

end TablaJobs.Unicos

/-- Ending a job leaves the others where they were. -/
theorem buscarPorId_extractById_of_ne (t : TablaJobs) {jobId i : Int32} (hne : i ≠ jobId) :
    tablaJobsBuscarPorId (tablaJobsExtractById t jobId).2 i = tablaJobsBuscarPorId t i := by
  unfold tablaJobsBuscarPorId tablaJobsExtractById Buckets.eraseFirst Buckets.setBucket
  dsimp only
  rw [Function.update_apply]
  split
  · next heq =>
    rw [heq]
    generalize t.bucket (bucketOf jobId) = l
    induction l with
    | nil => rfl
    | cons j l ih =>
      rw [List.eraseP_cons]
      cases hj : j.jobId == jobId
      · rw [cond_false, List.find?_cons, List.find?_cons, ih]
      · have hij : (j.jobId == i) = false := beq_false_of_ne (fun h =>
          hne (h.symm.trans (eq_of_beq hj)))
        rw [cond_true, List.find?_cons, hij]
  · rfl

/-! ## The lines by what they do to the table -/

/-- The job a line ends. -/
def Message.ends : Message → Option Int32
  | .release jobId _ _ | .denied jobId | .jobRelease jobId | .jobTimeout jobId => some jobId
  | _ => none

/-- The loop over the entries of a `JOB_REQUEST` leaves the table alone. -/
theorem tabla_requestLoop (requests : List ResourceRequest) (red : Network) (job : Job)
    (s : Manager) : (requestLoop requests red job s).2.2.tabla = s.tabla
      ∧ (requestLoop requests red job s).2.1.jobId = job.jobId := by
  have h := requestLoop_invariant requests
    (P := fun _ j u => u.tabla = s.tabla ∧ j.jobId = job.jobId)
    (fun _ _ _ _ _ _ h _ => h) (fun _ _ _ _ _ _ h _ _ => h) (fun _ _ _ _ _ _ _ h _ => h)
    (fun _ _ _ _ _ _ _ h _ => h) [] red job s ⟨rfl, rfl⟩
  rcases h with ⟨-, h⟩ | ⟨-, -, h⟩
  · exact h
  · exact h

/-- **A line that ends a job** takes it out of the table, frees what it had, and at
most tells its owner. -/
theorem ends_handle {m : Message} {jobId : Int32} (hm : m.ends = some jobId) (conn : Conn)
    (red : Network) (s : Manager) :
    ∃ u, (s.sinJob jobId).Sirve u ∧ (handle conn red m s = u
      ∨ ∃ owner, m = .denied jobId ∧ tablaJobsGetConn s.tabla jobId = some owner
        ∧ handle conn red m s
          = limpiarColasPorId jobId (sendMessage owner (.jobDenied jobId) u)) := by
  cases m with
  | release i type amount =>
    obtain rfl := Option.some.inj hm
    exact ⟨_, .processRelease i type amount s, Or.inl rfl⟩
  | denied i =>
    obtain rfl := Option.some.inj hm
    rcases Manager.Sirve.processDenied i s with ⟨hnone, hsirve⟩ | ⟨owner, u, howner, hsirve, heq⟩
    · rw [Manager.sinJob_of_none (Option.map_eq_none_iff.mp hnone)]
      exact ⟨_, hsirve, Or.inl rfl⟩
    · exact ⟨u, hsirve, Or.inr ⟨owner, rfl, howner, heq⟩⟩
  | jobRelease i =>
    obtain rfl := Option.some.inj hm
    exact ⟨_, .processJobRelease i s, Or.inl rfl⟩
  | jobTimeout i =>
    obtain rfl := Option.some.inj hm
    exact ⟨_, (Manager.Sirve.tablaJobsRemove i s).trans (.limpiarColasPorId i _), Or.inl rfl⟩
  | _ => exact nomatch hm

/-- A line that ends a job leaves the other jobs, with marks. -/
theorem marcadas_handle {m : Message} {jobId : Int32} (hm : m.ends = some jobId) (conn : Conn)
    (red : Network) (s : Manager) :
    TablaJobs.Marcadas (tablaJobsExtractById s.tabla jobId).2 (handle conn red m s).tabla := by
  obtain ⟨u, hsirve, heq | ⟨owner, -, -, heq⟩⟩ := ends_handle hm conn red s
  · exact heq ▸ hsirve.tabla
  · exact heq ▸ hsirve.tabla

/-- A job, and what a call that does not end it may make of it: marks, or one
confirmation. -/
def Job.EnSitio (j j' : Job) : Prop :=
  j.Marcado j' ∨ ∃ ip jobId, j' = (jobConfirmar j ip jobId).2

theorem Job.EnSitio.refl (j : Job) : j.EnSitio j := Or.inl (.refl j)

theorem Job.EnSitio.jobId {j j' : Job} (h : j.EnSitio j') : j'.jobId = j.jobId := by
  rcases h with h | ⟨ip, jobId, rfl⟩
  · exact h.jobId
  · unfold jobConfirmar
    split <;> rfl

/-- No connection is opened, no job inserted, and no other node asked. -/
def Event.interno : Event → Bool
  | .connecting .. | .inserted .. | .tx _ (.reserve ..) | .tx _ .garbage => false
  | _ => true

theorem Event.interno_of_routine {e : Event} (h : e.routine = true) : e.interno = true := by
  unfold Event.interno
  split
  · exact h
  · exact h
  · exact h
  · exact h
  · rfl

/-- What the end of a `JOB_REQUEST` records. -/
theorem log_insertJob_append (job : Job) (requests : List ResourceRequest) (s : Manager) :
    ∃ es : List Event, (insertJob job requests s).log
        = s.log ++ [.inserted job requests] ++ es ∧ ∀ e ∈ es, e.interno = true := by
  unfold insertJob
  dsimp only
  split
  · refine ⟨[_, _], List.append_assoc _ [_] [_], fun e he => ?_⟩
    rcases List.mem_pair.mp he with rfl | rfl
    · rfl
    · rfl
  · exact ⟨[], (List.append_nil _).symm, fun _ he => absurd he List.not_mem_nil⟩

/-- **What a line does that neither ends a job nor requests one**: the jobs are
changed in place, and the queues get at most entries of its connection. -/
structure Manager.Anota (conn : Conn) (s s' : Manager) : Prop where
  tabla : Buckets.Rel Job.EnSitio s.tabla s'.tabla
  cola : ∀ t, ∀ p ∈ s'.cola t, p ∈ s.cola t ∨ p.ownerConn = conn
  conns : s'.conns = s.conns
  ip : s'.ip = s.ip
  log : ∃ es : List Event, s'.log = s.log ++ es ∧ ∀ e ∈ es, e.interno = true

namespace Manager.Anota

variable {conn : Conn} {s s' : Manager}

theorem refl (conn : Conn) (s : Manager) : s.Anota conn s :=
  ⟨.refl Job.EnSitio.refl s.tabla, fun _ _ => Or.inl, rfl, rfl, [], (List.append_nil _).symm,
    fun _ he => absurd he List.not_mem_nil⟩

theorem emit (h : s.Anota conn s') {e : Event} (he : e.interno = true) :
    s.Anota conn (s'.emit e) := by
  obtain ⟨es, hlog, hes⟩ := h.log
  refine ⟨h.tabla, h.cola, h.conns, h.ip, es ++ [e], ?_, fun e' he' => ?_⟩
  · rw [Manager.log_emit, hlog, List.append_assoc]
  · rcases List.mem_append.mp he' with he' | he'
    · exact hes e' he'
    · exact (List.mem_singleton.mp he').symm ▸ he

theorem processReserve (conn : Conn) (jobId : Int32) (type : Resource) (amount : Int32)
    (s : Manager) : s.Anota conn (processReserve conn jobId type amount s) := by
  rcases processReserve_cases conn jobId type amount s with
    ⟨-, heq⟩ | ⟨-, -, heq⟩ | ⟨-, -, heq⟩
  · rw [heq]
    have htake : s.Anota conn (takeUnits type ⟨jobId, amount, conn, .originRemote⟩ s) := by
      refine ⟨.refl Job.EnSitio.refl s.tabla, fun t p hp => ?_, rfl, rfl, [_], rfl,
        fun e he => (List.mem_singleton.mp he).symm ▸ rfl⟩
      rw [cola_takeUnits] at hp
      exact Or.inl hp
    exact htake.emit rfl
  · rw [heq]
    exact (refl conn s).emit rfl
  · rw [heq]
    refine ⟨.refl Job.EnSitio.refl s.tabla, fun t p hp => ?_, rfl, rfl, [],
      (List.append_nil _).symm, fun _ he => absurd he List.not_mem_nil⟩
    rw [cola_enqueue] at hp
    split at hp
    · next ht =>
      rcases List.mem_append.mp hp with hp | hp
      · exact Or.inl (ht ▸ hp)
      · exact Or.inr ((List.mem_singleton.mp hp).symm ▸ rfl)
    · exact Or.inl hp

theorem processGranted (conn : Conn) (jobId : Int32) (s : Manager) :
    s.Anota conn (processGranted conn jobId s) := by
  unfold Hpc.processGranted
  split
  · exact refl conn s
  · next ip _ =>
    split
    · exact (((refl conn s).emit rfl).emit rfl).emit rfl
    · next check _ =>
      have htabla : Buckets.Rel Job.EnSitio s.tabla (tablaJobsJobConfirmar s.tabla ip jobId) :=
        Buckets.Rel.modifyFirst Job.EnSitio.refl (fun j => Or.inr ⟨ip, jobId, rfl⟩) s.tabla _ _
      have hconfirmar : s.Anota conn (s.setTabla (tablaJobsJobConfirmar s.tabla ip jobId)) :=
        ⟨htabla, fun _ _ => Or.inl, rfl, rfl, [], (List.append_nil _).symm,
          fun _ he => absurd he List.not_mem_nil⟩
      dsimp only
      split
      · exact (hconfirmar.emit rfl).emit rfl
      · exact hconfirmar

end Manager.Anota

/-- A line that neither ends a job nor requests one. -/
theorem anota_handle {m : Message} (hm : m.ends = none)
    (hrequest : ∀ jobId requests, m ≠ .jobRequest jobId requests) (conn : Conn) (red : Network)
    (s : Manager) : s.Anota conn (handle conn red m s) := by
  have hrefl := Manager.Anota.refl conn s
  cases m with
  | reserve jobId type amount => exact .processReserve conn jobId type amount s
  | granted jobId => exact .processGranted conn jobId s
  | jobRequest jobId requests => exact absurd rfl (hrequest jobId requests)
  | release jobId type amount => exact nomatch hm
  | denied jobId => exact nomatch hm
  | jobRelease jobId => exact nomatch hm
  | jobTimeout jobId => exact nomatch hm
  | getNodes => exact hrefl.emit rfl
  | jobStatus jobId => exact hrefl.emit rfl
  | jobGranted jobId => exact hrefl
  | jobDenied jobId => exact hrefl
  | jobStatusIs jobId active => exact hrefl
  | nodes line => exact hrefl
  | garbage => exact hrefl

/-- **A line that ends no job** leaves the jobs, changed in place, and at most adds
its own. -/
theorem tabla_handle {m : Message} (hm : m.ends = none) (conn : Conn) (red : Network)
    (s : Manager) :
    Buckets.Rel Job.EnSitio s.tabla (handle conn red m s).tabla
      ∨ ∃ jobId requests, m = .jobRequest jobId requests
        ∧ tablaJobsBuscarPorId s.tabla
            (requestLoop requests red ⟨jobId, conn, [], []⟩ s).2.1.jobId = none
        ∧ (handle conn red m s).tabla = tablaJobsInsertarJob s.tabla
            (requestLoop requests red ⟨jobId, conn, [], []⟩ s).2.1 := by
  by_cases hrequest : ∀ jobId requests, m ≠ .jobRequest jobId requests
  · exact Or.inl (anota_handle hm hrequest conn red s).tabla
  · push Not at hrequest
    obtain ⟨jobId, requests, rfl⟩ := hrequest
    obtain ⟨htabla, hjob⟩ := tabla_requestLoop requests red ⟨jobId, conn, [], []⟩ s
    rcases processJobRequest_cases conn jobId requests red s with
      ⟨_, -, heq⟩ | ⟨hnew, -, heq⟩ | ⟨-, -, heq⟩
    · refine Or.inl ?_
      show Buckets.Rel _ s.tabla (processJobRequest conn jobId requests red s).tabla
      rw [heq]
      exact .refl Job.EnSitio.refl s.tabla
    · refine Or.inr ⟨jobId, requests, rfl, ?_, ?_⟩
      · rw [hjob]
        exact hnew
      · refine (congrArg Manager.tabla heq).trans ?_
        rw [tabla_insertJob, htabla]
    · refine Or.inl ?_
      show Buckets.Rel _ s.tabla (processJobRequest conn jobId requests red s).tabla
      rw [heq, ← htabla]
      exact (Manager.Sirve.freeAllocations _ _ (limpiarColasPorId _ _)).tabla.mono
        (fun _ _ => Or.inl)

/-! ## Runs -/

/-- **No call repeats an id.** -/
theorem unicos_run {s : Manager} (h : s.tabla.Unicos) (call : Call) :
    (call.run s).tabla.Unicos := by
  cases call with
  | message conn msg red =>
    show (processMessage conn msg red s).tabla.Unicos
    unfold processMessage
    split
    · exact h
    · next m _ =>
      cases hm : m.ends with
      | some jobId =>
        exact (h.extractById jobId).marcadas (marcadas_handle hm conn red (s.emit _))
      | none =>
        rcases tabla_handle hm conn red (s.emit (.rx conn m)) with
          hrel | ⟨jobId, requests, -, hnew, heq⟩
        · exact h.rel (fun _ _ => Job.EnSitio.jobId) hrel
        · rw [heq]
          exact h.insertar hnew
  | ready conn =>
    obtain ⟨conns, heq⟩ := processConnectionReady_eq s conn
    show (processConnectionReady conn s).tabla.Unicos
    rw [heq]
    exact h
  | failed conn => exact (h.extractByRemoteConn conn).marcadas (Manager.Sirve.dropJobs conn s).tabla
  | disconnect conn =>
    exact (h.extractByRemoteConn conn).marcadas
      (Manager.Sirve.dropJobs conn (limpiarColasPorConn conn s)).tabla
  | announce now ipSender msg =>
    show (processAnnounce now ipSender msg s).tabla.Unicos
    unfold processAnnounce
    split
    · exact h
    · exact h
  | purge now timeout => exact h

/-- **No two jobs of the table have the same id**, in any run. -/
theorem unicos_of_reaches {cpu mem gpu : Int32} {ip : CString} {ok : Manager → Call → Prop}
    {s : Manager} (hrun : Reaches Manager.step ok (managerInit cpu mem gpu ip) s) :
    s.tabla.Unicos :=
  hrun.invariant .init (fun _ call _ hu _ hstep =>
    Option.some.inj hstep ▸ unicos_run hu call)

/-- What a call makes of a job that stays: a change in place, or the loss of its
remote allocations on a connection, and marks. -/
def Job.Sigue (j j' : Job) : Prop :=
  j.EnSitio j' ∨ ∃ conn, (j.dropRemote conn).Marcado j'

/-- **What a call does that neither places requests nor announces a connection**: jobs
and connections at most leave the tables, and the queues get at most entries of the
connection whose line it handles. -/
structure Manager.Sigue (conn? : Option Conn) (s s' : Manager) : Prop where
  tabla : Buckets.SubRel Job.Sigue s.tabla s'.tabla
  cola : ∀ t, ∀ p ∈ s'.cola t, p ∈ s.cola t ∨ conn? = some p.ownerConn
  conns : ∀ i, (s'.conns.buckets i).Sublist (s.conns.buckets i)
  ip : s'.ip = s.ip
  log : ∃ es : List Event, s'.log = s.log ++ es ∧ ∀ e ∈ es, e.interno = true

/-- A job, the same one, or without its remote allocations on a connection. -/
def Job.Suelta (j j' : Job) : Prop := j' = j ∨ ∃ conn, j' = j.dropRemote conn

theorem Job.Sigue.refl (j : Job) : j.Sigue j := Or.inl (.refl j)

theorem Job.Sigue.jobId {j j' : Job} (h : j.Sigue j') : j'.jobId = j.jobId := by
  rcases h with h | ⟨conn, h⟩
  · exact h.jobId
  · exact h.jobId

theorem Job.Suelta.refl (j : Job) : j.Suelta j := Or.inl rfl

theorem Job.Suelta.sigue (j k j' : Job) (h : j.Suelta k) (hmark : k.Marcado j') : j.Sigue j' := by
  rcases h with rfl | ⟨conn, rfl⟩
  · exact Or.inl (Or.inl hmark)
  · exact Or.inr ⟨conn, hmark⟩

/-- What the loss of a connection leaves in the table. -/
theorem TablaJobs.subRel_extractByRemoteConn (t : TablaJobs) (conn : Conn) :
    Buckets.SubRel Job.Suelta t (tablaJobsExtractByRemoteConn t conn).2 := by
  intro i
  show List.SublistForall₂ _ (if i < TAM_TABLA_JOBS then (extractBucket conn (t.bucket i) []).1
    else t.bucket i) _
  split
  · rw [extractBucket_eq]
    have hsub : List.SublistForall₂ (fun j' j => j' = j)
        (((t.bucket i).map (Job.dropRemote conn)).filter (fun j => !j.affected conn))
        ((t.bucket i).map (Job.dropRemote conn)) := List.filter_sublist.sublistForall₂
    have hdrop : List.SublistForall₂ (fun j' j => j' = Job.dropRemote conn j)
        (((t.bucket i).map (Job.dropRemote conn)).filter (fun j => !j.affected conn))
        (t.bucket i) := List.sublistForall₂_map_right_iff.mp hsub
    exact List.sublistForall₂_of_forall₂ (R := Eq) (fun a b c hab hbc => Or.inr ⟨conn, hab ▸ hbc⟩)
      (List.forall₂_same.mpr (fun _ _ => rfl)) hdrop
  · exact Buckets.SubRel.refl Job.Suelta.refl t i

namespace Manager.Sigue

variable {s s' u : Manager} {conn? : Option Conn}

theorem refl (conn? : Option Conn) (s : Manager) : s.Sigue conn? s :=
  ⟨.refl Job.Sigue.refl s.tabla, fun _ _ => Or.inl, fun _ => .refl _, rfl,
    [], (List.append_nil _).symm, fun _ he => absurd he List.not_mem_nil⟩

/-- Jobs leave the table before a queue is served. -/
theorem of_sirve (h : s.Sirve s') (htabla : Buckets.SubRel Job.Suelta u.tabla s.tabla)
    (hcola : ∀ t, (s.cola t).Sublist (u.cola t)) (hconns : s.conns = u.conns) (hip : s.ip = u.ip)
    (hlog : s.log = u.log) (conn? : Option Conn) : u.Sigue conn? s' := by
  obtain ⟨es, hes, hroutine⟩ := h.log
  refine ⟨htabla.trans_rel Job.Suelta.sigue h.tabla,
    fun t p hp => Or.inl ((hcola t).subset ((h.cola t).subset hp)), fun i => ?_,
    h.ip.trans hip, es, hes.trans (by rw [hlog]),
    fun e he => Event.interno_of_routine (hroutine e he)⟩
  rw [h.conns, hconns]

theorem of_anota {conn : Conn} (h : s.Anota conn s') : s.Sigue (some conn) s' :=
  ⟨.of_rel (h.tabla.mono (fun _ _ => Or.inl)),
    fun t p hp => (h.cola t p hp).imp id (fun heq => congrArg some heq.symm),
    fun _ => h.conns ▸ .refl _, h.ip, h.log⟩

theorem emit (h : s.Sigue conn? s') {e : Event} (he : e.interno = true) :
    s.Sigue conn? (s'.emit e) := by
  obtain ⟨es, hlog, hes⟩ := h.log
  refine ⟨h.tabla, h.cola, h.conns, h.ip, es ++ [e], ?_, fun e' he' => ?_⟩
  · rw [Manager.log_emit, hlog, List.append_assoc]
  · rcases List.mem_append.mp he' with he' | he'
    · exact hes e' he'
    · exact (List.mem_singleton.mp he').symm ▸ he

/-- The line itself is on record already. -/
theorem of_emit {e : Event} (he : e.interno = true) (h : (s.emit e).Sigue conn? s') :
    s.Sigue conn? s' := by
  obtain ⟨es, hlog, hes⟩ := h.log
  refine ⟨h.tabla, h.cola, h.conns, h.ip, e :: es, ?_, List.forall_mem_cons.mpr ⟨he, hes⟩⟩
  rw [hlog, Manager.log_emit, List.append_assoc]
  rfl

/-- Without the jobs of a lost connection. -/
theorem dropJobs (conn : Conn) (s : Manager) : s.Sigue none (dropJobs conn s) :=
  of_sirve (Manager.Sirve.dropJobs conn s) (s.tabla.subRel_extractByRemoteConn conn)
    (fun _ => .refl _) rfl rfl rfl none

/-- The rollback of a `JOB_REQUEST`. -/
theorem rollbackJob (job : Job) (s : Manager) : s.Sigue none (rollbackJob job s) := by
  have hsirve := (Manager.Sirve.limpiarColasPorId job.jobId s).trans
    (.freeAllocations job.jobId job.confirmadas _)
  exact (of_sirve hsirve (.refl Job.Suelta.refl s.tabla) (fun _ => .refl _) rfl rfl rfl
    none).emit (e := .tx job.conn (.jobDenied job.jobId)) rfl

end Manager.Sigue

/-- A line that requests no job only lets go. -/
theorem sigue_handle {m : Message} (hrequest : ∀ jobId requests, m ≠ .jobRequest jobId requests)
    (conn : Conn) (red : Network) (s : Manager) : s.Sigue (some conn) (handle conn red m s) := by
  cases hm : m.ends with
  | none => exact .of_anota (anota_handle hm hrequest conn red s)
  | some jobId =>
    obtain ⟨u, hsirve, hu⟩ := ends_handle hm conn red s
    have hsigue : s.Sigue (some conn) u :=
      .of_sirve hsirve (.eraseFirst Job.Suelta.refl s.tabla _) (fun _ => .refl _) rfl rfl rfl _
    rcases hu with heq | ⟨owner, -, -, heq⟩
    · exact heq ▸ hsigue
    · rw [heq]
      exact ⟨hsigue.tabla, fun t p hp => hsigue.cola t p (List.mem_filter.mp hp).1,
        hsigue.conns, hsigue.ip, (hsigue.emit rfl).log⟩

/-- The connection whose line a call handles. -/
def Call.conn? : Call → Option Conn
  | .message conn _ _ => some conn
  | _ => none

/-- **The calls by what they add**: nothing, unless a new connection is announced or a
`JOB_REQUEST` places its entries. -/
theorem Call.sigue (call : Call) (s : Manager) :
    s.Sigue call.conn? (call.run s) ∨ (∃ conn, call = .ready conn)
      ∨ ∃ conn msg red jobId requests, call = .message conn msg red
        ∧ parseMessage msg = some (.jobRequest jobId requests) := by
  cases call with
  | message conn msg red =>
    show s.Sigue (some conn) (processMessage conn msg red s) ∨ _
    unfold processMessage
    cases hparse : parseMessage msg with
    | none => exact Or.inl (.refl (some conn) s)
    | some m =>
      by_cases hrequest : ∀ jobId requests, m ≠ .jobRequest jobId requests
      · exact Or.inl (.of_emit rfl (sigue_handle hrequest conn red _))
      · push Not at hrequest
        obtain ⟨jobId, requests, rfl⟩ := hrequest
        exact Or.inr (Or.inr ⟨conn, msg, red, jobId, requests, rfl, hparse⟩)
  | ready conn => exact Or.inr (Or.inl ⟨conn, rfl⟩)
  | failed conn => exact Or.inl (.dropJobs conn s)
  | disconnect conn =>
    have hsigue := Manager.Sigue.dropJobs conn (limpiarColasPorConn conn s)
    refine Or.inl ⟨hsigue.tabla, fun t p hp => ?_, fun i => ?_, hsigue.ip, hsigue.log⟩
    · exact (hsigue.cola t p hp).imp (fun hp => (List.mem_filter.mp hp).1) id
    · show List.Sublist (if i < TAM_TABLA_CONN then _ else _) _
      split
      · exact List.eraseP_sublist.trans (hsigue.conns i)
      · exact hsigue.conns i
  | announce now ipSender msg =>
    refine Or.inl ?_
    have hrefl := Manager.Sigue.refl none s
    show s.Sigue none (processAnnounce now ipSender msg s)
    unfold processAnnounce
    split
    · exact hrefl
    · exact ⟨hrefl.tabla, hrefl.cola, hrefl.conns, hrefl.ip, hrefl.log⟩
  | purge now timeout =>
    have hrefl := Manager.Sigue.refl none s
    exact Or.inl ⟨hrefl.tabla, hrefl.cola, hrefl.conns, hrefl.ip, hrefl.log⟩

section Forall

variable {Q : Job → Prop}

/-- **What holds of the jobs of the table, of the job a line may insert, and survives
a change in place and a lost connection**, holds of the jobs after a call. -/
theorem forall_run {s : Manager} (hsitio : ∀ j j', j.EnSitio j' → Q j → Q j')
    (hdrop : ∀ conn j, Q j → Q (j.dropRemote conn)) {call : Call}
    (hnew : ∀ conn msg red jobId requests u, call = .message conn msg red →
      parseMessage msg = some (.jobRequest jobId requests) →
        Q (requestLoop requests red ⟨jobId, conn, [], []⟩ u).2.1)
    (hs : Buckets.Forall Q s.tabla) : Buckets.Forall Q (call.run s).tabla := by
  rcases call.sigue s with hsigue | ⟨conn, rfl⟩ | ⟨conn, msg, red, jobId, requests, rfl, hparse⟩
  · intro i j' hj'
    obtain ⟨j, hj, hjj' | ⟨conn, hmark⟩⟩ := hsigue.tabla.exists_of_mem hj'
    · exact hsitio j j' hjj' (hs i j hj)
    · exact hsitio _ j' (Or.inl hmark) (hdrop conn j (hs i j hj))
  · obtain ⟨conns, heq⟩ := processConnectionReady_eq s conn
    show Buckets.Forall Q (processConnectionReady conn s).tabla
    rw [heq]
    exact hs
  · show Buckets.Forall Q (processMessage conn msg red s).tabla
    unfold processMessage
    rw [hparse]
    rcases tabla_handle (m := .jobRequest jobId requests) rfl conn red
      (s.emit (.rx conn (.jobRequest jobId requests))) with
      hrel | ⟨jobId', requests', hm, -, heq⟩
    · intro i j' hj'
      obtain ⟨j, hj, hjj'⟩ := List.exists_of_forall₂ (List.Forall₂.flip (hrel i)) hj'
      exact hsitio j j' hjj' (hs i j hj)
    · rw [heq]
      exact Buckets.Forall.cons hs (hnew conn msg red jobId' requests' _ rfl (hm ▸ hparse))

/-- The same in any run, for what holds of every new job. -/
theorem forall_of_reaches {cpu mem gpu : Int32} {ip : CString} {ok : Manager → Call → Prop}
    {s : Manager} (hsitio : ∀ j j', j.EnSitio j' → Q j → Q j')
    (hdrop : ∀ conn j, Q j → Q (j.dropRemote conn))
    (hnew : ∀ requests red jobId conn s,
      Q (requestLoop requests red ⟨jobId, conn, [], []⟩ s).2.1)
    (hrun : Reaches Manager.step ok (managerInit cpu mem gpu ip) s) :
    Buckets.Forall Q s.tabla := by
  refine hrun.invariant (I := fun u => Buckets.Forall Q u.tabla)
    (fun _ _ h => absurd h List.not_mem_nil) (fun u call v hu _ hstep => ?_)
  obtain rfl := Option.some.inj hstep
  exact forall_run hsitio hdrop (fun conn _ red jobId requests u _ _ =>
    hnew requests red jobId conn u) hu

end Forall

/-! ## What is not recorded -/

/-- **More is recorded**, and nothing of a kind. -/
def Manager.Calla (b : Event → Bool) (s s' : Manager) : Prop :=
  ∃ es, s'.log = s.log ++ es ∧ ∀ e ∈ es, b e = false

namespace Manager.Calla

variable {b : Event → Bool} {s s' s'' : Manager}

theorem of_eq (h : s'.log = s.log) : s.Calla b s' :=
  ⟨[], by rw [h, List.append_nil], fun _ he => absurd he List.not_mem_nil⟩

theorem trans (h : s.Calla b s') (h' : s'.Calla b s'') : s.Calla b s'' := by
  obtain ⟨es, hlog, hes⟩ := h
  obtain ⟨fs, hlog', hfs⟩ := h'
  refine ⟨es ++ fs, by rw [hlog', hlog, List.append_assoc], fun e he => ?_⟩
  exact (List.mem_append.mp he).elim (hes e) (hfs e)

theorem emit (h : s.Calla b s') {e : Event} (he : b e = false) : s.Calla b (s'.emit e) :=
  h.trans ⟨[e], rfl, fun _ hmem => (List.mem_singleton.mp hmem) ▸ he⟩

/-- The loop over the entries of a `JOB_REQUEST` takes units, asks other nodes and opens
connections. -/
theorem requestLoop (hgrant : ∀ t p, b (.grant t p) = false)
    (hasks : ∀ c i t a, b (.tx c (.reserve i t a)) = false)
    (hopens : ∀ ip c, b (.connecting ip c) = false) (requests : List ResourceRequest)
    (red : Network) (job : Job) (s : Manager) :
    s.Calla b (requestLoop requests red job s).2.2 := by
  have h := requestLoop_invariant requests (P := fun _ _ u => s.Calla b u)
    (fun _ _ _ _ _ _ h _ => h.emit (hgrant _ _)) (fun _ _ _ _ _ _ h _ _ => h)
    (fun _ _ _ _ _ _ _ h _ => h.emit (hasks _ _ _ _))
    (fun _ _ _ _ _ _ _ h _ => h.emit (hopens _ _)) [] red job s (.of_eq rfl)
  rcases h with ⟨-, h⟩ | ⟨-, -, h⟩
  · exact h
  · exact h

/-- The owner of a job is told. -/
theorem sendJobGranted (h : s.Calla b s') (htold : ∀ i j, b (.completed i j) = false)
    (hgranted : ∀ c i, b (.tx c (.jobGranted i)) = false) (jobId : Int32) (conn : Conn) :
    s.Calla b (sendJobGranted jobId conn s') :=
  (h.emit (htold _ _)).emit (hgranted _ _)

/-- The end of a `JOB_REQUEST` inserts the job. -/
theorem insertJob (hins : ∀ j r, b (.inserted j r) = false)
    (htold : ∀ i j, b (.completed i j) = false)
    (hgranted : ∀ c i, b (.tx c (.jobGranted i)) = false) (job : Job)
    (requests : List ResourceRequest) (s : Manager) : s.Calla b (insertJob job requests s) := by
  have hinserted : s.Calla b ((s.setTabla (tablaJobsInsertarJob s.tabla job)).emit
      (.inserted job requests)) := (of_eq rfl).emit (hins _ _)
  unfold Hpc.insertJob
  dsimp only
  split
  · exact hinserted.sendJobGranted htold hgranted _ _
  · exact hinserted

/-- `GRANTED`, of a job of the table or of one that is gone. -/
theorem processGranted {jobId : Int32} (hgone : tablaJobsBuscarPorId s.tabla jobId = none →
      ∀ c t, b (.tx c (.release jobId t 0)) = false)
    (htold : ∀ i j, b (.completed i j) = false)
    (hgranted : ∀ c i, b (.tx c (.jobGranted i)) = false) (conn : Conn) :
    s.Calla b (processGranted conn jobId s) := by
  unfold Hpc.processGranted
  split
  · exact of_eq rfl
  · split
    · next hnone =>
      have hback := hgone hnone conn
      exact (((of_eq rfl).emit (hback .cpu)).emit (hback .mem)).emit (hback .gpu)
    · dsimp only
      split
      · exact (of_eq rfl).sendJobGranted htold hgranted _ _
      · exact of_eq rfl

end Manager.Calla

end Hpc
