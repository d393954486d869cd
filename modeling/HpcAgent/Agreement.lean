import HpcAgent.Completion
import HpcAgent.Removal
import HpcAgent.Wakeups

/-!
# The marks of a job and its entries in the queues

A queue serves the oldest entry of a job first; `tabla_jobs_cambio_alloc` marks the
newest allocation of the job and the resource, whatever its amount and whether it
waits or not. `Pasado` reads off the log what became of a job since it was
inserted, and `Historia` says where that leaves it: its entries are those of the
allocations that waited, in the order of asking, without those served; and of the
allocations the newest is marked as soon as one entry was served. So the two agree
as long as no entry was served, or just one, for the amount of the newest
allocation, which waited (`Historia.perm_iff`).
-/

namespace Hpc

/-! ## What a job has here of one resource -/

/-- A local allocation of the resource. -/
def Allocation.esLocal (t : Resource) (a : Allocation) : Bool := a.isLocal && a.name == t

/-- The local allocations of a resource, the newest first. -/
def Job.locales (t : Resource) (j : Job) : List Allocation :=
  j.confirmadas.filter (Allocation.esLocal t)

/-- The amounts of the allocations that wait. -/
def enEspera (l : List Allocation) : List Int32 :=
  (l.filter (fun a => a.result == .queued)).map (·.amount)

theorem enEspera_cons_of_queued {a : Allocation} {l : List Allocation} (h : a.result = .queued) :
    enEspera (a :: l) = a.amount :: enEspera l := by
  unfold enEspera
  rw [List.filter_cons_of_pos (by simp [h]), List.map_cons]

theorem enEspera_cons_of_ne {a : Allocation} {l : List Allocation} (h : a.result ≠ .queued) :
    enEspera (a :: l) = enEspera l := by
  unfold enEspera
  rw [List.filter_cons_of_neg (by simp [h])]

/-- The amounts of the entries of a job. -/
def Manager.entradas (s : Manager) (t : Resource) (jobId : Int32) : List Int32 :=
  ((s.cola t).filter (PendingRequest.ofJob jobId)).map (·.amount)

/-- **Queues and job table agree**: what waits according to the table waits in the
queue. -/
def Manager.Concuerda (s : Manager) : Prop :=
  ∀ j ∈ s.jobs, ∀ t, (enEspera (j.locales t)).Perm (s.entradas t j.jobId)

/-- The newest allocation, marked. -/
def marcaPrimera : List Allocation → List Allocation
  | [] => []
  | a :: l => { a with result := .granted } :: l

theorem marcaPrimera_marcaPrimera (l : List Allocation) :
    marcaPrimera (marcaPrimera l) = marcaPrimera l := by
  cases l with
  | nil => rfl
  | cons a l => rfl

section Locales

variable {j : Job} {conn : Conn} {t tipo : Resource}

/-- **A dequeue marks the newest allocation of its resource.** -/
theorem locales_markGranted (hown : ∀ a ∈ j.confirmadas, a.type = .localAlloc → a.conn = conn) :
    (j.markGranted conn tipo).locales tipo = marcaPrimera (j.locales tipo) := by
  show List.filter _ (j.confirmadas.modifyFirst _ _) = marcaPrimera (j.confirmadas.filter _)
  generalize j.confirmadas = l at hown
  induction l with
  | nil => rfl
  | cons a l ih =>
    have ih := ih (fun b hb => hown b (List.mem_cons_of_mem a hb))
    have ha := hown a List.mem_cons_self
    rw [List.modifyFirst]
    by_cases hlocal : a.esLocal tipo = true
    · obtain ⟨htype, hname⟩ := Bool.and_eq_true_iff.mp hlocal
      have hmark : (a.type == .localAlloc && a.conn == conn && a.name == tipo) = true := by
        rw [show a.type == .localAlloc from htype, ha (eq_of_beq htype), hname, beq_self_eq_true]
        rfl
      rw [if_pos hmark, List.filter_cons_of_pos hlocal]
      exact List.filter_cons_of_pos hlocal
    · have hmark : ¬(a.type == .localAlloc && a.conn == conn && a.name == tipo) = true := by
        intro h
        obtain ⟨h, hname⟩ := Bool.and_eq_true_iff.mp h
        exact hlocal (Bool.and_eq_true_iff.mpr ⟨Bool.and_elim_left h, hname⟩)
      rw [if_neg hmark, List.filter_cons_of_neg hlocal, List.filter_cons_of_neg hlocal, ih]

theorem locales_markGranted_of_ne (ht : t ≠ tipo) :
    (j.markGranted conn tipo).locales t = j.locales t := by
  show List.filter _ (j.confirmadas.modifyFirst _ _) = j.confirmadas.filter _
  generalize j.confirmadas = l
  induction l with
  | nil => rfl
  | cons a l ih =>
    rw [List.modifyFirst]
    split
    · next hmark =>
      have hname : a.name = tipo := eq_of_beq (Bool.and_elim_right hmark)
      have hnot : ¬a.esLocal t = true := by
        unfold Allocation.esLocal
        rw [hname, beq_false_of_ne (Ne.symm ht), Bool.and_false]
        exact Bool.false_ne_true
      rw [List.filter_cons_of_neg hnot]
      exact List.filter_cons_of_neg hnot
    · rw [List.filter_cons, List.filter_cons, ih]

theorem locales_jobConfirmar (ip : CString) (jobId : Int32) :
    (jobConfirmar j ip jobId).2.locales t = j.locales t := by
  unfold jobConfirmar
  split
  · rfl
  · exact List.filter_cons_of_neg Bool.false_ne_true

theorem locales_addLocal (job : Job) (head : ResourceRequest) (ip : CString) (r : Result) :
    (job.addLocal head ip r).locales t
      = (if head.type = t then
          [crearAllocation head.type head.amount .localAlloc ip job.jobId r job.conn] else [])
        ++ job.locales t := by
  show List.filter _ (_ :: job.confirmadas) = _
  have hnew : (crearAllocation head.type head.amount .localAlloc ip job.jobId r job.conn).esLocal t
      = (head.type == t) := rfl
  by_cases ht : head.type = t
  · rw [if_pos ht, List.filter_cons_of_pos (hnew.trans (beq_iff_eq.mpr ht))]
    rfl
  · rw [if_neg ht, List.filter_cons_of_neg (by rw [hnew]; simpa using ht)]
    rfl

end Locales

/-! ## What became of a job -/

/-- What the log tells of an id and a resource: the job that was inserted last, and
its entries served since. -/
@[ext] structure Pasado where
  alta : Option Job
  servidas : List PendingRequest

/-- One event's effect. -/
def pasadoStep (jobId : Int32) (t : Resource) (h : Pasado) : Event → Pasado
  | .inserted job _ => if job.jobId = jobId then ⟨some job, []⟩ else h
  | .grant tipo p =>
    if tipo = t ∧ p.ofJob jobId = true then { h with servidas := h.servidas ++ [p] } else h
  | _ => h

/-- **What became of the last job of an id**, by the log. -/
def pasado (jobId : Int32) (t : Resource) (log : List Event) : Pasado :=
  log.foldl (pasadoStep jobId t) ⟨none, []⟩

theorem pasado_concat (jobId : Int32) (t : Resource) (log : List Event) (e : Event) :
    pasado jobId t (log ++ [e]) = pasadoStep jobId t (pasado jobId t log) e := by
  unfold pasado
  rw [List.foldl_append]
  rfl

/-- The event is about another id. -/
def Event.ajeno (jobId : Int32) : Event → Bool
  | .inserted job _ => job.jobId != jobId
  | .grant _ p => !p.ofJob jobId
  | _ => true

theorem pasado_append_of_ajeno {jobId : Int32} {es : List Event}
    (hes : ∀ e ∈ es, e.ajeno jobId = true) (t : Resource) (log : List Event) :
    pasado jobId t (log ++ es) = pasado jobId t log := by
  induction es generalizing log with
  | nil => rw [List.append_nil]
  | cons e es ih =>
    rw [List.append_cons, ih (fun e he => hes e (List.mem_cons_of_mem _ he)), pasado_concat]
    have he := hes e List.mem_cons_self
    cases e with
    | inserted job requests => exact if_neg (by simpa [Event.ajeno] using he)
    | grant tipo p => exact if_neg (fun h => by simp [Event.ajeno, h.2] at he)
    | _ => rfl

/-- **Where a job of the table is.** -/
def Historia (s : Manager) (j : Job) (t : Resource) : Prop :=
  ∃ k, (pasado j.jobId t s.log).alta = some k
    ∧ j.locales t = (if (pasado j.jobId t s.log).servidas = [] then k.locales t
        else marcaPrimera (k.locales t))
    ∧ (pasado j.jobId t s.log).servidas.map (·.amount) ++ s.entradas t j.jobId
      = (enEspera (k.locales t)).reverse

/-- No entry was served, or one, for the amount of the newest allocation, which
waited. -/
def Pasado.Bueno (h : Pasado) (t : Resource) : Prop :=
  h.servidas = [] ∨ ∃ k p a rest, h.alta = some k ∧ h.servidas = [p]
    ∧ k.locales t = a :: rest ∧ a.result = .queued ∧ a.amount = p.amount

section Historia

variable {s s' : Manager} {j j' : Job} {t : Resource}

/-- **When marks and entries agree.** -/
theorem Historia.perm_iff (h : Historia s j t) :
    (enEspera (j.locales t)).Perm (s.entradas t j.jobId)
      ↔ (pasado j.jobId t s.log).Bueno t := by
  obtain ⟨k, halta, hlocales, hentradas⟩ := h
  rw [hlocales]
  generalize pasado j.jobId t s.log = h at halta hentradas
  generalize s.entradas t j.jobId = es at hentradas
  obtain ⟨alta, servidas⟩ := h
  dsimp only at halta hentradas ⊢
  subst halta
  cases servidas with
  | nil =>
    rw [if_pos rfl]
    rw [List.map_nil, List.nil_append] at hentradas
    exact iff_of_true (hentradas ▸ (List.reverse_perm _).symm) (Or.inl rfl)
  | cons p servidas =>
    rw [if_neg (List.cons_ne_nil _ _)]
    cases hk : k.locales t with
    | nil =>
      rw [hk] at hentradas
      exact absurd hentradas (List.cons_ne_nil _ _)
    | cons a rest =>
      rw [hk] at hentradas
      have hmark : enEspera (marcaPrimera (a :: rest)) = enEspera rest := rfl
      rw [hmark]
      have hwait : (enEspera (a :: rest)).Perm (p.amount :: (servidas.map (·.amount) ++ es)) :=
        (List.reverse_perm _).symm.trans (hentradas ▸ .refl _)
      constructor
      · intro hperm
        -- one entry fewer in the queue is one mark fewer in the table
        have hlength := hwait.length_eq
        rw [List.length_cons, List.length_append, List.length_map, ← hperm.length_eq] at hlength
        by_cases hq : a.result = .queued
        · rw [enEspera_cons_of_queued hq, List.length_cons] at hlength
          have hnone : servidas = [] := List.length_eq_zero_iff.mp (by omega)
          rw [enEspera_cons_of_queued hq, hnone, List.map_nil, List.nil_append] at hwait
          have hsame : a.amount = p.amount := by
            have hmulti : a.amount ::ₘ (enEspera rest : Multiset Int32) = p.amount ::ₘ ↑es :=
              Multiset.coe_eq_coe.mpr hwait
            rw [Multiset.coe_eq_coe.mpr hperm] at hmulti
            exact (Multiset.cons_inj_left _).mp hmulti
          exact Or.inr ⟨k, p, a, rest, rfl, by rw [hnone], hk, hq, hsame⟩
        · rw [enEspera_cons_of_ne hq] at hlength
          omega
      · rintro (hnil | ⟨k', p', a', rest', hk', hserv, hrest, hq, hamount⟩)
        · exact absurd hnil (List.cons_ne_nil _ _)
        · obtain rfl := Option.some.inj hk'
          obtain ⟨rfl, hnone⟩ := List.cons.inj hserv
          obtain ⟨rfl, rfl⟩ := List.cons.inj (hk.symm.trans hrest)
          rw [enEspera_cons_of_queued hq, hnone, hamount, List.map_nil, List.nil_append] at hwait
          exact (List.perm_cons _).mp hwait

/-- **Nothing of the job changes.** -/
theorem Historia.of_eq (h : Historia s j t) (hid : j'.jobId = j.jobId)
    (hlocales : j'.locales t = j.locales t)
    (hentradas : s'.entradas t j.jobId = s.entradas t j.jobId)
    (hlog : pasado j.jobId t s'.log = pasado j.jobId t s.log) : Historia s' j' t := by
  unfold Historia
  rw [hid, hlocales, hentradas, hlog]
  exact h

end Historia

/-! ## The invariant of the small steps -/

/-- The lines of the agent's life: `Origenes`, and no connection is lost. -/
def Lineas (R : Conn → Prop) : Guardia where
  message := (Origenes R).message
  carries := @Origenes.nonneg R
  lost _ _ := False
  ready _ _ := True

theorem Lineas.origenes {R : Conn → Prop} {c d : Manager × List Obra} (h : Paso (Lineas R) c d) :
    Paso (Origenes R) c d :=
  Paso.mono (G := Lineas R) (H := Origenes R) (fun _ _ _ hG => hG) (fun _ hi => hi)
    (fun _ _ hG => hG.elim) (fun _ _ _ => trivial) h

/-- The allocations of a job carry its id. -/
def Job.Ids (j : Job) : Prop := ∀ a ∈ j.confirmadas, a.jobId = j.jobId

/-- The entries of a new job are in the order of asking, and all of them wait. -/
structure Nueva (s : Manager) (job : Job) : Prop where
  ids : job.Ids
  entradas : ∀ t, s.entradas t job.jobId = (enEspera (job.locales t)).reverse

theorem Job.Ids.confirmar {j : Job} (h : j.Ids) (ip : CString) {jobId : Int32}
    (hid : j.jobId = jobId) : (jobConfirmar j ip jobId).2.Ids := by
  unfold jobConfirmar
  split
  · exact h
  · intro a ha
    rcases List.mem_cons.mp ha with rfl | ha
    · exact hid.symm
    · exact h a ha

theorem Job.Ids.addLocal {job : Job} (h : job.Ids) (head : ResourceRequest) (ip : CString)
    (r : Result) : (job.addLocal head ip r).Ids := by
  intro a ha
  rcases List.mem_cons.mp ha with rfl | ha
  · rfl
  · exact h a ha

/-- A local entry that is granted at once. -/
theorem Nueva.addGranted {s : Manager} {job : Job} (h : Nueva s job) (head : ResourceRequest) :
    Nueva (takeUnits head.type (head.pending job) s) (job.addLocal head s.ip .granted) := by
  refine ⟨h.ids.addLocal head s.ip .granted, fun t => ?_⟩
  have hentradas : (takeUnits head.type (head.pending job) s).entradas t job.jobId
      = s.entradas t job.jobId := by
    unfold Manager.entradas
    rw [cola_takeUnits]
  refine hentradas.trans ((h.entradas t).trans (congrArg List.reverse ?_))
  rw [locales_addLocal]
  split
  · exact (enEspera_cons_of_ne Result.noConfusion).symm
  · rfl

/-- A local entry that has to wait is the last one of the queue. -/
theorem Nueva.addQueued {s : Manager} {job : Job} (h : Nueva s job) (head : ResourceRequest) :
    Nueva (enqueue head.type (head.pending job) s) (job.addLocal head s.ip .queued) := by
  refine ⟨h.ids.addLocal head s.ip .queued, fun t => ?_⟩
  show Manager.entradas _ t job.jobId = _
  rw [locales_addLocal]
  unfold Manager.entradas
  rw [cola_enqueue]
  have hold := h.entradas t
  unfold Manager.entradas at hold
  by_cases ht : head.type = t
  · have hof : PendingRequest.ofJob job.jobId (head.pending job) = true :=
      ofJob_iff.mpr ⟨rfl, rfl⟩
    rw [if_pos ht.symm, if_pos ht, List.filter_append, List.map_append, ht, hold,
      List.filter_cons_of_pos hof]
    exact List.reverse_cons.symm
  · rw [if_neg (Ne.symm ht), if_neg ht]
    exact hold

theorem ofJob_pending_of_ne {head : ResourceRequest} {job : Job} {i : Int32}
    (h : i ≠ job.jobId) : (head.pending job).ofJob i = false :=
  ofJob_of_ne h.symm

/-- A job taken apart is not in the table. -/
structure Muerta (s : Manager) (job : Job) : Prop where
  ids : job.Ids
  fuera : ∀ j ∈ s.jobs, j.jobId ≠ job.jobId

/-- **The invariant of the small steps.** -/
structure Lleva (R : Conn → Prop) (c : Manager × List Obra) : Prop where
  avisos : AvisosPaso R c
  ids : ∀ j ∈ c.1.jobs, j.Ids
  historia : ∀ j ∈ c.1.jobs, ∀ t, Historia c.1 j t
  nueva : ∀ requests next job, .nueva requests next job ∈ c.2 → Nueva c.1 job
  muerta : ∀ job, .muerta job ∈ c.2 → Muerta c.1 job

namespace Lleva

variable {R : Conn → Prop} {s s' : Manager} {w w' : List Obra}

/-- Nothing that happens is about the job. -/
structure Ajena (s s' : Manager) (jobId : Int32) : Prop where
  entradas : ∀ t, s'.entradas t jobId = s.entradas t jobId
  log : ∀ t, pasado jobId t s'.log = pasado jobId t s.log

/-- Queues and log stay, but for events about others. -/
theorem Ajena.of_cola (es : List Event) (hcola : ∀ t, s'.cola t = s.cola t)
    (hlog : s'.log = s.log ++ es) {jobId : Int32} (hes : ∀ e ∈ es, e.ajeno jobId = true) :
    Ajena s s' jobId := by
  refine ⟨fun t => ?_, fun t => ?_⟩
  · unfold Manager.entradas
    rw [hcola]
  · rw [hlog]
    exact pasado_append_of_ajeno hes t s.log

theorem Ajena.emit (jobId : Int32) {e : Event} (he : e.ajeno jobId = true) :
    Ajena s (s.emit e) jobId :=
  .of_cola [e] (fun t => Manager.cola_emit s t e) rfl (List.forall_mem_singleton.mpr he)

theorem Ajena.trans {s'' : Manager} {jobId : Int32} (h : Ajena s s' jobId)
    (h' : Ajena s' s'' jobId) : Ajena s s'' jobId :=
  ⟨fun t => (h'.entradas t).trans (h.entradas t), fun t => (h'.log t).trans (h.log t)⟩

/-- An entry of another that joins a queue. -/
theorem Ajena.enqueue {jobId : Int32} (tipo : Resource) {p : PendingRequest}
    (hp : p.ofJob jobId = false) : Ajena s (enqueue tipo p s) jobId := by
  refine ⟨fun t => ?_, fun t => rfl⟩
  unfold Manager.entradas
  rw [cola_enqueue]
  split
  · next ht =>
    rw [List.filter_append, List.filter_cons_of_neg (by simp [hp]), List.filter_nil,
      List.append_nil, ht]
  · rfl

theorem Ajena.takeUnits {jobId : Int32} (tipo : Resource) {p : PendingRequest}
    (hp : p.ofJob jobId = false) : Ajena s (takeUnits tipo p s) jobId := by
  refine .of_cola [.grant tipo p] (fun t => cola_takeUnits s t tipo p) rfl
    (List.forall_mem_singleton.mpr ?_)
  show (!p.ofJob jobId) = true
  rw [hp]
  rfl

/-- Purging another id. -/
theorem Ajena.limpiarColasPorId {jobId i : Int32} (hne : i ≠ jobId) :
    Ajena s (limpiarColasPorId jobId s) i := by
  refine ⟨fun t => ?_, fun t => rfl⟩
  unfold Manager.entradas
  rw [cola_limpiarColasPorId, List.filter_filter]
  refine congrArg (List.map _) (List.filter_congr (fun p _ => ?_))
  unfold PendingRequest.ofJob
  by_cases hid : p.jobId = i
  · simp [hid, hne]
  · simp [hid]

/-- **A step that is about no job of the table.** -/
theorem frame (h : Lleva R (s, w)) (havisos : AvisosPaso R (s', w')) (hjobs : s'.jobs = s.jobs)
    (hajena : ∀ j ∈ s.jobs, Ajena s s' j.jobId)
    (hnueva : ∀ requests next job, .nueva requests next job ∈ w' → Nueva s' job)
    (hmuerta : ∀ job, .muerta job ∈ w' → job.Ids ∧ ∀ j ∈ s.jobs, j.jobId ≠ job.jobId) :
    Lleva R (s', w') where
  avisos := havisos
  ids j hj := h.ids j (hjobs ▸ hj)
  historia j hj t := by
    have hj : j ∈ s.jobs := hjobs ▸ hj
    exact (h.historia j hj t).of_eq rfl rfl ((hajena j hj).entradas t) ((hajena j hj).log t)
  nueva := hnueva
  muerta job hmem := ⟨(hmuerta job hmem).1, fun j hj => (hmuerta job hmem).2 j (hjobs ▸ hj)⟩

/-- A step with only the rest of a handler in hand afterwards. -/
theorem frame_llamada (h : Lleva R (s, w)) (havisos : AvisosPaso R (s', w'))
    (hw : ∀ o ∈ w', o.job? = none) (hjobs : s'.jobs = s.jobs)
    (hajena : ∀ j ∈ s.jobs, Ajena s s' j.jobId) : Lleva R (s', w') :=
  h.frame havisos hjobs hajena (fun _ _ _ hmem => nomatch hw _ hmem)
    (fun _ hmem => nomatch hw _ hmem)

/-- A step while a job is taken apart. -/
theorem frame_muerta (pre : List Obra) {job : Job} {rest : List Allocation}
    (h : Lleva R (s, .muerta job :: w))
    (havisos : AvisosPaso R (s', pre ++ .muerta { job with confirmadas := rest } :: w))
    (hpre : ∀ o ∈ pre, o.job? = none) (hrest : ∀ a ∈ rest, a ∈ job.confirmadas)
    (hjobs : s'.jobs = s.jobs) (hajena : ∀ j ∈ s.jobs, Ajena s s' j.jobId) :
    Lleva R (s', pre ++ .muerta { job with confirmadas := rest } :: w) := by
  refine h.frame havisos hjobs hajena (fun requests next new hmem => ?_) (fun dead hmem => ?_)
  · rcases List.mem_append.mp hmem with hmem | hmem
    · exact nomatch hpre _ hmem
    · have hw := h.avisos.not_nueva_of_cons (fun _ _ _ heq => nomatch heq)
      rcases List.mem_cons.mp hmem with heq | hmem
      · exact nomatch heq
      · exact absurd hmem (hw requests next new)
  · rcases List.mem_append.mp hmem with hmem | hmem
    · exact nomatch hpre _ hmem
    · rcases List.mem_cons.mp hmem with heq | hmem
      · obtain rfl := Obra.muerta.inj heq
        have hjob := h.muerta job List.mem_cons_self
        exact ⟨fun a ha => hjob.ids a (hrest a ha), hjob.fuera⟩
      · have hdead := h.muerta dead (List.mem_cons_of_mem _ hmem)
        exact ⟨hdead.ids, hdead.fuera⟩

/-- A step while the entries of a new job are placed. -/
theorem frame_nueva {requests next next' : List ResourceRequest} {job job' : Job}
    (h : Lleva R (s, [.nueva requests next job]))
    (havisos : AvisosPaso R (s', [.nueva requests next' job'])) (hnueva : Nueva s' job')
    (hjobs : s'.jobs = s.jobs) (hajena : ∀ j ∈ s.jobs, Ajena s s' j.jobId) :
    Lleva R (s', [.nueva requests next' job']) := by
  refine h.frame havisos hjobs hajena (fun r n new hmem => ?_) (fun dead hmem => ?_)
  · obtain ⟨rfl, rfl, rfl⟩ := Obra.nueva.inj (List.mem_singleton.mp hmem)
    exact hnueva
  · exact nomatch List.mem_singleton.mp hmem

/-! ## A round of the loop -/

/-- **A round of the loop on a job of the table** serves its oldest entry and marks
its newest allocation. -/
theorem historia_dequeueTop {j : Job} {tipo : Resource} {top : PendingRequest}
    {rest : List PendingRequest} (h : Historia s j tipo) (hown : j.Own)
    (hc : s.cola tipo = top :: rest) (hof : top.ofJob j.jobId = true)
    (hconn : top.ownerConn = j.conn)
    (hlog : ∃ es, (dequeueTop tipo top s).log = s.log ++ [.grant tipo top] ++ es
      ∧ ∀ e ∈ es, e.ajeno j.jobId = true) :
    Historia (dequeueTop tipo top s) (j.markGranted top.ownerConn tipo) tipo := by
  obtain ⟨k, halta, hlocales, hentradas⟩ := h
  obtain ⟨es, hlog, hes⟩ := hlog
  have hpasado : pasado j.jobId tipo (dequeueTop tipo top s).log
      = ⟨some k, (pasado j.jobId tipo s.log).servidas ++ [top]⟩ := by
    rw [hlog, pasado_append_of_ajeno hes, pasado_concat]
    refine (if_pos ⟨rfl, hof⟩).trans ?_
    rw [halta]
  have hmark : (j.markGranted top.ownerConn tipo).locales tipo = marcaPrimera (j.locales tipo) :=
    locales_markGranted (fun a ha hlocal => (hown.conn a ha hlocal).trans hconn.symm)
  have hcola : s.entradas tipo j.jobId
      = top.amount :: (dequeueTop tipo top s).entradas tipo j.jobId := by
    unfold Manager.entradas
    rw [cola_dequeueTop s tipo tipo hc, if_pos rfl, hc, List.filter_cons_of_pos hof,
      List.map_cons]
  refine ⟨k, congrArg Pasado.alta hpasado, ?_, ?_⟩
  · show Job.locales tipo _ = if (pasado j.jobId tipo _).servidas = [] then _ else _
    rw [hpasado, if_neg (List.append_ne_nil_of_right_ne_nil _ (List.cons_ne_nil _ _)), hmark,
      hlocales]
    split
    · rfl
    · exact marcaPrimera_marcaPrimera _
  · show (pasado j.jobId tipo _).servidas.map _ ++ Manager.entradas _ tipo j.jobId = _
    rw [hpasado, List.map_append, List.append_assoc, ← hentradas, hcola]
    rfl

/-- A round grants, and then at most answers. -/
theorem log_dequeueTop (tipo : Resource) (top : PendingRequest) (s : Manager) :
    ∃ es, (Hpc.dequeueTop tipo top s).log = s.log ++ [.grant tipo top] ++ es
      ∧ ∀ e ∈ es, ∀ i, e.ajeno i = true := by
  rw [dequeueTop_eq]
  unfold answerTop
  split
  · exact ⟨[_], rfl, fun e he i => (List.mem_singleton.mp he).symm ▸ rfl⟩
  · split
    · refine ⟨[_, _], List.append_assoc _ [_] [_], fun e he i => ?_⟩
      rcases List.mem_pair.mp he with rfl | rfl
      · rfl
      · rfl
    · exact ⟨[], (List.append_nil _).symm, fun e he => absurd he List.not_mem_nil⟩

/-- The end of a `JOB_REQUEST` inserts, and then at most answers. -/
theorem log_insertJob_ajeno (job : Job) (requests : List ResourceRequest) (s : Manager) :
    ∃ es, (Hpc.insertJob job requests s).log = s.log ++ [.inserted job requests] ++ es
      ∧ ∀ e ∈ es, ∀ i, e.ajeno i = true := by
  unfold Hpc.insertJob
  dsimp only
  split
  · refine ⟨[_, _], List.append_assoc _ [_] [_], fun e he i => ?_⟩
    rcases List.mem_pair.mp he with rfl | rfl
    · rfl
    · rfl
  · exact ⟨[], (List.append_nil _).symm, fun e he => absurd he List.not_mem_nil⟩

/-- A round is about the job of its entry, and about its resource. -/
theorem pasado_dequeueTop {i : Int32} {t tipo : Resource} {top : PendingRequest}
    (h : t = tipo → top.ofJob i = false) :
    pasado i t (Hpc.dequeueTop tipo top s).log = pasado i t s.log := by
  obtain ⟨es, hlog, hes⟩ := log_dequeueTop tipo top s
  rw [hlog, pasado_append_of_ajeno (fun e he => hes e he i), pasado_concat]
  exact if_neg (fun hof => Bool.false_ne_true ((h hof.1.symm).symm.trans hof.2))

theorem entradas_dequeueTop {i : Int32} {t tipo : Resource} {top : PendingRequest}
    {rest : List PendingRequest} (hc : s.cola tipo = top :: rest)
    (h : t = tipo → top.ofJob i = false) :
    (Hpc.dequeueTop tipo top s).entradas t i = s.entradas t i := by
  unfold Manager.entradas
  rw [cola_dequeueTop s tipo t hc]
  split
  · next ht => rw [ht, hc, List.filter_cons_of_neg (by simp [h ht])]
  · rfl

/-- **A round of the loop.** -/
theorem dequeueTop {tipo : Resource} {top : PendingRequest} {rest : List PendingRequest}
    (h : Lleva R (s, .sirviendo tipo :: w)) (hc : s.cola tipo = top :: rest)
    (havisos : AvisosPaso R (Hpc.dequeueTop tipo top s, .sirviendo tipo :: w)) :
    Lleva R (Hpc.dequeueTop tipo top s, .sirviendo tipo :: w) := by
  have hinv := h.avisos.avisos
  have htop : top ∈ s.cola tipo := hc ▸ List.mem_cons_self
  have hw := h.avisos.not_nueva_of_cons (fun _ _ _ heq => nomatch heq)
  have hwnueva : ∀ requests next job, .nueva requests next job ∉ Obra.sirviendo tipo :: w :=
    fun r n job hmem => (List.mem_cons.mp hmem).elim (fun heq => nomatch heq) (hw r n job)
  have hajena : ∀ i, (∀ t, t = tipo → top.ofJob i = false) →
      Ajena s (Hpc.dequeueTop tipo top s) i := fun i hnot =>
    ⟨fun t => entradas_dequeueTop hc (hnot t), fun t => pasado_dequeueTop (hnot t)⟩
  rcases top.ajena_or_of_job s.jobs with hother | ⟨hlocal, -⟩
  · -- the entry is of no job of the table, which stays as it is
    have hjobs := (hinv.dequeueTop_of_other (h.avisos.separadas (List.cons_ne_nil _ _)) hc hother).1
    refine h.frame havisos hjobs (fun j hj => hajena j.jobId (fun _ _ => ?_))
      (fun r n job hmem => absurd hmem (hwnueva r n job))
      (fun job hmem => ⟨(h.muerta job hmem).ids, (h.muerta job hmem).fuera⟩)
    rcases hother with hremote | hnone
    · exact ofJob_of_remote hremote j.jobId
    · exact ofJob_of_ne (hnone j hj).symm
  · have hids : ∀ j ∈ (Hpc.dequeueTop tipo top s).jobs, (j ∈ s.jobs ∧ j.jobId ≠ top.jobId)
        ∨ ∃ i ∈ s.jobs, i.jobId = top.jobId ∧ j = i.markGranted top.ownerConn tipo :=
      fun _ => mem_jobs_dequeueTop s tipo top hinv.distinct (hinv.ids tipo top htop)
    refine ⟨havisos, fun j hj => ?_, fun j hj t => ?_,
      fun r n job hmem => absurd hmem (hwnueva r n job), fun job hmem => ?_⟩
    · rcases hids j hj with ⟨hj, -⟩ | ⟨i, hi, -, rfl⟩
      · exact h.ids j hj
      · intro a ha
        rcases List.mem_of_mem_modifyFirst ha with ha | ⟨b, hb, -, rfl⟩
        · exact h.ids i hi a ha
        · exact h.ids i hi b hb
    · rcases hids j hj with ⟨hj, hne⟩ | ⟨i, hi, hid, rfl⟩
      · have hnot : top.ofJob j.jobId = false := ofJob_of_ne (Ne.symm hne)
        have hsame := hajena j.jobId (fun _ _ => hnot)
        exact (h.historia j hj t).of_eq rfl rfl (hsame.entradas t) (hsame.log t)
      · have hof : top.ofJob i.jobId = true := ofJob_iff.mpr ⟨hlocal, hid.symm⟩
        by_cases ht : t = tipo
        · subst ht
          obtain ⟨es, hlog, hes⟩ := log_dequeueTop t top s
          exact historia_dequeueTop (h.historia i hi t) (hinv.own i hi) hc hof
            (hinv.owner t top htop hlocal i hi hid) ⟨es, hlog, fun e he => hes e he i.jobId⟩
        · exact (h.historia i hi t).of_eq rfl (locales_markGranted_of_ne ht)
            (entradas_dequeueTop hc (fun heq => absurd heq ht))
            (pasado_dequeueTop (fun heq => absurd heq ht))
    · have hjob := h.muerta job hmem
      refine ⟨hjob.ids, fun j hj => ?_⟩
      rcases hids j hj with ⟨hj, -⟩ | ⟨i, hi, -, rfl⟩
      · exact hjob.fuera j hj
      · exact hjob.fuera i hi

/-! ## The other steps -/

/-- **A `GRANTED`** changes nothing local. -/
theorem processGranted (h : Lleva R (s, [])) (conn : Conn) {jobId : Int32} (hpos : 0 ≤ jobId)
    (havisos : AvisosPaso R (processGranted conn jobId s, [])) :
    Lleva R (processGranted conn jobId s, []) := by
  rcases processGranted_cases s conn hpos with
    ⟨-, heq⟩ | ⟨ip, -, -, heq⟩ | ⟨ip, -, job, hjob, hid, hrec, -, -, hjobs, hlog⟩
  · rw [heq] at havisos ⊢
    exact h
  · rw [heq] at havisos ⊢
    exact h.frame_llamada havisos (fun _ hmem => absurd hmem List.not_mem_nil) rfl
      (fun j _ => ((Ajena.emit j.jobId rfl).trans (.emit j.jobId rfl)).trans (.emit j.jobId rfl))
  · have hajena : ∀ i, Ajena s (Hpc.processGranted conn jobId s) i := by
      intro i
      refine .of_cola _ (fun t => ?_) hlog (fun e he => ?_)
      · unfold Manager.cola
        rw [hrec]
      · split at he
        · unfold Job.told at he
          split at he
          · rcases List.mem_pair.mp he with rfl | rfl
            · rfl
            · rfl
          · exact absurd he List.not_mem_nil
        · exact absurd he List.not_mem_nil
    have hmem : ∀ j ∈ (Hpc.processGranted conn jobId s).jobs, (j ∈ s.jobs ∧ j.jobId ≠ jobId)
        ∨ ∃ i ∈ s.jobs, i.jobId = jobId ∧ j = (jobConfirmar i ip jobId).2 :=
      fun j hj => h.avisos.avisos.distinct.mem_modifyFirst (fun j => jobId_jobConfirmar j ip jobId)
        (hjobs ▸ hj)
    refine ⟨havisos, fun j hj => ?_, fun j hj t => ?_,
      fun _ _ _ hmem => absurd hmem List.not_mem_nil, fun _ hmem => absurd hmem List.not_mem_nil⟩
    · rcases hmem j hj with ⟨hj, -⟩ | ⟨i, hi, hid, rfl⟩
      · exact h.ids j hj
      · exact (h.ids i hi).confirmar ip hid
    · rcases hmem j hj with ⟨hj, -⟩ | ⟨i, hi, -, rfl⟩
      · exact (h.historia j hj t).of_eq rfl rfl ((hajena j.jobId).entradas t)
          ((hajena j.jobId).log t)
      · exact (h.historia i hi t).of_eq (jobId_jobConfirmar i ip jobId)
          (locales_jobConfirmar ip jobId) ((hajena i.jobId).entradas t) ((hajena i.jobId).log t)

/-- **The new job joins the table**: all its entries still wait. -/
theorem insertJob {requests : List ResourceRequest} {job : Job}
    (h : Lleva R (s, [.nueva requests [] job]))
    (havisos : AvisosPaso R (insertJob job requests s, [])) :
    Lleva R (insertJob job requests s, []) := by
  obtain ⟨-, -, hpos, hnac⟩ := h.avisos.nueva_inv
  have hnueva := h.nueva requests [] job List.mem_cons_self
  have hperm := jobs_insertJob_perm (s := s) requests hpos
  have hmem : ∀ j ∈ (Hpc.insertJob job requests s).jobs, j = job ∨ j ∈ s.jobs :=
    fun j hj => List.mem_cons.mp (hperm.mem_iff.mp hj)
  obtain ⟨es, hlog, hes⟩ := log_insertJob_ajeno job requests s
  refine ⟨havisos, fun j hj => ?_, fun j hj t => ?_,
    fun _ _ _ hmem => absurd hmem List.not_mem_nil, fun _ hmem => absurd hmem List.not_mem_nil⟩
  · rcases hmem j hj with rfl | hj
    · exact hnueva.ids
    · exact h.ids j hj
  · have hcola : ∀ i, (Hpc.insertJob job requests s).entradas t i = s.entradas t i := by
      intro i
      unfold Manager.entradas
      rw [cola_insertJob]
    rcases hmem j hj with rfl | hj
    · have hpasado : pasado j.jobId t (Hpc.insertJob j requests s).log = ⟨some j, []⟩ := by
        rw [hlog, pasado_append_of_ajeno (fun e he => hes e he _), pasado_concat]
        exact if_pos rfl
      refine ⟨j, congrArg Pasado.alta hpasado, ?_, ?_⟩
      · rw [hpasado]
        exact (if_pos rfl).symm
      · rw [hpasado, hcola, hnueva.entradas t]
        rfl
    · refine (h.historia j hj t).of_eq rfl rfl (hcola _) ?_
      rw [hlog, pasado_append_of_ajeno (fun e he => hes e he _), pasado_concat]
      exact if_neg (hnac.fresh j hj).symm

/-- **A `RESERVE`** is of no job of this node. -/
theorem processReserve_ajena (conn : Conn) (jobId : Int32) (type : Resource) (amount : Int32)
    (s : Manager) (i : Int32) : Ajena s (processReserve conn jobId type amount s) i := by
  rcases processReserve_cases conn jobId type amount s with
    ⟨-, heq⟩ | ⟨-, -, heq⟩ | ⟨-, -, heq⟩
  · rw [heq]
    exact (Ajena.takeUnits (p := ⟨jobId, amount, conn, .originRemote⟩) type rfl).trans
      (.emit (e := .tx conn (.granted jobId)) i rfl)
  · rw [heq]
    exact .emit i rfl
  · rw [heq]
    exact .enqueue type rfl

/-- A job asked for is in no queue yet. -/
theorem entradas_nuevo {jobId : Int32} {conn : Conn} (h : Naciente s ⟨jobId, conn, [], []⟩)
    (t : Resource) : s.entradas t jobId = [] := by
  have hnone := List.countP_eq_zero.mp (Nat.le_zero.mp (h.waits t))
  unfold Manager.entradas
  rw [List.map_eq_nil_iff, List.filter_eq_nil_iff]
  exact hnone

/-- **A purge** is of an id the table does not have. -/
theorem purgeId {jobId : Int32} (h : Lleva R (s, w)) (hid : Ausente s w jobId)
    (havisos : AvisosPaso R (limpiarColasPorId jobId s, w)) :
    Lleva R (limpiarColasPorId jobId s, w) := by
  refine h.frame havisos rfl (fun j hj => .limpiarColasPorId ?_) (fun r n job hmem => ?_)
    (fun dead hmem => ⟨(h.muerta dead hmem).ids, (h.muerta dead hmem).fuera⟩)
  · rcases hid with ⟨-, hnone⟩ | ⟨job, hmem, rfl | ⟨a, ha, rfl⟩⟩
    · rintro rfl
      rw [TablaJobs.buscarPorId_eq _ (h.avisos.avisos.distinct.nonneg j hj),
        List.find?_eq_none] at hnone
      exact hnone j hj (beq_self_eq_true _)
    · exact (h.muerta job hmem).fuera j hj
    · rw [(h.muerta job hmem).ids a ha]
      exact (h.muerta job hmem).fuera j hj
  · -- with a new job in hand there is nothing to purge
    have hsola := (h.avisos.nueva r n job hmem).1
    dsimp only at hsola
    rcases hid with ⟨hw, -⟩ | ⟨dead, hdead, -⟩
    · rw [hw] at hsola
      exact nomatch (List.cons.inj hsola).1
    · rw [hsola] at hdead
      exact nomatch List.mem_singleton.mp hdead

/-- **A job is taken out of the table.** -/
theorem extract {jobId : Int32} {job : Job} (h : Lleva R (s, [.llamada])) (hpos : 0 ≤ jobId)
    (hfind : tablaJobsBuscarPorId s.tabla jobId = some job)
    (havisos : AvisosPaso R (s.setTabla (tablaJobsExtractById s.tabla jobId).2,
      [.muerta job, .llamada])) :
    Lleva R (s.setTabla (tablaJobsExtractById s.tabla jobId).2, [.muerta job, .llamada]) := by
  have hmem : ∀ j ∈ TablaJobs.jobs (tablaJobsExtractById s.tabla jobId).2,
      j ∈ s.jobs ∧ j.jobId ≠ jobId := fun j hj =>
    h.avisos.avisos.distinct.mem_eraseP (TablaJobs.jobs_extractById s.tabla hpos ▸ hj)
  rw [TablaJobs.buscarPorId_eq _ hpos] at hfind
  have hid : job.jobId = jobId := eq_of_beq
    (List.find?_some (p := fun j : Job => j.jobId == jobId) hfind)
  refine ⟨havisos, fun j hj => h.ids j (hmem j hj).1,
    fun j hj t => (h.historia j (hmem j hj).1 t).of_eq rfl rfl rfl rfl,
    fun r n new hnew => absurd hnew (by simp), fun dead hdead => ?_⟩
  have hdead : dead = job := by simpa using hdead
  rw [hdead]
  exact ⟨h.ids job (List.mem_of_find?_eq_some hfind), fun j hj => hid ▸ (hmem j hj).2⟩

/-- **Every small step keeps the invariant.** -/
theorem paso {c d : Manager × List Obra} (h : Lleva R c) (hpaso : Paso (Lineas R) c d) :
    Lleva R d := by
  have havisos := h.avisos.paso (Lineas.origenes hpaso)
  cases hpaso with
  | mensaje conn m hG hm =>
    exact h.frame_llamada havisos (by simp [Obra.job?]) rfl (fun j _ => .emit j.jobId rfl)
  | cerrar =>
    exact h.frame_llamada havisos (by simp) rfl (fun j _ => ⟨fun _ => rfl, fun _ => rfl⟩)
  | reserve conn jobId type amount hG =>
    refine h.frame_llamada havisos (by simp) ?_ (fun j _ =>
      (Ajena.emit j.jobId rfl).trans (processReserve_ajena conn jobId type amount _ j.jobId))
    rcases processReserve_cases conn jobId type amount (Manager.emit _ (.rx conn _)) with
      ⟨-, heq⟩ | ⟨-, -, heq⟩ | ⟨-, -, heq⟩
    all_goals rw [heq]
    all_goals rfl
  | returned conn jobId type amount hG hne haccepts =>
    refine h.frame_llamada havisos (by simp [Obra.job?]) rfl (fun j _ => ?_)
    exact ((Ajena.emit j.jobId rfl).trans (.emit j.jobId rfl)).trans
      (.of_cola [] (fun t => cola_giveUnits _ t type amount) (List.append_nil _).symm (by simp))
  | refused conn jobId type amount hG hne haccepts =>
    exact h.frame_llamada havisos (by simp [Obra.job?]) rfl (fun j _ =>
      (Ajena.emit j.jobId rfl).trans (.emit j.jobId rfl))
  | granted conn jobId hG =>
    have hrx : Lleva R (Manager.emit _ (.rx conn (.granted jobId)), []) :=
      h.frame_llamada (.of_nil (h.avisos.nil.emit rfl)) (by simp) rfl
        (fun j _ => .emit j.jobId rfl)
    exact hrx.processGranted conn (hG.2.1 _ rfl) havisos
  | dequeue tipo top rest hc hfits => exact h.dequeueTop hc havisos
  | parar tipo hstop =>
    have hw := h.avisos.not_nueva_of_cons (fun _ _ _ heq => by cases heq)
    refine h.frame havisos rfl (fun j _ => ⟨fun _ => rfl, fun _ => rfl⟩)
      (fun r n job hmem => absurd hmem (hw r n job)) (fun job hmem => ?_)
    have hjob := h.muerta job (List.mem_cons_of_mem _ hmem)
    exact ⟨hjob.ids, hjob.fuera⟩
  | purgeId jobId hid => exact h.purgeId hid havisos
  | purgeConn conn hG => exact hG.elim
  | extract jobId job hpos hfind => exact h.extract hpos hfind havisos
  | lose conn hG => exact hG.elim
  | soltar job a rest hjob hheld haccepts =>
    refine frame_muerta [.sirviendo a.name] h havisos (by simp [Obra.job?])
      (fun b hb => hjob ▸ List.mem_cons_of_mem a hb) rfl (fun j _ => ?_)
    exact (Ajena.emit j.jobId rfl).trans
      (.of_cola [] (fun t => cola_giveUnits _ t a.name a.amount) (List.append_nil _).symm (by simp))
  | perder job a rest hjob hheld haccepts =>
    exact frame_muerta [] h havisos (by simp)
      (fun b hb => hjob ▸ List.mem_cons_of_mem a hb) rfl (fun j _ => .emit j.jobId rfl)
  | avisar job a rest jobId conn hjob hremote hid hconn =>
    exact frame_muerta [] h havisos (by simp)
      (fun b hb => hjob ▸ List.mem_cons_of_mem a hb) rfl (fun j _ => .emit j.jobId rfl)
  | olvidar job a rest hjob hheld hremote =>
    exact frame_muerta [] h havisos (by simp)
      (fun b hb => hjob ▸ List.mem_cons_of_mem a hb) rfl
      (fun j _ => ⟨fun _ => rfl, fun _ => rfl⟩)
  | descartar job hjob hpurged =>
    have hw := h.avisos.not_nueva_of_cons (fun _ _ _ heq => by cases heq)
    refine h.frame havisos rfl (fun j _ => ⟨fun _ => rfl, fun _ => rfl⟩)
      (fun r n job hmem => absurd hmem (hw r n job)) (fun dead hmem => ?_)
    have hdead := h.muerta dead (List.mem_cons_of_mem _ hmem)
    exact ⟨hdead.ids, hdead.fuera⟩
  | nuevo conn jobId requests hG hnew =>
    obtain ⟨-, -, -, hnac⟩ := havisos.nueva_inv
    refine h.frame havisos rfl (fun j _ => .emit j.jobId rfl) (fun r n job hmem => ?_)
      (fun dead hmem => absurd hmem (by simp))
    obtain ⟨rfl, rfl, rfl⟩ := Obra.nueva.inj (List.mem_singleton.mp hmem)
    exact ⟨fun a ha => absurd ha List.not_mem_nil, entradas_nuevo hnac⟩
  | localGranted requests next head job hip hfits =>
    obtain ⟨-, -, -, hnac⟩ := h.avisos.nueva_inv
    have hnueva := h.nueva requests (head :: next) job List.mem_cons_self
    refine h.frame_nueva havisos (hnueva.addGranted head) rfl (fun j hj =>
      Ajena.takeUnits head.type ?_)
    exact ofJob_pending_of_ne (hnac.fresh j hj)
  | localQueued requests next head job hip hfits htotal =>
    obtain ⟨-, -, -, hnac⟩ := h.avisos.nueva_inv
    have hnueva := h.nueva requests (head :: next) job List.mem_cons_self
    refine h.frame_nueva havisos (hnueva.addQueued head) rfl (fun j hj =>
      Ajena.enqueue head.type ?_)
    exact ofJob_pending_of_ne (hnac.fresh j hj)
  | remoteSent requests next head job remote hip hlookup =>
    have hnueva := h.nueva requests (head :: next) job List.mem_cons_self
    exact h.frame_nueva havisos ⟨hnueva.ids, hnueva.entradas⟩ rfl (fun j _ => .emit j.jobId rfl)
  | remoteConnecting requests next head job conn hip hlookup =>
    have hnueva := h.nueva requests (head :: next) job List.mem_cons_self
    exact h.frame_nueva havisos ⟨hnueva.ids, hnueva.entradas⟩ rfl (fun j _ => .emit j.jobId rfl)
  | insertar requests job => exact h.insertJob havisos
  | abandonar requests next job =>
    obtain ⟨-, -, -, hnac⟩ := h.avisos.nueva_inv
    refine h.frame havisos rfl (fun j _ => ⟨fun _ => rfl, fun _ => rfl⟩)
      (fun r n new hmem => absurd hmem (by simp)) (fun dead hmem => ?_)
    have hdead : dead = job := by simpa using hmem
    rw [hdead]
    exact ⟨(h.nueva requests next job List.mem_cons_self).ids, hnac.fresh⟩
  | decir conn m hm =>
    refine h.frame havisos rfl (fun j _ => .emit j.jobId rfl) (fun r n job hmem => ?_)
      (fun dead hmem => ⟨(h.muerta dead hmem).ids, (h.muerta dead hmem).fuera⟩)
    have hnueva := h.nueva r n job hmem
    exact ⟨hnueva.ids, hnueva.entradas⟩
  | listo conn hG =>
    obtain ⟨conns, heq⟩ := processConnectionReady_eq _ conn
    rw [heq] at havisos ⊢
    refine h.frame_llamada havisos (by simp) rfl (fun j _ =>
      ⟨fun _ => rfl, fun t => pasado_append_of_ajeno (fun e he => ?_) t _⟩)
    obtain ⟨req, -, rfl⟩ := List.mem_map.mp he
    rfl
  | conexiones conn hG => exact hG.elim (fun _ hG => hG.elim)
  | nodos nodos =>
    exact h.frame_llamada havisos (by simp) rfl (fun j _ => ⟨fun _ => rfl, fun _ => rfl⟩)

end Lleva

/-! ## What a call records -/

/-- The event inserts a job. -/
def Event.esAlta : Event → Bool
  | .inserted .. => true
  | _ => false

/-- The loop over the entries of a `JOB_REQUEST` inserts nothing. -/
theorem log_requestLoop (requests : List ResourceRequest) (red : Network) (job : Job)
    (s : Manager) : ∃ es, (requestLoop requests red job s).2.2.log = s.log ++ es
      ∧ ∀ e ∈ es, e.esAlta = false := by
  have hstep : ∀ (u : Manager) (e : Event), e.esAlta = false →
      (∃ es, u.log = s.log ++ es ∧ ∀ e ∈ es, e.esAlta = false) →
      ∃ es, u.log ++ [e] = s.log ++ es ∧ ∀ e ∈ es, e.esAlta = false := by
    rintro u e he ⟨es, hlog, hes⟩
    refine ⟨es ++ [e], by rw [hlog, List.append_assoc], fun e' hmem => ?_⟩
    rcases List.mem_append.mp hmem with hmem | hmem
    · exact hes e' hmem
    · exact (List.mem_singleton.mp hmem) ▸ he
  have h := requestLoop_invariant requests
    (P := fun _ _ u => ∃ es, u.log = s.log ++ es ∧ ∀ e ∈ es, e.esAlta = false)
    (fun _ _ u _ _ _ h _ => hstep u (.grant _ _) rfl h) (fun _ _ _ _ _ _ h _ _ => h)
    (fun _ _ u _ _ _ _ h _ => hstep u (.tx _ _) rfl h)
    (fun _ _ u _ _ _ _ h _ => hstep u (.connecting _ _) rfl h) [] red job s
    ⟨[], (List.append_nil _).symm, fun _ he => absurd he List.not_mem_nil⟩
  rcases h with ⟨-, h⟩ | ⟨-, -, h⟩
  · exact h
  · exact h

/-- **A call records more**, and inserts only a job the table does not have. -/
theorem Call.log_run (call : Call) (s : Manager) :
    ∃ es, (call.run s).log = s.log ++ es ∧ ∀ job requests, .inserted job requests ∈ es →
      tablaJobsBuscarPorId s.tabla job.jobId = none := by
  rcases call.sigue s with hsigue | ⟨conn, rfl⟩ | ⟨conn, msg, red, jobId, requests, rfl, hparse⟩
  · obtain ⟨es, hlog, hes⟩ := hsigue.log
    exact ⟨es, hlog, fun _ _ hmem => absurd (hes _ hmem) Bool.false_ne_true⟩
  · obtain ⟨conns, heq⟩ := processConnectionReady_eq s conn
    refine ⟨_, congrArg Manager.log heq, fun job requests hmem => ?_⟩
    obtain ⟨req, -, heq⟩ := List.mem_map.mp hmem
    exact nomatch heq
  · have hrun : (Call.message conn msg red).run s
        = processJobRequest conn jobId requests red
          (s.emit (.rx conn (.jobRequest jobId requests))) := by
      show processMessage conn msg red s = _
      unfold processMessage
      rw [hparse]
      rfl
    rw [hrun]
    generalize hu : s.emit (.rx conn (.jobRequest jobId requests)) = u
    have htabla : u.tabla = s.tabla := by rw [← hu]; rfl
    have hstart : u.log = s.log ++ [.rx conn (.jobRequest jobId requests)] := by rw [← hu]; rfl
    obtain ⟨es, hlog, hes⟩ := log_requestLoop requests red ⟨jobId, conn, [], []⟩ u
    obtain ⟨-, hid⟩ := tabla_requestLoop requests red ⟨jobId, conn, [], []⟩ u
    rcases processJobRequest_cases conn jobId requests red u with
      ⟨_, -, heq⟩ | ⟨hnew, -, heq⟩ | ⟨-, -, heq⟩
    · rw [heq]
      exact ⟨_, hstart, fun _ _ hmem => nomatch List.mem_singleton.mp hmem⟩
    · obtain ⟨fs, hlog', hfs⟩ := log_insertJob_append
        (requestLoop requests red ⟨jobId, conn, [], []⟩ u).2.1 requests
        (requestLoop requests red ⟨jobId, conn, [], []⟩ u).2.2
      rw [heq, hlog', hlog, hstart]
      refine ⟨[.rx conn (.jobRequest jobId requests)] ++ es
        ++ [.inserted (requestLoop requests red ⟨jobId, conn, [], []⟩ u).2.1 requests] ++ fs,
        by simp only [List.append_assoc], fun job reqs hmem => ?_⟩
      rcases List.mem_append.mp hmem with hmem | hmem
      · rcases List.mem_append.mp hmem with hmem | hmem
        · rcases List.mem_append.mp hmem with hmem | hmem
          · exact nomatch List.mem_singleton.mp hmem
          · exact nomatch hes _ hmem
        · obtain ⟨rfl, -⟩ := Event.inserted.inj (List.mem_singleton.mp hmem)
          rw [hid, ← htabla]
          exact hnew
      · exact absurd (hfs _ hmem) Bool.false_ne_true
    · obtain ⟨fs, hlog', hfs⟩ := (Manager.Sigue.rollbackJob
        (requestLoop requests red ⟨jobId, conn, [], []⟩ u).2.1
        (requestLoop requests red ⟨jobId, conn, [], []⟩ u).2.2).log
      rw [heq, hlog', hlog, hstart]
      refine ⟨[.rx conn (.jobRequest jobId requests)] ++ es ++ fs,
        by simp only [List.append_assoc], fun job reqs hmem => ?_⟩
      rcases List.mem_append.mp hmem with hmem | hmem
      · rcases List.mem_append.mp hmem with hmem | hmem
        · exact nomatch List.mem_singleton.mp hmem
        · exact nomatch hes _ hmem
      · exact absurd (hfs _ hmem) Bool.false_ne_true

/-- An event that is no insertion of the id adds what it grants. -/
theorem pasadoStep_of_ne {i : Int32} {t : Resource} {e : Event}
    (he : ∀ job requests, e = .inserted job requests → job.jobId ≠ i) (h : Pasado) :
    pasadoStep i t h e
      = ⟨h.alta, h.servidas ++ (concesiones t [e]).filter (PendingRequest.ofJob i)⟩ := by
  have hsame : h = ⟨h.alta, h.servidas ++ []⟩ := Pasado.ext rfl (List.append_nil _).symm
  cases e with
  | inserted job requests => exact (if_neg (he job requests rfl)).trans hsame
  | grant tipo p =>
    unfold pasadoStep concesiones
    by_cases ht : tipo = t
    · by_cases hof : p.ofJob i = true
      · simp [ht, hof]
      · simp [ht, hof]
    · simp [ht]
  | _ => exact hsame

/-- What is recorded of a job while no other takes its id. -/
theorem pasado_append {i : Int32} {t : Resource} {es : List Event}
    (hes : ∀ job requests, .inserted job requests ∈ es → job.jobId ≠ i) (log : List Event) :
    pasado i t (log ++ es) = ⟨(pasado i t log).alta,
      (pasado i t log).servidas ++ (concesiones t es).filter (PendingRequest.ofJob i)⟩ := by
  induction es generalizing log with
  | nil =>
    rw [List.append_nil]
    exact Pasado.ext rfl (List.append_nil _).symm
  | cons e es ih =>
    have hsplit : concesiones t (e :: es) = concesiones t [e] ++ concesiones t es :=
      concesiones_append t [e] es
    rw [List.append_cons, ih (fun job requests h => hes job requests (List.mem_cons_of_mem _ h)),
      pasado_concat, pasadoStep_of_ne (fun job requests heq =>
        hes job requests (heq ▸ List.mem_cons_self)), hsplit, List.filter_append,
      List.append_assoc]

/-- **The entries of a job that a call serves.** -/
def Call.atiende (call : Call) (s : Manager) (t : Resource) (i : Int32) : List PendingRequest :=
  (((s.fila t).tras (call.ops t s)).servidas.map (·.pedido)).filter (PendingRequest.ofJob i)

/-- **A call and a job of the table**: the record gets the entries the call serves. -/
theorem pasado_run (call : Call) {s : Manager} {i : Int32}
    (hfind : tablaJobsBuscarPorId s.tabla i ≠ none) (t : Resource) :
    pasado i t (call.run s).log
      = ⟨(pasado i t s.log).alta, (pasado i t s.log).servidas ++ call.atiende s t i⟩ := by
  obtain ⟨es, hlog, hes⟩ := call.log_run s
  have hserved := (hace_call t call s _ _ (s.refleja_fila t)).servidas
  rw [hlog, concesiones_append] at hserved
  have hne : ∀ job requests, .inserted job requests ∈ es → job.jobId ≠ i := by
    rintro job requests hmem rfl
    exact hfind (hes job requests hmem)
  rw [hlog, pasado_append hne, List.append_cancel_left hserved]
  rfl

/-! ## Runs -/

/-- The line ends the job. -/
def Call.Ends (call : Call) (i : Int32) : Prop :=
  match call with
  | .message _ msg _ => (parseMessage msg).bind Message.ends = some i
  | _ => False

/-- **The call keeps marks and entries in step**: of every job of the table that it
does not end, and for every resource, it serves at most one entry, and that for the
amount of the newest allocation of the resource, which waits. -/
def Call.AlDia (call : Call) (s : Manager) : Prop :=
  ∀ j ∈ s.jobs, ¬call.Ends j.jobId → ∀ t, call.atiende s t j.jobId = []
    ∨ ∃ p a rest, call.atiende s t j.jobId = [p] ∧ j.locales t = a :: rest
      ∧ a.result = .queued ∧ a.amount = p.amount

section Runs

variable {R : Conn → Prop} {s : Manager} {call : Call} {j : Job} {t : Resource}

/-- **A job that stays**: its record is good after the call if it was before and the
call serves the right entry. -/
theorem Historia.bueno_iff (h : Historia s j t) (hbueno : (pasado j.jobId t s.log).Bueno t)
    {ps : List PendingRequest} :
    (Pasado.mk (pasado j.jobId t s.log).alta ((pasado j.jobId t s.log).servidas ++ ps)).Bueno t
      ↔ ps = [] ∨ ∃ p a rest, ps = [p] ∧ j.locales t = a :: rest ∧ a.result = .queued
        ∧ a.amount = p.amount := by
  obtain ⟨k, halta, hlocales, -⟩ := h
  rw [hlocales]
  generalize pasado j.jobId t s.log = h at halta hbueno
  obtain ⟨alta, servidas⟩ := h
  dsimp only at halta ⊢
  subst halta
  cases ps with
  | nil =>
    rw [List.append_nil]
    exact iff_of_true hbueno (Or.inl rfl)
  | cons p ps =>
    constructor
    · rintro (hnil | ⟨k', q, a, rest, hk, hone, hrest, hq, hamount⟩)
      · exact absurd hnil (List.append_ne_nil_of_right_ne_nil _ (List.cons_ne_nil _ _))
      · obtain rfl := Option.some.inj hk
        -- one entry in all, so none before
        have hlength := congrArg List.length hone
        rw [List.length_append, List.length_cons, List.length_singleton] at hlength
        have hnone : servidas = [] := List.length_eq_zero_iff.mp (by omega)
        rw [hnone, List.nil_append] at hone
        exact Or.inr ⟨q, a, rest, hone, by rw [if_pos hnone, hrest], hq, hamount⟩
    · rintro (hnil | ⟨q, a, rest, hone, hrest, hq, hamount⟩)
      · exact absurd hnil (List.cons_ne_nil _ _)
      · -- the newest allocation still waits, so no entry was served before
        have hnone : servidas = [] := by
          by_contra hne
          rw [if_neg hne] at hrest
          cases hk : k.locales t with
          | nil => exact nomatch hk ▸ hrest
          | cons b l =>
            rw [hk] at hrest
            obtain ⟨rfl, -⟩ := List.cons.inj hrest
            exact Result.noConfusion hq
        rw [if_pos hnone] at hrest
        rw [hnone, List.nil_append, hone]
        exact Or.inr ⟨k, q, a, rest, rfl, rfl, hrest, hq, hamount⟩

/-- A line that does not end a job leaves it in the table. -/
theorem stays_of_not_ends (hG : (Lineas R).allows s call)
    (hfind : tablaJobsBuscarPorId s.tabla j.jobId = some j) (hnot : ¬call.Ends j.jobId) :
    tablaJobsBuscarPorId (call.run s).tabla j.jobId ≠ none := by
  intro hnone
  have hremoves : call.Removes s j := ⟨hfind, hnone⟩
  cases call with
  | message conn msg red =>
    cases hparse : parseMessage msg with
    | none =>
      have hsame : (Call.message conn msg red).run s = s := by
        show processMessage conn msg red s = s
        unfold processMessage
        rw [hparse]
      rw [hsame, hfind] at hnone
      exact nomatch hnone
    | some m =>
      refine hnot ?_
      show (parseMessage msg).bind _ = _
      rw [hparse]
      exact eq_of_removes_message hparse hremoves
  | ready conn =>
    obtain ⟨conns, heq⟩ := processConnectionReady_eq s conn
    have htabla : (Call.ready conn).run s = _ := heq
    rw [htabla, hfind] at hnone
    exact nomatch hnone
  | failed conn => exact hG
  | disconnect conn => exact hG
  | announce now ipSender msg =>
    have htabla : ((Call.announce now ipSender msg).run s).tabla = s.tabla := by
      show (processAnnounce now ipSender msg s).tabla = _
      unfold processAnnounce
      split <;> rfl
    rw [htabla, hfind] at hnone
    exact nomatch hnone
  | purge now timeout => exact nomatch hfind.symm.trans hnone

/-- A line that ends a job leaves none with its id. -/
theorem gone_of_ends (hu : s.tabla.Unicos) {i : Int32} (hends : call.Ends i) :
    tablaJobsBuscarPorId (call.run s).tabla i = none := by
  cases call with
  | message conn msg red =>
    cases hparse : parseMessage msg with
    | none =>
      have hends : (parseMessage msg).bind _ = some i := hends
      rw [hparse] at hends
      exact nomatch hends
    | some m =>
      have hends : (parseMessage msg).bind _ = some i := hends
      rw [hparse] at hends
      show tablaJobsBuscarPorId (processMessage conn msg red s).tabla i = none
      unfold processMessage
      rw [hparse]
      exact ((marcadas_handle hends conn red (s.emit (.rx conn m))).buscarPorId_eq_none i).mpr
        (hu.buscarPorId_extractById i)
  | _ => exact hends.elim

/-- **A job the table did not have** has just been inserted, and nothing of it was
served since. -/
theorem bueno_of_new (hG : (Lineas R).allows s call) (hj : j ∈ (call.run s).jobs)
    (hnew : ∀ i ∈ s.jobs, i.jobId ≠ j.jobId) :
    (pasado j.jobId t (call.run s).log).Bueno t := by
  rcases call.sigue s with hsigue | ⟨conn, rfl⟩ | ⟨conn, msg, red, jobId, requests, rfl, hparse⟩
  · obtain ⟨i, hi, hsame⟩ := hsigue.tabla.exists_of_mem_toList hj
    exact absurd (Job.Sigue.jobId hsame).symm (hnew i hi)
  · obtain ⟨conns, heq⟩ := processConnectionReady_eq s conn
    have hrun : (Call.ready conn).run s = _ := heq
    rw [hrun] at hj
    exact absurd rfl (hnew j hj)
  · have hrun : (Call.message conn msg red).run s
        = processJobRequest conn jobId requests red
          (s.emit (.rx conn (.jobRequest jobId requests))) := by
      show processMessage conn msg red s = _
      unfold processMessage
      rw [hparse]
      rfl
    rw [hrun] at hj ⊢
    generalize hu : s.emit (.rx conn (.jobRequest jobId requests)) = u at hj ⊢
    have hjobs : u.jobs = s.jobs := by rw [← hu]; rfl
    have hpos : 0 ≤ jobId := (hG _ hparse).2.1 jobId rfl
    obtain ⟨htabla, hid⟩ := tabla_requestLoop requests red ⟨jobId, conn, [], []⟩ u
    rcases processJobRequest_cases conn jobId requests red u with
      ⟨_, -, heq⟩ | ⟨-, -, heq⟩ | ⟨-, -, heq⟩
    · rw [heq, hjobs] at hj
      exact absurd rfl (hnew j hj)
    · rw [heq] at hj ⊢
      have hperm := jobs_insertJob_perm
        (s := (requestLoop requests red ⟨jobId, conn, [], []⟩ u).2.2)
        requests (hid ▸ hpos : 0 ≤ (requestLoop requests red ⟨jobId, conn, [], []⟩ u).2.1.jobId)
      rcases List.mem_cons.mp (hperm.mem_iff.mp hj) with rfl | hj
      · obtain ⟨es, hlog, hes⟩ := Lleva.log_insertJob_ajeno
          (requestLoop requests red ⟨jobId, conn, [], []⟩ u).2.1 requests
          (requestLoop requests red ⟨jobId, conn, [], []⟩ u).2.2
        rw [hlog, pasado_append_of_ajeno (fun e he => hes e he _), pasado_concat]
        exact Or.inl (congrArg Pasado.servidas (if_pos rfl))
      · have hsame : (requestLoop requests red ⟨jobId, conn, [], []⟩ u).2.2.jobs = s.jobs :=
          (congrArg TablaJobs.jobs htabla).trans hjobs
        rw [hsame] at hj
        exact absurd rfl (hnew j hj)
    · rw [heq] at hj
      obtain ⟨i, hi, hsame⟩ := (Manager.Sigue.rollbackJob
        (requestLoop requests red ⟨jobId, conn, [], []⟩ u).2.1
        (requestLoop requests red ⟨jobId, conn, [], []⟩ u).2.2).tabla.exists_of_mem_toList hj
      have hi : i ∈ s.jobs := hjobs ▸ (htabla ▸ hi : i ∈ u.tabla.toList TAM_TABLA_JOBS)
      exact absurd (Job.Sigue.jobId hsame).symm (hnew i hi)

/-- **One call** from a state where marks and entries agree. -/
theorem concuerda_call_iff (h : Lleva R (s, [])) (h' : Lleva R (call.run s, []))
    (hu : s.tabla.Unicos) (hG : (Lineas R).allows s call) (hs : s.Concuerda) :
    (call.run s).Concuerda ↔ call.AlDia s := by
  have hfind : ∀ j ∈ s.jobs, tablaJobsBuscarPorId s.tabla j.jobId = some j :=
    fun j hj => hu.buscarPorId_of_mem hj
  have hbueno : ∀ j ∈ s.jobs, ∀ t, ((pasado j.jobId t (call.run s).log).Bueno t
      ↔ call.atiende s t j.jobId = [] ∨ ∃ p a rest, call.atiende s t j.jobId = [p]
        ∧ j.locales t = a :: rest ∧ a.result = .queued ∧ a.amount = p.amount) := by
    intro j hj t
    have hhist := h.historia j hj t
    rw [pasado_run call (by rw [hfind j hj]; exact Option.some_ne_none j) t]
    exact hhist.bueno_iff (hhist.perm_iff.mp (hs j hj t))
  constructor
  · intro hrun j hj hnot t
    obtain ⟨j', hj'⟩ := Option.ne_none_iff_exists'.mp
      (stays_of_not_ends hG (hfind j hj) hnot)
    have hid : j'.jobId = j.jobId := eq_of_beq
      (List.find?_some (p := fun k : Job => k.jobId == j.jobId) hj')
    rw [TablaJobs.buscarPorId_eq _ (h.avisos.avisos.distinct.nonneg j hj)] at hj'
    have hmem : j' ∈ (call.run s).jobs := List.mem_of_find?_eq_some hj'
    have hgood := (h'.historia j' hmem t).perm_iff.mp (hrun j' hmem t)
    rw [hid] at hgood
    exact (hbueno j hj t).mp hgood
  · intro hdia j' hj' t
    refine (h'.historia j' hj' t).perm_iff.mpr ?_
    by_cases hold : ∃ j ∈ s.jobs, j.jobId = j'.jobId
    · obtain ⟨j, hj, hid⟩ := hold
      have hnot : ¬call.Ends j.jobId := by
        intro hends
        have hnone := gone_of_ends hu hends
        rw [hid, TablaJobs.buscarPorId_eq _ (h'.avisos.avisos.distinct.nonneg j' hj'),
          List.find?_eq_none] at hnone
        exact hnone j' hj' (beq_self_eq_true _)
      rw [← hid]
      exact (hbueno j hj t).mpr (hdia j hj hnot t)
    · exact bueno_of_new hG hj' (fun i hi hid => hold ⟨i, hi, hid⟩)

theorem Lleva.of_reaches {cpu mem gpu : Int32} {ip : CString}
    (hrun : Reaches Manager.step (Lineas R).allows (managerInit cpu mem gpu ip) s) :
    Lleva R (s, []) := by
  refine pasos_of_reaches hrun ?_ (fun _ _ => Lleva.paso)
  have hjobs : (managerInit cpu mem gpu ip).jobs = [] := TablaJobs.jobs_init
  refine ⟨.of_nil (Avisos.managerInit R cpu mem gpu ip), fun j hj => ?_, fun j hj => ?_,
    fun _ _ _ hmem => absurd hmem List.not_mem_nil, fun _ hmem => absurd hmem List.not_mem_nil⟩
  · exact absurd (hjobs ▸ hj) List.not_mem_nil
  · exact absurd (hjobs ▸ hj) List.not_mem_nil

end Runs

/-- The lines that keep marks and entries in step. -/
def AlCorriente (R : Conn → Prop) (s : Manager) (call : Call) : Prop :=
  (Lineas R).allows s call ∧ call.AlDia s

/-- **Queues and job table agree** in every state of such a run, and the first call
that serves another entry breaks it. -/
theorem concuerda_of_reaches (R : Conn → Prop) {cpu mem gpu : Int32} {ip : CString} {s : Manager}
    (hrun : Reaches Manager.step (AlCorriente R) (managerInit cpu mem gpu ip) s) :
    s.Concuerda ∧ ∀ call : Call, (Lineas R).allows s call →
      ((call.run s).Concuerda ↔ call.AlDia s) := by
  have hlleva : ∀ u, Reaches Manager.step (AlCorriente R) (managerInit cpu mem gpu ip) u →
      Lleva R (u, []) := fun u hu => .of_reaches (hu.mono (fun _ _ hok => hok.1))
  have hiff : ∀ u, Reaches Manager.step (AlCorriente R) (managerInit cpu mem gpu ip) u →
      u.Concuerda → ∀ call : Call, (Lineas R).allows u call →
      ((call.run u).Concuerda ↔ call.AlDia u) := by
    intro u hu hs call hG
    refine concuerda_call_iff (hlleva u hu) ?_ (unicos_of_reaches hu) hG hs
    exact pasos_of_call hG (hlleva u hu) (fun _ _ => Lleva.paso)
  have hconcuerda : s.Concuerda := by
    induction hrun with
    | refl =>
      intro j hj
      have hjobs : (managerInit cpu mem gpu ip).jobs = [] := TablaJobs.jobs_init
      exact absurd (hjobs ▸ hj) List.not_mem_nil
    | tail hbefore hlast ih =>
      obtain ⟨call, hok, hstep⟩ := hlast
      obtain rfl := Option.some.inj hstep
      exact (hiff _ hbefore ih call hok.1).mpr hok.2
  exact ⟨hconcuerda, hiff s hrun hconcuerda⟩

section Test

/-- `Call.AlDia`, computed. -/
def Call.alDia (call : Call) (s : Manager) : Bool :=
  s.jobs.all (fun j => [Resource.cpu, .mem, .gpu].all (fun t =>
    match call.atiende s t j.jobId, j.locales t with
    | [], _ => true
    | [p], a :: _ => a.result == .queued && a.amount == p.amount
    | _, _ => false))

theorem Call.AlDia.of_test {call : Call} {s : Manager} (h : call.alDia s = true) :
    call.AlDia s := by
  intro j hj _ t
  have ht : t ∈ [Resource.cpu, .mem, .gpu] := by cases t <;> decide
  have hjt := List.all_eq_true.mp (List.all_eq_true.mp h j hj) t ht
  split at hjt
  · next heq => exact Or.inl heq
  · next p a rest hone hlocales =>
    obtain ⟨hq, hamount⟩ := Bool.and_eq_true_iff.mp hjt
    exact Or.inr ⟨p, a, rest, hone, hlocales, eq_of_beq hq, eq_of_beq hamount⟩
  · exact absurd hjt Bool.false_ne_true

/-- The guard `Lineas` where no connection has `RESERVE`s, computed. -/
def Lineas.test (_s : Manager) : Call → Bool
  | .message _ msg _ => (parseMessage msg).all (fun m =>
      m.jobId?.all (fun i => decide (0 ≤ i)) && match m with
        | .reserve .. => false
        | _ => true)
  | _ => false

theorem Lineas.of_test {s : Manager} {call : Call} (h : Lineas.test s call = true) :
    (Lineas fun _ => False).allows s call := by
  cases call with
  | message conn msg red =>
    intro m hm
    simp only [test, hm, Option.all_some, Bool.and_eq_true] at h
    obtain ⟨hpos, hnot⟩ := h
    refine ⟨fun j _ hR => hR, fun i hi => ?_, ?_⟩
    · rw [Option.mem_def.mp hi] at hpos
      simpa using hpos
    · rintro i t a rfl
      exact absurd hnot Bool.false_ne_true
  | _ => exact absurd h Bool.false_ne_true

end Test

/-- A job that waited for one amount has got it. -/
theorem concuerda_after_release :
    ∃ s, Reaches.trace Manager.step (managerInit 4 8 1 ['A'])
        [.message 1 "JOB_REQUEST 1 @A:cpu:4".toList [],
         .message 1 "JOB_REQUEST 2 @A:cpu:2".toList [],
         .message 1 "JOB_RELEASE 1".toList []] = some s
      ∧ s.Concuerda := by
  have hcheck : (Reaches.checked Manager.step
      (fun s call => Lineas.test s call && call.alDia s) (managerInit 4 8 1 ['A'])
      [.message 1 "JOB_REQUEST 1 @A:cpu:4".toList [],
       .message 1 "JOB_REQUEST 2 @A:cpu:2".toList [],
       .message 1 "JOB_RELEASE 1".toList []]).any (fun _ => true) = true := by
    decide +kernel
  have hok : ∀ (s : Manager) (call : Call), (Lineas.test s call && call.alDia s) = true →
      AlCorriente (fun _ => False) s call := fun _ _ h =>
    ⟨Lineas.of_test (Bool.and_elim_left h), Call.AlDia.of_test (Bool.and_elim_right h)⟩
  obtain ⟨s, htrace, hrun, -⟩ := Reaches.of_checked hok hcheck
  exact ⟨s, htrace, (concuerda_of_reaches (fun _ => False) hrun).1⟩

/-- **The wrong allocation is marked.** Job 2 asks for one unit and for four, and waits
for both. When one unit is served, it is the allocation of four that is marked: by
the table one unit is missing, by the queue four. -/
theorem wrong_allocation_marked :
    ∃ s, Reaches Manager.step (Lineas fun _ => False).allows (managerInit 4 8 1 ['A']) s
      ∧ Reaches.trace Manager.step (managerInit 4 8 1 ['A'])
        [.message 1 "JOB_REQUEST 1 @A:cpu:4".toList [],
         .message 1 "JOB_REQUEST 2 @A:cpu:1 @A:cpu:4".toList [],
         .message 1 "JOB_RELEASE 1".toList []] = some s
      ∧ ¬s.Concuerda := by
  have hcheck : (Reaches.checked Manager.step Lineas.test (managerInit 4 8 1 ['A'])
      [.message 1 "JOB_REQUEST 1 @A:cpu:4".toList [],
       .message 1 "JOB_REQUEST 2 @A:cpu:1 @A:cpu:4".toList [],
       .message 1 "JOB_RELEASE 1".toList []]).any (fun s => decide (
        s.jobs.any (fun j => j.jobId == 2 && enEspera (j.locales .cpu) == [1]) = true
        ∧ s.entradas .cpu 2 = [4])) = true := by
    decide +kernel
  obtain ⟨s, htrace, hrun, hs⟩ := Reaches.of_checked (fun _ _ => Lineas.of_test) hcheck
  obtain ⟨hjob, hentradas⟩ := of_decide_eq_true hs
  obtain ⟨j, hj, hjob⟩ := List.any_eq_true.mp hjob
  obtain ⟨hid, hespera⟩ := Bool.and_eq_true_iff.mp hjob
  refine ⟨s, hrun, htrace, fun h => ?_⟩
  have hperm := h j hj .cpu
  rw [eq_of_beq hid, eq_of_beq hespera, hentradas] at hperm
  exact absurd (List.perm_singleton.mp hperm) (by decide)

end Hpc
