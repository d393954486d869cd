import HpcAgent.Ledger
import HpcAgent.MicroSteps

/-!
# `JOB_GRANTED` is sent once, when the job is complete

Three places send `JOB_GRANTED`: the end of `JOB_REQUEST`, the handler of
`GRANTED` and the dequeue loop of `release_resource`, which runs on behalf of
another job. `avisos` counts the sends about a job since it was inserted; the
invariant `Avisos` says that the count is one for a complete job of the table
and zero for the others.

What makes it inductive is the bound `waits`: a job has at most as many entries
in a queue as allocations that wait there. A complete job therefore has no
entry left, so no later round of the loop can meet it. The queue may also hold
entries of jobs that are not in the table, while such a job is being built or
taken apart; their ids are the parameter `E` of the invariant.
-/

namespace Hpc

/-! ## Counting the sends -/

/-- One event's effect on the count: an insertion starts it again. -/
def avisosStep (jobId : Int32) (conn : Conn) (n : ℕ) : Event → ℕ
  | .inserted job _ => if job.jobId = jobId then 0 else n
  | .tx c (.jobGranted id) => if c = conn ∧ id = jobId then n + 1 else n
  | _ => n

/-- **The `JOB_GRANTED` sent to a connection about a job since the job was
last inserted.** -/
def avisos (jobId : Int32) (conn : Conn) (log : List Event) : ℕ :=
  log.foldl (avisosStep jobId conn) 0

@[simp] theorem avisos_concat (jobId : Int32) (conn : Conn) (log : List Event) (e : Event) :
    avisos jobId conn (log ++ [e]) = avisosStep jobId conn (avisos jobId conn log) e := by
  unfold avisos
  rw [List.foldl_append]
  rfl

/-- An event that counts nothing: no insertion and no `JOB_GRANTED`. -/
def Event.quiet : Event → Bool
  | .inserted .. => false
  | .tx _ (.jobGranted _) => false
  | _ => true

theorem avisosStep_of_quiet {e : Event} (h : e.quiet = true) (jobId : Int32) (conn : Conn)
    (n : ℕ) : avisosStep jobId conn n e = n := by
  unfold avisosStep
  split
  · exact absurd h Bool.false_ne_true
  · exact absurd h Bool.false_ne_true
  · rfl

theorem Event.quiet_tx {conn : Conn} {m : Message} (hm : ∀ i, m ≠ .jobGranted i) :
    (Event.tx conn m).quiet = true := by
  unfold Event.quiet
  split
  · next heq => cases heq
  · next i heq => cases heq; exact absurd rfl (hm i)
  · rfl

theorem avisos_append_of_quiet {es : List Event} (hes : ∀ e ∈ es, e.quiet = true)
    (jobId : Int32) (conn : Conn) (log : List Event) :
    avisos jobId conn (log ++ es) = avisos jobId conn log := by
  induction es generalizing log with
  | nil => rw [List.append_nil]
  | cons e es ih =>
    rw [List.append_cons, ih (fun e he => hes e (List.mem_cons_of_mem _ he)),
      avisos_concat, avisosStep_of_quiet (hes e List.mem_cons_self)]

/-- What telling the owner of a complete job adds to the counts. -/
theorem avisos_told (jobId : Int32) (c conn : Conn) (job : Job) (log : List Event) :
    avisos jobId c (log ++ job.told conn)
      = avisos jobId c log
        + if jobId = job.jobId ∧ c = conn ∧ job.complete = true then 1 else 0 := by
  unfold Job.told
  split
  · next hcomplete =>
    rw [List.append_cons, avisos_concat, avisos_concat]
    show (if conn = c ∧ job.jobId = jobId then avisos jobId c log + 1
      else avisos jobId c log) = _
    by_cases hcond : conn = c ∧ job.jobId = jobId
    · rw [if_pos hcond, if_pos ⟨hcond.2.symm, hcond.1.symm, hcomplete⟩]
    · rw [if_neg hcond, if_neg (fun h => hcond ⟨h.2.1.symm, h.1.symm⟩), add_zero]
  · next hcomplete =>
    rw [List.append_nil, if_neg (fun h => hcomplete h.2.2), add_zero]

/-! ## The invariant -/

/-- The allocations of a job that wait for a resource of this node. -/
def Job.waiting (t : Resource) (j : Job) : ℕ :=
  j.confirmadas.countP (fun a => a.waiting && a.name == t)

/-- A job none of whose lines is a `JOB_GRANTED`, with its own connection in its
local allocations. -/
structure Job.Own (j : Job) : Prop where
  conn : ∀ a ∈ j.confirmadas, a.type = .localAlloc → a.conn = j.conn
  quiet : ∀ o ∈ j.pendientes, ∀ m, o.msg = some m → ∀ i, m ≠ .jobGranted i

/-- **The invariant.** `R` are the connections `RESERVE`s arrive on, `E` the ids
of jobs that may have entries in the queues without being in the table. -/
structure Avisos (R : Conn → Prop) (E : Int32 → Prop) (s : Manager) : Prop where
  distinct : TablaJobs.Distinct s.jobs
  own : ∀ j ∈ s.jobs, j.Own
  /-- a job has no more entries in a queue than allocations that wait there -/
  waits : ∀ j ∈ s.jobs, ∀ t, (s.cola t).countP (PendingRequest.ofJob j.jobId) ≤ j.waiting t
  /-- the entries of a job carry the job's connection -/
  owner : ∀ t, ∀ p ∈ s.cola t, p.origen = .originLocal → ∀ j ∈ s.jobs,
    j.jobId = p.jobId → p.ownerConn = j.conn
  /-- a local entry is of a job of the table, or of an excused one -/
  known : ∀ t, ∀ p ∈ s.cola t, p.origen = .originLocal →
    E p.jobId ∨ ∃ j ∈ s.jobs, j.jobId = p.jobId
  remote : ∀ t, ∀ p ∈ s.cola t, p.origen = .originRemote → R p.ownerConn
  ids : ∀ t, ∀ p ∈ s.cola t, 0 ≤ p.jobId
  sent : ∀ j ∈ s.jobs, avisos j.jobId j.conn s.log = if j.complete then 1 else 0

/-- No job of the table belongs to a connection `RESERVE`s arrive on. -/
def Separadas (R : Conn → Prop) (s : Manager) : Prop := ∀ j ∈ s.jobs, ¬R j.conn

theorem Job.complete_iff {j : Job} :
    j.complete = true ↔ (∀ t, j.waiting t = 0) ∧ j.pendientes = [] := by
  unfold Job.complete Job.waiting
  rw [Bool.and_eq_true, List.isEmpty_iff, Bool.not_eq_true', List.any_eq_false]
  refine and_congr_left (fun _ => ?_)
  constructor
  · intro h t
    rw [List.countP_eq_zero]
    intro a ha hwait
    exact h a ha (Bool.and_elim_left hwait)
  · intro h a ha hwait
    have := List.countP_eq_zero.mp (h a.name) a ha
    exact this (by rw [Bool.and_eq_true]; exact ⟨hwait, beq_self_eq_true _⟩)

theorem Job.complete_eq_false {j : Job} {t : Resource} (h : 0 < j.waiting t) :
    j.complete = false := by
  rw [← Bool.not_eq_true]
  intro hc
  rw [(Job.complete_iff.mp hc).1 t] at h
  exact absurd h (lt_irrefl 0)

theorem Job.waiting_markGranted_of_ne {j : Job} (conn : Conn) (tipo : Resource)
    {t : Resource} (ht : t ≠ tipo) : (j.markGranted conn tipo).waiting t = j.waiting t := by
  refine List.countP_modifyFirst_of_eq (fun a ha => ?_) _
  have hname : a.name = tipo := eq_of_beq (Bool.and_elim_right ha)
  have hne : (a.name == t) = false := beq_false_of_ne (fun h => ht (h.symm.trans hname))
  show (_ && (a.name == t)) = (_ && (a.name == t))
  rw [hne, Bool.and_false, Bool.and_false]

theorem Job.waiting_le_markGranted (j : Job) (conn : Conn) (tipo : Resource) :
    j.waiting tipo ≤ (j.markGranted conn tipo).waiting tipo + 1 :=
  List.countP_le_modifyFirst_add_one _ _ _ _

theorem Job.waiting_dropRemote (conn : Conn) (j : Job) (t : Resource) :
    (j.dropRemote conn).waiting t = j.waiting t := by
  unfold Job.waiting Job.dropRemote
  rw [List.countP_filter]
  refine List.countP_congr (fun a _ => ?_)
  unfold Allocation.waiting
  cases a.type <;> simp

theorem Job.complete_dropRemote (conn : Conn) (j : Job) :
    (j.dropRemote conn).complete = j.complete := by
  rw [Bool.eq_iff_iff, Job.complete_iff, Job.complete_iff]
  exact and_congr_left (fun _ => forall_congr' (fun t => by rw [Job.waiting_dropRemote]))

theorem Job.Own.dropRemote {j : Job} (h : j.Own) (conn : Conn) : (j.dropRemote conn).Own :=
  ⟨fun a ha => h.conn a (List.mem_filter.mp ha).1, h.quiet⟩

theorem Job.Own.markGranted {j : Job} (h : j.Own) (conn : Conn) (tipo : Resource) :
    (j.markGranted conn tipo).Own := by
  refine ⟨fun a ha hlocal => ?_, h.quiet⟩
  rcases List.mem_of_mem_modifyFirst ha with ha | ⟨b, hb, -, rfl⟩
  · exact h.conn a ha hlocal
  · exact h.conn b hb hlocal

theorem jobId_jobConfirmar (j : Job) (ip : CString) (jobId : Int32) :
    (jobConfirmar j ip jobId).2.jobId = j.jobId := by
  unfold jobConfirmar
  split <;> rfl

theorem conn_jobConfirmar (j : Job) (ip : CString) (jobId : Int32) :
    (jobConfirmar j ip jobId).2.conn = j.conn := by
  unfold jobConfirmar
  split <;> rfl

/-- Where no request of that address is pending, nothing is confirmed. -/
theorem jobConfirmar_of_not {j : Job} {ip : CString} {jobId : Int32}
    (h : (jobConfirmar j ip jobId).1 = false) : (jobConfirmar j ip jobId).2 = j := by
  unfold jobConfirmar at h ⊢
  split
  · rfl
  · next hfind => rw [hfind] at h; exact absurd h (by simp)

/-- A job with something to confirm is not complete. -/
theorem complete_of_jobConfirmar {j : Job} {ip : CString} {jobId : Int32}
    (h : (jobConfirmar j ip jobId).1 = true) : j.complete = false := by
  rw [← Bool.not_eq_true]
  intro hcomplete
  unfold jobConfirmar at h
  rw [(Job.complete_iff.mp hcomplete).2] at h
  exact Bool.false_ne_true h

theorem Job.waiting_confirmar (j : Job) (ip : CString) (jobId : Int32) (t : Resource) :
    (jobConfirmar j ip jobId).2.waiting t = j.waiting t := by
  unfold jobConfirmar
  split
  · rfl
  · exact List.countP_cons_of_neg (by simp [Allocation.waiting, crearAllocation])

theorem Job.Own.confirmar {j : Job} (h : j.Own) (ip : CString) (jobId : Int32) :
    (jobConfirmar j ip jobId).2.Own := by
  unfold jobConfirmar
  split
  · exact h
  · refine ⟨fun a ha hlocal => ?_, fun o ho => h.quiet o (List.mem_of_mem_eraseP ho)⟩
    rcases List.mem_cons.mp ha with rfl | ha
    · exact absurd hlocal (by simp [crearAllocation])
    · exact h.conn a ha hlocal

/-- What the loop over the entries of a `JOB_REQUEST` keeps of the job it
builds. -/
structure Naciente (s : Manager) (job : Job) : Prop where
  own : job.Own
  fresh : ∀ j ∈ s.jobs, j.jobId ≠ job.jobId
  waits : ∀ t, (s.cola t).countP (PendingRequest.ofJob job.jobId) ≤ job.waiting t
  owner : ∀ t, ∀ p ∈ s.cola t, p.origen = .originLocal → p.jobId = job.jobId →
    p.ownerConn = job.conn

theorem Job.Own.addLocal {job : Job} (h : job.Own) (head : ResourceRequest) (ip : CString)
    (r : Result) : (job.addLocal head ip r).Own := by
  refine ⟨fun a ha hlocal => ?_, h.quiet⟩
  rcases List.mem_cons.mp ha with rfl | ha
  · rfl
  · exact h.conn a ha hlocal

theorem Job.Own.addRemote {job : Job} (h : job.Own) (head : ResourceRequest) (conn : Conn)
    {msg : Option Message} (hmsg : ∀ m, msg = some m → ∀ i, m ≠ .jobGranted i) :
    (job.addRemote head conn msg).Own := by
  refine ⟨h.conn, fun o ho => ?_⟩
  rcases List.mem_cons.mp ho with rfl | ho
  · exact hmsg
  · exact h.quiet o ho

theorem Job.waiting_le_addLocal (job : Job) (head : ResourceRequest) (ip : CString)
    (r : Result) (t : Resource) : job.waiting t ≤ (job.addLocal head ip r).waiting t :=
  (List.sublist_cons_self _ _).countP_le

namespace Avisos

variable {R : Conn → Prop} {E : Int32 → Prop} {s : Manager}

theorem mono {E' : Int32 → Prop} (h : Avisos R E s) (himp : ∀ i, E i → E' i) :
    Avisos R E' s :=
  { h with known := fun t p hp hlocal => (h.known t p hp hlocal).imp_left (himp _) }

/-- Entries may leave the queues. -/
theorem of_sublist {s' : Manager} (h : Avisos R E s)
    (hc : ∀ t, (s'.cola t).Sublist (s.cola t)) (hj : s'.jobs = s.jobs)
    (hlog : ∀ jobId conn, avisos jobId conn s'.log = avisos jobId conn s.log) :
    Avisos R E s' where
  distinct := hj ▸ h.distinct
  own := hj ▸ h.own
  waits := fun j hj' t => (hc t).countP_le.trans (h.waits j (hj ▸ hj') t)
  owner := fun t p hp => by rw [hj]; exact h.owner t p ((hc t).subset hp)
  known := fun t p hp => by rw [hj]; exact h.known t p ((hc t).subset hp)
  remote := fun t p hp => h.remote t p ((hc t).subset hp)
  ids := fun t p hp => h.ids t p ((hc t).subset hp)
  sent := fun j hj' => by rw [hlog]; exact h.sent j (hj ▸ hj')

/-- The invariant reads the queues, the table and the counts only. -/
theorem of_eq {s' : Manager} (h : Avisos R E s) (hc : ∀ t, s'.cola t = s.cola t)
    (hj : s'.jobs = s.jobs)
    (hlog : ∀ jobId conn, avisos jobId conn s'.log = avisos jobId conn s.log) :
    Avisos R E s' :=
  h.of_sublist (fun t => by rw [hc]) hj hlog

theorem emit (h : Avisos R E s) {e : Event} (he : e.quiet = true) : Avisos R E (s.emit e) :=
  h.of_eq (fun _ => rfl) rfl (fun i c => by
    rw [Manager.log_emit, avisos_concat, avisosStep_of_quiet he])

theorem sendMessage (h : Avisos R E s) (conn : Conn) {m : Message}
    (hm : ∀ i, m ≠ .jobGranted i) : Avisos R E (sendMessage conn m s) :=
  h.emit (Event.quiet_tx hm)

/-- **Purging an id** excuses it no longer. -/
theorem limpiarColasPorId (h : Avisos R E s) (jobId : Int32) :
    Avisos R (fun i => E i ∧ i ≠ jobId) (limpiarColasPorId jobId s) := by
  have hpurged : Avisos R E (Hpc.limpiarColasPorId jobId s) :=
    h.of_sublist (fun _ => List.filter_sublist) rfl (fun _ _ => rfl)
  refine { hpurged with known := fun t p hp hlocal => ?_ }
  have hid : p.jobId ≠ jobId := by simpa using (List.mem_filter.mp hp).2
  exact (hpurged.known t p hp hlocal).imp_left (fun hE => ⟨hE, hid⟩)

theorem limpiarColasPorConn (h : Avisos R E s) (conn : Conn) :
    Avisos R E (limpiarColasPorConn conn s) :=
  h.of_sublist (fun _ => List.filter_sublist) rfl (fun _ _ => rfl)

/-! ## The dequeue loop -/

theorem giveUnits (h : Avisos R E s) (tipo : Resource) (amount : Int32) :
    Avisos R E (giveUnits tipo amount s) :=
  h.of_eq (fun _ => cola_giveUnits ..) rfl (fun _ _ => rfl)

/-- **One job of the table changes**, entries may leave the queues, and the
job's owner may be told. -/
theorem update {s' : Manager} (h : Avisos R E s) {job : Job} (hjob : job ∈ s.jobs)
    {f : Job → Job} (hf : ∀ j, (f j).jobId = j.jobId) (hconn : (f job).conn = job.conn)
    (hown : (f job).Own) (told : Bool)
    (hjobs : s'.jobs = s.jobs.modifyFirst (fun j => j.jobId == job.jobId) f)
    (hsub : ∀ t, (s'.cola t).Sublist (s.cola t))
    (hwaits : ∀ t, (s'.cola t).countP (PendingRequest.ofJob job.jobId) ≤ (f job).waiting t)
    (hlog : ∀ i c, avisos i c s'.log = avisos i c s.log
      + if i = job.jobId ∧ c = job.conn ∧ told = true then 1 else 0)
    (htold : (if job.complete then 1 else 0) + (if told then 1 else 0)
      = if (f job).complete then 1 else 0) : Avisos R E s' := by
  have hmem : ∀ j ∈ s'.jobs, (j ∈ s.jobs ∧ j.jobId ≠ job.jobId) ∨ j = f job := by
    intro j hj
    rw [hjobs] at hj
    refine (h.distinct.mem_modifyFirst hf hj).imp_right ?_
    rintro ⟨i, hi, hid, rfl⟩
    rw [h.distinct.eq_of_jobId hi hjob hid]
  refine ⟨?_, fun j hj => ?_, fun j hj t => ?_, fun t p hp hp' j hj hjp => ?_,
    fun t p hp hp' => ?_, fun t p hp => h.remote t p ((hsub t).subset hp),
    fun t p hp => h.ids t p ((hsub t).subset hp), fun j hj => ?_⟩
  · rw [hjobs]
    exact h.distinct.modifyFirst hf
  · rcases hmem j hj with ⟨hj, -⟩ | rfl
    · exact h.own j hj
    · exact hown
  · rcases hmem j hj with ⟨hj, -⟩ | rfl
    · exact (hsub t).countP_le.trans (h.waits j hj t)
    · rw [hf]
      exact hwaits t
  · have hp := (hsub t).subset hp
    rcases hmem j hj with ⟨hj, -⟩ | rfl
    · exact h.owner t p hp hp' j hj hjp
    · rw [hconn]
      exact h.owner t p hp hp' job hjob ((hf job).symm.trans hjp)
  · refine (h.known t p ((hsub t).subset hp) hp').imp_right ?_
    rintro ⟨j, hj, hjp⟩
    have hmap : s'.jobs.map (·.jobId) = s.jobs.map (·.jobId) := by
      rw [hjobs]
      exact List.map_modifyFirst_of_eq _ (fun j _ => hf j) _
    have hin : p.jobId ∈ s.jobs.map (·.jobId) := List.mem_map.mpr ⟨j, hj, hjp⟩
    rw [← hmap] at hin
    exact List.mem_map.mp hin
  · rw [hlog]
    rcases hmem j hj with ⟨hj, hne⟩ | rfl
    · rw [if_neg (fun hcond => hne hcond.1), add_zero]
      exact h.sent j hj
    · rw [hf, hconn, h.sent job hjob, ← htold]
      cases told <;> simp

/-- **A round of the loop on a job of the table**: the job was waiting, and is
told when it waits no more. -/
theorem dequeueTop_of_job (h : Avisos R E s) {tipo : Resource} {top : PendingRequest}
    {rest : List PendingRequest} (hc : s.cola tipo = top :: rest)
    (hlocal : top.origen = .originLocal) {job : Job} (hjob : job ∈ s.jobs)
    (hid : job.jobId = top.jobId) :
    job.complete = false ∧ Avisos R E (dequeueTop tipo top s) := by
  have htop : top ∈ s.cola tipo := hc ▸ List.mem_cons_self
  have hpos : 0 ≤ top.jobId := h.ids tipo top htop
  have hconn : top.ownerConn = job.conn := h.owner tipo top htop hlocal job hjob hid
  -- the entry at the top is one of the job's, so the job was waiting
  have hwaits := h.waits job hjob tipo
  have hcount : (s.cola tipo).countP (PendingRequest.ofJob job.jobId)
      = rest.countP (PendingRequest.ofJob job.jobId) + 1 := by
    rw [hc, List.countP_cons_of_pos]
    exact ofJob_iff.mpr ⟨hlocal, hid.symm⟩
  have hnot : job.complete = false := Job.complete_eq_false (t := tipo) (by omega)
  refine ⟨hnot, h.update hjob (f := Job.markGranted top.ownerConn tipo) (fun _ => rfl) rfl
    ((h.own job hjob).markGranted _ _) (job.markGranted top.ownerConn tipo).complete
    (hid ▸ jobs_dequeueTop s tipo top hpos) (fun t => cola_dequeueTop_sublist s tipo t hc)
    (fun t => ?_) (fun i c => ?_) (by rw [hnot, if_neg Bool.false_ne_true, zero_add])⟩
  · rw [cola_dequeueTop s tipo t hc]
    by_cases ht : t = tipo
    · subst ht
      rw [if_pos rfl]
      have := Job.waiting_le_markGranted job top.ownerConn t
      omega
    · rw [if_neg ht, Job.waiting_markGranted_of_ne _ _ ht]
      exact h.waits job hjob t
  · rw [log_dequeueTop_local tipo h.distinct hpos hlocal hjob hid, avisos_told, avisos_concat,
      hconn]
    rfl

/-- **A round of the loop on anything else** changes no job and tells nobody: an
entry whose connection no job has, or whose job is not in the table. -/
theorem dequeueTop_of_other (h : Avisos R E s) (hsep : Separadas R s) {tipo : Resource}
    {top : PendingRequest} {rest : List PendingRequest} (hc : s.cola tipo = top :: rest)
    (hother : top.origen = .originRemote ∨ ∀ j ∈ s.jobs, j.jobId ≠ top.jobId) :
    (Hpc.dequeueTop tipo top s).jobs = s.jobs
      ∧ ∃ es, (Hpc.dequeueTop tipo top s).log = s.log ++ es ∧ ∀ e ∈ es, e.quiet = true := by
  have htop : top ∈ s.cola tipo := hc ▸ List.mem_cons_self
  have hpos : 0 ≤ top.jobId := h.ids tipo top htop
  have hquiet : ∀ e ∈ [Event.grant tipo top], e.quiet = true := by
    intro e he
    rw [List.mem_singleton.mp he]
    rfl
  rw [jobs_dequeueTop s tipo top hpos]
  cases hlocal : top.origen with
  | originRemote =>
    refine ⟨List.modifyFirst_eq_self (fun j hj _ => ?_), [.grant tipo top,
      .tx top.ownerConn (.granted top.jobId)], ?_, ?_⟩
    · -- the mark looks for an allocation of the entry's connection, and no job has one
      have hR : R top.ownerConn := h.remote tipo top htop hlocal
      unfold Job.markGranted
      rw [List.modifyFirst_of_forall_not]
      intro a ha
      have hne : ¬(a.type = .localAlloc ∧ a.conn = top.ownerConn) := by
        rintro ⟨htype, hconn⟩
        exact hsep j hj ((h.own j hj).conn a ha htype ▸ hconn ▸ hR)
      simp only [Bool.and_eq_false_iff, beq_eq_false_iff_ne]
      tauto
    · rw [log_dequeueTop_remote s tipo top hlocal, List.append_assoc]
      rfl
    · exact List.forall_mem_cons.mpr ⟨rfl, List.forall_mem_singleton.mpr rfl⟩
  | originLocal =>
    have hnone := hother.resolve_left (by rw [hlocal]; exact Origin.noConfusion)
    exact ⟨List.modifyFirst_of_forall_not (fun j hj => beq_false_of_ne (hnone j hj)),
      [.grant tipo top], log_dequeueTop_orphan tipo hpos hlocal hnone, hquiet⟩

/-- **A round of the loop keeps the invariant.** -/
theorem dequeueTop (h : Avisos R E s) (hsep : Separadas R s) {tipo : Resource}
    {top : PendingRequest} {rest : List PendingRequest} (hc : s.cola tipo = top :: rest) :
    Avisos R E (dequeueTop tipo top s) ∧ Separadas R (Hpc.dequeueTop tipo top s) := by
  have htop : top ∈ s.cola tipo := hc ▸ List.mem_cons_self
  refine ⟨?_, fun j hj => ?_⟩
  · rcases top.ajena_or_of_job s.jobs with hother | ⟨hlocal, job, hjob, hid⟩
    · obtain ⟨hjobs, es, hlog, hes⟩ := h.dequeueTop_of_other hsep hc hother
      refine h.of_sublist (fun t => cola_dequeueTop_sublist s tipo t hc) hjobs (fun i c => ?_)
      rw [hlog, avisos_append_of_quiet hes]
    · exact (h.dequeueTop_of_job hc hlocal hjob hid).2
  · rw [jobs_dequeueTop s tipo top (h.ids tipo top htop)] at hj
    rcases List.mem_of_mem_modifyFirst hj with hj | ⟨i, hi, -, rfl⟩
    · exact hsep j hj
    · exact hsep i hi

/-! ## Taking jobs out of the table -/

/-- **A table with fewer jobs**: the ids that left have to be excused. -/
theorem setTabla (h : Avisos R E s) {t : TablaJobs} {E' : Int32 → Prop}
    (hdistinct : TablaJobs.Distinct t.jobs)
    (hold : ∀ j ∈ t.jobs, ∃ i ∈ s.jobs, j.jobId = i.jobId ∧ j.conn = i.conn
      ∧ (∀ ty, j.waiting ty = i.waiting ty) ∧ j.complete = i.complete ∧ (i.Own → j.Own))
    (hE : ∀ i, E i ∨ (∃ j ∈ s.jobs, j.jobId = i) → E' i ∨ ∃ j ∈ t.jobs, j.jobId = i) :
    Avisos R E' (s.setTabla t) where
  distinct := hdistinct
  own := fun j hj => by
    obtain ⟨i, hi, -, -, -, -, hown⟩ := hold j hj
    exact hown (h.own i hi)
  waits := fun j hj ty => by
    obtain ⟨i, hi, hid, -, hwaiting, -⟩ := hold j hj
    rw [hwaiting, hid]
    exact h.waits i hi ty
  owner := fun ty p hp hlocal j hj hjp => by
    obtain ⟨i, hi, hid, hconn, -⟩ := hold j hj
    rw [hconn]
    exact h.owner ty p hp hlocal i hi (hid.symm.trans hjp)
  known := fun ty p hp hlocal => hE _ (h.known ty p hp hlocal)
  remote := h.remote
  ids := h.ids
  sent := fun j hj => by
    obtain ⟨i, hi, hid, hconn, -, hcomplete, -⟩ := hold j hj
    rw [hid, hconn, hcomplete]
    exact h.sent i hi

/-- **Unlinking a job** leaves its entries excused. -/
theorem extractById (h : Avisos R E s) (hsep : Separadas R s) {jobId : Int32}
    (hpos : 0 ≤ jobId) :
    Avisos R (fun i => E i ∨ i = jobId)
        (s.setTabla (tablaJobsExtractById s.tabla jobId).2)
      ∧ Separadas R (s.setTabla (tablaJobsExtractById s.tabla jobId).2) := by
  have hjobs := TablaJobs.jobs_extractById s.tabla hpos
  have hmem : ∀ j ∈ TablaJobs.jobs (tablaJobsExtractById s.tabla jobId).2,
      j ∈ s.jobs ∧ j.jobId ≠ jobId := fun j hj => h.distinct.mem_eraseP (hjobs ▸ hj)
  refine ⟨h.setTabla (hjobs ▸ h.distinct.sublist List.eraseP_sublist)
    (fun j hj => ⟨j, (hmem j hj).1, rfl, rfl, fun _ => rfl, rfl, id⟩) (fun i hi => ?_),
    fun j hj => hsep j (hmem j hj).1⟩
  rcases hi with hE | ⟨j, hj, rfl⟩
  · exact Or.inl (Or.inl hE)
  · by_cases hid : j.jobId = jobId
    · exact Or.inl (Or.inr hid)
    · refine Or.inr ⟨j, ?_, rfl⟩
      rw [hjobs]
      exact (List.mem_eraseP_of_neg (by simpa using hid)).mpr hj

/-- **The jobs of a lost connection** leave the table with their entries
excused. -/
theorem extractByRemoteConn (h : Avisos R (fun _ => False) s) (hsep : Separadas R s)
    (conn : Conn) :
    Avisos R (fun i => ∃ j ∈ (tablaJobsExtractByRemoteConn s.tabla conn).1, j.jobId = i)
        (s.setTabla (tablaJobsExtractByRemoteConn s.tabla conn).2)
      ∧ Separadas R (s.setTabla (tablaJobsExtractByRemoteConn s.tabla conn).2) := by
  have hjobs := TablaJobs.jobs_extractByRemoteConn s.tabla conn
  have hfst := TablaJobs.extractByRemoteConn_fst s.tabla conn
  have hmem : ∀ j ∈ TablaJobs.jobs (tablaJobsExtractByRemoteConn s.tabla conn).2,
      ∃ i ∈ s.jobs, j = i.dropRemote conn := by
    intro j hj
    rw [hjobs] at hj
    obtain ⟨i, hi, rfl⟩ := List.mem_map.mp (List.mem_filter.mp hj).1
    exact ⟨i, hi, rfl⟩
  refine ⟨h.setTabla ?_ (fun j hj => ?_) (fun i hi => ?_), fun j hj => ?_⟩
  · rw [hjobs]
    exact (h.distinct.of_map_eq (by rw [List.map_map]; rfl) :
      TablaJobs.Distinct (s.jobs.map (Job.dropRemote conn))).sublist List.filter_sublist
  · obtain ⟨i, hi, rfl⟩ := hmem j hj
    exact ⟨i, hi, rfl, rfl, Job.waiting_dropRemote conn i, Job.complete_dropRemote conn i,
      fun hown => hown.dropRemote conn⟩
  · rcases hi with hi | ⟨j, hj, rfl⟩
    · exact absurd hi id
    · have hin : j.dropRemote conn ∈ s.jobs.map (Job.dropRemote conn) :=
        List.mem_map_of_mem hj
      by_cases haff : (j.dropRemote conn).affected conn = true
      · refine Or.inl ⟨j.dropRemote conn, ?_, rfl⟩
        rw [hfst]
        exact List.mem_reverse.mpr (List.mem_filter.mpr ⟨hin, haff⟩)
      · refine Or.inr ⟨j.dropRemote conn, ?_, rfl⟩
        rw [hjobs]
        exact List.mem_filter.mpr ⟨hin, by simpa using haff⟩
  · obtain ⟨i, hi, rfl⟩ := hmem j hj
    exact hsep i hi

/-! ## The handlers -/

theorem takeUnits (h : Avisos R E s) (tipo : Resource) (p : PendingRequest) :
    Avisos R E (takeUnits tipo p s) :=
  h.of_eq (fun _ => cola_takeUnits ..) rfl (fun i c => by
    rw [log_takeUnits, avisos_concat]
    rfl)

/-- A new entry that is of no job of the table. -/
theorem enqueue (h : Avisos R E s) (tipo : Resource) {p : PendingRequest}
    (hpos : 0 ≤ p.jobId) (hremote : p.origen = .originRemote → R p.ownerConn)
    (hlocal : p.origen = .originLocal → E p.jobId ∧ ∀ j ∈ s.jobs, j.jobId ≠ p.jobId) :
    Avisos R E (enqueue tipo p s) := by
  have hmem : ∀ t, ∀ q ∈ (Hpc.enqueue tipo p s).cola t, q ∈ s.cola t ∨ q = p := by
    intro t q hq
    rw [cola_enqueue] at hq
    split at hq
    · next ht =>
      rw [ht]
      exact (List.mem_append.mp hq).imp_right List.mem_singleton.mp
    · exact Or.inl hq
  refine ⟨h.distinct, h.own, fun j hj t => ?_, fun t q hq hq' j hj hid => ?_,
    fun t q hq hq' => ?_, fun t q hq hq' => ?_, fun t q hq => ?_, h.sent⟩
  · rw [cola_enqueue]
    split
    · next ht =>
      have hnot : PendingRequest.ofJob j.jobId p = false := by
        rw [← Bool.not_eq_true]
        intro hof
        obtain ⟨ho, hid⟩ := Bool.and_eq_true_iff.mp hof
        exact (hlocal (eq_of_beq ho)).2 j hj (eq_of_beq hid).symm
      rw [List.countP_append, List.countP_singleton, hnot, ht]
      exact h.waits j hj tipo
    · exact h.waits j hj t
  · rcases hmem t q hq with hq | rfl
    · exact h.owner t q hq hq' j hj hid
    · exact absurd hid ((hlocal hq').2 j hj)
  · rcases hmem t q hq with hq | rfl
    · exact h.known t q hq hq'
    · exact Or.inl (hlocal hq').1
  · rcases hmem t q hq with hq | rfl
    · exact h.remote t q hq hq'
    · exact hremote hq'
  · rcases hmem t q hq with hq | rfl
    · exact h.ids t q hq
    · exact hpos

theorem processReserve (h : Avisos R E s) {conn : Conn} (hR : R conn) {jobId : Int32}
    (hpos : 0 ≤ jobId) (type : Resource) (amount : Int32) :
    Avisos R E (processReserve conn jobId type amount s) := by
  unfold Hpc.processReserve
  rcases reserveResource_cases type amount jobId conn .originRemote s with
    ⟨-, heq⟩ | ⟨-, -, heq⟩ | ⟨-, -, heq⟩
  · rw [heq]
    exact (h.takeUnits _ _).sendMessage _ (fun _ hm => nomatch hm)
  · rw [heq]
    exact h.sendMessage _ (fun _ hm => nomatch hm)
  · rw [heq]
    exact h.enqueue type (p := ⟨jobId, amount, conn, .originRemote⟩) hpos (fun _ => hR)
      (fun hlocal => nomatch hlocal)

/-- **`GRANTED`**: a confirmation that completes the job is the only one that
tells its owner. -/
theorem processGranted (h : Avisos R E s) (conn : Conn) {jobId : Int32}
    (hpos : 0 ≤ jobId) : Avisos R E (processGranted conn jobId s) := by
  rcases processGranted_cases s conn hpos with
    ⟨-, heq⟩ | ⟨ip, -, -, heq⟩ | ⟨ip, -, job, hjob, hid, hrec, -, -, hjobs, hlog⟩
  · rw [heq]
    exact h
  · have hrelease : ∀ (t : Resource), ∀ i, Message.release jobId t 0 ≠ .jobGranted i :=
      fun _ _ hm => nomatch hm
    rw [heq]
    exact ((h.sendMessage _ (hrelease _)).sendMessage _ (hrelease _)).sendMessage _
      (hrelease _)
  · subst hid
    have hcola : ∀ t, (Hpc.processGranted conn job.jobId s).cola t = s.cola t := by
      intro t
      unfold Manager.cola
      rw [hrec]
    refine h.update hjob (fun j => jobId_jobConfirmar j ip job.jobId) (conn_jobConfirmar ..)
      ((h.own job hjob).confirmar ip job.jobId)
      ((jobConfirmar job ip job.jobId).1 && (jobConfirmar job ip job.jobId).2.complete)
      hjobs (fun t => by rw [hcola]) (fun t => ?_) (fun i c => ?_) ?_
    · rw [hcola, Job.waiting_confirmar]
      exact h.waits job hjob t
    · rw [hlog]
      cases (jobConfirmar job ip job.jobId).1
      · simp
      · rw [if_pos rfl, avisos_told, jobId_jobConfirmar, Bool.true_and]
    · cases hflag : (jobConfirmar job ip job.jobId).1
      · rw [jobConfirmar_of_not hflag]
        simp
      · rw [complete_of_jobConfirmar hflag]
        simp

/-- **The new job joins the table**; it is told at once if it is complete. -/
theorem insertJob {job : Job} (h : Avisos R (fun i => i = job.jobId) s)
    (hpos : 0 ≤ job.jobId) (hjob : Naciente s job) (requests : List ResourceRequest) :
    Avisos R (fun _ => False) (insertJob job requests s) := by
  have hperm := jobs_insertJob_perm (s := s) requests hpos
  have hmem : ∀ j ∈ (Hpc.insertJob job requests s).jobs, j = job ∨ j ∈ s.jobs :=
    fun j hj => List.mem_cons.mp (hperm.mem_iff.mp hj)
  have hcount : ∀ i c, avisos i c (Hpc.insertJob job requests s).log
      = (if job.jobId = i then 0 else avisos i c s.log)
        + if i = job.jobId ∧ c = job.conn ∧ job.complete = true then 1 else 0 := by
    intro i c
    rw [log_insertJob requests h.distinct hpos hjob.fresh, avisos_told, avisos_concat]
    rfl
  refine ⟨(h.distinct.cons hpos hjob.fresh).perm hperm, fun j hj => ?_, fun j hj t => ?_,
    fun t p hp hp' j hj hid => ?_, fun t p hp hp' => Or.inr ?_,
    fun t p hp => h.remote t p (cola_insertJob s t job requests ▸ hp),
    fun t p hp => h.ids t p (cola_insertJob s t job requests ▸ hp), fun j hj => ?_⟩
  · rcases hmem j hj with rfl | hj
    · exact hjob.own
    · exact h.own j hj
  · rw [cola_insertJob]
    rcases hmem j hj with rfl | hj
    · exact hjob.waits t
    · exact h.waits j hj t
  · rw [cola_insertJob] at hp
    rcases hmem j hj with rfl | hj
    · exact hjob.owner t p hp hp' hid.symm
    · exact h.owner t p hp hp' j hj hid
  · rw [cola_insertJob] at hp
    rcases h.known t p hp hp' with hE | ⟨j, hj, hid⟩
    · exact ⟨job, hperm.mem_iff.mpr List.mem_cons_self, hE.symm⟩
    · exact ⟨j, hperm.mem_iff.mpr (List.mem_cons_of_mem _ hj), hid⟩
  · rw [hcount]
    rcases hmem j hj with rfl | hj
    · simp
    · have hne := hjob.fresh j hj
      rw [if_neg (Ne.symm hne), if_neg (fun hcond => hne hcond.1), add_zero]
      exact h.sent j hj

/-- **A connection that comes up** is sent the pending lines, none of which is a
`JOB_GRANTED`. -/
theorem processConnectionReady (h : Avisos R E s) (conn : Conn) :
    Avisos R E (processConnectionReady conn s) := by
  have hquiet : ∀ req ∈ tablaJobsGetPendientesByConn s.tabla conn, ∀ m, req.msg = some m →
      ∀ i, m ≠ .jobGranted i := by
    intro req hreq
    obtain ⟨j, hj, hreq⟩ := List.mem_flatMap.mp (List.mem_reverse.mp hreq)
    obtain ⟨o, ho, rfl⟩ := List.mem_map.mp hreq
    exact (h.own j hj).quiet o (List.mem_filter.mp ho).1
  unfold Hpc.processConnectionReady
  generalize tablaJobsGetPendientesByConn s.tabla conn = lista at hquiet
  induction lista generalizing s with
  | nil => exact h
  | cons req lista ih =>
    refine ih ?_ (fun r hr => hquiet r (List.mem_cons_of_mem req hr))
    have hinsert : Avisos R E { s with conns := tablaConnsInsert s.conns req.ip conn } :=
      h.of_eq (fun _ => rfl) rfl (fun _ _ => rfl)
    refine hinsert.sendMessage conn (fun i => ?_)
    cases hmsg : req.msg with
    | none => exact fun hm => nomatch hm
    | some m => exact hquiet req List.mem_cons_self m hmsg i

/-- Before its first entry is placed, a new job has none in the queues. -/
theorem naciente (h : Avisos R (fun _ => False) s) {jobId : Int32} (hpos : 0 ≤ jobId)
    (hnew : tablaJobsBuscarPorId s.tabla jobId = none) (conn : Conn) :
    Naciente s ⟨jobId, conn, [], []⟩ := by
  have hfresh : ∀ j ∈ s.jobs, j.jobId ≠ jobId := by
    intro j hj hid
    rw [TablaJobs.buscarPorId_eq _ hpos, List.find?_eq_none] at hnew
    exact hnew j hj (beq_iff_eq.mpr hid)
  have hempty : ∀ t, ∀ p ∈ s.cola t, p.origen = .originLocal → p.jobId ≠ jobId := by
    intro t p hp hlocal hid
    obtain ⟨j, hj, hjp⟩ := (h.known t p hp hlocal).resolve_left id
    exact hfresh j hj (hjp.trans hid)
  refine ⟨⟨fun a ha => absurd ha List.not_mem_nil, fun o ho => absurd ho List.not_mem_nil⟩,
    hfresh, fun t => ?_, fun t p hp hlocal hid => absurd hid (hempty t p hp hlocal)⟩
  refine le_of_eq (List.countP_eq_zero.mpr (fun p hp hof => ?_))
  obtain ⟨ho, hid⟩ := Bool.and_eq_true_iff.mp hof
  exact hempty t p hp (eq_of_beq ho) (eq_of_beq hid)

end Avisos

theorem Naciente.addGranted {s : Manager} {job : Job} (h : Naciente s job)
    (head : ResourceRequest) :
    Naciente (takeUnits head.type (head.pending job) s)
      (job.addLocal head s.ip .granted) := by
  refine ⟨h.own.addLocal .., h.fresh, fun t => ?_, fun t p hp => ?_⟩
  · rw [cola_takeUnits]
    exact (h.waits t).trans (Job.waiting_le_addLocal ..)
  · rw [cola_takeUnits] at hp
    exact h.owner t p hp

/-- The entry that joins a queue is paid for by the allocation that joins the
job. -/
theorem Naciente.addQueued {s : Manager} {job : Job} (h : Naciente s job)
    (head : ResourceRequest) :
    Naciente (enqueue head.type (head.pending job) s)
      (job.addLocal head s.ip .queued) := by
  refine ⟨h.own.addLocal .., h.fresh, fun t => ?_, fun t p hp hlocal hid => ?_⟩
  · have hwait := h.waits t
    rw [cola_enqueue]
    by_cases ht : t = head.type
    · subst ht
      rw [if_pos rfl, List.countP_append]
      refine (Nat.add_le_add hwait (List.countP_le_length ..)).trans ?_
      refine le_of_eq (Eq.symm (List.countP_cons_of_pos ?_))
      exact Bool.and_eq_true_iff.mpr ⟨rfl, beq_self_eq_true _⟩
    · rw [if_neg ht]
      exact hwait.trans (Job.waiting_le_addLocal ..)
  · rw [cola_enqueue] at hp
    split at hp
    · rcases List.mem_append.mp hp with hp | hp
      · exact h.owner _ p hp hlocal hid
      · rw [List.mem_singleton.mp hp]
        rfl
    · exact h.owner t p hp hlocal hid

theorem Avisos.managerInit (R : Conn → Prop) (cpu mem gpu : Int32) (ip : CString) :
    Avisos R (fun _ => False) (managerInit cpu mem gpu ip) := by
  have hcola : ∀ t, (Hpc.managerInit cpu mem gpu ip).cola t = [] := by
    intro t
    cases t <;> rfl
  have hjobs : (Hpc.managerInit cpu mem gpu ip).jobs = [] := TablaJobs.jobs_init
  constructor
  · rw [hjobs]
    exact TablaJobs.Distinct.nil
  all_goals simp [hcola, hjobs]

/-! ## Runs -/

/-- The calls of the agent's life: ids are not negative, and `RESERVE`s arrive
on connections that own no job. -/
def Origenes (R : Conn → Prop) : Guardia where
  message s conn m := Separadas R s ∧ (∀ i ∈ m.jobId?, 0 ≤ i)
    ∧ ∀ i t a, m = .reserve i t a → R conn
  carries h := h.2.1
  lost t _ := ∀ j ∈ t.jobs, ¬R j.conn
  ready _ _ := True

theorem Origenes.nonneg {R : Conn → Prop} {s : Manager} {conn : Conn} {m : Message}
    (h : (Origenes R).message s conn m) : ∀ i ∈ m.jobId?, 0 ≤ i := h.2.1

/-- The invariant of the small steps: the jobs in hand are excused. -/
structure AvisosPaso (R : Conn → Prop) (c : Manager × List Obra) : Prop where
  avisos : Avisos R (EnMano c.2) c.1
  separadas : c.2 ≠ [] → Separadas R c.1
  nueva : ∀ requests next job, .nueva requests next job ∈ c.2 →
    c.2 = [.nueva requests next job] ∧ 0 ≤ job.jobId ∧ Naciente c.1 job

namespace AvisosPaso

variable {R : Conn → Prop} {s s' : Manager} {w w' : List Obra}

theorem of_nil (h : Avisos R (fun _ => False) s) : AvisosPaso R (s, []) :=
  ⟨by rw [enMano_nil]; exact h, fun hne => absurd rfl hne,
    fun _ _ _ hmem => absurd hmem List.not_mem_nil⟩

theorem nil (h : AvisosPaso R (s, [])) : Avisos R (fun _ => False) s := by
  have havisos := h.avisos
  rwa [enMano_nil] at havisos

/-- With no new job in hand there is nothing more to keep. -/
theorem of_not_nueva (havisos : Avisos R (EnMano w) s) (hsep : Separadas R s)
    (hnot : ∀ requests next job, .nueva requests next job ∉ w) : AvisosPaso R (s, w) :=
  ⟨havisos, fun _ => hsep, fun r n j hmem => absurd hmem (hnot r n j)⟩

/-- A new job is the only work in hand. -/
theorem not_nueva_of_cons {o : Obra} (h : AvisosPaso R (s, o :: w))
    (ho : ∀ requests next job, o ≠ .nueva requests next job) :
    ∀ requests next job, .nueva requests next job ∉ w := by
  intro r n j hmem
  have hsola := (h.nueva r n j (List.mem_cons_of_mem _ hmem)).1
  exact ho r n j (List.cons.inj hsola).1

theorem of_nueva {requests next : List ResourceRequest} {job : Job}
    (havisos : Avisos R (fun i => i = job.jobId) s) (hsep : Separadas R s)
    (hpos : 0 ≤ job.jobId) (hjob : Naciente s job) :
    AvisosPaso R (s, [.nueva requests next job]) := by
  refine ⟨havisos.mono (fun i hi => (enMano_of_job rfl _ _).mpr (Or.inl hi.symm)),
    fun _ => hsep, fun r n j hmem => ?_⟩
  obtain ⟨rfl, rfl, rfl⟩ := Obra.nueva.inj (List.mem_singleton.mp hmem)
  exact ⟨rfl, hpos, hjob⟩

theorem nueva_inv {requests next : List ResourceRequest} {job : Job}
    (h : AvisosPaso R (s, [.nueva requests next job])) :
    Avisos R (fun i => i = job.jobId) s ∧ Separadas R s ∧ 0 ≤ job.jobId ∧ Naciente s job := by
  obtain ⟨-, hpos, hjob⟩ := h.nueva requests next job List.mem_cons_self
  refine ⟨h.avisos.mono (fun i hi => ?_), h.separadas (List.cons_ne_nil _ _), hpos, hjob⟩
  rcases (enMano_of_job rfl _ _).mp hi with hi | hi
  · exact hi.symm
  · rw [enMano_nil] at hi
    exact hi.elim

/-- **Every small step keeps the invariant.** -/
theorem paso {c d : Manager × List Obra} (h : AvisosPaso R c)
    (hpaso : Paso (Origenes R) c d) : AvisosPaso R d := by
  cases hpaso with
  | mensaje conn m hG hm =>
    refine of_not_nueva ?_ hG.1 (by simp)
    rw [enMano_llamada, enMano_nil]
    exact h.nil.emit rfl
  | cerrar =>
    have havisos := h.avisos
    dsimp only at havisos
    rw [enMano_llamada, enMano_nil] at havisos
    exact of_nil havisos
  | reserve conn jobId type amount hG =>
    exact of_nil ((h.nil.emit rfl).processReserve (hG.2.2 _ _ _ rfl) (hG.2.1 _ rfl) _ _)
  | returned conn jobId type amount hG hne haccepts =>
    refine of_not_nueva ?_ hG.1 (by simp)
    rw [enMano_sirviendo, enMano_llamada, enMano_nil]
    exact ((h.nil.emit (e := .rx conn _) rfl).emit
      (e := .returned type jobId amount) rfl).giveUnits _ _
  | refused conn jobId type amount hG hne haccepts =>
    refine of_not_nueva ?_ hG.1 (by simp)
    rw [enMano_llamada, enMano_nil]
    exact (h.nil.emit rfl).emit rfl
  | granted conn jobId hG =>
    exact of_nil ((h.nil.emit rfl).processGranted conn (hG.2.1 _ rfl))
  | dequeue tipo top rest hc hfits =>
    obtain ⟨havisos, hsep⟩ := h.avisos.dequeueTop (h.separadas (List.cons_ne_nil _ _)) hc
    refine of_not_nueva havisos hsep ?_
    have hw := h.not_nueva_of_cons (fun _ _ _ heq => nomatch heq)
    simpa using hw
  | parar tipo hstop =>
    have hw := h.not_nueva_of_cons (fun _ _ _ heq => nomatch heq)
    have havisos := h.avisos
    dsimp only at havisos
    rw [enMano_sirviendo] at havisos
    exact of_not_nueva havisos (h.separadas (List.cons_ne_nil _ _)) hw
  | purgeId jobId hid =>
    refine ⟨(h.avisos.limpiarColasPorId jobId).mono (fun _ hi => hi.1), h.separadas,
      fun r n j hmem => ?_⟩
    obtain ⟨hsola, hpos, hjob⟩ := h.nueva r n j hmem
    exact ⟨hsola, hpos, hjob.own, hjob.fresh,
      fun t => List.filter_sublist.countP_le.trans (hjob.waits t),
      fun t p hp => hjob.owner t p (List.mem_filter.mp hp).1⟩
  | purgeConn conn hG => exact of_nil (h.nil.limpiarColasPorConn conn)
  | extract jobId job hpos hfind =>
    have havisos := h.avisos
    dsimp only at havisos
    rw [enMano_llamada, enMano_nil] at havisos
    have hid : job.jobId = jobId := eq_of_beq
      (List.find?_some (p := fun j : Job => j.jobId == jobId) hfind)
    obtain ⟨hext, hsep⟩ := havisos.extractById (h.separadas (List.cons_ne_nil _ _)) hpos
    refine of_not_nueva (hext.mono (fun i hi => ?_)) hsep (by simp)
    exact (enMano_of_job rfl _ _).mpr (Or.inl (hid.trans (hi.resolve_left id).symm))
  | lose conn hG =>
    obtain ⟨havisos, hsep⟩ := h.nil.extractByRemoteConn hG conn
    refine of_not_nueva (havisos.mono ?_) hsep (by simp)
    rintro i ⟨j, hj, hid⟩
    exact ⟨.muerta j, List.mem_append_left _ (List.mem_map_of_mem hj), j, rfl, hid⟩
  | soltar job a rest hjob hheld haccepts =>
    have hw := h.not_nueva_of_cons (fun _ _ _ heq => nomatch heq)
    refine of_not_nueva ?_ (h.separadas (List.cons_ne_nil _ _)) (by simpa using hw)
    rw [enMano_sirviendo, enMano_muerta]
    exact (h.avisos.emit (e := .giveBack a.name a.request) rfl).giveUnits _ _
  | perder job a rest hjob hheld haccepts =>
    have hw := h.not_nueva_of_cons (fun _ _ _ heq => nomatch heq)
    refine of_not_nueva ?_ (h.separadas (List.cons_ne_nil _ _)) (by simpa using hw)
    rw [enMano_muerta]
    exact h.avisos.emit rfl
  | avisar job a rest jobId conn hjob hremote hid hconn =>
    have hw := h.not_nueva_of_cons (fun _ _ _ heq => nomatch heq)
    refine of_not_nueva ?_ (h.separadas (List.cons_ne_nil _ _)) (by simpa using hw)
    rw [enMano_muerta]
    exact h.avisos.sendMessage _ (fun _ hm => nomatch hm)
  | olvidar job a rest hjob hheld hremote =>
    have hw := h.not_nueva_of_cons (fun _ _ _ heq => nomatch heq)
    refine of_not_nueva ?_ (h.separadas (List.cons_ne_nil _ _)) (by simpa using hw)
    rw [enMano_muerta]
    exact h.avisos
  | descartar job hjob hpurged =>
    have hw := h.not_nueva_of_cons (fun _ _ _ heq => nomatch heq)
    refine of_not_nueva ?_ (h.separadas (List.cons_ne_nil _ _)) hw
    refine { h.avisos with known := fun t p hp hlocal => ?_ }
    refine (h.avisos.known t p hp hlocal).imp_left (fun hmano => ?_)
    exact ((enMano_of_job rfl _ _).mp hmano).resolve_left (Ne.symm (hpurged t p hp))
  | nuevo conn jobId requests hG hnew =>
    have hpos : 0 ≤ jobId := hG.2.1 _ rfl
    exact of_nueva ((h.nil.emit rfl).mono (fun _ hi => hi.elim)) hG.1 hpos
      ((h.nil.emit (e := .rx conn _) rfl).naciente hpos hnew conn)
  | localGranted requests next head job hip hfits =>
    obtain ⟨havisos, hsep, hpos, hjob⟩ := h.nueva_inv
    exact of_nueva (havisos.takeUnits _ _) hsep hpos (hjob.addGranted head)
  | localQueued requests next head job hip hfits htotal =>
    obtain ⟨havisos, hsep, hpos, hjob⟩ := h.nueva_inv
    exact of_nueva (havisos.enqueue head.type (p := head.pending job) hpos
      (fun hr => nomatch hr) (fun _ => ⟨rfl, hjob.fresh⟩)) hsep hpos (hjob.addQueued head)
  | remoteSent requests next head job remote hip hlookup =>
    obtain ⟨havisos, hsep, hpos, hjob⟩ := h.nueva_inv
    exact of_nueva (havisos.sendMessage _ (fun _ hm => nomatch hm)) hsep hpos
      ⟨hjob.own.addRemote head remote (fun _ hm => nomatch hm), hjob.fresh, hjob.waits,
        hjob.owner⟩
  | remoteConnecting requests next head job conn hip hlookup =>
    obtain ⟨havisos, hsep, hpos, hjob⟩ := h.nueva_inv
    exact of_nueva (havisos.emit rfl) hsep hpos
      ⟨hjob.own.addRemote head conn
        (fun _ hm _ => Option.some.inj hm ▸ fun hr => nomatch hr), hjob.fresh, hjob.waits,
        hjob.owner⟩
  | insertar requests job =>
    obtain ⟨havisos, -, hpos, hjob⟩ := h.nueva_inv
    exact of_nil (havisos.insertJob hpos hjob requests)
  | abandonar requests next job =>
    obtain ⟨havisos, hsep, -, -⟩ := h.nueva_inv
    refine of_not_nueva (havisos.mono (fun i hi => ?_)) hsep (by simp)
    exact (enMano_of_job rfl _ _).mpr (Or.inl hi.symm)
  | decir conn m hm =>
    refine ⟨h.avisos.sendMessage conn (fun i heq => ?_), h.separadas, fun r n j hmem => ?_⟩
    · rw [heq] at hm
      exact Bool.false_ne_true hm
    · obtain ⟨hsola, hpos, hjob⟩ := h.nueva r n j hmem
      exact ⟨hsola, hpos, hjob.own, hjob.fresh, hjob.waits, hjob.owner⟩
  | listo conn hG => exact of_nil (h.nil.processConnectionReady conn)
  | conexiones conn hG => exact of_nil (h.nil.of_eq (fun _ => rfl) rfl (fun _ _ => rfl))
  | nodos nodos => exact of_nil (h.nil.of_eq (fun _ => rfl) rfl (fun _ _ => rfl))

end AvisosPaso

/-- **`JOB_GRANTED` is sent exactly once, exactly when the job is complete.** In
every state of every run, a job of the table has been announced to its owner
once since it was inserted if `tabla_jobs_verificar` accepts it, and not at all
otherwise. -/
theorem jobGranted_sent_once (R : Conn → Prop) {cpu mem gpu : Int32} {ip : CString}
    {s : Manager} (hrun : Reaches Manager.step (Origenes R).allows (managerInit cpu mem gpu ip) s)
    {job : Job} (hjob : job ∈ s.jobs) :
    avisos job.jobId job.conn s.log
      = if tablaJobsVerificar s.tabla job.jobId then 1 else 0 := by
  have hinv : Avisos R (fun _ => False) s :=
    (pasos_of_reaches hrun (AvisosPaso.of_nil (Avisos.managerInit R cpu mem gpu ip))
      (fun _ _ => AvisosPaso.paso)).nil
  rw [hinv.sent job hjob, TablaJobs.verificar_eq _ (hinv.distinct.nonneg job hjob)]
  show _ = if (s.jobs.find? _).any _ = true then 1 else 0
  rw [hinv.distinct.find_eq hjob, Option.any_some]

theorem Origenes.of_parse {R : Conn → Prop} {s : Manager} {conn : Conn} {msg : CString}
    {red : Network} {m : Message} (hsep : Separadas R s) (hparse : parseMessage msg = some m)
    (hpos : ∀ i ∈ m.jobId?, 0 ≤ i) (hR : ∀ i t a, m = .reserve i t a → R conn) :
    (Origenes R).allows s (.message conn msg red) := by
  intro m' hm'
  obtain rfl := Option.some.inj (hparse.symm.trans hm')
  exact ⟨hsep, hpos, hR⟩

/-- A job that waits for units another job holds is told when they come back. -/
theorem jobGranted_sent_once_waiting :
    ∃ s, Reaches.trace Manager.step (managerInit 4 8 1 ['A'])
        [.message 1 "JOB_REQUEST 1 @A:cpu:4".toList [],
         .message 1 "JOB_REQUEST 2 @A:cpu:1:mem:2".toList [],
         .message 1 "JOB_RELEASE 1".toList []] = some s
      ∧ ∃ job ∈ s.jobs, job.jobId = 2 ∧ avisos job.jobId job.conn s.log
        = if tablaJobsVerificar s.tabla job.jobId then 1 else 0 := by
  have hfirst : (Origenes fun c => c = 9).allows (managerInit 4 8 1 ['A'])
      (.message 1 "JOB_REQUEST 1 @A:cpu:4".toList []) :=
    Origenes.of_parse (m := .jobRequest 1 [⟨['A'], .cpu, 4⟩])
      (by unfold Separadas; decide +kernel) (by decide +kernel)
      (fun i hi => Option.some.inj hi ▸ by decide) (fun _ _ _ h => nomatch h)
  have hsecond : (Origenes fun c => c = 9).allows
      (processMessage 1 "JOB_REQUEST 1 @A:cpu:4".toList [] (managerInit 4 8 1 ['A']))
      (.message 1 "JOB_REQUEST 2 @A:cpu:1:mem:2".toList []) :=
    Origenes.of_parse (m := .jobRequest 2 [⟨['A'], .cpu, 1⟩, ⟨['A'], .mem, 2⟩])
      (by unfold Separadas; decide +kernel) (by decide +kernel)
      (fun i hi => Option.some.inj hi ▸ by decide) (fun _ _ _ h => nomatch h)
  have hthird : (Origenes fun c => c = 9).allows
      (processMessage 1 "JOB_REQUEST 2 @A:cpu:1:mem:2".toList []
        (processMessage 1 "JOB_REQUEST 1 @A:cpu:4".toList [] (managerInit 4 8 1 ['A'])))
      (.message 1 "JOB_RELEASE 1".toList []) :=
    Origenes.of_parse (m := .jobRelease 1) (by unfold Separadas; decide +kernel)
      (by decide +kernel) (fun i hi => Option.some.inj hi ▸ by decide)
      (fun _ _ _ h => nomatch h)
  have hrun := (((@Reaches.refl _ _ Manager.step (Origenes fun c => c = 9).allows
    (managerInit 4 8 1 ['A'])).tail hfirst rfl).tail hsecond rfl).tail hthird rfl
  refine ⟨_, rfl, ⟨2, 1, [⟨.mem, 2, .localAlloc, ['A'], 2, .granted, 1⟩,
    ⟨.cpu, 1, .localAlloc, ['A'], 2, .granted, 1⟩], []⟩, by decide +kernel, rfl, ?_⟩
  exact jobGranted_sent_once (fun c => c = 9) hrun (by decide +kernel)

end Hpc
