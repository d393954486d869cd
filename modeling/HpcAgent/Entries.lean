import HpcAgent.Conservation
import HpcAgent.Operations

/-!
# What a job has of one resource

A job asks this node for a resource at most once. So it holds units of it, or waits
for them with one entry, or has nothing there, whatever `RELEASE`s arrive and
whichever connections are lost. The invariant `EnRegla` says so of every job of the
table: its entries in a queue are among the requests behind its allocations that
wait. Among them, and not all of them, since `process_disconnect` cleans the queues
of a connection before it takes the jobs of the connection out of the table.

It needs little of what arrives: planners ask under ids that other nodes do not use,
and name no place and resource twice, and other nodes ask for something.
-/

namespace Hpc

open TablaJobs (Distinct)

/-- What arrives where the planners' ids are `Loc` and other nodes use other ids. -/
def Apartados (Loc : Int32 → Prop) : Guardia where
  message _ _ m := (∀ i ∈ m.jobId?, 0 ≤ i)
    ∧ (∀ i requests, m = .jobRequest i requests →
      Loc i ∧ (requests.map (fun r => (r.ip, r.type))).Nodup)
    ∧ ∀ i t a, m = .reserve i t a → ¬Loc i ∧ 0 < a
  carries h := h.1
  lost _ _ := True
  ready _ _ := True

/-! ## The invariant -/

/-- Every grant that is out is of something. -/
def EnPositivo (log : List Event) : Prop := ∀ t, ∀ p ∈ vigentes t log, 0 < p.amount

/-- An event puts at most one grant out. -/
theorem EnPositivo.concat {log : List Event} (h : EnPositivo log) {e : Event}
    (he : ∀ t p, e = .grant t p → 0 < p.amount) : EnPositivo (log ++ [e]) := by
  intro t p hp
  rw [vigentes_concat] at hp
  cases e with
  | grant tipo q =>
    change p ∈ (if tipo = t then _ else _) at hp
    split at hp
    · rcases List.mem_cons.mp hp with rfl | hp
      · exact he tipo p rfl
      · exact h t p hp
    · exact h t p hp
  | giveBack tipo q =>
    change p ∈ (if tipo = t then _ else _) at hp
    split at hp
    · exact h t p (List.mem_of_mem_erase hp)
    · exact h t p hp
  | returned tipo jobId amount =>
    change p ∈ (if tipo = t then _ else _) at hp
    split at hp
    · exact h t p (List.mem_of_mem_eraseP hp)
    · exact h t p hp
  | _ => exact h t p hp

theorem EnPositivo.mute {log : List Event} (h : EnPositivo log) {e : Event}
    (he : e.mute = true) : EnPositivo (log ++ [e]) :=
  h.concat (fun t p heq => by rw [heq] at he; exact absurd he Bool.false_ne_true)

theorem EnPositivo.of_eq {log log' : List Event} (h : EnPositivo log)
    (heq : ∀ t, vigentes t log' = vigentes t log) : EnPositivo log' :=
  fun t p hp => h t p (heq t ▸ hp)

/-- The entries of a job are requests behind allocations that wait. -/
def Manager.Cubre (s : Manager) (j : Job) : Prop :=
  ∀ t, ((s.cola t).filter (PendingRequest.ofJob j.jobId)).Sublist
    (j.entries Allocation.waiting t)

/-- A job being built from its requests, those of `next` still to be placed. -/
structure Creciente (Loc : Int32 → Prop) (s : Manager) (next : List ResourceRequest)
    (job : Job) : Prop where
  nonneg : 0 ≤ job.jobId
  loc : Loc job.jobId
  fresh : ∀ j ∈ s.jobs, j.jobId ≠ job.jobId
  regular : job.Regular
  cubre : s.Cubre job
  positive : ∀ r ∈ next, 0 < r.amount
  types : (job.localTypes ++ (next.filter (fun r => r.ip == s.ip)).map (·.type)).Nodup

/-- **The invariant.** -/
structure EnRegla (Loc : Int32 → Prop) (c : Manager × List Obra) : Prop where
  distinct : Distinct c.1.jobs
  jobs : ∀ j ∈ c.1.jobs, Loc j.jobId ∧ j.Regular ∧ c.1.Cubre j
  queue : ∀ t, ∀ p ∈ c.1.cola t, 0 ≤ p.jobId ∧ 0 < p.amount
  ledger : EnPositivo c.1.log
  remote : ∀ t, ∀ p ∈ c.1.cola t, p.origen = .originRemote → ¬Loc p.jobId
  owned : ∀ t, ∀ p ∈ c.1.cola t, p.origen = .originLocal →
    (∃ j ∈ c.1.jobs, j.jobId = p.jobId) ∨ EnMano c.2 p.jobId
  nueva : ∀ requests next job, .nueva requests next job ∈ c.2 →
    c.2 = [.nueva requests next job] ∧ Creciente Loc c.1 next job

theorem Manager.Cubre.of_sublist {s s' : Manager} {j : Job} (h : s.Cubre j)
    (hc : ∀ t, (s'.cola t).Sublist (s.cola t)) : s'.Cubre j :=
  fun t => ((hc t).filter _).trans (h t)

/-- **The one entry of a job** at a resource: the request behind the allocation that
waits there, and the job holds nothing of it. -/
theorem Manager.Cubre.entry {s : Manager} {j : Job} (h : s.Cubre j) (hregular : j.Regular)
    {t : Resource} {p : PendingRequest} (hp : p ∈ s.cola t) (hof : p.ofJob j.jobId = true) :
    (s.cola t).filter (PendingRequest.ofJob j.jobId) = [p]
      ∧ j.entries Allocation.waiting t = [p] := by
  have hmem : p ∈ (s.cola t).filter (PendingRequest.ofJob j.jobId) :=
    List.mem_filter.mpr ⟨hp, hof⟩
  have hsub := h t
  cases hwait : j.entries Allocation.waiting t with
  | nil =>
    rw [hwait, List.sublist_nil] at hsub
    rw [hsub] at hmem
    exact absurd hmem List.not_mem_nil
  | cons q l =>
    obtain ⟨rfl, -⟩ := hregular.mark hwait
    rw [hwait] at hsub
    -- a non-empty sublist of one entry is that entry
    have hone : (s.cola t).filter (PendingRequest.ofJob j.jobId) = [q] :=
      hsub.eq_of_length_le (List.length_pos_of_mem hmem)
    rw [hone, List.mem_singleton] at hmem
    exact ⟨hmem ▸ hone, hmem ▸ rfl⟩

/-! ## Jobs that lose a connection -/

theorem entries_dropRemote {sel : Allocation → Bool} {t : Resource} {j : Job}
    (hsel : ∀ a, sel a = true → a.isLocal = true) (conn : Conn) :
    (j.dropRemote conn).entries sel t = j.entries sel t := by
  unfold Job.entries Job.dropRemote
  dsimp only
  rw [List.filter_filter]
  refine congrArg (List.map _) (List.filter_congr (fun a _ => ?_))
  cases ha : sel a
  · rfl
  · have hlocal : a.type = .localAlloc := eq_of_beq (hsel a ha)
    simp [hlocal]

theorem localTypes_dropRemote (conn : Conn) (j : Job) :
    (j.dropRemote conn).localTypes = j.localTypes := by
  unfold Job.localTypes Job.dropRemote
  dsimp only
  rw [List.filter_filter]
  refine congrArg (List.map _) (List.filter_congr (fun a _ => ?_))
  unfold Allocation.isLocal
  cases a.type <;> simp

theorem Job.Regular.dropRemote {j : Job} (h : j.Regular) (conn : Conn) :
    (j.dropRemote conn).Regular := by
  refine ⟨fun a ha => h.ids a (List.mem_filter.mp ha).1,
    fun a ha => h.own a (List.mem_filter.mp ha).1, ?_⟩
  rw [localTypes_dropRemote]
  exact h.types

namespace EnRegla

variable {Loc : Int32 → Prop} {s s' : Manager} {w w' : List Obra}

/-! ## Steps that change no job -/

/-- **Entries may leave the queues** while the table stays. -/
theorem of_sublist (h : EnRegla Loc (s, w)) (hc : ∀ t, (s'.cola t).Sublist (s.cola t))
    (hj : s'.jobs = s.jobs) (hlog : EnPositivo s'.log)
    (hmano : ∀ i, EnMano w i → EnMano w' i)
    (hnueva : ∀ requests next job, .nueva requests next job ∈ w' →
      w' = [.nueva requests next job] ∧ Creciente Loc s' next job) : EnRegla Loc (s', w') where
  distinct := hj ▸ h.distinct
  jobs j hj' := by
    obtain ⟨hloc, hregular, hcubre⟩ := h.jobs j (hj ▸ hj')
    exact ⟨hloc, hregular, hcubre.of_sublist hc⟩
  queue t p hp := h.queue t p ((hc t).subset hp)
  ledger := hlog
  remote t p hp := h.remote t p ((hc t).subset hp)
  owned t p hp hlocal := by
    show (∃ j ∈ s'.jobs, _) ∨ _
    rw [hj]
    exact (h.owned t p ((hc t).subset hp) hlocal).imp_right (hmano _)
  nueva := hnueva

/-- The rest of a handler. -/
theorem frame (h : EnRegla Loc (s, w)) (hc : ∀ t, s'.cola t = s.cola t) (hj : s'.jobs = s.jobs)
    (hlog : EnPositivo s'.log) (hmano : ∀ i, EnMano w i → EnMano w' i)
    (hnot : ∀ requests next job, .nueva requests next job ∉ w') : EnRegla Loc (s', w') :=
  h.of_sublist (fun t => by rw [hc]) hj hlog hmano (fun r n j hmem => absurd hmem (hnot r n j))

/-- A step of a handler with other work in hand has no new job there. -/
theorem not_nueva_of_cons {o : Obra} (h : EnRegla Loc (s, o :: w))
    (ho : ∀ requests next job, o ≠ .nueva requests next job) :
    ∀ requests next job, .nueva requests next job ∉ w := by
  intro r n j hmem
  have hsola := (h.nueva r n j (List.mem_cons_of_mem _ hmem)).1
  exact ho r n j (List.cons.inj hsola).1

/-- The job being built. -/
theorem creciente {requests next : List ResourceRequest} {job : Job}
    (h : EnRegla Loc (s, [.nueva requests next job])) : Creciente Loc s next job :=
  (h.nueva requests next job List.mem_cons_self).2

theorem nueva_singleton {requests next : List ResourceRequest} {job : Job}
    (h : Creciente Loc s next job) : ∀ r n j, .nueva r n j ∈ [Obra.nueva requests next job] →
      [Obra.nueva requests next job] = [.nueva r n j] ∧ Creciente Loc s n j := by
  intro r n j hmem
  obtain ⟨rfl, rfl, rfl⟩ := Obra.nueva.inj (List.mem_singleton.mp hmem)
  exact ⟨rfl, h⟩

/-- The work in hand stays as it is. -/
theorem same (h : EnRegla Loc (s, w)) (hc : ∀ t, (s'.cola t).Sublist (s.cola t))
    (hj : s'.jobs = s.jobs) (hlog : EnPositivo s'.log) (hip : s'.ip = s.ip) :
    EnRegla Loc (s', w) := by
  refine h.of_sublist hc hj hlog (fun _ => id) (fun r n j hmem => ?_)
  obtain ⟨hsola, hnew⟩ := h.nueva r n j hmem
  exact ⟨hsola, hnew.nonneg, hnew.loc, fun i hi => hnew.fresh i (hj ▸ hi), hnew.regular,
    hnew.cubre.of_sublist hc, hnew.positive, hip ▸ hnew.types⟩

theorem emit (h : EnRegla Loc (s, w)) {e : Event} (he : e.mute = true) :
    EnRegla Loc (s.emit e, w) :=
  h.same (fun _ => List.Sublist.refl _) rfl (h.ledger.mute he) rfl

/-! ## Steps that change the queues -/

/-- **A new entry**, of a job that is not in the table. -/
theorem enqueue (h : EnRegla Loc (s, w)) {t : Resource} {p : PendingRequest}
    (hpos : 0 ≤ p.jobId ∧ 0 < p.amount) (hremote : p.origen = .originRemote → ¬Loc p.jobId)
    (howned : p.origen = .originLocal → EnMano w' p.jobId)
    (hnot : p.origen = .originLocal → ∀ j ∈ s.jobs, p.jobId ≠ j.jobId)
    (hmano : ∀ i, EnMano w i → EnMano w' i)
    (hnueva : ∀ requests next job, .nueva requests next job ∈ w' →
      w' = [.nueva requests next job] ∧ Creciente Loc (enqueue t p s) next job) :
    EnRegla Loc (enqueue t p s, w') := by
  have hmem : ∀ t', ∀ q ∈ (Hpc.enqueue t p s).cola t', q ∈ s.cola t' ∨ q = p := by
    intro t' q hq
    rw [cola_enqueue] at hq
    split at hq
    · next ht =>
      rw [ht]
      exact (List.mem_append.mp hq).imp_right List.mem_singleton.mp
    · exact Or.inl hq
  refine ⟨h.distinct, fun j hj => ?_, fun t' q hq => ?_, h.ledger, fun t' q hq hr => ?_,
    fun t' q hq hl => ?_, hnueva⟩
  · obtain ⟨hloc, hregular, hcubre⟩ := h.jobs j hj
    refine ⟨hloc, hregular, fun t' => ?_⟩
    have hof : p.ofJob j.jobId = false := by
      rw [← Bool.not_eq_true]
      intro hof
      obtain ⟨hlocal, hid⟩ := ofJob_iff.mp hof
      exact hnot hlocal j hj hid
    rw [cola_enqueue]
    split
    · next ht =>
      rw [ht, List.filter_append, List.filter_cons_of_neg (by simp [hof]), List.filter_nil,
        List.append_nil]
      exact hcubre t
    · exact hcubre t'
  · rcases hmem t' q hq with hq | rfl
    · exact h.queue t' q hq
    · exact hpos
  · rcases hmem t' q hq with hq | rfl
    · exact h.remote t' q hq hr
    · exact hremote hr
  · rcases hmem t' q hq with hq | rfl
    · exact (h.owned t' q hq hl).imp_right (hmano _)
    · exact Or.inr (howned hl)

/-! ## A round of the loop -/

/-- **A round of the loop** takes the one entry of a job, and marks the allocation
behind it. -/
theorem dequeueTop {t : Resource} {top : PendingRequest} {rest : List PendingRequest}
    (h : EnRegla Loc (s, .sirviendo t :: w)) (hc : s.cola t = top :: rest) :
    EnRegla Loc (dequeueTop t top s, .sirviendo t :: w) := by
  have htop : top ∈ s.cola t := hc ▸ List.mem_cons_self
  have hsub : ∀ t', ((Hpc.dequeueTop t top s).cola t').Sublist (s.cola t') :=
    fun t' => cola_dequeueTop_sublist s t t' hc
  obtain ⟨hnonneg, hpos⟩ := h.queue t top htop
  have hids := ids_dequeueTop s t top hnonneg
  have hw := h.not_nueva_of_cons (fun _ _ _ heq => nomatch heq)
  refine ⟨h.distinct.of_map_eq hids, fun j hj => ?_,
    fun t' p hp => h.queue t' p ((hsub t').subset hp), fun t' p hp => ?_,
    fun t' p hp => h.remote t' p ((hsub t').subset hp), fun t' p hp hlocal => ?_,
    fun r n j hmem => ?_⟩
  · rcases mem_jobs_dequeueTop s t top h.distinct hnonneg hj with ⟨hj, -⟩ | ⟨i, hi, hid, rfl⟩
    · obtain ⟨hloc, hregular, hcubre⟩ := h.jobs j hj
      exact ⟨hloc, hregular, hcubre.of_sublist hsub⟩
    · obtain ⟨hloc, hregular, hcubre⟩ := h.jobs i hi
      -- the id is one of this node, so the entry is of the job
      have hlocal : top.origen = .originLocal :=
        Origin.eq_originLocal (fun ho => h.remote t top htop ho (hid ▸ hloc))
      have hof : top.ofJob i.jobId = true := ofJob_iff.mpr ⟨hlocal, hid.symm⟩
      obtain ⟨hone, hwait⟩ := hcubre.entry hregular htop hof
      obtain ⟨-, hconn, -, hwaiting, -, hother⟩ := hregular.mark hwait
      refine ⟨hloc, hregular.markGranted _ _, fun t' => ?_⟩
      show (((Hpc.dequeueTop t top s).cola t').filter (PendingRequest.ofJob i.jobId)).Sublist _
      rw [cola_dequeueTop s t t' hc]
      by_cases ht : t' = t
      · rw [hc, List.filter_cons_of_pos hof] at hone
        rw [if_pos ht, (List.cons.inj hone).2]
        exact List.nil_sublist _
      · rw [if_neg ht, hconn, hother t' ht]
        exact hcubre t'
  · have hp : p ∈ vigentes t' (Hpc.dequeueTop t top s).log := hp
    rw [vigentes_dequeueTop] at hp
    split at hp
    · rcases List.mem_cons.mp hp with rfl | hp
      · exact hpos
      · exact h.ledger t' p hp
    · exact h.ledger t' p hp
  · refine (h.owned t' p ((hsub t').subset hp) hlocal).imp_left ?_
    rintro ⟨j, hj, hid⟩
    have hmem : p.jobId ∈ s.jobs.map (·.jobId) := List.mem_map.mpr ⟨j, hj, hid⟩
    rw [← hids] at hmem
    exact List.mem_map.mp hmem
  · rcases List.mem_cons.mp hmem with heq | hmem
    · exact nomatch heq
    · exact absurd hmem (hw r n j)

/-! ## Steps that change the table -/

/-- **`GRANTED`** changes no local allocation. -/
theorem processGranted (h : EnRegla Loc (s, [])) (conn : Conn) {jobId : Int32}
    (hpos : 0 ≤ jobId) : EnRegla Loc (processGranted conn jobId s, []) := by
  rcases processGranted_cases s conn hpos with
    ⟨-, heq⟩ | ⟨ip, -, -, heq⟩ | ⟨ip, -, job, hjob, hid, hrec, -, -, hjobs, -⟩
  · rw [heq]
    exact h
  · rw [heq]
    exact ((h.emit rfl).emit rfl).emit rfl
  · subst hid
    have hcola : ∀ t, (Hpc.processGranted conn job.jobId s).cola t = s.cola t := by
      intro t
      unfold Manager.cola
      rw [hrec]
    have hsub : ∀ t, ((Hpc.processGranted conn job.jobId s).cola t).Sublist (s.cola t) :=
      fun t => by rw [hcola]
    have hids : (Hpc.processGranted conn job.jobId s).jobs.map (·.jobId)
        = s.jobs.map (·.jobId) := by
      rw [hjobs]
      exact List.map_modifyFirst_of_eq _ (fun j _ => jobId_jobConfirmar j ip job.jobId) _
    refine ⟨h.distinct.of_map_eq hids, fun j hj => ?_, fun t p hp => h.queue t p (hcola t ▸ hp),
      h.ledger.of_eq (vigentes_processGranted s conn hpos),
      fun t p hp => h.remote t p (hcola t ▸ hp), fun t p hp hlocal => ?_,
      fun _ _ _ hmem => absurd hmem List.not_mem_nil⟩
    · rcases h.distinct.mem_modifyFirst (fun j => jobId_jobConfirmar j ip job.jobId)
        (hjobs ▸ hj) with ⟨hj, -⟩ | ⟨i, hi, hid, rfl⟩
      · obtain ⟨hloc, hregular, hcubre⟩ := h.jobs j hj
        exact ⟨hloc, hregular, hcubre.of_sublist hsub⟩
      · obtain ⟨hloc, hregular, hcubre⟩ := h.jobs i hi
        refine ⟨(jobId_jobConfirmar i ip job.jobId).symm ▸ hloc, hid ▸ hregular.confirmar ip,
          fun t => ?_⟩
        rw [jobId_jobConfirmar, entries_confirmar (fun _ => Allocation.isLocal_of_waiting)]
        exact (hcubre.of_sublist hsub) t
    · refine (h.owned t p (hcola t ▸ hp) hlocal).imp_left ?_
      rintro ⟨j, hj, hid⟩
      have hmem : p.jobId ∈ s.jobs.map (·.jobId) := List.mem_map.mpr ⟨j, hj, hid⟩
      rw [← hids] at hmem
      exact List.mem_map.mp hmem

/-- **Jobs leave the table** for the hands of a handler; those that stay may lose
remote allocations. -/
theorem setTabla (h : EnRegla Loc (s, w)) {t : TablaJobs} (hdistinct : Distinct t.jobs)
    (hold : ∀ j ∈ t.jobs, ∃ i ∈ s.jobs, j = i ∨ ∃ conn, j = i.dropRemote conn)
    (hE : ∀ i, (∃ j ∈ s.jobs, j.jobId = i) ∨ EnMano w i →
      (∃ j ∈ t.jobs, j.jobId = i) ∨ EnMano w' i)
    (hnot : ∀ requests next job, .nueva requests next job ∉ w') :
    EnRegla Loc (s.setTabla t, w') where
  distinct := hdistinct
  jobs j hj := by
    obtain ⟨i, hi, rfl | ⟨conn, rfl⟩⟩ := hold j hj
    · exact h.jobs j hi
    · obtain ⟨hloc, hregular, hcubre⟩ := h.jobs i hi
      refine ⟨hloc, hregular.dropRemote conn, fun ty => ?_⟩
      rw [entries_dropRemote (fun _ => Allocation.isLocal_of_waiting)]
      exact hcubre ty
  queue := h.queue
  ledger := h.ledger
  remote := h.remote
  owned ty p hp hlocal := hE _ (h.owned ty p hp hlocal)
  nueva r n j hmem := absurd hmem (hnot r n j)

/-- **A job is taken out of the table.** -/
theorem extract {jobId : Int32} {job : Job} (h : EnRegla Loc (s, [.llamada])) (hpos : 0 ≤ jobId)
    (hfind : tablaJobsBuscarPorId s.tabla jobId = some job) :
    EnRegla Loc (s.setTabla (tablaJobsExtractById s.tabla jobId).2, [.muerta job, .llamada]) := by
  have hjobs := TablaJobs.jobs_extractById s.tabla hpos
  have hid : job.jobId = jobId := eq_of_beq
    (List.find?_some (p := fun j : Job => j.jobId == jobId) hfind)
  refine h.setTabla (hjobs ▸ h.distinct.sublist List.eraseP_sublist)
    (fun j hj => ⟨j, (h.distinct.mem_eraseP (hjobs ▸ hj)).1, Or.inl rfl⟩) (fun i hi => ?_)
    (by simp)
  rw [enMano_llamada, enMano_nil, or_false] at hi
  obtain ⟨j, hj, rfl⟩ := hi
  by_cases heq : j.jobId = jobId
  · exact Or.inr ((enMano_of_job rfl _ _).mpr (Or.inl (hid.trans heq.symm)))
  · refine Or.inl ⟨j, ?_, rfl⟩
    rw [hjobs]
    exact (List.mem_eraseP_of_neg (by simpa using heq)).mpr hj

/-- **The jobs of a lost connection** are taken out of the table. -/
theorem lose (h : EnRegla Loc (s, [])) (conn : Conn) :
    EnRegla Loc (s.setTabla (tablaJobsExtractByRemoteConn s.tabla conn).2,
      (tablaJobsExtractByRemoteConn s.tabla conn).1.map .muerta ++ [.llamada]) := by
  have hjobs := TablaJobs.jobs_extractByRemoteConn s.tabla conn
  have hfst := TablaJobs.extractByRemoteConn_fst s.tabla conn
  refine h.setTabla ?_ (fun j hj => ?_) (fun i hi => ?_) (by simp)
  · rw [hjobs]
    exact (h.distinct.of_map_eq (by rw [List.map_map]; rfl) :
      Distinct (s.jobs.map (Job.dropRemote conn))).sublist List.filter_sublist
  · rw [hjobs] at hj
    obtain ⟨i, hi, rfl⟩ := List.mem_map.mp (List.mem_filter.mp hj).1
    exact ⟨i, hi, Or.inr ⟨conn, rfl⟩⟩
  · rw [enMano_nil, or_false] at hi
    obtain ⟨j, hj, rfl⟩ := hi
    have hin : j.dropRemote conn ∈ s.jobs.map (Job.dropRemote conn) := List.mem_map_of_mem hj
    by_cases haff : (j.dropRemote conn).affected conn = true
    · refine Or.inr ⟨.muerta (j.dropRemote conn), List.mem_append_left _ (List.mem_map_of_mem ?_),
        j.dropRemote conn, rfl, rfl⟩
      rw [hfst]
      exact List.mem_reverse.mpr (List.mem_filter.mpr ⟨hin, haff⟩)
    · refine Or.inl ⟨j.dropRemote conn, ?_, rfl⟩
      rw [hjobs]
      exact List.mem_filter.mpr ⟨hin, by simpa using haff⟩

/-- **The last of a job taken apart.** -/
theorem descartar {job : Job} (h : EnRegla Loc (s, .muerta job :: w))
    (hpurged : s.Purged job.jobId) : EnRegla Loc (s, w) where
  distinct := h.distinct
  jobs := h.jobs
  queue := h.queue
  ledger := h.ledger
  remote := h.remote
  owned t p hp hlocal := by
    refine (h.owned t p hp hlocal).imp_right (fun hmano => ?_)
    exact ((enMano_of_job rfl _ _).mp hmano).resolve_left (Ne.symm (hpurged t p hp))
  nueva r n j hmem := absurd hmem (h.not_nueva_of_cons (fun _ _ _ heq => nomatch heq) r n j)

/-! ### A job being built -/

section Building

variable {requests next : List ResourceRequest} {head : ResourceRequest} {job : Job}

/-- **A new job** has nothing in the queues. -/
theorem nuevo (h : EnRegla Loc (s, [])) (conn : Conn) {jobId : Int32} (hloc : Loc jobId)
    (hnd : (requests.map (fun r => (r.ip, r.type))).Nodup) (hnonneg : 0 ≤ jobId)
    (hpos : ∀ r ∈ requests, 0 < r.amount) (hnew : tablaJobsBuscarPorId s.tabla jobId = none) :
    EnRegla Loc (s.emit (.rx conn (.jobRequest jobId requests)),
      [.nueva requests requests ⟨jobId, conn, [], []⟩]) := by
  have hfresh : ∀ j ∈ s.jobs, j.jobId ≠ jobId := by
    intro j hj hid
    rw [TablaJobs.buscarPorId_eq _ hnonneg, List.find?_eq_none] at hnew
    exact hnew j hj (beq_iff_eq.mpr hid)
  refine h.of_sublist (fun _ => List.Sublist.refl _) rfl (h.ledger.mute rfl)
    (fun i hi => by simp at hi) (nueva_singleton ⟨hnonneg, hloc, hfresh,
      ⟨fun a ha => absurd ha List.not_mem_nil, fun a ha => absurd ha List.not_mem_nil,
        List.nodup_nil⟩, fun t => ?_, hpos, ?_⟩)
  · have hnone : (s.cola t).filter (PendingRequest.ofJob jobId) = [] := by
      refine List.filter_eq_nil_iff.mpr (fun p hp hof => ?_)
      obtain ⟨hlocal, hid⟩ := ofJob_iff.mp hof
      have howned := h.owned t p hp hlocal
      rw [enMano_nil, or_false] at howned
      obtain ⟨j, hj, hjp⟩ := howned
      exact hfresh j hj (hjp.trans hid)
    show List.Sublist ((s.cola t).filter _) _
    rw [hnone]
    exact List.nil_sublist _
  · exact nodup_types hnd s.ip

/-- A local entry that is granted. -/
theorem localGranted (h : EnRegla Loc (s, [.nueva requests (head :: next) job]))
    (hip : head.ip = s.ip) :
    EnRegla Loc (takeUnits head.type (head.pending job) s,
      [.nueva requests next (job.addLocal head s.ip .granted)]) := by
  have hnew := h.creciente
  obtain ⟨hfresh, htypes⟩ := types_addLocal hnew.types hip
  refine h.of_sublist (fun t => by rw [cola_takeUnits]) rfl (h.ledger.concat (fun t p heq => ?_))
    (fun i hi => ?_) (nueva_singleton ⟨hnew.nonneg, hnew.loc, hnew.fresh,
      hnew.regular.addLocal s.ip Result.noConfusion (hnew.positive head List.mem_cons_self) hfresh,
      fun t => ?_, fun r hr => hnew.positive r (List.mem_cons_of_mem _ hr), htypes⟩)
  · obtain ⟨-, rfl⟩ := Event.grant.inj heq
    exact hnew.positive head List.mem_cons_self
  · rw [enMano_of_job rfl] at hi ⊢
    exact hi
  · rw [cola_takeUnits, entries_addLocal, if_neg (by simp [Allocation.waiting, crearAllocation])]
    exact hnew.cubre t

/-- A local entry that is queued. -/
theorem localQueued (h : EnRegla Loc (s, [.nueva requests (head :: next) job]))
    (hip : head.ip = s.ip) :
    EnRegla Loc (Hpc.enqueue head.type (head.pending job) s,
      [.nueva requests next (job.addLocal head s.ip .queued)]) := by
  have hnew := h.creciente
  obtain ⟨hfresh, htypes⟩ := types_addLocal hnew.types hip
  refine h.enqueue ⟨hnew.nonneg, hnew.positive head List.mem_cons_self⟩ (fun hr => nomatch hr)
    (fun _ => (enMano_of_job (rfl : Obra.job? (.nueva requests next
      (job.addLocal head s.ip .queued)) = some _) _ _).mpr (Or.inl rfl))
    (fun _ j hj => Ne.symm (hnew.fresh j hj)) (fun i hi => ?_)
    (nueva_singleton ⟨hnew.nonneg, hnew.loc, hnew.fresh,
      hnew.regular.addLocal s.ip Result.noConfusion (hnew.positive head List.mem_cons_self) hfresh,
      fun t => ?_, fun r hr => hnew.positive r (List.mem_cons_of_mem _ hr), htypes⟩)
  · rw [enMano_of_job rfl] at hi ⊢
    exact hi
  · rw [cola_enqueue, entries_addLocal]
    by_cases ht : t = head.type
    · have hnil : job.entries Allocation.waiting t = [] :=
        entries_of_not_mem (fun _ => Allocation.isLocal_of_waiting) (ht ▸ hfresh)
      have hold := hnew.cubre t
      rw [hnil, List.sublist_nil, ht] at hold
      have hof : (head.pending job).ofJob (job.addLocal head s.ip .queued).jobId = true :=
        ofJob_iff.mpr ⟨rfl, rfl⟩
      have hold : (s.cola head.type).filter
          (PendingRequest.ofJob (job.addLocal head s.ip .queued).jobId) = [] := hold
      rw [if_pos ht, if_pos (by simp [ht, Allocation.waiting, crearAllocation]), hnil,
        List.filter_append, hold, List.nil_append, List.filter_cons_of_pos hof, List.filter_nil]
    · rw [if_neg ht, if_neg (by simp [Ne.symm ht])]
      exact hnew.cubre t

/-- An entry that asks nothing of this node. -/
theorem addRemote (h : EnRegla Loc (s, [.nueva requests (head :: next) job]))
    (hip : head.ip ≠ s.ip) {e : Event} (he : e.mute = true) (conn : Conn) (msg : Option Message) :
    EnRegla Loc (s.emit e, [.nueva requests next (job.addRemote head conn msg)]) := by
  have hnew := h.creciente
  have htypes := hnew.types
  rw [List.filter_cons_of_neg (by simpa using hip)] at htypes
  refine h.of_sublist (fun _ => List.Sublist.refl _) rfl (h.ledger.mute he) (fun i hi => ?_)
    (nueva_singleton ⟨hnew.nonneg, hnew.loc, hnew.fresh,
      ⟨hnew.regular.ids, hnew.regular.own, hnew.regular.types⟩, hnew.cubre,
      fun r hr => hnew.positive r (List.mem_cons_of_mem _ hr), htypes⟩)
  rw [enMano_of_job rfl] at hi ⊢
  exact hi

/-- **The new job joins the table.** -/
theorem insertJob (h : EnRegla Loc (s, [.nueva requests [] job])) :
    EnRegla Loc (insertJob job requests s, []) := by
  have hnew := h.creciente
  have hperm := jobs_insertJob_perm (s := s) requests hnew.nonneg
  have hsub : ∀ t, ((Hpc.insertJob job requests s).cola t).Sublist (s.cola t) :=
    fun t => by rw [cola_insertJob]
  refine ⟨(h.distinct.cons hnew.nonneg hnew.fresh).perm hperm, fun j hj => ?_,
    fun t p hp => h.queue t p ((hsub t).subset hp),
    h.ledger.of_eq (vigentes_insertJob requests h.distinct hnew.nonneg hnew.fresh),
    fun t p hp => h.remote t p ((hsub t).subset hp),
    fun t p hp hlocal => Or.inl ?_, fun _ _ _ hmem => absurd hmem List.not_mem_nil⟩
  · rcases List.mem_cons.mp (hperm.mem_iff.mp hj) with rfl | hj
    · exact ⟨hnew.loc, hnew.regular, hnew.cubre.of_sublist hsub⟩
    · obtain ⟨hloc, hregular, hcubre⟩ := h.jobs j hj
      exact ⟨hloc, hregular, hcubre.of_sublist hsub⟩
  · rcases h.owned t p ((hsub t).subset hp) hlocal with ⟨j, hj, hid⟩ | hmano
    · exact ⟨j, hperm.mem_iff.mpr (List.mem_cons_of_mem _ hj), hid⟩
    · rcases (enMano_of_job rfl _ _).mp hmano with hid | hmano
      · exact ⟨job, hperm.mem_iff.mpr List.mem_cons_self, hid⟩
      · rw [enMano_nil] at hmano
        exact hmano.elim

end Building

/-! ## Runs -/

/-- A `RESERVE` is of another node's job. -/
theorem processReserve (h : EnRegla Loc (s, [])) (conn : Conn) {jobId : Int32}
    (hnonneg : 0 ≤ jobId) (hloc : ¬Loc jobId) (type : Resource) {amount : Int32}
    (hpos : 0 < amount) : EnRegla Loc (processReserve conn jobId type amount s, []) := by
  rcases processReserve_cases conn jobId type amount s with
    ⟨-, heq⟩ | ⟨-, -, heq⟩ | ⟨-, -, heq⟩
  · rw [heq]
    have htaken : EnRegla Loc (takeUnits type ⟨jobId, amount, conn, .originRemote⟩ s, []) := by
      refine h.same (fun t => ?_) rfl (h.ledger.concat (fun t p hp => ?_)) rfl
      · rw [cola_takeUnits]
      · obtain ⟨-, rfl⟩ := Event.grant.inj hp
        exact hpos
    exact htaken.emit rfl
  · rw [heq]
    exact h.emit rfl
  · rw [heq]
    exact h.enqueue ⟨hnonneg, hpos⟩ (fun _ => hloc) (fun hl => nomatch hl)
      (fun hl => nomatch hl) (fun _ => id) (fun _ _ _ hmem => absurd hmem List.not_mem_nil)

/-- **Every small step keeps the invariant.** -/
theorem paso {c d : Manager × List Obra} (h : EnRegla Loc c)
    (hpaso : Paso (Apartados Loc).positiva c d) : EnRegla Loc d := by
  cases hpaso with
  | mensaje conn m hG hm =>
    exact h.frame (fun _ => rfl) rfl (h.ledger.mute rfl) (fun i hi => by simp at hi) (by simp)
  | cerrar => exact h.frame (fun _ => rfl) rfl h.ledger (fun i hi => by simp at hi) (by simp)
  | reserve conn jobId type amount hG =>
    obtain ⟨hloc, hpos⟩ := hG.1.2.2 _ _ _ rfl
    exact (h.emit rfl).processReserve conn (hG.1.1 _ rfl) hloc type hpos
  | returned conn jobId type amount hG hne haccepts =>
    exact h.frame (fun t => cola_giveUnits _ t type amount) rfl
      ((h.ledger.mute rfl).mute rfl) (fun i hi => by simp at hi) (by simp)
  | refused conn jobId type amount hG hne haccepts =>
    exact h.frame (fun _ => rfl) rfl ((h.ledger.mute rfl).mute rfl) (fun i hi => by simp at hi)
      (by simp)
  | granted conn jobId hG => exact (h.emit rfl).processGranted conn (hG.1.1 _ rfl)
  | dequeue tipo top rest hc hfits => exact h.dequeueTop hc
  | parar tipo hstop =>
    have hw := h.not_nueva_of_cons (fun _ _ _ heq => nomatch heq)
    exact h.frame (fun _ => rfl) rfl h.ledger (fun i hi => by simpa using hi) hw
  | purgeId jobId hid => exact h.same (fun _ => List.filter_sublist) rfl h.ledger rfl
  | purgeConn conn hG => exact h.same (fun _ => List.filter_sublist) rfl h.ledger rfl
  | extract jobId job hpos hfind => exact h.extract hpos hfind
  | lose conn hG => exact h.lose conn
  | soltar job a rest hjob hheld haccepts =>
    have hw := h.not_nueva_of_cons (fun _ _ _ heq => nomatch heq)
    exact h.frame (fun t => cola_giveUnits _ t a.name a.amount) rfl (h.ledger.mute rfl)
      (fun i hi => by rwa [enMano_sirviendo, enMano_muerta]) (by simpa using hw)
  | perder job a rest hjob hheld haccepts =>
    have hw := h.not_nueva_of_cons (fun _ _ _ heq => nomatch heq)
    exact h.frame (fun _ => rfl) rfl (h.ledger.mute rfl)
      (fun i hi => by rwa [enMano_muerta]) (by simpa using hw)
  | avisar job a rest jobId conn hjob hremote hid hconn =>
    have hw := h.not_nueva_of_cons (fun _ _ _ heq => nomatch heq)
    exact h.frame (fun _ => rfl) rfl (h.ledger.mute rfl)
      (fun i hi => by rwa [enMano_muerta]) (by simpa using hw)
  | olvidar job a rest hjob hheld hremote =>
    have hw := h.not_nueva_of_cons (fun _ _ _ heq => nomatch heq)
    exact h.frame (fun _ => rfl) rfl h.ledger
      (fun i hi => by rwa [enMano_muerta]) (by simpa using hw)
  | descartar job hjob hpurged => exact h.descartar hpurged
  | nuevo conn jobId requests hG hnew =>
    obtain ⟨hloc, hnd⟩ := hG.1.2.1 _ _ rfl
    exact h.nuevo conn hloc hnd (hG.1.1 _ rfl) (hG.2 _ _ rfl) hnew
  | localGranted requests next head job hip hfits => exact h.localGranted hip
  | localQueued requests next head job hip hfits htotal => exact h.localQueued hip
  | remoteSent requests next head job remote hip hlookup => exact h.addRemote hip rfl remote none
  | remoteConnecting requests next head job conn hip hlookup => exact h.addRemote hip rfl conn _
  | insertar requests job => exact h.insertJob
  | abandonar requests next job =>
    refine h.frame (fun _ => rfl) rfl h.ledger (fun i hi => ?_) (by simp)
    rw [enMano_of_job rfl] at hi ⊢
    rwa [enMano_llamada]
  | decir conn m hm => exact h.emit rfl
  | @listo s conn hG =>
    obtain ⟨conns, heq⟩ := processConnectionReady_eq s conn
    rw [heq]
    refine h.same (fun _ => List.Sublist.refl _) rfl (h.ledger.of_eq (fun t => ?_)) rfl
    refine vigentes_append_of_neutral (fun e he => ?_) t s.log
    obtain ⟨req, -, rfl⟩ := List.mem_map.mp he
    rfl
  | conexiones conn hG => exact h.same (fun _ => List.Sublist.refl _) rfl h.ledger rfl
  | nodos nodos => exact h.same (fun _ => List.Sublist.refl _) rfl h.ledger rfl

theorem managerInit (Loc : Int32 → Prop) (cpu mem gpu : Int32) (ip : CString) :
    EnRegla Loc (managerInit cpu mem gpu ip, []) := by
  have hcola : ∀ t, (Hpc.managerInit cpu mem gpu ip).cola t = [] := fun t => by cases t <;> rfl
  have hjobs : (Hpc.managerInit cpu mem gpu ip).jobs = [] := TablaJobs.jobs_init
  constructor
  · rw [hjobs]
    exact Distinct.nil
  all_goals simp [hcola, hjobs]
  exact fun t p hp => absurd hp List.not_mem_nil

/-- **The invariant holds along every run.** -/
theorem of_reaches {cpu mem gpu : Int32} {ip : CString}
    (hrun : Reaches Manager.step (Apartados Loc).allows (Hpc.managerInit cpu mem gpu ip) s) :
    EnRegla Loc (s, []) :=
  pasos_of_reaches (hrun.mono (fun _ _ => Guardia.allows_positiva))
    (.managerInit Loc cpu mem gpu ip) (fun _ _ => EnRegla.paso)

end EnRegla

end Hpc
