import HpcAgent.Serving

/-!
# A denied `JOB_REQUEST`

An entry of a `JOB_REQUEST` can fail after others were granted, queued or sent.
The rollback purges the queues of the job and gives the units back, each through
`release_resource`, whose loop could serve others with them. Where the requests
at the top waited for more than was free before, none of them fits on the way
back, so the node ends as it was (`jobRequest_denied`): what was taken is what the
new job holds (`Manager.Salvo`), and every release brings back what one grant
took.
-/

namespace Hpc

/-- A `JOB_DENIED` is sent between the two states. -/
def Manager.Niega (s s' : Manager) : Prop :=
  ∃ conn jobId, (enviados s.log).count (conn, .jobDenied jobId)
    < (enviados s'.log).count (conn, .jobDenied jobId)

/-- **The node as it was, but for what these allocations hold** and for the
queues. -/
structure Manager.Salvo (s : Manager) (l : List Allocation) (u : Manager) : Prop where
  tabla : u.tabla = s.tabla
  conns : u.conns = s.conns
  nodos : u.nodos = s.nodos
  ip : u.ip = s.ip
  total : ∀ t, u.total t = s.total t
  nonneg : ∀ t, 0 ≤ u.available t
  unidades : ∀ t, (u.available t).toInt + units Allocation.held t l = (s.available t).toInt
  locales : ∀ a ∈ l, a.isLocal = true ∧ 0 < a.amount

/-- What was sent in between asks other nodes for entries of the job. -/
def Reservas (jobId : Int32) (reservas : List (Conn × Message)) : Prop :=
  ∀ r ∈ reservas, ∃ type amount, r.2 = .reserve jobId type amount

/-- **The loop over the entries, on the way**: the new job has what was taken, and
its entries stand in the queues between those that were there. -/
structure Job.Tomado (conn : Conn) (jobId : Int32) (s : Manager) (job : Job) (u : Manager) :
    Prop where
  id : job.jobId = jobId
  own : job.conn = conn
  salvo : s.Salvo job.confirmadas u
  cola : ∀ t, (u.cola t).filter (fun p => !(p.jobId == jobId)) = s.cola t
  envios : ∃ reservas, enviados u.log = enviados s.log ++ reservas ∧ Reservas jobId reservas

namespace Manager.Salvo

variable {s u : Manager} {l : List Allocation} {a : Allocation}

theorem units_nonneg (h : s.Salvo l u) (t : Resource) : 0 ≤ units Allocation.held t l :=
  Hpc.units_nonneg (fun a ha _ => (Int32.pos_iff.mp (h.locales a ha).2).le)

theorem tail (h : s.Salvo (a :: l) u) (ha : a.held = false) : s.Salvo l u :=
  { h with
    unidades := fun t => by rw [← h.unidades t, units_cons_of_not_sel ha]
    locales := fun b hb => h.locales b (List.mem_cons_of_mem a hb) }

/-- When nothing is held, everything is there again. -/
theorem available_eq (h : s.Salvo [] u) (t : Resource) : u.available t = s.available t := by
  have hunits := h.unidades t
  rw [units_nil, add_zero] at hunits
  exact Int32.toInt_inj.mp hunits

end Manager.Salvo

/-! ## Taking -/

section Taking

variable {conn : Conn} {jobId : Int32} {s u : Manager} {job : Job} {head : ResourceRequest}

/-- A local entry that is granted. -/
theorem Job.Tomado.granted (h : job.Tomado conn jobId s u) (hpos : 0 < head.amount)
    (hfits : head.amount ≤ u.available head.type) :
    (job.addLocal head u.ip .granted).Tomado conn jobId s
      (takeUnits head.type (head.pending job) u) := by
  have hsub := Int32.toInt_sub_of_pos_of_le hpos hfits
  have hle := Int32.le_iff_toInt_le.mp hfits
  have hamount := Int32.pos_iff.mp hpos
  refine ⟨h.id, h.own, ⟨h.salvo.tabla, h.salvo.conns, h.salvo.nodos, h.salvo.ip, fun t => ?_,
    fun t => ?_, fun t => ?_, ?_⟩, fun t => ?_, ?_⟩
  · rw [total_takeUnits, h.salvo.total]
  · rw [available_takeUnits]
    split
    · show 0 ≤ u.available head.type - head.amount
      rw [Int32.nonneg_iff, hsub]
      omega
    · exact h.salvo.nonneg t
  · have hunits := h.salvo.unidades t
    show _ + units Allocation.held t (crearAllocation head.type head.amount .localAlloc u.ip
      job.jobId .granted job.conn :: job.confirmadas) = _
    rw [available_takeUnits, units_cons_of_sel rfl]
    by_cases ht : t = head.type
    · subst ht
      rw [if_pos rfl]
      refine (congrArg _ (congrArg (· + _) (if_pos rfl))).trans ?_
      show (u.available head.type - head.amount).toInt + (head.amount.toInt + _) = _
      rw [hsub]
      omega
    · have hother : ¬(crearAllocation head.type head.amount .localAlloc u.ip job.jobId .granted
          job.conn).name = t := fun heq => ht heq.symm
      rw [if_neg ht, if_neg hother, zero_add]
      exact hunits
  · exact List.forall_mem_cons.mpr ⟨⟨rfl, hpos⟩, h.salvo.locales⟩
  · rw [cola_takeUnits]
    exact h.cola t
  · obtain ⟨reservas, hlog, hres⟩ := h.envios
    refine ⟨reservas, ?_, hres⟩
    rw [log_takeUnits, enviados_append, hlog]
    exact List.append_nil _

/-- A local entry that has to wait. -/
theorem Job.Tomado.queued (h : job.Tomado conn jobId s u) (hpos : 0 < head.amount) :
    (job.addLocal head u.ip .queued).Tomado conn jobId s
      (enqueue head.type (head.pending job) u) := by
  refine ⟨h.id, h.own, ⟨h.salvo.tabla, h.salvo.conns, h.salvo.nodos, h.salvo.ip, fun t => ?_,
    fun t => ?_, fun t => ?_, ?_⟩, fun t => ?_, h.envios⟩
  · rw [total_enqueue, h.salvo.total]
  · rw [available_enqueue]
    exact h.salvo.nonneg t
  · rw [available_enqueue, ← h.salvo.unidades t]
    exact congrArg _ (units_cons_of_not_sel rfl)
  · exact List.forall_mem_cons.mpr ⟨⟨rfl, hpos⟩, h.salvo.locales⟩
  · rw [cola_enqueue]
    split
    · next ht =>
      -- the new entry is one of those the purge takes away
      have hown : ((head.pending job).jobId == jobId) = true := beq_iff_eq.mpr h.id
      rw [List.filter_append, List.filter_cons_of_neg (by simp [hown]), List.filter_nil,
        List.append_nil, ← ht]
      exact h.cola t
    · exact h.cola t

/-- A remote entry whose `RESERVE` is sent at once. -/
theorem Job.Tomado.sent (h : job.Tomado conn jobId s u) (remote : Conn) :
    (job.addRemote head remote none).Tomado conn jobId s
      (sendMessage remote (head.reserve job.jobId) u) := by
  obtain ⟨reservas, hlog, hres⟩ := h.envios
  refine ⟨h.id, h.own, ⟨h.salvo.tabla, h.salvo.conns, h.salvo.nodos, h.salvo.ip, h.salvo.total,
    h.salvo.nonneg, h.salvo.unidades, h.salvo.locales⟩, h.cola,
    reservas ++ [(remote, head.reserve job.jobId)], ?_, fun r hr => ?_⟩
  · rw [log_sendMessage, enviados_append, hlog, List.append_assoc]
    rfl
  · rcases List.mem_append.mp hr with hr | hr
    · exact hres r hr
    · rw [List.mem_singleton.mp hr, ← h.id]
      exact ⟨head.type, head.amount, rfl⟩

/-- A remote entry that waits for its connection. -/
theorem Job.Tomado.connecting (h : job.Tomado conn jobId s u) (remote : Conn) :
    (job.addRemote head remote (some (head.reserve job.jobId))).Tomado conn jobId s
      (u.emit (.connecting head.ip remote)) := by
  obtain ⟨reservas, hlog, hres⟩ := h.envios
  refine ⟨h.id, h.own, ⟨h.salvo.tabla, h.salvo.conns, h.salvo.nodos, h.salvo.ip, h.salvo.total,
    h.salvo.nonneg, h.salvo.unidades, h.salvo.locales⟩, h.cola, reservas, ?_, hres⟩
  rw [Manager.log_emit, enviados_append, hlog]
  exact List.append_nil _

/-- **The loop over the entries**, however it ends. -/
theorem Job.Tomado.requestLoop (requests : List ResourceRequest) (red : Network)
    (hpos : ∀ r ∈ requests, 0 < r.amount) (hnonneg : ∀ t, 0 ≤ s.available t)
    (hfree : ∀ t, ∀ p ∈ s.cola t, p.jobId ≠ jobId) :
    (requestLoop requests red ⟨jobId, conn, [], []⟩ s).2.1.Tomado conn jobId s
      (requestLoop requests red ⟨jobId, conn, [], []⟩ s).2.2 := by
  have hloop := requestLoop_invariant (P := fun _ job u => job.Tomado conn jobId s u) requests
    (fun _ _ _ head hhead _ h hfits => h.granted (hpos head hhead) hfits)
    (fun _ _ _ head hhead _ h _ _ => h.queued (hpos head hhead))
    (fun _ _ _ _ _ remote _ h _ => h.sent remote)
    (fun _ _ _ _ _ remote _ h _ => h.connecting remote)
    [] red ⟨jobId, conn, [], []⟩ s ?_
  · rcases hloop with ⟨-, h⟩ | ⟨-, -, h⟩
    · exact h
    · exact h
  · refine ⟨rfl, rfl, ⟨rfl, rfl, rfl, rfl, fun _ => rfl, hnonneg, fun t => add_zero _,
      fun a ha => absurd ha List.not_mem_nil⟩, fun t => ?_, [], (List.append_nil _).symm,
      fun r hr => absurd hr List.not_mem_nil⟩
    refine List.filter_eq_self.mpr (fun p hp => ?_)
    simpa using hfree t p hp

end Taking

/-! ## Giving back -/

section GivingBack

variable {s u : Manager} {l : List Allocation} {a : Allocation}

/-- A queue whose top does not fit is not served. -/
theorem serveQueue_of_not_fits {tipo : Resource} {u : Manager} (n : ℕ)
    (h : ∀ top ∈ (u.cola tipo).head?, ¬top.amount ≤ u.available tipo) :
    serveQueue tipo n u = u := by
  cases n with
  | zero => rfl
  | succ n =>
    rw [serveQueue]
    cases hcola : u.cola tipo with
    | nil => rfl
    | cons top rest => exact if_neg (h top (by rw [hcola]; rfl))

/-- **One allocation is freed**: its units come back, and nobody is served. -/
theorem Manager.Salvo.freeAllocation (h : s.Salvo (a :: l) u) (hcola : ∀ t, u.cola t = s.cola t)
    (hle : ∀ t, s.available t ≤ s.total t)
    (hespera : ∀ t, ∀ top ∈ (s.cola t).head?, s.available t < top.amount) (jobId : Int32) :
    s.Salvo l (freeAllocation jobId a u) ∧ (∀ t, (freeAllocation jobId a u).cola t = s.cola t)
      ∧ enviados (freeAllocation jobId a u).log = enviados u.log := by
  obtain ⟨hlocal, hpos⟩ := h.locales a List.mem_cons_self
  unfold Hpc.freeAllocation
  by_cases hheld : a.held = true
  · -- before the grant there was at least this much
    have hunits := h.unidades a.name
    rw [units_cons_of_sel hheld, if_pos rfl] at hunits
    have hamount := Int32.pos_iff.mp hpos
    have hfree := Int32.nonneg_iff.mp (h.nonneg a.name)
    have hrest : 0 ≤ units Allocation.held a.name l :=
      Hpc.units_nonneg (fun b hb _ =>
        (Int32.pos_iff.mp (h.locales b (List.mem_cons_of_mem a hb)).2).le)
    have hmax := Int32.toInt_le_intMax (s.available a.name)
    have hsum : (u.available a.name + a.amount).toInt
        = (u.available a.name).toInt + a.amount.toInt :=
      Int32.toInt_add_of_fits (by omega) (by omega)
    have hback : (u.available a.name + a.amount).toInt ≤ (s.available a.name).toInt := by omega
    have hguard : 0 ≤ a.amount ∧ u.available a.name + a.amount ≤ u.total a.name := by
      have htotal := Int32.le_iff_toInt_le.mp (hle a.name)
      refine ⟨Int32.nonneg_iff.mpr hamount.le, Int32.le_iff_toInt_le.mpr ?_⟩
      rw [h.total]
      omega
    have hsame : releaseHeld a u = giveUnits a.name a.amount
        (u.emit (.giveBack a.name a.request)) := by
      unfold releaseHeld
      rw [releaseResource_eq]
      refine (if_pos hguard).trans (serveQueue_of_not_fits _ (fun top htop hfits => ?_))
      rw [cola_giveUnits, Manager.cola_emit, hcola] at htop
      rw [available_giveUnits, if_pos rfl, Manager.available_emit] at hfits
      have hfits := Int32.le_iff_toInt_le.mp hfits
      have hwaits := Int32.lt_iff_toInt_lt.mp (hespera a.name top htop)
      omega
    rw [if_pos hheld, hsame]
    refine ⟨⟨h.tabla, h.conns, h.nodos, h.ip, fun t => ?_, fun t => ?_, fun t => ?_, ?_⟩,
      fun t => ?_, ?_⟩
    · rw [total_giveUnits]
      exact h.total t
    · rw [available_giveUnits]
      split
      · show 0 ≤ u.available a.name + a.amount
        rw [Int32.nonneg_iff]
        omega
      · exact h.nonneg t
    · rw [available_giveUnits]
      split
      · next ht =>
        subst ht
        show (u.available a.name + a.amount).toInt + _ = _
        omega
      · next ht =>
        have hother := h.unidades t
        rw [units_cons_of_sel hheld, if_neg (fun heq => ht heq.symm), zero_add] at hother
        exact hother
    · exact fun b hb => h.locales b (List.mem_cons_of_mem a hb)
    · rw [cola_giveUnits]
      exact hcola t
    · rw [log_giveUnits, Manager.log_emit, enviados_append]
      exact List.append_nil _
  · rw [if_neg hheld, if_neg (fun hremote => by simp [Allocation.isLocal, hremote] at hlocal)]
    exact ⟨h.tail (by simpa using hheld), hcola, rfl⟩

/-- **All of them are.** -/
theorem Manager.Salvo.freeAllocations (h : s.Salvo l u) (hcola : ∀ t, u.cola t = s.cola t)
    (hle : ∀ t, s.available t ≤ s.total t)
    (hespera : ∀ t, ∀ top ∈ (s.cola t).head?, s.available t < top.amount) (jobId : Int32) :
    s.Salvo [] (freeAllocations jobId l u) ∧ (∀ t, (freeAllocations jobId l u).cola t = s.cola t)
      ∧ enviados (freeAllocations jobId l u).log = enviados u.log := by
  induction l generalizing u with
  | nil => exact ⟨h, hcola, rfl⟩
  | cons a l ih =>
    obtain ⟨hsalvo, hcola, hlog⟩ := h.freeAllocation hcola hle hespera jobId
    obtain ⟨hend, hcola, hlog'⟩ := ih hsalvo hcola
    exact ⟨hend, hcola, hlog'.trans hlog⟩

/-- Nothing held, the same queues: the same node. -/
theorem Manager.Salvo.eq (h : s.Salvo [] u) (hcola : ∀ t, u.cola t = s.cola t) :
    u = { s with log := u.log } := by
  have hrecursos : u.recursos = s.recursos := by
    funext t
    have hav := h.available_eq t
    have htotal := h.total t
    have hnodos := ColaPendingRequest.ext (hcola t)
    unfold Manager.available at hav
    unfold Manager.total at htotal
    show (⟨_, _, _⟩ : Recurso) = ⟨_, _, _⟩
    exact congr (congr (congrArg Recurso.mk hav) htotal) hnodos
  obtain ⟨recursos, tabla, conns, nodos, ip, log⟩ := u
  obtain rfl : recursos = s.recursos := hrecursos
  obtain rfl : tabla = s.tabla := h.tabla
  obtain rfl : conns = s.conns := h.conns
  obtain rfl : nodos = s.nodos := h.nodos
  obtain rfl : ip = s.ip := h.ip
  rfl

end GivingBack

/-! ## The denied request -/

/-- What the end of a `JOB_REQUEST` that is not denied sends. -/
theorem enviados_insertJob (job : Job) (requests : List ResourceRequest) (s : Manager) :
    enviados (insertJob job requests s).log = enviados s.log
      ∨ enviados (insertJob job requests s).log
        = enviados s.log ++ [(job.conn, .jobGranted job.jobId)] := by
  unfold insertJob
  dsimp only
  split
  · refine Or.inr ?_
    rw [log_sendJobGranted, Manager.log_emit, Manager.log_setTabla]
    simp [enviados]
  · refine Or.inl ?_
    rw [Manager.log_emit, Manager.log_setTabla, enviados_append]
    exact List.append_nil _

/-- Asking for entries is not a denial. -/
theorem Reservas.count_jobDenied {jobId : Int32} {reservas : List (Conn × Message)}
    (h : Reservas jobId reservas) (conn : Conn) (id : Int32) :
    reservas.count (conn, .jobDenied id) = 0 := by
  refine List.count_eq_zero.mpr (fun hmem => ?_)
  obtain ⟨type, amount, heq⟩ := h _ hmem
  exact nomatch heq

/-- **The rollback of a denied `JOB_REQUEST`** leaves the node as the loop found
it. -/
theorem rollbackJob_eq {conn : Conn} {jobId : Int32} {s u : Manager} {job : Job}
    (h : job.Tomado conn jobId s u) (hle : ∀ t, s.available t ≤ s.total t)
    (hespera : ∀ t, ∀ top ∈ (s.cola t).head?, s.available t < top.amount) :
    rollbackJob job u = { s with log := (rollbackJob job u).log }
      ∧ enviados (rollbackJob job u).log = enviados u.log ++ [(conn, .jobDenied jobId)] := by
  obtain ⟨hid, hown, hsalvo, hcola, -⟩ := h
  have hlimpio : s.Salvo job.confirmadas (limpiarColasPorId job.jobId u) :=
    ⟨hsalvo.tabla, hsalvo.conns, hsalvo.nodos, hsalvo.ip, hsalvo.total, hsalvo.nonneg,
      hsalvo.unidades, hsalvo.locales⟩
  have hpurga : ∀ t, (limpiarColasPorId job.jobId u).cola t = s.cola t := by
    intro t
    rw [cola_limpiarColasPorId, hid]
    exact hcola t
  obtain ⟨hend, hcolas, hlog⟩ := hlimpio.freeAllocations hpurga hle hespera job.jobId
  unfold rollbackJob
  constructor
  · have hsame := hend.eq hcolas
    rw [hsame]
    rfl
  · rw [log_sendMessage, enviados_append, hlog, log_limpiarColasPorId, hown, hid]
    rfl

/-- **A denied `JOB_REQUEST` leaves the node as it was**: besides the `RESERVE`s of
its remote entries it sends one `JOB_DENIED`, to the planner that asked, and nothing
but the log has changed. -/
theorem jobRequest_denied {s : Manager} {conn : Conn} {msg : CString} {red : Network}
    {jobId : Int32} {requests : List ResourceRequest}
    (hparse : parseMessage msg = some (.jobRequest jobId requests))
    (hrango : ∀ t, 0 ≤ s.available t ∧ s.available t ≤ s.total t)
    (hespera : ∀ t, ∀ top ∈ (s.cola t).head?, s.available t < top.amount)
    (hfree : ∀ t, ∀ p ∈ s.cola t, p.jobId ≠ jobId)
    (hdenied : s.Niega (processMessage conn msg red s)) :
    (∃ reservas, enviados (processMessage conn msg red s).log
        = enviados s.log ++ reservas ++ [(conn, .jobDenied jobId)] ∧ Reservas jobId reservas) ∧
      processMessage conn msg red s
        = { s with log := (processMessage conn msg red s).log } := by
  have hrun : processMessage conn msg red s
      = processJobRequest conn jobId requests red (s.emit (.rx conn (.jobRequest jobId requests)))
      := by
    unfold processMessage
    rw [hparse]
    rfl
  have hrx : enviados (s.emit (.rx conn (.jobRequest jobId requests))).log = enviados s.log := by
    rw [Manager.log_emit, enviados_append]
    exact List.append_nil _
  rw [hrun] at hdenied ⊢
  have hloop := @Job.Tomado.requestLoop conn jobId
    (s.emit (.rx conn (.jobRequest jobId requests))) requests red (requests_pos hparse)
    (fun t => (hrango t).1) hfree
  obtain ⟨reservas, hlog, hres⟩ := hloop.envios
  obtain ⟨c, id, hcount⟩ := hdenied
  rcases processJobRequest_cases conn jobId requests red
      (s.emit (.rx conn (.jobRequest jobId requests))) with
    ⟨job, -, heq⟩ | ⟨-, -, heq⟩ | ⟨-, -, heq⟩
  · -- the job was there: nothing is sent
    rw [heq, hrx] at hcount
    exact absurd hcount (lt_irrefl _)
  · -- all entries were placed: no denial is sent
    rw [heq] at hcount
    rcases enviados_insertJob _ requests _ with hend | hend
    · rw [hend, hlog, hrx, List.count_append, hres.count_jobDenied] at hcount
      exact absurd hcount (lt_irrefl _)
    · rw [hend, hlog, hrx, List.count_append, List.count_append, hres.count_jobDenied,
        List.count_singleton, beq_false_of_ne (by simp)] at hcount
      exact absurd hcount (lt_irrefl _)
  · obtain ⟨hstate, hend⟩ := rollbackJob_eq hloop (fun t => (hrango t).2) hespera
    rw [heq]
    refine ⟨⟨reservas, ?_, hres⟩, hstate⟩
    rw [hend, hlog, hrx]

/-- A node with one unit of cpu free and a request for two in its queue. -/
def unaLibre : Manager :=
  handle 5 [] (.reserve 2 .cpu 2) (handle 5 [] (.reserve 1 .cpu 3)
    (managerInit 4 1024 0 ['h']))

/-- One unit is granted, one has to wait, and the third host is not known. -/
theorem jobRequest_denied_unaLibre :
    processMessage 9 "JOB_REQUEST 7 @h:cpu:1 @h:cpu:1 @i:mem:1".toList [] unaLibre
      = { unaLibre with
          log := (processMessage 9 "JOB_REQUEST 7 @h:cpu:1 @h:cpu:1 @i:mem:1".toList []
            unaLibre).log } := by
  have hparse : parseMessage "JOB_REQUEST 7 @h:cpu:1 @h:cpu:1 @i:mem:1".toList
      = some (.jobRequest 7 [⟨['h'], .cpu, 1⟩, ⟨['h'], .cpu, 1⟩, ⟨['i'], .mem, 1⟩]) := by decide
  exact (jobRequest_denied hparse (fun t => by cases t <;> decide)
    (fun t => by cases t <;> decide) (fun t => by cases t <;> decide) ⟨9, 7, by decide⟩).2

end Hpc
