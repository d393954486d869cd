import HpcAgent.Answers

/-!
# The agent in small steps

A handler works on the state and, on the way, on jobs that are not in the
table: the one a `JOB_REQUEST` is building, those a lost job's allocations are
being taken from. `Obra` is such a job with what is left to do on it, and
`Paso` a small step on a state and the jobs in hand. Every call of the network
layer is a sequence of small steps that starts and ends with no job in hand
(`Call.pasos`), so an invariant of the small steps is an invariant of runs
(`pasos_of_reaches`), and its proof has one case per constructor and no loops.

The guard `G` restricts what arrives from outside, in the state it arrives in:
messages, lost connections and connections that come up.
-/

namespace Hpc

/-- Work in hand. -/
inductive Obra
  /-- A job being built from the requests; those of `next` are still to be
  placed. -/
  | nueva (requests next : List ResourceRequest) (job : Job)
  /-- A job being taken apart; its `confirmadas` are those still to be freed. -/
  | muerta (job : Job)
  /-- The queue of a resource being served. -/
  | sirviendo (tipo : Resource)
  /-- The rest of the handler. -/
  | llamada

/-- The job in hand, if the work is on one. -/
def Obra.job? : Obra → Option Job
  | .nueva _ _ job | .muerta job => some job
  | .sirviendo _ | .llamada => none

/-- The ids of the jobs in hand. -/
def EnMano (w : List Obra) (i : Int32) : Prop :=
  ∃ o ∈ w, ∃ job, o.job? = some job ∧ job.jobId = i

@[simp] theorem enMano_nil : EnMano [] = fun _ => False := by
  funext i
  exact eq_false (fun ⟨_, ho, _⟩ => List.not_mem_nil ho)

theorem enMano_of_job {o : Obra} {job : Job} (ho : o.job? = some job) (w : List Obra)
    (i : Int32) : EnMano (o :: w) i ↔ job.jobId = i ∨ EnMano w i := by
  unfold EnMano
  simp [ho]

@[simp] theorem enMano_sirviendo (t : Resource) (w : List Obra) :
    EnMano (.sirviendo t :: w) = EnMano w := by
  funext i
  unfold EnMano
  simp [Obra.job?]

@[simp] theorem enMano_llamada (w : List Obra) : EnMano (.llamada :: w) = EnMano w := by
  funext i
  unfold EnMano
  simp [Obra.job?]

/-- Freeing an allocation of a job in hand leaves it in hand. -/
theorem enMano_muerta (job : Job) (rest : List Allocation) (w : List Obra) :
    EnMano (.muerta { job with confirmadas := rest } :: w) = EnMano (.muerta job :: w) := by
  funext i
  rw [eq_iff_iff, enMano_of_job rfl, enMano_of_job rfl]

/-- The guard of `release_resource`. -/
def Manager.accepts (s : Manager) (tipo : Resource) (amount : Int32) : Prop :=
  0 ≤ amount ∧ s.available tipo + amount ≤ s.total tipo

/-- The loop of `release_resource` stops: the queue is empty, or its top does
not fit. -/
def Manager.Stopped (s : Manager) (tipo : Resource) : Prop :=
  ∀ top rest, s.cola tipo = top :: rest → ¬top.amount ≤ s.available tipo

/-- The lines that start with nothing but the note that they arrived. -/
def Message.plain : Message → Bool
  | .reserve .. => false
  | .granted _ => false
  | .release _ _ amount => amount = 0
  | _ => true

/-- What the agent tells its planner besides `JOB_GRANTED`. -/
def Message.notice : Message → Bool
  | .jobDenied _ | .nodes _ | .jobStatusIs .. => true
  | _ => false

/-- No queue has an entry of that id. -/
def Manager.Purged (s : Manager) (jobId : Int32) : Prop :=
  ∀ t, ∀ p ∈ s.cola t, p.jobId ≠ jobId

theorem purged_limpiarColasPorId (jobId : Int32) (s : Manager) :
    (limpiarColasPorId jobId s).Purged jobId := by
  intro t p hp
  simpa using (List.mem_filter.mp hp).2

theorem Manager.Purged.releaseResource {s : Manager} {jobId : Int32} (h : s.Purged jobId)
    (tipo : Resource) (amount : Int32) : (releaseResource tipo amount s).Purged jobId := by
  rw [releaseResource_eq]
  split
  · refine serveQueue_invariant (P := fun s => s.Purged jobId) ?_ _ _ (fun t p hp => ?_)
    · intro s top rest hc _ hs t p hp
      rw [dequeueTop_eq, cola_answerTop, markTop, Manager.cola_setTabla,
        cola_popTop s t tipo hc] at hp
      split at hp
      · exact hs tipo p (hc ▸ List.mem_cons_of_mem _ hp)
      · exact hs t p hp
    · rw [cola_giveUnits] at hp
      exact h t p hp
  · exact h

theorem Manager.Purged.freeAllocations {s : Manager} {jobId : Int32} (h : s.Purged jobId)
    (id : Int32) (l : List Allocation) : (freeAllocations id l s).Purged jobId := by
  induction l generalizing s with
  | nil => exact h
  | cons a l ih =>
    refine ih ?_
    show (freeAllocation id a s).Purged jobId
    unfold freeAllocation
    split
    · exact Manager.Purged.releaseResource (s := s.emit _) h _ _
    · split
      · split <;> exact h
      · exact h

/-- What may arrive; unless said otherwise a line's job id is not negative, since
most negative ids have no bucket in the table. -/
structure Guardia where
  /-- a line, on a connection -/
  message : Manager → Conn → Message → Prop
  /-- the job ids of the lines -/
  ids : Int32 → Prop := fun i => 0 ≤ i
  carries : ∀ {s conn m}, message s conn m → ∀ i ∈ m.jobId?, ids i
  /-- the loss of a connection, by the job table it meets -/
  lost : TablaJobs → Conn → Prop
  /-- a connection that comes up -/
  ready : Manager → Conn → Prop

/-- The table has no job of that id, or its job is being taken apart. -/
def Ausente (s : Manager) (w : List Obra) (jobId : Int32) : Prop :=
  (w = [.llamada] ∧ tablaJobsBuscarPorId s.tabla jobId = none) ∨ ∃ job, .muerta job ∈ w
    ∧ (jobId = job.jobId ∨ ∃ a ∈ job.confirmadas, jobId = a.jobId)

/-- A job in hand is not in the table. -/
theorem Ausente.muerta (s : Manager) (job : Job) (w : List Obra) :
    Ausente s (.muerta job :: w) job.jobId :=
  Or.inr ⟨job, List.mem_cons_self, Or.inl rfl⟩

/-- **A small step.** -/
inductive Paso (G : Guardia) :
    Manager × List Obra → Manager × List Obra → Prop
  /-- a line arrives -/
  | mensaje {s} (conn : Conn) (m : Message) (hG : G.message s conn m)
    (hm : m.plain = true) : Paso G (s, []) (s.emit (.rx conn m), [.llamada])
  /-- the handler is done -/
  | cerrar {s} : Paso G (s, [.llamada]) (s, [])
  /-- a `RESERVE` is granted, queued or denied -/
  | reserve {s} (conn : Conn) (jobId : Int32) (type : Resource) (amount : Int32)
    (hG : G.message s conn (.reserve jobId type amount)) :
    Paso G (s, [])
      (processReserve conn jobId type amount (s.emit (.rx conn (.reserve jobId type amount))),
        [])
  /-- the units of a `RELEASE` come back -/
  | returned {s} (conn : Conn) (jobId : Int32) (type : Resource) (amount : Int32)
    (hG : G.message s conn (.release jobId type amount)) (hne : amount ≠ 0)
    (haccepts : s.accepts type amount) :
    Paso G (s, [])
      (giveUnits type amount ((s.emit (.rx conn (.release jobId type amount))).emit
        (.returned type jobId amount)), [.sirviendo type, .llamada])
  /-- the units of a `RELEASE` are refused -/
  | refused {s} (conn : Conn) (jobId : Int32) (type : Resource) (amount : Int32)
    (hG : G.message s conn (.release jobId type amount)) (hne : amount ≠ 0)
    (haccepts : ¬s.accepts type amount) :
    Paso G (s, [])
      ((s.emit (.rx conn (.release jobId type amount))).emit (.returned type jobId amount),
        [.llamada])
  /-- a `GRANTED` is recorded -/
  | granted {s} (conn : Conn) (jobId : Int32) (hG : G.message s conn (.granted jobId)) :
    Paso G (s, []) (processGranted conn jobId (s.emit (.rx conn (.granted jobId))), [])
  /-- the request at the top of a queue fits -/
  | dequeue {s w} (tipo : Resource) (top : PendingRequest) (rest : List PendingRequest)
    (hc : s.cola tipo = top :: rest) (hfits : top.amount ≤ s.available tipo) :
    Paso G (s, .sirviendo tipo :: w) (dequeueTop tipo top s, .sirviendo tipo :: w)
  /-- no request at the top fits any more -/
  | parar {s w} (tipo : Resource) (hstop : s.Stopped tipo) :
    Paso G (s, .sirviendo tipo :: w) (s, w)
  /-- the entries of a job that is not in the table are dropped -/
  | purgeId {s w} (jobId : Int32) (hid : Ausente s w jobId) :
    Paso G (s, w) (limpiarColasPorId jobId s, w)
  | purgeConn {s} (conn : Conn) (hG : G.lost s.tabla conn) :
    Paso G (s, []) (limpiarColasPorConn conn s, [])
  /-- a job is taken out of the table -/
  | extract {s} (jobId : Int32) (job : Job) (hids : G.ids jobId)
    (hfind : tablaJobsBuscarPorId s.tabla jobId = some job) :
    Paso G (s, [.llamada])
      (s.setTabla (tablaJobsExtractById s.tabla jobId).2, [.muerta job, .llamada])
  /-- the jobs of a lost connection are taken out of the table -/
  | lose {s} (conn : Conn) (hG : G.lost s.tabla conn) :
    Paso G (s, []) (s.setTabla (tablaJobsExtractByRemoteConn s.tabla conn).2,
      (tablaJobsExtractByRemoteConn s.tabla conn).1.map .muerta ++ [.llamada])
  /-- units of this node are given back -/
  | soltar {s w} (job : Job) (a : Allocation) (rest : List Allocation)
    (hjob : job.confirmadas = a :: rest) (hheld : a.held = true)
    (haccepts : s.accepts a.name a.amount) :
    Paso G (s, .muerta job :: w)
      (giveUnits a.name a.amount (s.emit (.giveBack a.name a.request)),
        .sirviendo a.name :: .muerta { job with confirmadas := rest } :: w)
  /-- units of this node are refused -/
  | perder {s w} (job : Job) (a : Allocation) (rest : List Allocation)
    (hjob : job.confirmadas = a :: rest) (hheld : a.held = true)
    (haccepts : ¬s.accepts a.name a.amount) :
    Paso G (s, .muerta job :: w)
      (s.emit (.giveBack a.name a.request), .muerta { job with confirmadas := rest } :: w)
  /-- another node is told that its units are free -/
  | avisar {s w} (job : Job) (a : Allocation) (rest : List Allocation) (jobId : Int32)
    (conn : Conn) (hjob : job.confirmadas = a :: rest) (hremote : a.type = .remoteAlloc)
    (hid : jobId = job.jobId ∨ jobId = a.jobId)
    (hconn : conn = a.conn ∨ tablaConnsLookup s.conns a.ip = some conn) :
    Paso G (s, .muerta job :: w)
      (sendMessage conn (.release jobId a.name a.amount) s,
        .muerta { job with confirmadas := rest } :: w)
  /-- an allocation that holds nothing here is freed, and nobody is told: it was
  waiting, or there is no connection to its node -/
  | olvidar {s w} (job : Job) (a : Allocation) (rest : List Allocation)
    (hjob : job.confirmadas = a :: rest) (hheld : a.held = false)
    (hremote : a.type = .remoteAlloc → tablaConnsLookup s.conns a.ip = none) :
    Paso G (s, .muerta job :: w) (s, .muerta { job with confirmadas := rest } :: w)
  /-- a job without allocations, and without entries in the queues, is freed -/
  | descartar {s w} (job : Job) (hjob : job.confirmadas = []) (hpurged : s.Purged job.jobId) :
    Paso G (s, .muerta job :: w) (s, w)
  /-- a `JOB_REQUEST` with a new id starts a job -/
  | nuevo {s} (conn : Conn) (jobId : Int32) (requests : List ResourceRequest)
    (hG : G.message s conn (.jobRequest jobId requests))
    (hnew : tablaJobsBuscarPorId s.tabla jobId = none) :
    Paso G (s, []) (s.emit (.rx conn (.jobRequest jobId requests)),
      [.nueva requests requests ⟨jobId, conn, [], []⟩])
  | localGranted {s} (requests next : List ResourceRequest) (head : ResourceRequest)
    (job : Job) (hip : head.ip = s.ip) (hfits : head.amount ≤ s.available head.type) :
    Paso G (s, [.nueva requests (head :: next) job])
      (takeUnits head.type (head.pending job) s,
        [.nueva requests next (job.addLocal head s.ip .granted)])
  | localQueued {s} (requests next : List ResourceRequest) (head : ResourceRequest)
    (job : Job) (hip : head.ip = s.ip) (hfits : ¬head.amount ≤ s.available head.type)
    (htotal : ¬s.total head.type < head.amount) :
    Paso G (s, [.nueva requests (head :: next) job])
      (enqueue head.type (head.pending job) s,
        [.nueva requests next (job.addLocal head s.ip .queued)])
  | remoteSent {s} (requests next : List ResourceRequest) (head : ResourceRequest)
    (job : Job) (remote : Conn) (hip : head.ip ≠ s.ip)
    (hlookup : tablaConnsLookup s.conns head.ip = some remote) :
    Paso G (s, [.nueva requests (head :: next) job])
      (sendMessage remote (head.reserve job.jobId) s,
        [.nueva requests next (job.addRemote head remote none)])
  | remoteConnecting {s} (requests next : List ResourceRequest) (head : ResourceRequest)
    (job : Job) (conn : Conn) (hip : head.ip ≠ s.ip)
    (hlookup : tablaConnsLookup s.conns head.ip = none) :
    Paso G (s, [.nueva requests (head :: next) job])
      (s.emit (.connecting head.ip conn),
        [.nueva requests next (job.addRemote head conn (some (head.reserve job.jobId)))])
  /-- all entries are placed -/
  | insertar {s} (requests : List ResourceRequest) (job : Job) :
    Paso G (s, [.nueva requests [] job]) (insertJob job requests s, [])
  /-- an entry cannot be placed -/
  | abandonar {s} (requests next : List ResourceRequest) (job : Job) :
    Paso G (s, [.nueva requests next job]) (s, [.muerta job, .llamada])
  | decir {s w} (conn : Conn) (m : Message) (hm : m.notice = true) :
    Paso G (s, w) (sendMessage conn m s, w)
  | listo {s} (conn : Conn) (hG : G.ready s conn) :
    Paso G (s, []) (processConnectionReady conn s, [])
  | conexiones {s} (conn : Conn) (hG : ∃ t, G.lost t conn) :
    Paso G (s, []) ({ s with conns := tablaConnsDeleteByConn s.conns conn }, [])
  | nodos {s} (nodos : TablaNodos) : Paso G (s, []) ({ s with nodos := nodos }, [])

/-- A guard that allows less allows fewer steps. -/
theorem Paso.mono {G H : Guardia} (hmessage : ∀ s conn m, G.message s conn m → H.message s conn m)
    (hids : ∀ i, G.ids i → H.ids i) (hlost : ∀ t conn, G.lost t conn → H.lost t conn)
    (hready : ∀ s conn, G.ready s conn → H.ready s conn) {c d : Manager × List Obra}
    (h : Paso G c d) : Paso H c d := by
  cases h with
  | mensaje conn m hG hm => exact .mensaje conn m (hmessage _ _ _ hG) hm
  | cerrar => exact .cerrar
  | reserve conn jobId type amount hG => exact .reserve conn jobId type amount (hmessage _ _ _ hG)
  | returned conn jobId type amount hG hne hacc =>
    exact .returned conn jobId type amount (hmessage _ _ _ hG) hne hacc
  | refused conn jobId type amount hG hne hacc =>
    exact .refused conn jobId type amount (hmessage _ _ _ hG) hne hacc
  | granted conn jobId hG => exact .granted conn jobId (hmessage _ _ _ hG)
  | dequeue tipo top rest hc hfits => exact .dequeue tipo top rest hc hfits
  | parar tipo hstop => exact .parar tipo hstop
  | purgeId jobId hid => exact .purgeId jobId hid
  | purgeConn conn hG => exact .purgeConn conn (hlost _ _ hG)
  | extract jobId job hG hfind => exact .extract jobId job (hids _ hG) hfind
  | lose conn hG => exact .lose conn (hlost _ _ hG)
  | soltar job a rest hjob hheld hacc => exact .soltar job a rest hjob hheld hacc
  | perder job a rest hjob hheld hacc => exact .perder job a rest hjob hheld hacc
  | avisar job a rest jobId conn hjob hremote hid hconn =>
    exact .avisar job a rest jobId conn hjob hremote hid hconn
  | olvidar job a rest hjob hheld hremote => exact .olvidar job a rest hjob hheld hremote
  | descartar job hjob hpurged => exact .descartar job hjob hpurged
  | nuevo conn jobId requests hG hnew =>
    exact .nuevo conn jobId requests (hmessage _ _ _ hG) hnew
  | localGranted requests next head job hip hfits =>
    exact .localGranted requests next head job hip hfits
  | localQueued requests next head job hip hfits htotal =>
    exact .localQueued requests next head job hip hfits htotal
  | remoteSent requests next head job remote hip hlookup =>
    exact .remoteSent requests next head job remote hip hlookup
  | remoteConnecting requests next head job conn hip hlookup =>
    exact .remoteConnecting requests next head job conn hip hlookup
  | insertar requests job => exact .insertar requests job
  | abandonar requests next job => exact .abandonar requests next job
  | decir conn m hm => exact .decir conn m hm
  | listo conn hG => exact .listo conn (hready _ _ hG)
  | conexiones conn hG => exact .conexiones conn (hG.imp (fun t ht => hlost t conn ht))
  | nodos nodos => exact .nodos nodos

/-- Small steps, one after the other. -/
abbrev Pasos (G : Guardia) :
    Manager × List Obra → Manager × List Obra → Prop :=
  Relation.ReflTransGen (Paso G)

namespace Pasos

variable {G : Guardia} {s : Manager} {w : List Obra}

/-- Serving a queue is a sequence of small steps that ends when the top does
not fit. -/
theorem serveQueue (tipo : Resource) {n : ℕ} {s : Manager} (hn : (s.cola tipo).length ≤ n) :
    Pasos G (s, .sirviendo tipo :: w) (serveQueue tipo n s, w) := by
  induction n generalizing s with
  | zero =>
    refine .single (.parar tipo (fun top rest hc => ?_))
    rw [hc] at hn
    exact absurd hn (Nat.not_succ_le_zero _)
  | succ n ih =>
    rw [Hpc.serveQueue]
    cases hc : s.cola tipo with
    | nil => exact .single (.parar tipo (fun top rest h => by rw [hc] at h; cases h))
    | cons top rest =>
      dsimp only
      split
      · next hfits =>
        refine .head (.dequeue tipo top rest hc hfits) (ih ?_)
        rw [dequeueTop_eq, cola_answerTop, markTop, Manager.cola_setTabla,
          cola_popTop s tipo tipo hc, if_pos rfl]
        rw [hc] at hn
        exact Nat.le_of_succ_le_succ hn
      · next hfits =>
        refine .single (.parar tipo (fun top' rest' h => ?_))
        rw [hc] at h
        obtain ⟨rfl, rfl⟩ := List.cons.inj h
        exact hfits

/-- A release that is accepted is the units put back, then the queue served. -/
theorem releaseResource_of_accepts {tipo : Resource} {amount : Int32} {s : Manager}
    (h : s.accepts tipo amount) :
    Pasos G (giveUnits tipo amount s, .sirviendo tipo :: w)
      (releaseResource tipo amount s, w) := by
  rw [releaseResource_eq, if_pos ⟨h.1, h.2⟩]
  exact serveQueue tipo (by rw [cola_giveUnits])

theorem releaseResource_of_not_accepts {tipo : Resource} {amount : Int32} {s : Manager}
    (h : ¬s.accepts tipo amount) : releaseResource tipo amount s = s :=
  if_neg h

/-- Units of this node given back. -/
theorem releaseHeld {job : Job} {a : Allocation} {rest : List Allocation}
    (hjob : job.confirmadas = a :: rest) (hheld : a.held = true) :
    Pasos G (s, .muerta job :: w)
      (releaseHeld a s, .muerta { job with confirmadas := rest } :: w) := by
  unfold Hpc.releaseHeld
  by_cases haccepts : s.accepts a.name a.amount
  · exact (Relation.ReflTransGen.single (.soltar job a rest hjob hheld haccepts)).trans
      (releaseResource_of_accepts haccepts)
  · rw [releaseResource_of_not_accepts (s := s.emit _) haccepts]
    exact .single (.perder job a rest hjob hheld haccepts)

/-- One allocation of a dead job freed. -/
theorem freeAllocation {job : Job} {a : Allocation} {rest : List Allocation}
    (hjob : job.confirmadas = a :: rest) :
    Pasos G (s, .muerta job :: w)
      (freeAllocation job.jobId a s, .muerta { job with confirmadas := rest } :: w) := by
  unfold Hpc.freeAllocation
  split
  · next hheld =>
    exact releaseHeld hjob hheld
  · next hheld =>
    have hheld : a.held = false := by simpa using hheld
    split
    · next hremote =>
      cases hlookup : tablaConnsLookup s.conns a.ip with
      | some remote =>
        exact .single (.avisar job a rest job.jobId remote hjob hremote (Or.inl rfl)
          (Or.inr hlookup))
      | none => exact .single (.olvidar job a rest hjob hheld (fun _ => hlookup))
    · next hlocal =>
      exact .single (.olvidar job a rest hjob hheld (fun h => absurd h hlocal))

/-- A loop that frees the allocations of a dead job one by one. -/
theorem foldl_allocations (job : Job) {f : Manager → Allocation → Manager}
    (round : ∀ s a rest, Pasos G (s, .muerta { job with confirmadas := a :: rest } :: w)
      (f s a, .muerta { job with confirmadas := rest } :: w))
    (l : List Allocation) (s : Manager) :
    Pasos G (s, .muerta { job with confirmadas := l } :: w)
      (l.foldl f s, .muerta { job with confirmadas := [] } :: w) := by
  induction l generalizing s with
  | nil => exact .refl
  | cons a l ih => exact (round s a l).trans (ih (f s a))

theorem freeAllocations (job : Job) (s : Manager) :
    Pasos G (s, .muerta job :: w)
      (freeAllocations job.jobId job.confirmadas s,
        .muerta { job with confirmadas := [] } :: w) :=
  foldl_allocations job (fun _ _ _ => freeAllocation rfl) job.confirmadas s

/-- A dead job whose entries are purged first. -/
theorem freeJob (job : Job) (s : Manager) :
    Pasos G (s, .muerta job :: w)
      (Hpc.freeAllocations job.jobId job.confirmadas (limpiarColasPorId job.jobId s), w) :=
  ((Relation.ReflTransGen.single (.purgeId job.jobId (.muerta s job w))).trans
    (freeAllocations job _)).tail
      (.descartar _ rfl ((purged_limpiarColasPorId _ _).freeAllocations _ _))

theorem jobReleaseAllocation {job : Job} {a : Allocation} {rest : List Allocation}
    (hjob : job.confirmadas = a :: rest) :
    Pasos G (s, .muerta job :: w)
      (jobReleaseAllocation a s, .muerta { job with confirmadas := rest } :: w) := by
  unfold Hpc.jobReleaseAllocation
  by_cases hheld : a.held = true
  · have hlocal : a.type ≠ .remoteAlloc := by
      have h : a.type = .localAlloc := eq_of_beq (Bool.and_elim_left hheld)
      rw [h]
      exact AllocType.noConfusion
    rw [if_pos hheld, if_neg hlocal]
    exact releaseHeld hjob hheld
  · rw [if_neg hheld]
    have hausente : Ausente s (.muerta job :: w) a.jobId :=
      Or.inr ⟨job, List.mem_cons_self, Or.inr ⟨a, hjob ▸ List.mem_cons_self, rfl⟩⟩
    refine (Relation.ReflTransGen.single (.purgeId a.jobId hausente)).trans ?_
    dsimp only
    split
    · next hremote =>
      exact .single (.avisar job a rest a.jobId a.conn hjob hremote (Or.inr rfl)
        (Or.inl rfl))
    · next hlocal =>
      exact .single (.olvidar job a rest hjob (by simpa using hheld)
        (fun h => absurd h hlocal))

theorem jobReleaseAllocations (job : Job) (s : Manager) :
    Pasos G (s, .muerta job :: w)
      (job.confirmadas.foldl (fun s a => Hpc.jobReleaseAllocation a s) s,
        .muerta { job with confirmadas := [] } :: w) :=
  foldl_allocations job (fun _ _ _ => jobReleaseAllocation rfl) job.confirmadas s

/-- A job ended by its id; the purge that follows lets go of it. `said` is what
is said in between. -/
theorem tablaJobsRemove {jobId : Int32} (hids : G.ids jobId) (s : Manager)
    (said : List (Conn × Message)) (hsaid : ∀ cm ∈ said, cm.2.notice = true) :
    Pasos G (s, [.llamada]) (limpiarColasPorId jobId
      (said.foldl (fun s cm => sendMessage cm.1 cm.2 s) (tablaJobsRemove jobId s)),
        [.llamada]) := by
  have hsay : ∀ (u : Manager) (w' : List Obra), Pasos G (u, w')
      (said.foldl (fun s cm => sendMessage cm.1 cm.2 s) u, w') := by
    intro u w'
    induction said generalizing u with
    | nil => exact .refl
    | cons cm said ih =>
      exact .head (.decir cm.1 cm.2 (hsaid cm List.mem_cons_self))
        (ih (fun c hc => hsaid c (List.mem_cons_of_mem _ hc)) _)
  cases hfind : tablaJobsBuscarPorId s.tabla jobId with
  | none =>
    rw [tablaJobsRemove_of_none hfind]
    have htabla : ∀ u : Manager,
        (said.foldl (fun s cm => sendMessage cm.1 cm.2 s) u).tabla = u.tabla := by
      intro u
      clear hsaid hsay
      induction said generalizing u with
      | nil => rfl
      | cons cm said ih => exact ih (sendMessage cm.1 cm.2 u)
    exact (hsay s [.llamada]).tail (.purgeId jobId (Or.inl ⟨rfl, by rw [htabla, hfind]⟩))
  | some job =>
    have hid : job.jobId = jobId := eq_of_beq
      (List.find?_some (p := fun j : Job => j.jobId == jobId) hfind)
    subst hid
    rw [tablaJobsRemove_of_some hfind]
    exact ((((Relation.ReflTransGen.single (.extract job.jobId job hids hfind)).trans
      (freeAllocations job _)).trans (hsay _ _)).tail (.purgeId job.jobId (.muerta ..))).tail
        (.descartar _ rfl (purged_limpiarColasPorId _ _))

theorem freeJobs (lista : List Job) (s : Manager) :
    Pasos G (s, lista.map .muerta ++ w) (freeJobs lista s, w) := by
  induction lista generalizing s with
  | nil => exact .refl
  | cons job lista ih => exact (freeJob job s).trans (ih _)

theorem dropJobs {conn : Conn} (hG : G.lost s.tabla conn) :
    Pasos G (s, []) (dropJobs conn s, []) :=
  ((Relation.ReflTransGen.single (.lose conn hG)).trans (freeJobs _ _)).tail .cerrar

/-- The loop over the entries of a `JOB_REQUEST`. -/
theorem requestLoop (requests next : List ResourceRequest) (red : Network) (job : Job)
    (s : Manager) :
    ∃ next', ((requestLoop next red job s).1 = true → next' = [])
      ∧ Pasos G (s, [.nueva requests next job])
        ((Hpc.requestLoop next red job s).2.2,
          [.nueva requests next' (Hpc.requestLoop next red job s).2.1]) := by
  induction next generalizing red job s with
  | nil => exact ⟨[], fun _ => rfl, .refl⟩
  | cons head next ih =>
    rw [Hpc.requestLoop]
    by_cases hip : head.ip = s.ip
    · rw [if_pos hip]
      rcases requestLocal_cases head job s with
        ⟨hfits, heq⟩ | ⟨hfits, htotal, heq⟩ | ⟨-, heq⟩
      · rw [heq]
        obtain ⟨next', hnext, hpasos⟩ := ih red (job.addLocal head s.ip .granted)
          (takeUnits head.type (head.pending job) s)
        exact ⟨next', hnext,
          .head (.localGranted requests next head job hip hfits) hpasos⟩
      · rw [heq]
        obtain ⟨next', hnext, hpasos⟩ := ih red (job.addLocal head s.ip .queued)
          (enqueue head.type (head.pending job) s)
        exact ⟨next', hnext,
          .head (.localQueued requests next head job hip hfits htotal) hpasos⟩
      · rw [heq]
        exact ⟨head :: next, fun h => absurd h Bool.false_ne_true, .refl⟩
    · rw [if_neg hip]
      rcases requestRemote_cases head red job s with
        ⟨remote, hlookup, heq⟩ | ⟨conn, red', hlookup, -, -, heq⟩ | ⟨red', -, heq⟩
      · rw [heq]
        obtain ⟨next', hnext, hpasos⟩ := ih red (job.addRemote head remote none)
          (sendMessage remote (head.reserve job.jobId) s)
        exact ⟨next', hnext,
          .head (.remoteSent requests next head job remote hip hlookup) hpasos⟩
      · rw [heq]
        obtain ⟨next', hnext, hpasos⟩ := ih red'
          (job.addRemote head conn (some (head.reserve job.jobId)))
          (s.emit (.connecting head.ip conn))
        exact ⟨next', hnext,
          .head (.remoteConnecting requests next head job conn hip hlookup) hpasos⟩
      · rw [heq]
        exact ⟨head :: next, fun h => absurd h Bool.false_ne_true, .refl⟩

theorem rollbackJob (job : Job) (s : Manager) :
    Pasos G (s, .muerta job :: w) (rollbackJob job s, w) :=
  (freeJob job s).tail (.decir job.conn _ rfl)

theorem processJobRequest (conn : Conn) (jobId : Int32) (requests : List ResourceRequest)
    (red : Network) (hG : G.message s conn (.jobRequest jobId requests)) :
    Pasos G (s, [])
      (processJobRequest conn jobId requests red
        (s.emit (.rx conn (.jobRequest jobId requests))), []) := by
  have hstart : tablaJobsBuscarPorId s.tabla jobId = none →
      Pasos G (s, []) (s.emit (.rx conn (.jobRequest jobId requests)),
        [.nueva requests requests ⟨jobId, conn, [], []⟩]) :=
    fun hnew => .single (.nuevo conn jobId requests hG hnew)
  obtain ⟨next', hnext, hloop⟩ := requestLoop (G := G) requests requests red
    ⟨jobId, conn, [], []⟩ (s.emit (.rx conn (.jobRequest jobId requests)))
  rcases processJobRequest_cases conn jobId requests red
      (s.emit (.rx conn (.jobRequest jobId requests))) with
    ⟨job, -, heq⟩ | ⟨hnew, hend, heq⟩ | ⟨hnew, -, heq⟩
  · rw [heq]
    exact (Relation.ReflTransGen.single (.mensaje conn _ hG rfl)).tail .cerrar
  · rw [heq]
    rw [hnext hend] at hloop
    exact ((hstart hnew).trans hloop).tail (.insertar _ _)
  · rw [heq]
    exact ((((hstart hnew).trans hloop).tail (.abandonar _ _ _)).trans
      (rollbackJob _ _)).tail .cerrar

theorem processRelease (conn : Conn) (jobId : Int32) (type : Resource) (amount : Int32)
    (hG : G.message s conn (.release jobId type amount)) :
    Pasos G (s, [])
      (processRelease jobId type amount
        (s.emit (.rx conn (.release jobId type amount))), []) := by
  unfold Hpc.processRelease
  have hfirst : Pasos G (s, []) (if amount ≠ 0 then
        Hpc.releaseResource type amount
          ((s.emit (.rx conn (.release jobId type amount))).emit
            (.returned type jobId amount))
      else s.emit (.rx conn (.release jobId type amount)), [.llamada]) := by
    split
    · next hne =>
      by_cases haccepts : s.accepts type amount
      · exact (Relation.ReflTransGen.single
          (.returned conn jobId type amount hG hne haccepts)).trans
            (releaseResource_of_accepts haccepts)
      · rw [releaseResource_of_not_accepts (s := (s.emit _).emit _) haccepts]
        exact .single (.refused conn jobId type amount hG hne haccepts)
    · next hzero =>
      refine .single (.mensaje conn _ hG ?_)
      simpa [Message.plain] using hzero
  exact (hfirst.trans (tablaJobsRemove (G.carries hG _ rfl) _ []
    (fun _ h => absurd h List.not_mem_nil))).tail .cerrar

theorem processJobRelease {jobId : Int32} (hids : G.ids jobId) (s : Manager) :
    Pasos G (s, [.llamada]) (processJobRelease jobId s, [.llamada]) := by
  cases hfind : tablaJobsBuscarPorId s.tabla jobId with
  | none =>
    rw [processJobRelease_of_none hfind]
  | some job =>
    have hid : job.jobId = jobId := eq_of_beq
      (List.find?_some (p := fun j : Job => j.jobId == jobId) hfind)
    subst hid
    rw [processJobRelease_of_some hfind]
    exact (((Relation.ReflTransGen.single (.extract job.jobId job hids hfind)).trans
      (jobReleaseAllocations job _)).tail (.purgeId job.jobId (.muerta ..))).tail
        (.descartar _ rfl (purged_limpiarColasPorId _ _))

theorem processDenied {jobId : Int32} (hids : G.ids jobId) (s : Manager) :
    Pasos G (s, [.llamada]) (processDenied jobId s, [.llamada]) := by
  unfold Hpc.processDenied
  split
  · next hnone => exact .single (.purgeId jobId (Or.inl ⟨rfl, Option.map_eq_none_iff.mp hnone⟩))
  · next owner _ =>
    refine tablaJobsRemove hids s [(owner, .jobDenied jobId)] (fun cm hcm => ?_)
    rw [List.mem_singleton.mp hcm]
    rfl

/-- A handler that starts with the note that its line arrived. -/
theorem of_plain {conn : Conn} {m : Message} {s' : Manager} (hG : G.message s conn m)
    (hm : m.plain = true) (h : Pasos G (s.emit (.rx conn m), [.llamada]) (s', [.llamada])) :
    Pasos G (s, []) (s', []) :=
  (Relation.ReflTransGen.head (.mensaje conn m hG hm) h).tail .cerrar

/-- **A message is handled in small steps.** -/
theorem handle (conn : Conn) (red : Network) (m : Message) (hG : G.message s conn m) :
    Pasos G (s, []) (handle conn red m (s.emit (.rx conn m)), []) := by
  cases m with
  | reserve jobId type amount => exact .single (.reserve conn jobId type amount hG)
  | release jobId type amount => exact processRelease conn jobId type amount hG
  | granted jobId => exact .single (.granted conn jobId hG)
  | denied jobId => exact of_plain hG rfl (processDenied (G.carries hG _ rfl) _)
  | jobRequest jobId requests => exact processJobRequest conn jobId requests red hG
  | jobRelease jobId => exact of_plain hG rfl (processJobRelease (G.carries hG _ rfl) _)
  | jobTimeout jobId =>
    exact of_plain hG rfl (tablaJobsRemove (G.carries hG _ rfl) _ []
      (fun _ h => absurd h List.not_mem_nil))
  | getNodes => exact of_plain hG rfl (.single (.decir _ _ rfl))
  | jobStatus jobId => exact of_plain hG rfl (.single (.decir _ _ rfl))
  | jobGranted jobId => exact of_plain hG rfl .refl
  | jobDenied jobId => exact of_plain hG rfl .refl
  | jobStatusIs jobId active => exact of_plain hG rfl .refl
  | nodes line => exact of_plain hG rfl .refl
  | garbage => exact of_plain hG rfl .refl

end Pasos

/-- The guard on a call. -/
def Guardia.allows (G : Guardia) (s : Manager) : Call → Prop
  | .message conn msg _ => ∀ m, parseMessage msg = some m → G.message s conn m
  | .ready conn => G.ready s conn
  | .failed conn | .disconnect conn => G.lost s.tabla conn
  | .announce .. | .purge .. => True

/-- What is parsed of a `JOB_REQUEST` asks for something. -/
def Guardia.positiva (G : Guardia) : Guardia where
  message s conn m := G.message s conn m
    ∧ ∀ i requests, m = .jobRequest i requests → ∀ r ∈ requests, 0 < r.amount
  ids := G.ids
  carries h := G.carries h.1
  lost := G.lost
  ready := G.ready

theorem Guardia.allows_positiva {G : Guardia} {s : Manager} {call : Call}
    (hG : G.allows s call) : G.positiva.allows s call := by
  cases call with
  | message conn msg red =>
    exact fun m hparse => ⟨hG m hparse, fun i requests hm => requests_pos (hm ▸ hparse)⟩
  | ready conn => exact hG
  | failed conn => exact hG
  | disconnect conn => exact hG
  | announce now ipSender msg => exact hG
  | purge now timeout => exact hG

/-- **Every call is a sequence of small steps**, with no job in hand at its
ends. -/
theorem Call.pasos {G : Guardia} {s : Manager} {call : Call} (hG : G.allows s call) :
    Pasos G (s, []) (call.run s, []) := by
  cases call with
  | message conn msg red =>
    show Pasos G (s, []) (processMessage conn msg red s, [])
    unfold processMessage
    cases hparse : parseMessage msg with
    | none => exact .refl
    | some m => exact Pasos.handle conn red m (hG m hparse)
  | ready conn => exact .single (.listo conn hG)
  | failed conn => exact Pasos.dropJobs hG
  | disconnect conn =>
    exact ((Relation.ReflTransGen.single (.purgeConn conn hG)).trans
      (Pasos.dropJobs (s := limpiarColasPorConn conn s) hG)).tail (.conexiones conn ⟨_, hG⟩)
  | announce now ipSender msg =>
    show Pasos G (s, []) (processAnnounce now ipSender msg s, [])
    unfold processAnnounce
    split
    · exact .refl
    · exact .single (.nodos _)
  | purge now timeout => exact .single (.nodos _)

/-- **What the small steps preserve, every call preserves.** -/
theorem pasos_of_call {G : Guardia} {I : Manager × List Obra → Prop} {s : Manager} {call : Call}
    (hG : G.allows s call) (hI : I (s, [])) (paso : ∀ c d, I c → Paso G c d → I d) :
    I (call.run s, []) := by
  have hpasos := Call.pasos hG
  generalize (Call.run call s, ([] : List Obra)) = d at hpasos
  induction hpasos with
  | refl => exact hI
  | tail _ hlast ih => exact paso _ _ ih hlast

/-- **What the small steps preserve holds along every run.** -/
theorem pasos_of_reaches {G : Guardia} {I : Manager × List Obra → Prop} {s t : Manager}
    (hrun : Reaches Manager.step G.allows s t) (init : I (s, []))
    (paso : ∀ c d, I c → Paso G c d → I d) : I (t, []) := by
  refine hrun.invariant (I := fun u => I (u, [])) init (fun u call v hu hG hstep => ?_)
  obtain rfl := Option.some.inj hstep
  exact pasos_of_call hG hu paso

end Hpc
