import HpcAgent.Handlers

/-!
# The order of the locks

The mutexes of the agent have ranks: that of the job table first, then those of the
resources, then those of the two other tables and of the connections. Each routine
of the resource manager is shown to take them in that order, whatever it finds in
the state (`Routine.Safe`), under a condition on what its caller holds: a flag
`take_lock` is set only where the table is free, and a message is sent only where
nothing of the last rank is held.

The same proofs carry an invariant: the job ids in the queues meet a predicate if
those of the messages do, and then so do the ids whose bucket is computed.
-/

namespace Hpc

/-- **The order in which the mutexes are taken.** -/
def Mutex.rank : Mutex → ℕ
  | tabla => 0
  | recurso _ => 1
  | conns | nodos | write _ => 2

theorem Mutex.rank_le_two (m : Mutex) : m.rank ≤ 2 := by
  cases m <;> simp [rank]

/-- Every mutex held comes before a rank. -/
def Libre (n : ℕ) (H : List Mutex) : Prop := ∀ m ∈ H, m.rank < n

theorem libre_nil (n : ℕ) : Libre n [] := fun _ h => absurd h List.not_mem_nil

theorem Libre.cons {n : ℕ} {H : List Mutex} (h : Libre n H) {m : Mutex} (hm : m.rank < n) :
    Libre n (m :: H) :=
  List.forall_mem_cons.mpr ⟨hm, h⟩

theorem Libre.mono {n n' : ℕ} {H : List Mutex} (h : Libre n H) (hn : n ≤ n') : Libre n' H :=
  fun m hm => (h m hm).trans_le hn

/-- What is held where a flag says whether a lock was taken. -/
def tomados (takeLock : Bool) (m : Mutex) (H : List Mutex) : List Mutex :=
  if takeLock then m :: H else H

/-- A flag that is not set asks nothing. -/
theorem libre_of_false {n : ℕ} {H : List Mutex} (h : false = true) : Libre n H :=
  absurd h Bool.false_ne_true

theorem Libre.tomados {n : ℕ} {H : List Mutex} (h : Libre n H) {m : Mutex} (hm : m.rank < n)
    (takeLock : Bool) : Libre n (tomados takeLock m H) := by
  cases takeLock with
  | false => exact h
  | true => exact h.cons hm

/-- An invariant that depends on the ids in the queues only, and says of them that
they meet `P`. -/
structure Conservada (P : Int32 → Prop) (I : Agente → Prop) : Prop where
  cola : ∀ {a tipo p}, I a → p ∈ a.manager.cola tipo → P p.jobId
  manager : ∀ {a : Agente} {s : Manager}, I a →
    (∀ tipo, ∀ p ∈ s.cola tipo, p ∈ a.manager.cola tipo ∨ P p.jobId) →
    I { a with manager := s }
  tipos : ∀ {a : Agente} (f : Conn → ConnectionType), I a → I { a with tipos := f }
  salidas : ∀ {a : Agente} (f : Conn → Salida), I a → I { a with salidas := f }

namespace Rutina

open Routine

variable {P : Int32 → Prop} {I : Agente → Prop} {E : ℕ → Prop} {H : List Mutex} {α : Type}

/-- **A routine that obeys the order and returns holding what it held.** -/
def Ordenada (I : Agente → Prop) (E : ℕ → Prop) (H : List Mutex) (p : Rutina α) : Prop :=
  Safe I E Mutex.rank H p H (fun _ => True)

theorem ordenada_pure (a : α) : Ordenada I E H (pure a : Rutina α) := safe_pure trivial

theorem Ordenada.bind {β : Type} {p : Rutina α} {g : α → Rutina β} (hp : Ordenada I E H p)
    (hg : ∀ a, Ordenada I E H (g a)) : Ordenada I E H (p >>= g) :=
  safe_bind hp (fun a _ => hg a)

theorem Ordenada.ite {p q : Rutina α} {c : Prop} [Decidable c] (hp : Ordenada I E H p)
    (hq : Ordenada I E H q) : Ordenada I E H (if c then p else q) := by
  split
  · exact hp
  · exact hq

/-! ## One operation -/

theorem safe_lock {m : Mutex} (h : Libre m.rank H) :
    Safe I E Mutex.rank H (lock m) (m :: H) (fun _ => True) := ⟨h, rfl, trivial⟩

theorem safe_unlock {m : Mutex} :
    Safe I E Mutex.rank (m :: H) (unlock m) H (fun _ => True) :=
  ⟨List.mem_cons_self, List.erase_cons_head .., trivial⟩

theorem safe_lockIf {takeLock : Bool} {m : Mutex} (h : takeLock = true → Libre m.rank H) :
    Safe I E Mutex.rank H (lockIf takeLock m) (tomados takeLock m H) (fun _ => True) := by
  cases takeLock with
  | false => exact safe_pure trivial
  | true => exact safe_lock (h rfl)

theorem safe_unlockIf {takeLock : Bool} {m : Mutex} :
    Safe I E Mutex.rank (tomados takeLock m H) (unlockIf takeLock m) H (fun _ => True) := by
  cases takeLock with
  | false => exact safe_pure trivial
  | true => exact safe_unlock

theorem safe_unlockIf_return {takeLock : Bool} {m : Mutex} (a : α) :
    Safe I E Mutex.rank (tomados takeLock m H) (unlockIf takeLock m >>= fun _ => pure a) H
      (fun _ => True) :=
  safe_bind safe_unlockIf (fun _ _ => safe_pure trivial)

/-- **A section under a lock.** -/
theorem ordenada_seccion {m : Mutex} {p : Rutina α} (h : Libre m.rank H)
    (hp : Ordenada I E (m :: H) p) :
    Ordenada I E H (lock m >>= fun _ => p >>= fun a => unlock m >>= fun _ => pure a) :=
  safe_bind (safe_lock h) (fun _ _ => safe_bind hp (fun _ _ =>
    safe_bind safe_unlock (fun _ _ => safe_pure trivial)))

/-- The same, with nothing to return. -/
theorem ordenada_seccion_unit {m : Mutex} {p : Rutina Unit} (h : Libre m.rank H)
    (hp : Ordenada I E (m :: H) p) :
    Ordenada I E H (lock m >>= fun _ => p >>= fun _ => unlock m) :=
  safe_bind (safe_lock h) (fun _ _ => safe_bind hp (fun _ _ => safe_unlock))

theorem ordenada_mirar (f : Agente → α) : Ordenada I E H (mirar f) :=
  fun _ ha => ⟨ha, rfl, trivial⟩

theorem ordenada_cambiar {f : Agente → Agente} (hf : ∀ a, I a → I (f a)) :
    Ordenada I E H (cambiar f) := fun a ha => ⟨hf a ha, rfl, trivial⟩

theorem ordenada_leer (f : Manager → α) : Ordenada I E H (leer f) :=
  fun _ ha => ⟨ha, rfl, trivial⟩

/-- What is read off the state may be said of a state that meets the invariant. -/
theorem ordenada_leer_bind {β : Type} {f : Manager → α} {g : α → Rutina β}
    (hg : ∀ a, I a → Ordenada I E H (g (f a.manager))) : Ordenada I E H (leer f >>= g) :=
  fun a ha => ⟨ha, hg a ha⟩

section Invariante

variable (hI : Conservada P I)

include hI

theorem ordenada_aplicar {f : Manager → α × Manager}
    (hf : ∀ s tipo, ∀ p ∈ (f s).2.cola tipo, p ∈ s.cola tipo ∨ P p.jobId) :
    Ordenada I E H (aplicar f) :=
  fun a ha => ⟨hI.manager ha (hf a.manager), rfl, trivial⟩

theorem ordenada_hacer {f : Manager → Manager}
    (hf : ∀ s tipo, ∀ p ∈ (f s).cola tipo, p ∈ s.cola tipo ∨ P p.jobId) :
    Ordenada I E H (hacer f) :=
  ordenada_aplicar hI hf

/-- Most of what is done leaves the queues alone. -/
theorem ordenada_hacer_of_cola {f : Manager → Manager} (hf : ∀ s, (f s).cola = s.cola) :
    Ordenada I E H (hacer f) :=
  ordenada_hacer hI (fun s _ _ hp => Or.inl (hf s ▸ hp))

theorem ordenada_emit (e : Event) : Ordenada I E H (hacer (fun s => s.emit e)) :=
  ordenada_hacer_of_cola hI (fun _ => rfl)

/-! ## Sending -/

theorem ordenada_enqueueWrite (h : Libre 2 H) (conn : Conn) (msg : CString) :
    Ordenada I E H (enqueueWrite conn msg) := by
  refine safe_bind (safe_lock h) (fun _ _ =>
    safe_bind (ordenada_mirar _) (fun cabe _ => ?_))
  split
  · exact safe_bind (ordenada_cambiar (fun a ha => hI.salidas _ ha)) (fun _ _ => safe_unlock)
  · exact safe_unlock

theorem ordenada_sendMessage (h : Libre 2 H) (conn : Conn) (msg : Message) :
    Ordenada I E H (sendMessage conn msg) :=
  Ordenada.bind (ordenada_hacer_of_cola hI (by intro s; rfl))
    (fun _ => ordenada_enqueueWrite hI h conn msg.wire)

theorem ordenada_sendJobGranted (h : Libre 2 H) (jobId : Int32) (conn : Conn) :
    Ordenada I E H (sendJobGranted jobId conn) :=
  Ordenada.bind (ordenada_hacer_of_cola hI (by intro s; rfl))
    (fun _ => ordenada_enqueueWrite hI h conn (Message.jobGranted jobId).wire)

/-! ## The tables -/

omit hI in
theorem ordenada_buscarBajo {m : Mutex} (h : Libre m.rank H) (f : Manager → Option α) :
    Ordenada I E H (buscarBajo m f) := by
  refine safe_bind (safe_lock h) (fun _ _ => safe_bind (ordenada_leer _) (fun x _ => ?_))
  cases x with
  | none => exact safe_bind safe_unlock (fun _ _ => safe_pure trivial)
  | some x => exact safe_bind safe_unlock (fun _ _ => safe_pure trivial)

omit hI in
theorem ordenada_tablaConnsLookup (h : Libre 2 H) (ip : CString) :
    Ordenada I E H (tablaConnsLookup ip) :=
  ordenada_buscarBajo (m := .conns) h _

omit hI in
theorem ordenada_tablaConnsGetIpByConn (h : Libre 2 H) (conn : Conn) :
    Ordenada I E H (tablaConnsGetIpByConn conn) :=
  ordenada_buscarBajo (m := .conns) h _

theorem ordenada_tablaConnsInsert (h : Libre 2 H) (ip : CString) (conn : Conn) :
    Ordenada I E H (tablaConnsInsert ip conn) :=
  ordenada_seccion_unit h (ordenada_hacer_of_cola hI (fun _ => rfl))

theorem ordenada_tablaConnsDeleteByConn (h : Libre 2 H) (conn : Conn) :
    Ordenada I E H (tablaConnsDeleteByConn conn) :=
  ordenada_seccion_unit h (ordenada_hacer_of_cola hI (fun _ => rfl))

theorem ordenada_tablaNodosInsertOrUpdate (h : Libre 2 H) (now : ℤ) (ip : CString)
    (puerto cpu mem gpu : Int32) :
    Ordenada I E H (tablaNodosInsertOrUpdate now ip puerto cpu mem gpu) := by
  refine safe_bind (safe_lock h) (fun _ _ => safe_bind (ordenada_leer _) (fun known _ => ?_))
  split
  all_goals
    exact safe_bind (ordenada_hacer_of_cola hI (by intro s; rfl)) (fun _ _ => safe_unlock)

omit hI in
theorem ordenada_tablaNodosGetPuerto (h : Libre 2 H) (ip : CString) :
    Ordenada I E H (tablaNodosGetPuerto ip) := by
  refine safe_bind (safe_lock h) (fun _ _ => safe_bind (ordenada_leer _) (fun curr _ => ?_))
  cases curr with
  | none => exact safe_bind safe_unlock (fun _ _ => safe_pure trivial)
  | some curr => exact safe_bind safe_unlock (fun _ _ => safe_pure trivial)

theorem ordenada_tablaNodosPurge (h : Libre 2 H) (now timeout : ℤ) :
    Ordenada I E H (tablaNodosPurge now timeout) :=
  ordenada_seccion_unit h (ordenada_hacer_of_cola hI (fun _ => rfl))

theorem ordenada_tablaJobsExtractByRemoteConn (h : Libre 0 H) (conn : Conn) :
    Ordenada I E H (tablaJobsExtractByRemoteConn conn) :=
  ordenada_seccion h (ordenada_aplicar hI (fun _ _ _ hp => Or.inl hp))

/-! ## The job table -/

variable (hE : ∀ id, P id → E (bucketOf id))

include hE

omit hI in
theorem ordenada_bucket {jobId : Int32} (hid : P jobId) : Ordenada I E H (bucket jobId) :=
  ⟨hE jobId hid, rfl, trivial⟩

omit hI in
theorem ordenada_tablaJobsBuscarPorId {jobId : Int32} (hid : P jobId) :
    Ordenada I E H (tablaJobsBuscarPorId jobId) :=
  (ordenada_bucket hE hid).bind (fun _ => ordenada_leer _)

omit hI in
theorem ordenada_tablaJobsGetConn {jobId : Int32} (hid : P jobId) {takeLock : Bool}
    (h : takeLock = true → Libre 0 H) :
    Ordenada I E H (tablaJobsGetConn jobId takeLock) := by
  refine safe_bind (safe_lockIf h) (fun _ _ =>
    safe_bind (ordenada_tablaJobsBuscarPorId hE hid) (fun curr _ => ?_))
  cases curr with
  | none => exact safe_unlockIf_return none
  | some curr => exact safe_unlockIf_return (some curr.conn)

omit hI in
theorem ordenada_tablaJobsVerificar {jobId : Int32} (hid : P jobId) {takeLock : Bool}
    (h : takeLock = true → Libre 0 H) :
    Ordenada I E H (tablaJobsVerificar jobId takeLock) := by
  refine safe_bind (safe_lockIf h) (fun _ _ =>
    safe_bind (ordenada_tablaJobsBuscarPorId hE hid) (fun curr _ => ?_))
  cases curr with
  | none => exact safe_unlockIf_return false
  | some curr =>
    dsimp only
    split
    · exact safe_unlockIf_return false
    · exact safe_unlockIf_return curr.pendientes.isEmpty

theorem ordenada_tablaJobsCambioAlloc {jobId : Int32} (hid : P jobId) (conn : Conn)
    (tipo : Resource) {takeLock : Bool} (h : takeLock = true → Libre 0 H) :
    Ordenada I E H (tablaJobsCambioAlloc jobId conn tipo takeLock) := by
  refine safe_bind (safe_lockIf h) (fun _ _ =>
    safe_bind (ordenada_tablaJobsBuscarPorId hE hid) (fun job _ => ?_))
  cases job with
  | none => exact safe_unlockIf
  | some job =>
    dsimp only
    split
    · exact safe_bind (ordenada_hacer_of_cola hI (by intro s; rfl)) (fun _ _ => safe_unlockIf)
    · exact safe_unlockIf

theorem ordenada_tablaJobsInsertarJob {job : Job} (hid : P job.jobId)
    (requests : List ResourceRequest) :
    Ordenada I E H (tablaJobsInsertarJob job requests) :=
  (ordenada_bucket hE hid).bind
    (fun _ => ordenada_hacer_of_cola hI (fun _ => rfl))

theorem ordenada_tablaJobsExtractById {jobId : Int32} (hid : P jobId) :
    Ordenada I E H (tablaJobsExtractById jobId) := by
  refine (ordenada_bucket hE hid).bind (fun _ => ordenada_aplicar hI (fun s tipo p hp => ?_))
  unfold extraer at hp
  split at hp
  · exact Or.inl hp
  · exact Or.inl hp

/-! ## The queues and the resources -/

omit hE in
/-- One queue replaced. -/
theorem ordenada_setRecurso {tipo : Resource} {r : Manager → Recurso}
    (hr : ∀ s, ∀ p ∈ (r s).cola.nodos, p ∈ s.cola tipo ∨ P p.jobId) :
    Ordenada I E H (hacer (fun s => s.setRecurso tipo (r s))) := by
  refine ordenada_hacer hI (fun s tipo' p hp => ?_)
  rw [Manager.cola_setRecurso] at hp
  split at hp
  · next h => exact h ▸ hr s p hp
  · exact Or.inl hp

omit hE in
theorem ordenada_limpiarCola (h : Libre 1 H) (tipo : Resource)
    {f : ColaPendingRequest → ColaPendingRequest}
    (hf : ∀ cola, ∀ p ∈ (f cola).nodos, p ∈ cola.nodos) :
    Ordenada I E H (limpiarCola tipo f) :=
  ordenada_seccion_unit h (ordenada_setRecurso hI (fun _ p hp => Or.inl (hf _ p hp)))

omit hE in
theorem ordenada_limpiarColasPorId (h : Libre 1 H) (jobId : Int32) :
    Ordenada I E H (limpiarColasPorId jobId) := by
  have hcola : ∀ tipo, Ordenada I E H
      (limpiarCola tipo (fun cola => queueDeleteByJobId cola jobId)) :=
    fun tipo => ordenada_limpiarCola hI h tipo (fun _ _ hp => List.mem_of_mem_filter hp)
  exact (hcola .cpu).bind (fun _ => (hcola .mem).bind (fun _ => hcola .gpu))

omit hE in
theorem ordenada_limpiarColasPorConn (h : Libre 1 H) (conn : Conn) :
    Ordenada I E H (limpiarColasPorConn conn) := by
  have hcola : ∀ tipo, Ordenada I E H
      (limpiarCola tipo (fun cola => queueDeleteByConn cola conn)) :=
    fun tipo => ordenada_limpiarCola hI h tipo (fun _ _ hp => List.mem_of_mem_filter hp)
  exact (hcola .cpu).bind (fun _ => (hcola .mem).bind (fun _ => hcola .gpu))

omit hE in
theorem ordenada_reserveResource (h : Libre 1 H) {jobId : Int32} (hid : P jobId)
    (tipo : Resource) (amount : Int32) (conn : Conn) (origen : Origin) :
    Ordenada I E H (reserveResource tipo amount jobId conn origen) := by
  refine ordenada_seccion h (ordenada_aplicar hI (fun s tipo' p hp => ?_))
  rcases reserveResource_cases tipo amount jobId conn origen s with
    ⟨-, heq⟩ | ⟨-, -, heq⟩ | ⟨-, -, heq⟩
  · rw [heq, cola_takeUnits] at hp
    exact Or.inl hp
  · rw [heq] at hp
    exact Or.inl hp
  · rw [heq, cola_enqueue] at hp
    split at hp
    · next ht =>
      rcases List.mem_append.mp hp with hp | hp
      · exact Or.inl (ht ▸ hp)
      · exact Or.inr (List.mem_singleton.mp hp ▸ hid)
    · exact Or.inl hp

theorem ordenada_dequeueTop (h : Libre 2 H) (tipo : Resource) {pending : PendingRequest}
    (hid : P pending.jobId) : Ordenada I E H (dequeueTop tipo pending) := by
  have hpop : Ordenada I E H (hacer (popTop tipo pending)) := by
    refine ordenada_hacer hI (fun s tipo' p hp => Or.inl ?_)
    rw [popTop, Manager.cola_emit, Manager.cola_setRecurso] at hp
    split at hp
    · next ht =>
      rw [nodos_queueDequeue] at hp
      exact ht ▸ List.mem_of_mem_tail hp
    · exact hp
  refine hpop.bind (fun _ =>
    (ordenada_tablaJobsCambioAlloc hI hE hid _ tipo libre_of_false).bind (fun _ => ?_))
  split
  · exact ordenada_sendMessage hI h _ _
  · refine (ordenada_tablaJobsVerificar hE hid libre_of_false).bind (fun complete => ?_)
    split
    · exact ordenada_sendJobGranted hI h _ _
    · exact ordenada_pure ()

/-- **The loop of `release_resource`**: the ids it meets come from the queue. -/
theorem ordenada_serveQueue (h : Libre 2 H) (tipo : Resource) (n : ℕ) :
    Ordenada I E H (serveQueue tipo n) := by
  induction n with
  | zero => exact ordenada_pure ()
  | succ n ih =>
    refine ordenada_leer_bind (fun a ha => ?_)
    cases hcola : a.manager.cola tipo with
    | nil => exact ordenada_pure ()
    | cons top rest =>
      have hid : P top.jobId := hI.cola ha (hcola ▸ List.mem_cons_self)
      refine (ordenada_leer _).bind (fun fits => ?_)
      split
      · exact (ordenada_dequeueTop hI hE h tipo hid).bind (fun _ => ih)
      · exact ordenada_pure ()

/-- **`release_resource`**, with the table taken here or by the caller. -/
theorem ordenada_releaseResource (h : Libre 1 H) {takeLock : Bool}
    (htake : takeLock = true → Libre 0 H) (tipo : Resource) (amount : Int32) :
    Ordenada I E H (releaseResource tipo amount takeLock) := by
  have htabla : Mutex.tabla.rank < 1 := Nat.zero_lt_one
  have hrecurso : Libre 1 (tomados takeLock .tabla H) := h.tomados htabla takeLock
  have hdentro : Libre 2 (.recurso tipo :: tomados takeLock .tabla H) :=
    (hrecurso.mono one_le_two).cons one_lt_two
  refine safe_bind (safe_lockIf htake) (fun _ _ => safe_bind (safe_lock hrecurso) (fun _ _ =>
    safe_bind (ordenada_leer _) (fun valido _ => ?_)))
  split
  · have hgive : Ordenada I E (.recurso tipo :: tomados takeLock .tabla H)
        (hacer (giveUnits tipo amount)) :=
      ordenada_hacer hI (fun s tipo' p hp => Or.inl (cola_giveUnits s tipo' tipo amount ▸ hp))
    exact safe_bind hgive (fun _ _ => safe_bind (ordenada_leer _) (fun rounds _ =>
      safe_bind (ordenada_serveQueue hI hE hdentro tipo rounds) (fun _ _ =>
        safe_bind safe_unlock (fun _ _ => safe_unlockIf))))
  · exact safe_bind safe_unlock (fun _ _ => safe_unlockIf)

theorem ordenada_freeAllocation (h : Libre 1 H) {takeLock : Bool}
    (htake : takeLock = true → Libre 0 H) (jobId : Int32) (all : Allocation) :
    Ordenada I E H (freeAllocation jobId all takeLock) := by
  have hsend : Libre 2 H := h.mono one_le_two
  unfold freeAllocation
  split
  · exact (ordenada_emit hI _).bind (fun _ => ordenada_releaseResource hI hE h htake _ _)
  · refine Ordenada.ite ((ordenada_tablaConnsLookup hsend all.ip).bind (fun remote => ?_))
      (ordenada_pure ())
    cases remote with
    | none => exact ordenada_pure ()
    | some remote => exact ordenada_sendMessage hI hsend _ _

theorem ordenada_freeAllocations (h : Libre 1 H) {takeLock : Bool}
    (htake : takeLock = true → Libre 0 H) (jobId : Int32) (allocs : List Allocation) :
    Ordenada I E H (freeAllocations jobId allocs takeLock) :=
  safe_forM (fun all _ => ordenada_freeAllocation hI hE h htake jobId all)

/-- **`tabla_jobs_remove`**, with the table taken here, by `release_resource`, or by
the caller of both. -/
theorem ordenada_tablaJobsRemove (h : Libre 1 H) {takeLock takeLockReserve : Bool}
    (htake : takeLock = true → Libre 0 H) (hreserve : takeLockReserve = true → Libre 0 H)
    {jobId : Int32} (hid : P jobId) :
    Ordenada I E H (tablaJobsRemove jobId takeLock takeLockReserve) := by
  refine safe_bind (safe_lockIf htake) (fun _ _ =>
    safe_bind (ordenada_tablaJobsExtractById hI hE hid) (fun job _ =>
      safe_bind safe_unlockIf (fun _ _ => ?_)))
  cases job with
  | none => exact ordenada_pure ()
  | some job => exact ordenada_freeAllocations hI hE h hreserve jobId job.confirmadas

/-! ## The branches of `process_message`

None of them is called with a lock held. -/

omit hE in
theorem ordenada_processReserve (conn : Conn) {jobId : Int32} (hid : P jobId)
    (type : Resource) (amount : Int32) :
    Ordenada I E [] (processReserve conn jobId type amount) := by
  refine (ordenada_reserveResource hI (libre_nil 1) hid type amount conn _).bind
    (fun result => ?_)
  cases result with
  | denied => exact ordenada_sendMessage hI (libre_nil 2) _ _
  | granted => exact ordenada_sendMessage hI (libre_nil 2) _ _
  | queued => exact ordenada_pure ()

theorem ordenada_processRelease {jobId : Int32} (hid : P jobId) (type : Resource)
    (amount : Int32) : Ordenada I E [] (processRelease jobId type amount) := by
  have hremove : Ordenada I E [] (tablaJobsRemove jobId true true >>= fun _ =>
      limpiarColasPorId jobId) :=
    (ordenada_tablaJobsRemove hI hE (libre_nil 1) (fun _ => libre_nil 0)
      (fun _ => libre_nil 0) hid).bind (fun _ => ordenada_limpiarColasPorId hI (libre_nil 1) jobId)
  unfold processRelease
  split
  · exact (ordenada_emit hI _).bind (fun _ => (ordenada_releaseResource hI hE (libre_nil 1)
      (fun _ => libre_nil 0) type amount).bind (fun _ => hremove))
  · exact hremove

/-- `GRANTED` goes to the table only if the connection has an address. -/
theorem ordenada_processGranted (conn : Conn) {jobId : Int32} (hid : P jobId) :
    Ordenada I E [] (processGranted conn jobId) := by
  have hsend : Libre 2 [Mutex.tabla] := (libre_nil 2).cons Nat.zero_lt_two
  refine (ordenada_tablaConnsGetIpByConn (libre_nil 2) conn).bind (fun ip => ?_)
  cases ip with
  | none => exact ordenada_pure ()
  | some ipRemoto =>
    refine safe_bind (safe_lock (libre_nil 0)) (fun _ _ =>
      safe_bind (ordenada_tablaJobsBuscarPorId hE hid) (fun check _ => ?_))
    cases check with
    | none =>
      exact safe_bind (ordenada_sendMessage hI hsend _ _) (fun _ _ =>
        safe_bind (ordenada_sendMessage hI hsend _ _) (fun _ _ =>
          safe_bind (ordenada_sendMessage hI hsend _ _) (fun _ _ => safe_unlock)))
    | some check =>
      refine safe_bind (ordenada_hacer_of_cola hI (fun _ => rfl)) (fun _ _ => ?_)
      dsimp only
      split
      · refine safe_bind (ordenada_tablaJobsVerificar hE hid libre_of_false)
          (fun complete _ => ?_)
        split
        · exact safe_bind (ordenada_sendJobGranted hI hsend _ _) (fun _ _ => safe_unlock)
        · exact safe_unlock
      · exact safe_unlock

/-- `DENIED` holds the table while it takes the job apart, so no callee takes it. -/
theorem ordenada_processDenied {jobId : Int32} (hid : P jobId) :
    Ordenada I E [] (processDenied jobId) := by
  have hsend : Libre 2 [Mutex.tabla] := (libre_nil 2).cons Nat.zero_lt_two
  have hrecurso : Libre 1 [Mutex.tabla] := (libre_nil 1).cons Nat.zero_lt_one
  have hclean : Safe I E Mutex.rank [Mutex.tabla]
      (limpiarColasPorId jobId >>= fun _ => unlock .tabla) [] (fun _ => True) :=
    safe_bind (ordenada_limpiarColasPorId hI hrecurso jobId) (fun _ _ => safe_unlock)
  refine safe_bind (safe_lock (libre_nil 0)) (fun _ _ =>
    safe_bind (ordenada_tablaJobsGetConn hE hid libre_of_false) (fun owner _ => ?_))
  cases owner with
  | none => exact hclean
  | some owner =>
    exact safe_bind (ordenada_tablaJobsRemove hI hE hrecurso libre_of_false libre_of_false hid)
      (fun _ _ => safe_bind (ordenada_sendMessage hI hsend _ _) (fun _ _ => hclean))

omit hE in
theorem ordenada_connectRemoteNode (ip : CString) (red : Network) :
    Ordenada I E H (connectRemoteNode ip red) := by
  refine Ordenada.bind (ordenada_aplicar hI (fun s tipo p hp => Or.inl ?_)) (fun r => ?_)
  · match red with
    | [] | none :: red | some conn :: red => exact hp
  · match r with
    | (none, red) => exact ordenada_pure _
    | (some conn, red) =>
      exact (ordenada_cambiar (fun a ha => hI.tipos _ ha)).bind (fun _ => ordenada_pure _)

omit hE in
/-- A local entry keeps the id of the job. -/
theorem safe_requestLocal (h : Libre 1 H) (head : ResourceRequest) {nuevoJob : Job}
    (hid : P nuevoJob.jobId) :
    Safe I E Mutex.rank H (requestLocal head nuevoJob) H
      (fun job => ∀ j ∈ job, j.jobId = nuevoJob.jobId) := by
  have hplaced : ∀ r, Safe I E Mutex.rank H
      (leer (fun s => s.ip) >>= fun ip => pure (some (nuevoJob.addLocal head ip r))) H
      (fun job => ∀ j ∈ job, j.jobId = nuevoJob.jobId) :=
    fun r => safe_bind (ordenada_leer _) (fun ip _ => safe_pure (fun j hj => by
      rw [← Option.some.inj hj]
      rfl))
  refine safe_bind (ordenada_reserveResource hI h hid _ _ _ _) (fun result _ => ?_)
  cases result with
  | denied => exact safe_pure (fun j hj => absurd hj (Option.not_mem_none j))
  | granted => exact hplaced .granted
  | queued => exact hplaced .queued

omit hE in
/-- A remote entry keeps the id of the job. -/
theorem safe_requestRemote (h : Libre 2 H) (head : ResourceRequest) (red : Network)
    (nuevoJob : Job) :
    Safe I E Mutex.rank H (requestRemote head red nuevoJob) H
      (fun r => ∀ j ∈ r.1, j.jobId = nuevoJob.jobId) := by
  have hplaced : ∀ conn msg (red : Network), ∀ j ∈ (some (nuevoJob.addRemote head conn msg), red).1,
      j.jobId = nuevoJob.jobId := by
    intro conn msg red j hj
    rw [← Option.some.inj hj]
    rfl
  refine safe_bind (ordenada_tablaConnsLookup h head.ip) (fun remote _ => ?_)
  cases remote with
  | some remote =>
    exact safe_bind (ordenada_sendMessage hI h _ _) (fun _ _ => safe_pure (hplaced _ _ _))
  | none =>
    refine safe_bind (ordenada_tablaNodosGetPuerto h head.ip) (fun puerto _ => ?_)
    split
    · exact safe_pure (fun j hj => absurd hj (Option.not_mem_none j))
    · refine safe_bind (ordenada_connectRemoteNode hI head.ip red) (fun r _ => ?_)
      match r with
      | (none, red) => exact safe_pure (fun j hj => absurd hj (Option.not_mem_none j))
      | (some intento, red) => exact safe_pure (hplaced _ _ _)

omit hE in
/-- **The loop over the entries of a `JOB_REQUEST`** builds a job of the id it got. -/
theorem safe_requestLoop (h : Libre 1 H) (requests : List ResourceRequest) (red : Network)
    {nuevoJob : Job} (hid : P nuevoJob.jobId) :
    Safe I E Mutex.rank H (requestLoop requests red nuevoJob) H
      (fun r => r.2.jobId = nuevoJob.jobId) := by
  induction requests generalizing red nuevoJob with
  | nil => exact safe_pure rfl
  | cons head next ih =>
    have hrest : ∀ job (red : Network), job.jobId = nuevoJob.jobId →
        Safe I E Mutex.rank H (requestLoop next red job) H
          (fun r => r.2.jobId = nuevoJob.jobId) := by
      intro job red hjob
      exact (ih red (hjob ▸ hid)).imp (fun r hr => hr.trans hjob)
    refine safe_bind (ordenada_leer _) (fun propio _ => ?_)
    split
    · refine safe_bind (safe_requestLocal hI h head hid) (fun job hjob => ?_)
      cases job with
      | none => exact safe_pure rfl
      | some job => exact hrest job red (hjob job rfl)
    · refine safe_bind (safe_requestRemote hI (h.mono one_le_two) head red nuevoJob)
        (fun r hr => ?_)
      match r with
      | (none, red) => exact safe_pure rfl
      | (some job, red) => exact hrest job red (hr job rfl)

theorem safe_insertJob {job : Job} (hid : P job.jobId) (requests : List ResourceRequest) :
    Safe I E Mutex.rank [Mutex.tabla] (insertJob job requests) [] (fun _ => True) := by
  have hsend : Libre 2 [Mutex.tabla] := (libre_nil 2).cons Nat.zero_lt_two
  refine safe_bind (ordenada_tablaJobsInsertarJob hI hE hid requests) (fun _ _ =>
    safe_bind (ordenada_tablaJobsVerificar hE hid libre_of_false) (fun complete _ => ?_))
  dsimp only
  split
  · exact safe_bind (ordenada_sendJobGranted hI hsend _ _) (fun _ _ => safe_unlock)
  · exact safe_unlock

theorem safe_rollbackJob (job : Job) :
    Safe I E Mutex.rank [Mutex.tabla] (rollbackJob job) [] (fun _ => True) := by
  have hrecurso : Libre 1 [Mutex.tabla] := (libre_nil 1).cons Nat.zero_lt_one
  exact safe_bind (ordenada_limpiarColasPorId hI hrecurso job.jobId) (fun _ _ =>
    safe_bind (ordenada_freeAllocations hI hE hrecurso libre_of_false _ _) (fun _ _ =>
      safe_bind safe_unlock (fun _ _ => ordenada_sendMessage hI (libre_nil 2) _ _)))

/-- **`JOB_REQUEST`** holds the table over the whole loop. -/
theorem ordenada_processJobRequest (conn : Conn) {jobId : Int32} (hid : P jobId)
    (requests : List ResourceRequest) (red : Network) :
    Ordenada I E [] (processJobRequest conn jobId requests red) := by
  have hrecurso : Libre 1 [Mutex.tabla] := (libre_nil 1).cons Nat.zero_lt_one
  refine safe_bind (safe_lock (libre_nil 0)) (fun _ _ =>
    safe_bind (ordenada_tablaJobsBuscarPorId hE hid) (fun found _ => ?_))
  cases found with
  | some job => exact safe_unlock
  | none =>
    refine safe_bind (safe_requestLoop hI hrecurso requests red hid) (fun r hr => ?_)
    match r with
    | (true, job) =>
      have hjob : job.jobId = jobId := hr
      exact safe_insertJob hI hE (hjob ▸ hid) requests
    | (false, job) => exact safe_rollbackJob hI hE job

omit hE in
theorem ordenada_processGetNodes (conn : Conn) : Ordenada I E [] (processGetNodes conn) :=
  safe_bind (safe_lock (libre_nil 2)) (fun _ _ => safe_bind (ordenada_leer _) (fun _ _ =>
    safe_bind safe_unlock (fun _ _ => ordenada_sendMessage hI (libre_nil 2) _ _)))

theorem ordenada_jobReleaseAllocation (alloc : Allocation) :
    Ordenada I E [] (jobReleaseAllocation alloc) := by
  have hsend : Ordenada I E [] (if alloc.type = .remoteAlloc then
      sendMessage alloc.conn (.release alloc.jobId alloc.name alloc.amount) else pure ()) :=
    (ordenada_sendMessage hI (libre_nil 2) _ _).ite (ordenada_pure ())
  unfold jobReleaseAllocation
  dsimp only
  split
  · exact (ordenada_emit hI _).bind (fun _ => (ordenada_releaseResource hI hE (libre_nil 1)
      (fun _ => libre_nil 0) _ _).bind (fun _ => hsend))
  · exact (ordenada_limpiarColasPorId hI (libre_nil 1) _).bind (fun _ => hsend)

theorem ordenada_processJobRelease {jobId : Int32} (hid : P jobId) :
    Ordenada I E [] (processJobRelease jobId) := by
  refine safe_bind (safe_lock (libre_nil 0)) (fun _ _ =>
    safe_bind (ordenada_tablaJobsExtractById hI hE hid) (fun job _ => ?_))
  cases job with
  | none => exact safe_unlock
  | some job =>
    exact safe_bind safe_unlock (fun _ _ =>
      safe_bind (safe_forM (fun alloc _ => ordenada_jobReleaseAllocation hI hE alloc))
        (fun _ _ => ordenada_limpiarColasPorId hI (libre_nil 1) jobId))

theorem ordenada_processJobStatus (conn : Conn) {jobId : Int32} (hid : P jobId) :
    Ordenada I E [] (processJobStatus conn jobId) :=
  (ordenada_tablaJobsGetConn hE hid (fun _ => libre_nil 0)).bind (fun _ =>
    ordenada_sendMessage hI (libre_nil 2) _ _)

theorem ordenada_processJobTimeout {jobId : Int32} (hid : P jobId) :
    Ordenada I E [] (processJobTimeout jobId) :=
  (ordenada_tablaJobsRemove hI hE (libre_nil 1) (fun _ => libre_nil 0)
    (fun _ => libre_nil 0) hid).bind (fun _ => ordenada_limpiarColasPorId hI (libre_nil 1) jobId)

/-- **Every branch obeys the order**, if the id of its message is one that is allowed. -/
theorem ordenada_handle (conn : Conn) (red : Network) {m : Message}
    (hid : ∀ jobId ∈ m.jobId?, P jobId) : Ordenada I E [] (handle conn red m) := by
  cases m with
  | reserve jobId type amount => exact ordenada_processReserve hI conn (hid jobId rfl) type amount
  | release jobId type amount => exact ordenada_processRelease hI hE (hid jobId rfl) type amount
  | granted jobId => exact ordenada_processGranted hI hE conn (hid jobId rfl)
  | denied jobId => exact ordenada_processDenied hI hE (hid jobId rfl)
  | jobRequest jobId requests =>
    exact ordenada_processJobRequest hI hE conn (hid jobId rfl) requests red
  | getNodes => exact ordenada_processGetNodes hI conn
  | jobRelease jobId => exact ordenada_processJobRelease hI hE (hid jobId rfl)
  | jobStatus jobId => exact ordenada_processJobStatus hI hE conn (hid jobId rfl)
  | jobTimeout jobId => exact ordenada_processJobTimeout hI hE (hid jobId rfl)
  | jobGranted _ | jobDenied _ | jobStatusIs _ _ | nodes _ | garbage => exact ordenada_pure ()

theorem ordenada_processMessage (conn : Conn) (red : Network) {msg : CString}
    (hid : ∀ m, parseMessage msg = some m → ∀ jobId ∈ m.jobId?, P jobId) :
    Ordenada I E [] (processMessage conn msg red) := by
  unfold processMessage
  cases hparse : parseMessage msg with
  | none => exact ordenada_pure ()
  | some m =>
    exact (ordenada_emit hI _).bind (fun _ => ordenada_handle hI hE conn red (hid m hparse))

/-! ## The connection events -/

theorem ordenada_freeJobs (lista : List Job) : Ordenada I E [] (freeJobs lista) :=
  safe_forM (fun job _ => (ordenada_limpiarColasPorId hI (libre_nil 1) job.jobId).bind
    (fun _ => ordenada_freeAllocations hI hE (libre_nil 1) (fun _ => libre_nil 0) _ _))

theorem ordenada_processDisconnect (conn : Conn) : Ordenada I E [] (processDisconnect conn) :=
  (ordenada_limpiarColasPorConn hI (libre_nil 1) conn).bind (fun _ =>
    (ordenada_tablaJobsExtractByRemoteConn hI (libre_nil 0) conn).bind (fun lista =>
      (ordenada_freeJobs hI hE lista).bind (fun _ =>
        ordenada_tablaConnsDeleteByConn hI (libre_nil 2) conn)))

omit hE in
theorem ordenada_processConnectionReady (conn : Conn) :
    Ordenada I E [] (processConnectionReady conn) := by
  have hinner : Libre 2 [Mutex.tabla] := (libre_nil 2).cons Nat.zero_lt_two
  exact safe_bind (safe_lock (libre_nil 0)) (fun _ _ => safe_bind (ordenada_leer _)
    (fun lista _ => safe_bind (safe_forM (fun req _ =>
      (ordenada_tablaConnsInsert hI hinner req.ip conn).bind (fun _ =>
        ordenada_sendMessage hI hinner conn _))) (fun _ _ => safe_unlock)))

theorem ordenada_processConnectionFailed (conn : Conn) :
    Ordenada I E [] (processConnectionFailed conn) :=
  (ordenada_tablaJobsExtractByRemoteConn hI (libre_nil 0) conn).bind (fun lista =>
    ordenada_freeJobs hI hE lista)

omit hE in
theorem ordenada_processAnnounce (now : ℤ) (ipSender message : CString) :
    Ordenada I E [] (processAnnounce now ipSender message) := by
  unfold processAnnounce
  cases parseAnnounce message with
  | none => exact ordenada_pure ()
  | some r => exact ordenada_tablaNodosInsertOrUpdate hI (libre_nil 2) now ipSender _ _ _ _

end Invariante

end Rutina

end Hpc
