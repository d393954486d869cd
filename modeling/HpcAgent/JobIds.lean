import HpcAgent.Answers
import HpcAgent.EventLoop

/-!
# The job ids and the array

The bucket of a job id is a signed remainder turned into an `unsigned`, and the
functions of the job table go to it without a test: for an id under zero that 71 does
not divide it lies far behind the array. The routines note every bucket they go to.

Which lines lead there is said exactly. Every line with a job id goes to the bucket of
that id at once, but for a `RESERVE`, whose id comes back only out of a queue, and a
`GRANTED` from a connection without an address. A run that meets no such id stays
inside the array, and a line with one leaves it (`Agente.bucket_lt_iff`).
-/

namespace Hpc

/-- An id whose bucket is in the array. -/
def EnTabla (jobId : Int32) : Prop := 0 ≤ jobId ∨ jobId % 71 = 0

instance (jobId : Int32) : Decidable (EnTabla jobId) :=
  inferInstanceAs (Decidable (_ ∨ _))

theorem bucketOf_lt_iff {jobId : Int32} : bucketOf jobId < TAM_TABLA_JOBS ↔ EnTabla jobId := by
  refine ⟨fun h => ?_, fun h => ?_⟩
  · by_cases hneg : 0 ≤ jobId
    · exact Or.inl hneg
    · refine Or.inr (Int32.toInt_inj.mp ?_)
      have hneg : jobId.toInt < 0 := by simpa [Int32.le_iff_toInt_le] using hneg
      -- the remainder of a negative number is not positive, and a small bucket not negative
      have hle : (jobId % 71).toInt ≤ 0 := by
        rw [Int32.toInt_mod]
        have hopp := Int.tmod_nonneg (71 : Int32).toInt (neg_nonneg.mpr hneg.le)
        rw [Int.neg_tmod] at hopp
        exact neg_nonneg.mp hopp
      have hnat : (jobId % 71).toBitVec.toNat < 71 := h
      have hge : (jobId % 71).toInt = (jobId % 71).toBitVec.toNat :=
        BitVec.toInt_eq_toNat_of_lt (by omega)
      have hzero : (0 : Int32).toInt = 0 := rfl
      omega
  · rcases h with h | h
    · exact bucketOf_lt h
    · unfold bucketOf
      rw [h]
      decide

/-- What a call does, with its locks and its buckets. -/
def Call.rutina : Call → Rutina Unit
  | message conn msg red => Rutina.processMessage conn msg red
  | ready conn => Rutina.processConnectionReady conn
  | failed conn => Rutina.processConnectionFailed conn
  | disconnect conn => Rutina.processDisconnect conn
  | announce now ipSender msg => Rutina.processAnnounce now ipSender msg
  | purge now timeout => Rutina.tablaNodosPurge now timeout

/-- **A call, alone, leaves the manager as the model says.** -/
theorem Call.manager_rutina (c : Call) (a : Agente) :
    (c.rutina.run a).2.manager = c.run a.manager := by
  cases c with
  | message conn msg red => exact Rutina.processMessage_eq a conn msg red
  | ready conn => exact Rutina.manager_processConnectionReady a conn
  | failed conn => exact Rutina.manager_processConnectionFailed a conn
  | disconnect conn => exact Rutina.manager_processDisconnect a conn
  | announce now ipSender msg => exact Rutina.manager_processAnnounce a now ipSender msg
  | purge now timeout => rfl

/-- A call after another. -/
def Agente.step (a : Agente) (c : Call) : Option Agente := some (c.rutina.run a).2

/-- **The buckets a call goes to.** -/
def Call.buckets (c : Call) (a : Agente) : List ℕ := c.rutina.notes a

/-! ## The condition -/

/-- A line whose id has a bucket in the array, where the line leads there: a `RESERVE`
does if it is queued, a `GRANTED` if its connection has an address. -/
def Message.EnTabla (conn : Conn) (s : Manager) : Message → Prop
  | .reserve jobId type amount =>
    Hpc.EnTabla jobId ∨ amount ≤ s.available type ∨ s.total type < amount
  | .granted jobId => Hpc.EnTabla jobId ∨ tablaConnsGetIpByConn s.conns conn = none
  | .release jobId _ _ | .denied jobId | .jobRequest jobId _ | .jobRelease jobId
  | .jobStatus jobId | .jobTimeout jobId => Hpc.EnTabla jobId
  | .getNodes | .jobGranted _ | .jobDenied _ | .jobStatusIs .. | .nodes _ | .garbage => True

/-- The same of a call. -/
def Call.EnTabla (s : Manager) : Call → Prop
  | message conn msg _ => ∀ m, parseMessage msg = some m → m.EnTabla conn s
  | ready _ | failed _ | disconnect _ | announce .. | purge .. => True

/-- A line that is a `RESERVE`. -/
def Call.EsReserve : Call → Prop
  | message _ msg _ => ∃ jobId type amount, parseMessage msg = some (.reserve jobId type amount)
  | ready _ | failed _ | disconnect _ | announce .. | purge .. => False

namespace Rutina

open Routine

/-- The invariant: the ids in the queues have their buckets in the array. -/
def ColasEnTabla (a : Agente) : Prop := ∀ tipo, ∀ p ∈ a.manager.cola tipo, EnTabla p.jobId

theorem conservada_colasEnTabla : Conservada EnTabla ColasEnTabla where
  cola ha hp := ha _ _ hp
  manager ha hs tipo p hp := by
    rcases hs tipo p hp with hp | hp
    · exact ha tipo p hp
    · exact hp
  tipos _ ha := ha
  salidas _ ha := ha

/-- A routine that stays inside the array, from queues that do. -/
theorem Ordenada.bucket_lt {p : Rutina Unit}
    (hp : Ordenada ColasEnTabla (fun i => i < TAM_TABLA_JOBS) [] p) {a : Agente}
    (ha : ColasEnTabla a) :
    (∀ i ∈ p.notes a, i < TAM_TABLA_JOBS) ∧ ColasEnTabla (p.run a).2 := by
  obtain ⟨-, -, hinv, hnotes, -⟩ := hp.run ha
  exact ⟨hnotes, hinv⟩

/-! ## What a line notes -/

section Notes

variable {α β : Type} (a : Agente)

@[simp] theorem notes_lock (m : Mutex) : (lock m).notes a = [] := rfl

@[simp] theorem notes_unlock (m : Mutex) : (unlock m).notes a = [] := rfl

@[simp] theorem notes_aplicar (f : Manager → α × Manager) : (aplicar f).notes a = [] := rfl

@[simp] theorem notes_hacer (f : Manager → Manager) : (hacer f).notes a = [] := rfl

@[simp] theorem notes_leer (f : Manager → α) : (leer f).notes a = [] := rfl

@[simp] theorem notes_sendMessage (conn : Conn) (msg : Message) :
    (sendMessage conn msg).notes a = [] := by
  unfold sendMessage enqueueWrite
  simp only [notes_bind, notes_hacer, notes_lock, List.nil_append]
  split
  · rfl
  · rfl

theorem notes_processReserve (conn : Conn) (jobId : Int32) (type : Resource)
    (amount : Int32) : (processReserve conn jobId type amount).notes a = [] := by
  unfold processReserve reserveResource
  simp only [notes_bind, notes_lock, notes_aplicar, notes_unlock, notes_pure, List.nil_append]
  split
  all_goals simp

theorem mem_notes_tablaJobsBuscarPorId (jobId : Int32) :
    bucketOf jobId ∈ (tablaJobsBuscarPorId jobId).notes a := List.mem_cons_self

theorem mem_notes_tablaJobsExtractById (jobId : Int32) :
    bucketOf jobId ∈ (tablaJobsExtractById jobId).notes a := List.mem_cons_self

theorem mem_notes_tablaJobsRemove (jobId : Int32) (takeLock takeLockReserve : Bool) :
    bucketOf jobId ∈ (tablaJobsRemove jobId takeLock takeLockReserve).notes a := by
  unfold tablaJobsRemove
  rw [notes_bind, notes_bind]
  exact List.mem_append_right _ (List.mem_append_left _ (mem_notes_tablaJobsExtractById _ jobId))

theorem mem_notes_tablaJobsGetConn (jobId : Int32) (takeLock : Bool) :
    bucketOf jobId ∈ (tablaJobsGetConn jobId takeLock).notes a := by
  unfold tablaJobsGetConn
  rw [notes_bind, notes_bind]
  exact List.mem_append_right _ (List.mem_append_left _ (mem_notes_tablaJobsBuscarPorId _ jobId))

/-- A lock taken first notes nothing. -/
theorem mem_notes_lock {m : Mutex} {p : Rutina α} {g : α → Rutina β} {i : ℕ}
    (h : i ∈ p.notes a) : i ∈ (lock m >>= fun _ => p >>= g).notes a := by
  rw [notes_bind, notes_bind]
  exact List.mem_append_right _ (List.mem_append_left _ h)

/-- `GRANTED` goes to the table if its connection has an address. -/
theorem mem_notes_processGranted {conn : Conn} {ipRemoto : CString}
    (hip : Hpc.tablaConnsGetIpByConn a.manager.conns conn = some ipRemoto) (jobId : Int32) :
    bucketOf jobId ∈ (processGranted conn jobId).notes a := by
  unfold processGranted
  rw [notes_bind, run_tablaConnsGetIpByConn, hip]
  exact List.mem_append_right _ (mem_notes_lock a (mem_notes_tablaJobsBuscarPorId a jobId))

theorem notes_processGranted {conn : Conn}
    (hip : Hpc.tablaConnsGetIpByConn a.manager.conns conn = none) (jobId : Int32) :
    (processGranted conn jobId).notes a = [] := by
  unfold processGranted tablaConnsGetIpByConn buscarBajo
  simp [hip]

/-- **A line whose id has no bucket in the array leaves it**, unless it is a `RESERVE`. -/
theorem exists_mem_notes_handle {conn : Conn} {m : Message} (red : Network)
    (hid : ¬ m.EnTabla conn a.manager) (hreserve : ∀ i t x, m ≠ .reserve i t x) :
    ∃ i ∈ (handle conn red m).notes a, ¬ i < TAM_TABLA_JOBS := by
  cases m with
  | reserve i t x => exact absurd rfl (hreserve i t x)
  | release jobId type amount =>
    refine ⟨bucketOf jobId, ?_, mt bucketOf_lt_iff.mp hid⟩
    show _ ∈ (processRelease jobId type amount).notes a
    unfold processRelease
    split
    · simp [mem_notes_tablaJobsRemove]
    · simp [mem_notes_tablaJobsRemove]
  | granted jobId =>
    obtain ⟨hjob, hip⟩ := not_or.mp hid
    obtain ⟨ipRemoto, hip⟩ := Option.ne_none_iff_exists'.mp hip
    exact ⟨bucketOf jobId, mem_notes_processGranted a hip jobId, mt bucketOf_lt_iff.mp hjob⟩
  | denied jobId =>
    exact ⟨bucketOf jobId, mem_notes_lock a (mem_notes_tablaJobsGetConn a jobId false),
      mt bucketOf_lt_iff.mp hid⟩
  | jobRequest jobId requests =>
    exact ⟨bucketOf jobId, mem_notes_lock a (mem_notes_tablaJobsBuscarPorId a jobId),
      mt bucketOf_lt_iff.mp hid⟩
  | jobRelease jobId =>
    exact ⟨bucketOf jobId, mem_notes_lock a (mem_notes_tablaJobsExtractById a jobId),
      mt bucketOf_lt_iff.mp hid⟩
  | jobStatus jobId =>
    refine ⟨bucketOf jobId, ?_, mt bucketOf_lt_iff.mp hid⟩
    show _ ∈ (processJobStatus conn jobId).notes a
    unfold processJobStatus
    rw [notes_bind]
    exact List.mem_append_left _ (mem_notes_tablaJobsGetConn a jobId true)
  | jobTimeout jobId =>
    refine ⟨bucketOf jobId, ?_, mt bucketOf_lt_iff.mp hid⟩
    show _ ∈ (processJobTimeout jobId).notes a
    unfold processJobTimeout
    rw [notes_bind]
    exact List.mem_append_left _ (mem_notes_tablaJobsRemove a jobId true true)
  | getNodes | jobGranted _ | jobDenied _ | jobStatusIs _ _ | nodes _ | garbage =>
    exact absurd trivial hid

/-! ## What a line that meets the condition does -/

/-- A routine that goes to no bucket and adds nothing to a queue. -/
theorem bucket_lt_of_notes {p : Rutina Unit} (ha : ColasEnTabla a) (hnotes : p.notes a = [])
    (hcola : ∀ tipo, (p.run a).2.manager.cola tipo = a.manager.cola tipo) :
    (∀ i ∈ p.notes a, i < TAM_TABLA_JOBS) ∧ ColasEnTabla (p.run a).2 := by
  refine ⟨fun i hi => absurd (hnotes ▸ hi) List.not_mem_nil, fun tipo p hp => ?_⟩
  exact ha tipo p (hcola tipo ▸ hp)

/-- **A line that meets the condition stays inside the array**, and so do the queues. -/
theorem handle_bucket_lt (ha : ColasEnTabla a) (conn : Conn) (red : Network) {m : Message}
    (hm : m.EnTabla conn a.manager) :
    (∀ i ∈ (handle conn red m).notes a, i < TAM_TABLA_JOBS)
      ∧ ColasEnTabla ((handle conn red m).run a).2 := by
  have hE : ∀ id, EnTabla id → bucketOf id < TAM_TABLA_JOBS := fun _ => bucketOf_lt_iff.mpr
  have hI := conservada_colasEnTabla
  cases m with
  | reserve jobId type amount =>
    by_cases hid : EnTabla jobId
    · exact (ordenada_processReserve hI conn hid type amount).bucket_lt ha
    · -- it is answered at once
      refine bucket_lt_of_notes a ha (notes_processReserve a conn jobId type amount)
        (fun tipo => ?_)
      show ((processReserve conn jobId type amount).run a).2.manager.cola tipo = _
      have hsoon : amount ≤ a.manager.available type ∨ a.manager.total type < amount :=
        hm.resolve_left hid
      rw [manager_processReserve]
      rcases processReserve_cases conn jobId type amount a.manager with
        ⟨-, heq⟩ | ⟨-, -, heq⟩ | ⟨hfits, htotal, -⟩
      · rw [heq, cola_sendMessage, cola_takeUnits]
      · rw [heq, cola_sendMessage]
      · exact absurd hsoon (not_or.mpr ⟨hfits, htotal⟩)
  | release jobId type amount => exact (ordenada_processRelease hI hE hm type amount).bucket_lt ha
  | granted jobId =>
    rcases hm with hid | hip
    · exact (ordenada_processGranted hI hE conn hid).bucket_lt ha
    · refine bucket_lt_of_notes a ha (notes_processGranted a hip jobId) (fun tipo => ?_)
      show ((processGranted conn jobId).run a).2.manager.cola tipo = _
      rw [manager_processGranted, Hpc.processGranted, hip]
  | denied jobId => exact (ordenada_processDenied hI hE hm).bucket_lt ha
  | jobRequest jobId requests =>
    exact (ordenada_processJobRequest hI hE conn hm requests red).bucket_lt ha
  | getNodes => exact (ordenada_processGetNodes hI conn).bucket_lt ha
  | jobRelease jobId => exact (ordenada_processJobRelease hI hE hm).bucket_lt ha
  | jobStatus jobId => exact (ordenada_processJobStatus hI hE conn hm).bucket_lt ha
  | jobTimeout jobId => exact (ordenada_processJobTimeout hI hE hm).bucket_lt ha
  | jobGranted _ | jobDenied _ | jobStatusIs _ _ | nodes _ | garbage =>
    exact (ordenada_pure ()).bucket_lt ha

end Notes

/-- **One call, from queues that stay inside the array.** -/
theorem call_bucket_lt {a : Agente} (ha : ColasEnTabla a) {c : Call}
    (hc : c.EnTabla a.manager) :
    (∀ i ∈ c.buckets a, i < TAM_TABLA_JOBS) ∧ ColasEnTabla (c.rutina.run a).2 := by
  have hE : ∀ id, EnTabla id → bucketOf id < TAM_TABLA_JOBS := fun _ => bucketOf_lt_iff.mpr
  have hI := conservada_colasEnTabla
  cases c with
  | message conn msg red =>
    show (∀ i ∈ (processMessage conn msg red).notes a, _)
      ∧ ColasEnTabla ((processMessage conn msg red).run a).2
    unfold processMessage
    cases hparse : parseMessage msg with
    | none => exact (ordenada_pure ()).bucket_lt ha
    | some m =>
      dsimp only
      rw [notes_bind, notes_hacer, List.nil_append, run_bind]
      exact handle_bucket_lt ((hacer (fun s => s.emit (.rx conn m))).run a).2 ha conn red
        (hc m hparse)
  | ready conn => exact (ordenada_processConnectionReady hI conn).bucket_lt ha
  | failed conn => exact (ordenada_processConnectionFailed hI hE conn).bucket_lt ha
  | disconnect conn => exact (ordenada_processDisconnect hI hE conn).bucket_lt ha
  | announce now ipSender msg => exact (ordenada_processAnnounce hI now ipSender msg).bucket_lt ha
  | purge now timeout =>
    exact (ordenada_tablaNodosPurge hI (libre_nil 2) now timeout).bucket_lt ha

/-- A call that fails the condition leaves the array, or is a `RESERVE`. -/
theorem exists_mem_buckets {a : Agente} {c : Call} (hc : ¬ c.EnTabla a.manager)
    (hreserve : ¬ c.EsReserve) : ∃ i ∈ c.buckets a, ¬ i < TAM_TABLA_JOBS := by
  cases c with
  | message conn msg red =>
    show ∃ i ∈ (processMessage conn msg red).notes a, _
    obtain ⟨m, hm⟩ := not_forall.mp hc
    obtain ⟨hparse, hm⟩ := Classical.not_imp.mp hm
    obtain ⟨i, hi, hlt⟩ := exists_mem_notes_handle (a := ((hacer (fun s =>
      s.emit (.rx conn m))).run a).2) red hm (fun i t x h => hreserve ⟨i, t, x, h ▸ hparse⟩)
    refine ⟨i, ?_, hlt⟩
    unfold processMessage
    rw [hparse]
    dsimp only
    rw [notes_bind]
    exact List.mem_append_right _ hi
  | ready _ | failed _ | disconnect _ | announce _ _ _ | purge _ _ => exact absurd trivial hc

/-- A `RESERVE` goes to no bucket. -/
theorem buckets_of_esReserve {a : Agente} {c : Call} (hc : c.EsReserve) : c.buckets a = [] := by
  cases c with
  | message conn msg red =>
    obtain ⟨jobId, type, amount, hparse⟩ := hc
    show (processMessage conn msg red).notes a = []
    unfold processMessage
    rw [hparse]
    dsimp only
    rw [notes_bind, notes_hacer, List.nil_append]
    exact notes_processReserve _ conn jobId type amount
  | ready _ | failed _ | disconnect _ | announce _ _ _ | purge _ _ => exact hc.elim

end Rutina

/-! ## Runs -/

/-- The queues of every state reached. -/
theorem Agente.colasEnTabla_of_reaches {cpu mem gpu : Int32} {ip : CString} {a : Agente}
    (hrun : Reaches Agente.step (fun a c => c.EnTabla a.manager) (.inicial cpu mem gpu ip) a) :
    Rutina.ColasEnTabla a := by
  refine hrun.invariant (fun tipo p hp => ?_) (fun u c v hu hc hv => ?_)
  · have hcola : (managerInit cpu mem gpu ip).cola tipo = [] := by cases tipo <;> rfl
    exact absurd (hcola ▸ hp) List.not_mem_nil
  · obtain rfl := Option.some.inj hv
    exact (Rutina.call_bucket_lt hu hc).2

/-- **Which lines leave the array.** In a run whose calls meet the condition every bucket
that is computed is in the array, also for the ids that come back out of the queues; and
the next call goes to a bucket behind the array exactly if it fails the condition and is
not a `RESERVE`, whose id is only put in a queue. -/
theorem Agente.bucket_lt_iff {cpu mem gpu : Int32} {ip : CString} {a : Agente}
    (hrun : Reaches Agente.step (fun a c => c.EnTabla a.manager) (.inicial cpu mem gpu ip) a)
    (c : Call) :
    (∀ i ∈ c.buckets a, i < TAM_TABLA_JOBS) ↔ (c.EnTabla a.manager ∨ c.EsReserve) := by
  refine ⟨fun h => ?_, fun h => ?_⟩
  · by_contra hnot
    obtain ⟨hc, hreserve⟩ := not_or.mp hnot
    obtain ⟨i, hi, hlt⟩ := Rutina.exists_mem_buckets hc hreserve
    exact hlt (h i hi)
  · rcases h with hc | hreserve
    · exact (Rutina.call_bucket_lt (colasEnTabla_of_reaches hrun) hc).1
    · intro i hi
      rw [Rutina.buckets_of_esReserve hreserve] at hi
      exact absurd hi List.not_mem_nil

/-- After a `RESERVE` of a negative id that is denied at once, a `DENIED` of job 75. -/
theorem Agente.bucket_lt_iff_denied :
    ∃ a, Reaches Agente.step (fun a c => c.EnTabla a.manager)
        (.inicial 4 8 1 "10.0.0.1".toList) a
      ∧ ∀ i ∈ (Call.message 3 "DENIED 75".toList []).buckets a, i < TAM_TABLA_JOBS := by
  have hreserve : parseMessage "RESERVE -1 cpu 9".toList = some (.reserve (-1) .cpu 9) := by
    decide +kernel
  have hdenied : parseMessage "DENIED 75".toList = some (.denied 75) := by decide +kernel
  have hrun : Reaches Agente.step (fun a c => c.EnTabla a.manager)
      (.inicial 4 8 1 "10.0.0.1".toList)
      ((Call.message 3 "RESERVE -1 cpu 9".toList []).rutina.run
        (.inicial 4 8 1 "10.0.0.1".toList)).2 := by
    refine (Reaches.refl _).tail (a := .message 3 "RESERVE -1 cpu 9".toList []) (fun m hm => ?_) rfl
    obtain rfl := Option.some.inj (hreserve.symm.trans hm)
    exact Or.inr (Or.inr (by decide))
  refine ⟨_, hrun, (bucket_lt_iff hrun _).mpr (Or.inl (fun m hm => ?_))⟩
  obtain rfl := Option.some.inj (hdenied.symm.trans hm)
  exact Or.inl (by decide)

/-- **A negative id**: `JOB_STATUS -1` goes to bucket 4294967295. -/
theorem Agente.buckets_minus_one :
    (Call.message 3 "JOB_STATUS -1".toList []).buckets (.inicial 4 8 1 "10.0.0.1".toList)
        = [4294967295]
      ∧ ¬ 4294967295 < TAM_TABLA_JOBS := by
  refine ⟨?_, by decide⟩
  decide +kernel

end Hpc
