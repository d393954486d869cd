import HpcAgent.Ledger
import HpcAgent.MicroSteps

/-!
# The answers to `RESERVE`

A `RESERVE` is answered `GRANTED` or `DENIED` on its connection, at once or when its
entry comes to the top of the queue. Neither answer names the resource, so what a node
can count on is their number. For a connection and a job the log has the `RESERVE`
lines that came and the answers that went, the queues have the entries that wait, and
`Manager.saldo` is what the first are more than the others. No call makes it
smaller, and only what takes entries out of a queue unanswered makes it larger: the end
of a job with that id, or of that connection (`reserve_answered`).
-/

namespace Hpc

/-! ## Every job of a run -/

/-- What is true of a new job and of a job after each change the agent makes to it. -/
structure Job.Estable (G : Guardia) (P : Job → Prop) : Prop where
  nuevo : ∀ s conn jobId requests, G.message s conn (.jobRequest jobId requests) →
    P ⟨jobId, conn, [], []⟩
  addLocal : ∀ job head ip r, P job → P (job.addLocal head ip r)
  sent : ∀ job head conn, P job → P (job.addRemote head conn none)
  connecting : ∀ job head conn, P job →
    P (job.addRemote head conn (some (ResourceRequest.reserve head job.jobId)))
  markGranted : ∀ job conn tipo, P job → P (job.markGranted conn tipo)
  confirmar : ∀ job ip, P job → P (jobConfirmar job ip job.jobId).2
  dropRemote : ∀ job conn, P job → P (job.dropRemote conn)

/-- What holds of every job holds of those that stay when a connection is lost. -/
theorem TablaJobs.forall_extractByRemoteConn {P : Job → Prop} {t : TablaJobs} {conn : Conn}
    (h : t.Forall P) (hdrop : ∀ j, P j → P (j.dropRemote conn)) :
    (tablaJobsExtractByRemoteConn t conn).2.Forall P := by
  intro i j hj
  change j ∈ (if i < TAM_TABLA_JOBS then (extractBucket conn (t.bucket i) []).1
    else t.bucket i) at hj
  split at hj
  · rw [extractBucket_eq, List.mem_filter, List.mem_map] at hj
    obtain ⟨⟨j, hmem, rfl⟩, -⟩ := hj
    exact hdrop j (h i j hmem)
  · exact h i j hj

/-- The jobs of the table and the one being built. -/
structure Todos (P : Job → Prop) (c : Manager × List Obra) : Prop where
  tabla : c.1.tabla.Forall P
  nueva : ∀ requests next job, .nueva requests next job ∈ c.2 → P job

namespace Todos

variable {G : Guardia} {P : Job → Prop}

theorem processGranted (hP : Job.Estable G P) {s : Manager} (h : s.tabla.Forall P) (conn : Conn)
    (jobId : Int32) : (processGranted conn jobId s).tabla.Forall P := by
  unfold Hpc.processGranted
  split
  · exact h
  · next ip _ =>
    split
    · exact h
    · have hconfirmar : (tablaJobsJobConfirmar s.tabla ip jobId).Forall P :=
        Buckets.Forall.modifyFirst_of_match (f := fun j => (jobConfirmar j ip jobId).2) h
          (fun _ hPj => hPj) (fun j hj hPj => eq_of_beq hj ▸ hP.confirmar j ip hPj)
      dsimp only
      split
      · exact hconfirmar
      · exact hconfirmar

/-- Work on a job that is built already. -/
theorem vieja {s s' : Manager} {w w' : List Obra} (h : Todos P (s, w))
    (ht : s'.tabla.Forall P) (hw : ∀ o ∈ w', o ∈ w ∨ ∀ requests next job,
      o ≠ .nueva requests next job) : Todos P (s', w') := by
  refine ⟨ht, fun requests next job hmem => ?_⟩
  rcases hw _ hmem with hold | hother
  · exact h.nueva requests next job hold
  · exact absurd rfl (hother requests next job)

/-- The job being built. -/
theorem sola {s : Manager} {requests next : List ResourceRequest} {job : Job}
    (ht : s.tabla.Forall P) (hjob : P job) : Todos P (s, [.nueva requests next job]) := by
  refine ⟨ht, fun requests' next' job' hmem => ?_⟩
  obtain ⟨-, -, rfl⟩ := Obra.nueva.inj (List.mem_singleton.mp hmem)
  exact hjob

/-- **What the agent keeps true of a job it keeps true of all.** -/
theorem paso (hP : Job.Estable G P) {c d : Manager × List Obra} (h : Todos P c)
    (hpaso : Paso G c d) : Todos P d := by
  have ht := h.tabla
  cases hpaso with
  | dequeue tipo top rest =>
    refine h.vieja ?_ (fun o ho => Or.inl ho)
    rw [dequeueTop_eq, tabla_answerTop]
    exact TablaJobs.forall_cambioAlloc ht (fun j hj => hP.markGranted j _ _ hj)
  | granted conn jobId =>
    exact h.vieja (processGranted hP (s := Manager.emit _ _) ht conn jobId) (fun o ho => Or.inl ho)
  | extract jobId job =>
    refine h.vieja (TablaJobs.forall_extractById ht jobId) (fun o ho => ?_)
    rcases List.mem_cons.mp ho with rfl | ho
    · exact Or.inr (fun _ _ _ => Obra.noConfusion)
    · exact Or.inl ho
  | lose conn =>
    refine h.vieja (TablaJobs.forall_extractByRemoteConn ht (fun j => hP.dropRemote j conn)) (fun o ho => Or.inr (fun _ _ _ heq => ?_))
    rcases List.mem_append.mp ho with ho | ho
    · obtain ⟨j, -, rfl⟩ := List.mem_map.mp ho
      exact Obra.noConfusion heq
    · exact Obra.noConfusion ((List.mem_singleton.mp ho).symm.trans heq)
  | nuevo conn jobId requests hG => exact sola ht (hP.nuevo _ conn jobId requests hG)
  | localGranted requests next head job =>
    exact sola ht (hP.addLocal job head _ _ (h.nueva _ _ job List.mem_cons_self))
  | localQueued requests next head job =>
    exact sola ht (hP.addLocal job head _ _ (h.nueva _ _ job List.mem_cons_self))
  | remoteSent requests next head job remote =>
    exact sola ht (hP.sent job head remote (h.nueva _ _ job List.mem_cons_self))
  | remoteConnecting requests next head job conn =>
    exact sola ht (hP.connecting job head conn (h.nueva _ _ job List.mem_cons_self))
  | insertar requests job =>
    refine h.vieja ?_ (fun o ho => absurd ho List.not_mem_nil)
    rw [tabla_insertJob]
    exact Buckets.Forall.cons ht (h.nueva _ _ job List.mem_cons_self)
  | reserve conn jobId type amount =>
    refine h.vieja ?_ (fun o ho => Or.inl ho)
    rcases processReserve_cases conn jobId type amount _ with
      ⟨-, heq⟩ | ⟨-, -, heq⟩ | ⟨-, -, heq⟩ <;> rw [heq] <;> exact ht
  | listo conn =>
    refine h.vieja ?_ (fun o ho => Or.inl ho)
    obtain ⟨conns, heq⟩ := processConnectionReady_eq _ conn
    rw [heq]
    exact ht
  | abandonar requests next job =>
    refine h.vieja ht (fun o ho => Or.inr (fun _ _ _ heq => ?_))
    rcases List.mem_cons.mp ho with rfl | ho
    · exact Obra.noConfusion heq
    · exact Obra.noConfusion ((List.mem_singleton.mp ho).symm.trans heq)
  | _ => exact h.vieja ht (by simp +contextual)

/-- **It is true of every job of the table along every run.** -/
theorem of_reaches (hP : Job.Estable G P) {cpu mem gpu : Int32} {ip : CString} {s : Manager}
    (hrun : Reaches Manager.step G.allows (managerInit cpu mem gpu ip) s) :
    s.tabla.Forall P :=
  (pasos_of_reaches (I := Todos P) hrun
    ⟨Buckets.forall_empty, fun _ _ _ h => absurd h List.not_mem_nil⟩
    (fun _ _ h hpaso => h.paso hP hpaso)).tabla

end Todos

/-! ## The balance of a connection and a job -/

/-- An entry that came as a `RESERVE` of the job on the connection. -/
def PendingRequest.deReserva (jobId : Int32) (conn : Conn) (p : PendingRequest) : Bool :=
  p.ofRemote jobId && p.ownerConn == conn

/-- A `RESERVE` of the job came on the connection. -/
def Event.reserva (jobId : Int32) (conn : Conn) : Event → Bool
  | .rx c (.reserve i _ _) => c == conn && i == jobId
  | _ => false

/-- A `GRANTED` or a `DENIED` for the job went out on the connection. -/
def Event.contesta (jobId : Int32) (conn : Conn) : Event → Bool
  | .tx c (.granted i) | .tx c (.denied i) => c == conn && i == jobId
  | _ => false

/-- The `RESERVE` lines of the job that came on the connection. -/
def Manager.reservas (jobId : Int32) (conn : Conn) (s : Manager) : ℕ :=
  s.log.countP (Event.reserva jobId conn)

/-- The answers that went out. -/
def Manager.contestadas (jobId : Int32) (conn : Conn) (s : Manager) : ℕ :=
  s.log.countP (Event.contesta jobId conn)

/-- The entries that wait. -/
def Manager.aguardan (jobId : Int32) (conn : Conn) (s : Manager) : ℕ :=
  (s.cola .cpu).countP (PendingRequest.deReserva jobId conn)
    + (s.cola .mem).countP (PendingRequest.deReserva jobId conn)
    + (s.cola .gpu).countP (PendingRequest.deReserva jobId conn)

/-- The `RESERVE` lines that neither were answered nor wait. -/
def Manager.saldo (jobId : Int32) (conn : Conn) (s : Manager) : ℤ :=
  s.reservas jobId conn - (s.contestadas jobId conn + s.aguardan jobId conn : ℕ)

/-- A line that makes the agent take entries of the job out of its queues. -/
def Message.retira (jobId : Int32) : Message → Bool
  | .release i _ _ | .denied i | .jobRelease i | .jobTimeout i | .jobRequest i _ => i == jobId
  | _ => false

/-- A call that takes no entry of the job and the connection out of a queue
unanswered. -/
def Call.Respeta (jobId : Int32) (conn : Conn) : Call → Prop
  | .message _ msg _ => ∀ m ∈ parseMessage msg, m.retira jobId = false
  | .disconnect c => c ≠ conn
  | _ => True

instance (jobId : Int32) (conn : Conn) (call : Call) : Decidable (call.Respeta jobId conn) := by
  cases call with
  | message c msg red =>
    exact inferInstanceAs (Decidable (∀ m ∈ parseMessage msg, m.retira jobId = false))
  | disconnect c => exact inferInstanceAs (Decidable (c ≠ conn))
  | _ => exact inferInstanceAs (Decidable True)

/-- A job of another id, with its allocations. -/
def Job.Otra (jobId : Int32) (j : Job) : Prop :=
  j.jobId ≠ jobId ∧ ∀ a ∈ j.confirmadas, a.jobId ≠ jobId

/-- What a pending request has to say is a `RESERVE`. -/
def Job.SoloReserva (j : Job) : Prop :=
  ∀ o ∈ j.pendientes, ∀ m ∈ o.msg, ∃ i type amount, m = .reserve i type amount

/-- The balance does not fall, and under the condition it does not rise either. -/
structure Salda (jobId : Int32) (conn : Conn) (libre : Prop) (s v : Manager) : Prop where
  crece : s.saldo jobId conn ≤ v.saldo jobId conn
  igual : libre → v.saldo jobId conn = s.saldo jobId conn

namespace Salda

variable {jobId : Int32} {conn : Conn} {libre : Prop} {s u v : Manager}

theorem of_eq (h : v.saldo jobId conn = s.saldo jobId conn) : Salda jobId conn libre s v :=
  ⟨h.ge, fun _ => h⟩

theorem refl (s : Manager) : Salda jobId conn libre s s := of_eq rfl

theorem trans (h : Salda jobId conn libre s u) (h' : Salda jobId conn libre u v) :
    Salda jobId conn libre s v :=
  ⟨h.crece.trans h'.crece, fun hl => (h'.igual hl).trans (h.igual hl)⟩

/-- Under more it rises less. -/
theorem mono {libre' : Prop} (h : Salda jobId conn libre s v) (himp : libre' → libre) :
    Salda jobId conn libre' s v :=
  ⟨h.crece, fun hl => h.igual (himp hl)⟩

/-- A loop of such steps. -/
theorem foldl {α : Type} {f : Manager → α → Manager} {l : List α}
    (round : ∀ s, ∀ a ∈ l, Salda jobId conn libre s (f s a)) (s : Manager) :
    Salda jobId conn libre s (l.foldl f s) := by
  induction l generalizing s with
  | nil => exact refl s
  | cons a l ih =>
    exact (round s a List.mem_cons_self).trans
      (ih (fun s b hb => round s b (List.mem_cons_of_mem a hb)) (f s a))

theorem countP_ajenos {es : List Event}
    (hes : ∀ e ∈ es, e.reserva jobId conn = false ∧ e.contesta jobId conn = false) :
    es.countP (Event.reserva jobId conn) = 0 ∧ es.countP (Event.contesta jobId conn) = 0 :=
  ⟨List.countP_eq_zero.mpr (fun e he => by simp [(hes e he).1]),
    List.countP_eq_zero.mpr (fun e he => by simp [(hes e he).2])⟩

/-- The queues stay, and what is recorded is none of this. -/
theorem of_log {es : List Event} (hc : ∀ t, v.cola t = s.cola t) (hlog : v.log = s.log ++ es)
    (hes : ∀ e ∈ es, e.reserva jobId conn = false ∧ e.contesta jobId conn = false) :
    Salda jobId conn libre s v := by
  refine of_eq ?_
  obtain ⟨hreserva, hcontesta⟩ := countP_ajenos hes
  unfold Manager.saldo Manager.reservas Manager.contestadas Manager.aguardan
  rw [hlog, List.countP_append, List.countP_append, hreserva, hcontesta, hc, hc, hc]
  rfl

theorem emit (s : Manager) {e : Event} (h : e.reserva jobId conn = false)
    (h' : e.contesta jobId conn = false) : Salda jobId conn libre s (s.emit e) :=
  of_log (fun _ => rfl) (Manager.log_emit s e)
    (fun _ hf => (List.mem_singleton.mp hf) ▸ ⟨h, h'⟩)

theorem sendMessage (s : Manager) (c : Conn) {m : Message}
    (h : (Event.tx c m).contesta jobId conn = false) :
    Salda jobId conn libre s (sendMessage c m s) :=
  emit s rfl h

theorem sendJobGranted (s : Manager) (i : Int32) (c : Conn) :
    Salda jobId conn libre s (sendJobGranted i c s) :=
  (emit s rfl rfl).trans (sendMessage _ c rfl)

/-- Entries leave the queues unanswered. -/
theorem of_sublist (hlog : v.log = s.log) (hc : ∀ t, (v.cola t).Sublist (s.cola t))
    (hlibre : libre → ∀ t, (v.cola t).countP (PendingRequest.deReserva jobId conn)
      = (s.cola t).countP (PendingRequest.deReserva jobId conn)) :
    Salda jobId conn libre s v := by
  have hle := fun t => (hc t).countP_le (p := PendingRequest.deReserva jobId conn)
  refine ⟨?_, fun hl => ?_⟩
  · have hcpu := hle .cpu
    have hmem := hle .mem
    have hgpu := hle .gpu
    unfold Manager.saldo Manager.reservas Manager.contestadas Manager.aguardan
    rw [hlog]
    omega
  · unfold Manager.saldo Manager.reservas Manager.contestadas Manager.aguardan
    rw [hlog, hlibre hl, hlibre hl, hlibre hl]

/-- A purge that spares the entries. -/
theorem countP_filter {l : List PendingRequest} {b : PendingRequest → Bool}
    (h : ∀ p, p.deReserva jobId conn = true → b p = false) :
    (l.filter (fun p => !b p)).countP (PendingRequest.deReserva jobId conn)
      = l.countP (PendingRequest.deReserva jobId conn) := by
  rw [List.countP_filter]
  refine List.countP_congr (fun p _ => ?_)
  rw [Bool.and_eq_true, Bool.not_eq_true']
  exact ⟨fun hp => hp.1, fun hp => ⟨hp, h p hp⟩⟩

theorem limpiarColasPorId (i : Int32) (s : Manager) :
    Salda jobId conn (i ≠ jobId) s (limpiarColasPorId i s) := by
  refine of_sublist rfl (fun t => List.filter_sublist) (fun hne t => ?_)
  refine countP_filter (fun p hp => beq_false_of_ne (fun hid => hne ?_))
  unfold PendingRequest.deReserva PendingRequest.ofRemote at hp
  rw [Bool.and_eq_true, Bool.and_eq_true, beq_iff_eq, beq_iff_eq] at hp
  exact hid.symm.trans hp.1.2

theorem limpiarColasPorConn (c : Conn) (s : Manager) :
    Salda jobId conn (c ≠ conn) s (limpiarColasPorConn c s) := by
  refine of_sublist rfl (fun t => List.filter_sublist) (fun hne t => ?_)
  refine countP_filter (fun p hp => beq_false_of_ne (fun hid => hne ?_))
  unfold PendingRequest.deReserva at hp
  rw [Bool.and_eq_true, beq_iff_eq] at hp
  exact hid.symm.trans hp.2

variable (jobId conn) in
/-- One queue changes. -/
theorem aguardan_add {tipo : Resource} {l : List PendingRequest}
    (h : ∀ t, v.cola t = if t = tipo then l else s.cola t) :
    v.aguardan jobId conn + (s.cola tipo).countP (PendingRequest.deReserva jobId conn)
      = s.aguardan jobId conn + l.countP (PendingRequest.deReserva jobId conn) := by
  unfold Manager.aguardan
  rw [h, h, h]
  cases tipo <;> simp <;> omega

theorem takeUnits (tipo : Resource) (p : PendingRequest) (s : Manager) :
    Salda jobId conn libre s (takeUnits tipo p s) :=
  of_log (cola_takeUnits s · tipo p) (log_takeUnits s tipo p)
    (fun _ he => (List.mem_singleton.mp he) ▸ ⟨rfl, rfl⟩)

/-- A local entry waits on nobody's `RESERVE`. -/
theorem enqueue {p : PendingRequest} (hlocal : p.origen = .originLocal) (tipo : Resource)
    (s : Manager) : Salda jobId conn libre s (enqueue tipo p s) := by
  refine of_eq ?_
  have hp : p.deReserva jobId conn = false := by
    unfold PendingRequest.deReserva PendingRequest.ofRemote
    rw [hlocal]
    rfl
  have hcount := aguardan_add jobId conn (cola_enqueue s · tipo p)
  rw [List.countP_append, List.countP_singleton, hp] at hcount
  unfold Manager.saldo Manager.reservas Manager.contestadas
  rw [log_enqueue]
  simp only [Bool.false_eq_true, if_false] at hcount
  omega

variable (jobId conn) in
/-- What is recorded when a local entry is taken off a queue. -/
theorem log_dequeueTop_silent (tipo : Resource) {top : PendingRequest}
    (hlocal : top.origen = .originLocal) (s : Manager) :
    ∃ es, (dequeueTop tipo top s).log = s.log ++ es
      ∧ ∀ e ∈ es, e.reserva jobId conn = false ∧ e.contesta jobId conn = false := by
  rw [dequeueTop_eq]
  unfold answerTop
  rw [hlocal]
  dsimp only
  split
  · rw [log_sendJobGranted, markTop, Manager.log_setTabla, log_popTop, List.append_assoc,
      List.append_assoc]
    refine ⟨_, rfl, fun e he => ?_⟩
    simp only [List.mem_append, List.mem_cons, List.not_mem_nil, or_false] at he
    rcases he with rfl | rfl | rfl <;> exact ⟨rfl, rfl⟩
  · exact ⟨[.grant tipo top], rfl, fun _ he => (List.mem_singleton.mp he) ▸ ⟨rfl, rfl⟩⟩

/-- **An entry that is taken off a queue is answered**, if it came as a `RESERVE`. -/
theorem dequeueTop {tipo : Resource} {top : PendingRequest} {rest : List PendingRequest}
    (hc : s.cola tipo = top :: rest) : Salda jobId conn libre s (dequeueTop tipo top s) := by
  refine of_eq ?_
  have hcola : ∀ t, (Hpc.dequeueTop tipo top s).cola t = if t = tipo then rest else s.cola t :=
    fun t => cola_dequeueTop s tipo t hc
  have hcount := aguardan_add jobId conn hcola
  rw [hc, List.countP_cons] at hcount
  have hreserva : (Hpc.dequeueTop tipo top s).reservas jobId conn = s.reservas jobId conn
      ∧ (Hpc.dequeueTop tipo top s).contestadas jobId conn
        = s.contestadas jobId conn + if top.deReserva jobId conn then 1 else 0 := by
    unfold Manager.reservas Manager.contestadas
    by_cases hremote : top.origen = .originRemote
    · have hanswer : Event.contesta jobId conn (.tx top.ownerConn (.granted top.jobId))
          = top.deReserva jobId conn := by
        unfold PendingRequest.deReserva PendingRequest.ofRemote
        rw [hremote]
        exact Bool.and_comm _ _
      rw [log_dequeueTop_remote s tipo top hremote, List.countP_append, List.countP_append,
        List.countP_append, List.countP_append, List.countP_singleton, List.countP_singleton,
        List.countP_singleton, List.countP_singleton, hanswer]
      exact ⟨rfl, rfl⟩
    · have hlocal := Origin.eq_originLocal hremote
      obtain ⟨es, hlog, hes⟩ := log_dequeueTop_silent jobId conn tipo hlocal s
      have hother : top.deReserva jobId conn = false := by
        unfold PendingRequest.deReserva PendingRequest.ofRemote
        rw [hlocal]
        rfl
      obtain ⟨hreserva, hcontesta⟩ := countP_ajenos hes
      rw [hlog, List.countP_append, List.countP_append, hother, hreserva, hcontesta]
      exact ⟨rfl, rfl⟩
  unfold Manager.saldo
  rw [hreserva.1, hreserva.2]
  omega

theorem releaseResource (tipo : Resource) (amount : Int32) (s : Manager) :
    Salda jobId conn libre s (releaseResource tipo amount s) := by
  rw [releaseResource_eq]
  split
  · refine serveQueue_invariant (P := Salda jobId conn libre s)
      (fun u top rest hc _ hu => hu.trans (dequeueTop hc)) _ _ ?_
    exact of_log (cola_giveUnits s · tipo amount) (List.append_nil _).symm
      (fun _ he => absurd he List.not_mem_nil)
  · exact refl s

theorem releaseHeld (a : Allocation) (s : Manager) :
    Salda jobId conn libre s (releaseHeld a s) :=
  (emit s rfl rfl).trans (releaseResource _ _ _)

theorem freeAllocation (i : Int32) (a : Allocation) (s : Manager) :
    Salda jobId conn libre s (freeAllocation i a s) := by
  unfold Hpc.freeAllocation
  split
  · exact releaseHeld a s
  · split
    · split
      · exact sendMessage s _ rfl
      · exact refl s
    · exact refl s

theorem freeAllocations (i : Int32) (l : List Allocation) (s : Manager) :
    Salda jobId conn libre s (freeAllocations i l s) :=
  foldl (fun s a _ => freeAllocation i a s) s

theorem setTabla (t : TablaJobs) (s : Manager) : Salda jobId conn libre s (s.setTabla t) :=
  of_log (fun _ => rfl) (List.append_nil _).symm (fun _ he => absurd he List.not_mem_nil)

theorem tablaJobsRemove (i : Int32) (s : Manager) :
    Salda jobId conn libre s (tablaJobsRemove i s) := by
  unfold Hpc.tablaJobsRemove
  split
  · exact refl s
  · exact (setTabla _ s).trans (freeAllocations _ _ _)

/-! ### The branches of `process_message` -/

/-- **A `RESERVE` is answered or waits.** -/
theorem processReserve (c : Conn) (i : Int32) (type : Resource) (amount : Int32) (s : Manager) :
    Salda jobId conn libre s
      (processReserve c i type amount (s.emit (.rx c (.reserve i type amount)))) := by
  refine of_eq ?_
  have hanswer : ∀ (m : Message) (es : List Event), m = .granted i ∨ m = .denied i →
      (∀ e ∈ es, e.reserva jobId conn = false ∧ e.contesta jobId conn = false) →
      ∀ v : Manager, (∀ t, v.cola t = s.cola t) →
      v.log = s.log ++ [.rx c (.reserve i type amount)] ++ es →
      (Hpc.sendMessage c m v).saldo jobId conn = s.saldo jobId conn := by
    intro m es hm hes v hc hlog
    obtain ⟨hreserva, hcontesta⟩ := countP_ajenos hes
    have hsame : (Event.tx c m).contesta jobId conn
        = (Event.rx c (.reserve i type amount)).reserva jobId conn := by
      rcases hm with rfl | rfl <;> rfl
    unfold Manager.saldo Manager.reservas Manager.contestadas Manager.aguardan
    simp only [cola_sendMessage, hc, log_sendMessage, hlog, List.countP_append, hreserva,
      hcontesta, List.countP_singleton, hsame]
    simp [Event.reserva, Event.contesta]
    omega
  rcases processReserve_cases c i type amount (s.emit (.rx c (.reserve i type amount))) with
    ⟨-, heq⟩ | ⟨-, -, heq⟩ | ⟨-, -, heq⟩
  · rw [heq]
    exact hanswer _ [.grant type _] (Or.inl rfl)
      (fun _ he => (List.mem_singleton.mp he) ▸ ⟨rfl, rfl⟩) _ (fun t => cola_takeUnits _ t type _)
      rfl
  · rw [heq]
    exact hanswer _ [] (Or.inr rfl) (fun _ he => absurd he List.not_mem_nil) _ (fun _ => rfl)
      (List.append_nil _).symm
  · rw [heq]
    have hcount := aguardan_add jobId conn
      (cola_enqueue (s.emit (.rx c (.reserve i type amount))) · type ⟨i, amount, c, .originRemote⟩)
    have hsame : PendingRequest.deReserva jobId conn ⟨i, amount, c, .originRemote⟩
        = (Event.rx c (.reserve i type amount)).reserva jobId conn := Bool.and_comm _ _
    rw [List.countP_append, List.countP_singleton, hsame] at hcount
    unfold Manager.saldo Manager.reservas Manager.contestadas
    rw [log_enqueue, Manager.log_emit, List.countP_append, List.countP_append,
      List.countP_singleton, List.countP_singleton]
    have hemit : (s.emit (.rx c (.reserve i type amount))).aguardan jobId conn
        = s.aguardan jobId conn := rfl
    have hnot : (Event.rx c (.reserve i type amount)).contesta jobId conn = false := rfl
    rw [hemit] at hcount
    rw [hnot]
    simp only [Bool.false_eq_true, if_false]
    omega

theorem processRelease (i : Int32) (type : Resource) (amount : Int32) (s : Manager) :
    Salda jobId conn (i ≠ jobId) s (processRelease i type amount s) := by
  unfold Hpc.processRelease
  refine trans ?_ ((tablaJobsRemove i _).trans (limpiarColasPorId i _))
  split
  · exact (emit s rfl rfl).trans (releaseResource _ _ _)
  · exact refl s

theorem processGranted (c : Conn) (i : Int32) (s : Manager) :
    Salda jobId conn libre s (processGranted c i s) := by
  unfold Hpc.processGranted
  split
  · exact refl s
  · split
    · exact ((sendMessage s c rfl).trans (sendMessage _ c rfl)).trans (sendMessage _ c rfl)
    · dsimp only
      split
      · exact (setTabla _ s).trans (sendJobGranted _ _ _)
      · exact setTabla _ s

theorem processDenied (i : Int32) (s : Manager) :
    Salda jobId conn (i ≠ jobId) s (processDenied i s) := by
  unfold Hpc.processDenied
  refine trans ?_ (limpiarColasPorId i _)
  split
  · exact refl s
  · exact (tablaJobsRemove i s).trans (sendMessage _ _ rfl)

theorem rollbackJob (job : Job) (s : Manager) :
    Salda jobId conn (job.jobId ≠ jobId) s (rollbackJob job s) :=
  ((limpiarColasPorId job.jobId s).trans (freeAllocations _ _ _)).trans (sendMessage _ _ rfl)

theorem insertJob (job : Job) (requests : List ResourceRequest) (s : Manager) :
    Salda jobId conn libre s (insertJob job requests s) := by
  unfold Hpc.insertJob
  have hemit : Salda jobId conn libre s
      ((s.setTabla (tablaJobsInsertarJob s.tabla job)).emit (.inserted job requests)) :=
    (setTabla _ s).trans (emit _ rfl rfl)
  dsimp only
  split
  · exact hemit.trans (sendJobGranted _ _ _)
  · exact hemit

theorem processJobRequest (c : Conn) (i : Int32) (requests : List ResourceRequest)
    (red : Network) (s : Manager) :
    Salda jobId conn (i ≠ jobId) s (processJobRequest c i requests red s) := by
  have hloop := requestLoop_invariant
    (P := fun _ job u => job.jobId = i ∧ Salda jobId conn (i ≠ jobId) s u) requests
    (fun _ _ u head _ _ h _ => ⟨h.1, h.2.trans (takeUnits _ _ u)⟩)
    (fun _ _ u head _ _ h _ _ => ⟨h.1, h.2.trans (enqueue rfl _ u)⟩)
    (fun _ _ u head _ remote _ h _ => ⟨h.1, h.2.trans (sendMessage u remote rfl)⟩)
    (fun _ _ u head _ _ _ h _ => ⟨h.1, h.2.trans (emit u rfl rfl)⟩)
    [] red ⟨i, c, [], []⟩ s ⟨rfl, refl s⟩
  rcases processJobRequest_cases c i requests red s with
    ⟨job, -, heq⟩ | ⟨-, hend, heq⟩ | ⟨-, hend, heq⟩
  · rw [heq]
    exact refl s
  · rw [heq]
    rcases hloop with ⟨-, -, h⟩ | ⟨hstop, -⟩
    · exact h.trans (insertJob _ _ _)
    · exact absurd (hend.symm.trans hstop) (by decide)
  · rw [heq]
    rcases hloop with ⟨hdone, -⟩ | ⟨-, -, hid, h⟩
    · exact absurd (hend.symm.trans hdone) (by decide)
    · exact h.trans ((rollbackJob _ _).mono (fun hne hsame => hne (hid.symm.trans hsame)))

theorem jobReleaseAllocation (a : Allocation) (s : Manager) :
    Salda jobId conn (a.jobId ≠ jobId) s (jobReleaseAllocation a s) := by
  unfold Hpc.jobReleaseAllocation
  have hfirst : Salda jobId conn (a.jobId ≠ jobId) s
      (if a.held then Hpc.releaseHeld a s else Hpc.limpiarColasPorId a.jobId s) := by
    split
    · exact releaseHeld a s
    · exact limpiarColasPorId a.jobId s
  dsimp only
  split
  · exact hfirst.trans (sendMessage _ _ rfl)
  · exact hfirst

theorem processJobRelease {s : Manager} (i : Int32)
    (hotra : libre → s.tabla.Forall (Job.Otra jobId)) (hlibre : libre → i ≠ jobId) :
    Salda jobId conn libre s (processJobRelease i s) := by
  cases hfind : tablaJobsBuscarPorId s.tabla i with
  | none =>
    rw [processJobRelease_of_none hfind]
    exact refl s
  | some job =>
    rw [processJobRelease_of_some hfind]
    refine ((setTabla _ s).trans (foldl (fun u a ha => ?_) _)).trans
      ((limpiarColasPorId i _).mono hlibre)
    exact (jobReleaseAllocation a u).mono
      (fun hl => (TablaJobs.forall_buscarPorId (hotra hl) hfind).2 a ha)

theorem handle {s : Manager} (c : Conn) (red : Network) (m : Message)
    (hotra : libre → s.tabla.Forall (Job.Otra jobId)) (hlibre : libre → m.retira jobId = false) :
    Salda jobId conn libre s (handle c red m (s.emit (.rx c m))) := by
  have hne : ∀ i : Int32, m.retira jobId = (i == jobId) → libre → i ≠ jobId := by
    intro i hi hl
    exact ne_of_beq_false (hi ▸ hlibre hl)
  cases m with
  | reserve i type amount => exact processReserve c i type amount s
  | release i type amount =>
    exact (emit s rfl rfl).trans ((processRelease i type amount _).mono (hne i rfl))
  | granted i => exact (emit s rfl rfl).trans (processGranted c i _)
  | denied i => exact (emit s rfl rfl).trans ((processDenied i _).mono (hne i rfl))
  | jobRequest i requests =>
    exact (emit s rfl rfl).trans ((processJobRequest c i requests red _).mono (hne i rfl))
  | jobRelease i => exact (emit s rfl rfl).trans (processJobRelease i hotra (hne i rfl))
  | jobTimeout i =>
    exact (emit s rfl rfl).trans ((tablaJobsRemove i _).trans
      ((limpiarColasPorId i _).mono (hne i rfl)))
  | getNodes => exact (emit s rfl rfl).trans (sendMessage _ _ rfl)
  | jobStatus i => exact (emit s rfl rfl).trans (sendMessage _ _ rfl)
  | _ => exact emit s rfl rfl

/-! ### The connection events -/

theorem dropJobs {s : Manager} (c : Conn) (hotra : libre → s.tabla.Forall (Job.Otra jobId)) :
    Salda jobId conn libre s (dropJobs c s) := by
  refine (setTabla _ s).trans (foldl (fun u job hjob => ?_) _)
  refine ((limpiarColasPorId job.jobId u).mono (fun hl => ?_)).trans (freeAllocations _ _ _)
  rw [TablaJobs.extractByRemoteConn_fst, List.mem_reverse, List.mem_filter, List.mem_map] at hjob
  obtain ⟨⟨j, hj, rfl⟩, -⟩ := hjob
  exact (Buckets.Forall.of_mem_toList (hotra hl) hj).1

theorem processDisconnect {s : Manager} (c : Conn)
    (hotra : libre → s.tabla.Forall (Job.Otra jobId)) (hlibre : libre → c ≠ conn) :
    Salda jobId conn libre s (processDisconnect c s) :=
  (((limpiarColasPorConn c s).mono hlibre).trans (dropJobs c hotra)).trans
    (of_log (fun _ => rfl) (List.append_nil _).symm (fun _ he => absurd he List.not_mem_nil))

theorem processConnectionReady {s : Manager} (c : Conn) (h : s.tabla.Forall Job.SoloReserva) :
    Salda jobId conn libre s (processConnectionReady c s) := by
  obtain ⟨conns, heq⟩ := processConnectionReady_eq s c
  rw [heq]
  refine of_log (fun _ => rfl) rfl (fun e he => ?_)
  obtain ⟨req, hreq, rfl⟩ := List.mem_map.mp he
  obtain ⟨j, hj, o, ho, -, hmsg⟩ := mem_getPendientesByConn hreq
  refine ⟨rfl, ?_⟩
  rw [hmsg]
  cases hline : o.msg with
  | none => rfl
  | some m =>
    obtain ⟨i, type, amount, rfl⟩ := Buckets.Forall.of_mem_toList h hj o ho m hline
    rfl

/-- **No call makes the balance smaller**, and one that takes no entry of the job and the
connection out of a queue unanswered leaves it as it is. -/
theorem call {s : Manager} (hsolo : s.tabla.Forall Job.SoloReserva)
    (hotra : libre → s.tabla.Forall (Job.Otra jobId)) {call : Call}
    (hlibre : libre → call.Respeta jobId conn) : Salda jobId conn libre s (call.run s) := by
  cases call with
  | message c msg red =>
    show Salda jobId conn libre s (processMessage c msg red s)
    unfold processMessage
    cases hparse : parseMessage msg with
    | none => exact refl s
    | some m => exact handle c red m hotra (fun hl => hlibre hl m hparse)
  | ready c => exact processConnectionReady c hsolo
  | failed c => exact dropJobs c hotra
  | disconnect c => exact processDisconnect c hotra hlibre
  | announce now ipSender msg =>
    show Salda jobId conn libre s (processAnnounce now ipSender msg s)
    unfold processAnnounce
    split
    · exact refl s
    · exact of_log (fun _ => rfl) (List.append_nil _).symm (fun _ he => absurd he List.not_mem_nil)
  | purge now timeout =>
    exact of_log (fun _ => rfl) (List.append_nil _).symm (fun _ he => absurd he List.not_mem_nil)

end Salda

/-! ## Runs -/

section Runs

variable {jobId : Int32} {conn : Conn} {cpu mem gpu : Int32} {ip : CString} {s : Manager}

/-- Anything may arrive. -/
def Cualquiera : Guardia where
  message _ _ _ := True
  ids _ := True
  carries _ _ _ := trivial
  lost _ _ := True
  ready _ _ := True

/-- No line ends the job or starts it here. -/
def SinRetirar (jobId : Int32) : Guardia where
  message _ _ m := m.retira jobId = false
  ids _ := True
  carries _ _ _ := trivial
  lost _ _ := True
  ready _ _ := True

/-- A request that waits has its own `RESERVE`, whatever arrives. -/
theorem soloReserva_estable : Job.Estable Cualquiera Job.SoloReserva := by
  refine ⟨fun _ _ _ _ _ _ ho => absurd ho List.not_mem_nil, fun _ _ _ _ h => h,
    fun job head conn h => ?_, fun job head conn h => ?_, fun _ _ _ h => h, fun job ip h => ?_,
    fun _ _ h => h⟩
  · exact List.forall_mem_cons.mpr ⟨fun _ hm => absurd hm (Option.not_mem_none _), h⟩
  · refine List.forall_mem_cons.mpr ⟨fun m hm => ?_, h⟩
    exact ⟨_, _, _, (Option.some.inj hm).symm⟩
  · unfold jobConfirmar
    split
    · exact h
    · exact fun o ho => h o (List.mem_of_mem_eraseP ho)

theorem otra_estable (jobId : Int32) : Job.Estable (SinRetirar jobId) (Job.Otra jobId) := by
  refine ⟨fun s conn i requests hG => ?_, fun job head ip r h => ?_,
    fun _ _ _ h => h, fun _ _ _ h => h, fun job conn tipo h => ?_, fun job ip h => ?_,
    fun job conn h => ?_⟩
  · exact ⟨ne_of_beq_false hG, fun _ ha => absurd ha List.not_mem_nil⟩
  · exact ⟨h.1, List.forall_mem_cons.mpr ⟨h.1, h.2⟩⟩
  · refine ⟨h.1, fun a ha => ?_⟩
    rcases List.mem_of_mem_modifyFirst ha with ha | ⟨b, hb, -, rfl⟩
    · exact h.2 a ha
    · exact h.2 b hb
  · unfold jobConfirmar
    split
    · exact h
    · exact ⟨h.1, List.forall_mem_cons.mpr ⟨h.1, h.2⟩⟩
  · exact ⟨h.1, fun a ha => h.2 a (List.mem_of_mem_filter ha)⟩

theorem Cualquiera.allows_all (s : Manager) (call : Call) : Cualquiera.allows s call := by
  cases call <;> first | exact fun _ _ => trivial | trivial

theorem Call.Respeta.allows {call : Call} (h : call.Respeta jobId conn) (s : Manager) :
    (SinRetirar jobId).allows s call := by
  cases call <;> first | exact h | trivial

/-- **A call along a run.** -/
theorem salda_call {libre : Prop} {call : Call}
    (hrun : Reaches Manager.step (fun _ _ => True) (managerInit cpu mem gpu ip) s)
    (hlibre : libre → call.Respeta jobId conn)
    (hotra : libre → Reaches Manager.step (fun _ call => call.Respeta jobId conn)
      (managerInit cpu mem gpu ip) s) : Salda jobId conn libre s (call.run s) :=
  Salda.call (Todos.of_reaches soloReserva_estable
      (hrun.mono (fun u c _ => Cualquiera.allows_all u c)))
    (fun hl => Todos.of_reaches (otra_estable jobId)
      ((hotra hl).mono (fun u _ hc => hc.allows u))) hlibre

theorem saldo_nonneg
    (hrun : Reaches Manager.step (fun _ _ => True) (managerInit cpu mem gpu ip) s) :
    0 ≤ s.saldo jobId conn := by
  have hinit : (managerInit cpu mem gpu ip).saldo jobId conn = 0 := rfl
  refine (hrun.invariant (I := fun u => Reaches Manager.step (fun _ _ => True)
    (managerInit cpu mem gpu ip) u ∧ 0 ≤ u.saldo jobId conn)
    ⟨.refl _, hinit.ge⟩ (fun u call v hu _ hv => ⟨hu.1.tail trivial hv, ?_⟩)).2
  obtain rfl := Option.some.inj hv
  exact hu.2.trans (@salda_call _ _ _ _ _ _ _ False _ hu.1 False.elim False.elim).crece

theorem saldo_eq_zero (hrun : Reaches Manager.step (fun _ call => call.Respeta jobId conn)
    (managerInit cpu mem gpu ip) s) : s.saldo jobId conn = 0 := by
  have hinit : (managerInit cpu mem gpu ip).saldo jobId conn = 0 := rfl
  refine (hrun.invariant (I := fun u => Reaches Manager.step
    (fun _ call => call.Respeta jobId conn) (managerInit cpu mem gpu ip) u
      ∧ u.saldo jobId conn = 0)
    ⟨.refl _, hinit⟩ (fun u call v hu hcall hv => ⟨hu.1.tail hcall hv, ?_⟩)).2
  obtain rfl := Option.some.inj hv
  have hsalda := @salda_call _ _ _ _ _ _ _ True _ (hu.1.mono (fun _ _ _ => trivial))
    (fun _ => hcall) (fun _ => hu.1)
  exact (hsalda.igual trivial).trans hu.2

/-- **Each `RESERVE` is answered once**: along every run, the answers sent on a connection
for a job and the entries that still wait for one are no more than the `RESERVE` lines of
that job that came on it. They are exactly as many as long as no line ends or starts a
job of that id on this node and the connection is not lost. -/
theorem reserve_answered (jobId : Int32) (conn : Conn) (cpu mem gpu : Int32) (ip : CString)
    (s : Manager) :
    (Reaches Manager.step (fun _ _ => True) (managerInit cpu mem gpu ip) s →
        s.contestadas jobId conn + s.aguardan jobId conn ≤ s.reservas jobId conn)
      ∧ (Reaches Manager.step (fun _ call => call.Respeta jobId conn)
          (managerInit cpu mem gpu ip) s →
        s.contestadas jobId conn + s.aguardan jobId conn = s.reservas jobId conn) := by
  refine ⟨fun hrun => ?_, fun hrun => ?_⟩
  · have hpos : 0 ≤ s.saldo jobId conn := saldo_nonneg hrun
    unfold Manager.saldo at hpos
    omega
  · have hzero : s.saldo jobId conn = 0 := saldo_eq_zero hrun
    unfold Manager.saldo at hzero
    omega

end Runs

/-- Two requests on a connection, one granted and one waiting. -/
theorem reserve_answered_dos :
    ∃ s, Reaches.trace Manager.step (managerInit 4 0 0 "10.0.0.1".toList)
        [.message 1 "RESERVE 7 cpu 3".toList [], .message 1 "RESERVE 7 cpu 2".toList []] = some s
      ∧ s.contestadas 7 1 + s.aguardan 7 1 ≤ s.reservas 7 1
      ∧ s.contestadas 7 1 + s.aguardan 7 1 = s.reservas 7 1
      ∧ s.contestadas 7 1 = 1 ∧ s.aguardan 7 1 = 1 := by
  have hcheck : (Reaches.checked Manager.step (fun _ call => decide (call.Respeta 7 1))
      (managerInit 4 0 0 "10.0.0.1".toList)
      [.message 1 "RESERVE 7 cpu 3".toList [], .message 1 "RESERVE 7 cpu 2".toList []]).any
        (fun s => s.contestadas 7 1 == 1 && s.aguardan 7 1 == 1) = true := by
    decide +kernel
  obtain ⟨s, htrace, hrun, hs⟩ := Reaches.of_checked (fun _ _ => of_decide_eq_true) hcheck
  rw [Bool.and_eq_true, beq_iff_eq, beq_iff_eq] at hs
  obtain ⟨hle, heq⟩ := reserve_answered 7 1 4 0 0 "10.0.0.1".toList s
  exact ⟨s, htrace, hle (hrun.mono (fun _ _ _ => trivial)), heq hrun, hs.1, hs.2⟩

end Hpc
