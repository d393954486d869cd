import HpcAgent.Replies

/-!
# What a node grants to others

`Otorga` ties what the log notes of the service to the lines: the units granted to
jobs of other nodes and those that still wait are among those a `RESERVE` asked for,
with resource and amount, each at most once, and every one that is granted is answered
`GRANTED`. It holds along every run, whoever sends what (`otorga_of_reaches`).
-/

namespace Hpc

/-- The connection, the job, the resource and the amount of a `RESERVE`. -/
abbrev Peticion := Conn × Int32 × Resource × Int32

/-- What the `RESERVE` lines that came ask for. -/
def reservadas (log : List Event) : Multiset Peticion :=
  ↑(log.filterMap (fun e => match e with
    | .rx c (.reserve i t a) => some (c, i, t, a)
    | _ => none))

/-- What was granted to jobs of other nodes. -/
def otorgadas (log : List Event) : Multiset Peticion :=
  ↑(log.filterMap (fun e => match e with
    | .grant t p =>
      if p.origen = .originRemote then some (p.ownerConn, p.jobId, t, p.amount) else none
    | _ => none))

/-- The `GRANTED` lines that went out. -/
def respondidas (log : List Event) : Multiset (Conn × Int32) :=
  ↑(log.filterMap (fun e => match e with
    | .tx c (.granted i) => some (c, i)
    | _ => none))

/-- What waits in the queue of a resource for jobs of other nodes. -/
def Manager.esperan (s : Manager) (t : Resource) : Multiset Peticion :=
  ↑((s.cola t).filterMap (fun p =>
    if p.origen = .originRemote then some (p.ownerConn, p.jobId, t, p.amount) else none))

/-- **Grants are asked for, and answered.** -/
structure Manager.Otorga (s : Manager) : Prop where
  pedidas : otorgadas s.log + (s.esperan .cpu + s.esperan .mem + s.esperan .gpu)
    ≤ reservadas s.log
  respondidas : respondidas s.log = (otorgadas s.log).map (fun p => (p.1, p.2.1))

/-- The event is of no service to other nodes. -/
def Event.aparte : Event → Bool
  | .grant _ p => p.origen != .originRemote
  | .tx _ (.granted _) | .rx _ (.reserve ..) => false
  | _ => true

section Append

variable (log : List Event) {es : List Event}

theorem reservadas_append (es : List Event) :
    reservadas (log ++ es) = reservadas log + reservadas es := by
  unfold reservadas
  rw [List.filterMap_append, Multiset.coe_add]

theorem otorgadas_append (es : List Event) :
    otorgadas (log ++ es) = otorgadas log + otorgadas es := by
  unfold otorgadas
  rw [List.filterMap_append, Multiset.coe_add]

theorem respondidas_append (es : List Event) :
    respondidas (log ++ es) = respondidas log + respondidas es := by
  unfold respondidas
  rw [List.filterMap_append, Multiset.coe_add]

/-- Nothing of it is noted. -/
theorem aparte_eq_zero (hes : ∀ e ∈ es, e.aparte = true) :
    reservadas es = 0 ∧ otorgadas es = 0 ∧ respondidas es = 0 := by
  unfold reservadas otorgadas respondidas
  refine ⟨?_, ?_, ?_⟩ <;>
  · refine congrArg _ (List.filterMap_eq_nil_iff.mpr (fun e he => ?_))
    have haparte := hes e he
    unfold Event.aparte at haparte
    split at haparte <;> first | rfl | simp_all

end Append

/-- The entry of a `RESERVE`. -/
def PendingRequest.peticion (t : Resource) (p : PendingRequest) : Multiset Peticion :=
  if p.origen = .originRemote then {(p.ownerConn, p.jobId, t, p.amount)} else 0

theorem otorgadas_grant (t : Resource) (p : PendingRequest) :
    otorgadas [.grant t p] = p.peticion t := by
  unfold otorgadas PendingRequest.peticion
  by_cases h : p.origen = .originRemote
  · simp [h]
  · simp [h]

/-- One queue changes by an entry. -/
theorem esperan_add {s s' : Manager} {tipo : Resource} {p : PendingRequest}
    (h : ∀ t, (s.cola t).Perm (if t = tipo then p :: s'.cola t else s'.cola t)) :
    s.esperan .cpu + s.esperan .mem + s.esperan .gpu
      = p.peticion tipo + (s'.esperan .cpu + s'.esperan .mem + s'.esperan .gpu) := by
  have hone : ∀ t, s.esperan t = (if t = tipo then p.peticion tipo else 0) + s'.esperan t := by
    intro t
    unfold Manager.esperan PendingRequest.peticion
    rw [Multiset.coe_eq_coe.mpr ((h t).filterMap _)]
    by_cases ht : t = tipo
    · subst ht
      by_cases hp : p.origen = .originRemote
      · simp [hp]
      · simp [hp]
    · simp [ht]
  rw [hone .cpu, hone .mem, hone .gpu]
  cases tipo <;> simp [add_assoc, add_left_comm]

namespace Manager.Otorga

variable {s s' : Manager} {es : List Event}

/-- Nothing of the service is noted, and entries may leave the queues. -/
theorem aparte (h : s.Otorga) (hcola : ∀ t, (s'.cola t).Sublist (s.cola t))
    (hlog : s'.log = s.log ++ es) (hes : ∀ e ∈ es, e.aparte = true) : s'.Otorga := by
  obtain ⟨hreservadas, hotorgadas, hrespondidas⟩ := aparte_eq_zero hes
  have hsub : ∀ t, s'.esperan t ≤ s.esperan t :=
    fun t => Multiset.coe_le.mpr ((hcola t).filterMap _).subperm
  refine ⟨?_, ?_⟩
  · rw [hlog, otorgadas_append, reservadas_append, hotorgadas, hreservadas, add_zero, add_zero]
    exact le_trans (add_le_add_right (add_le_add (add_le_add (hsub _) (hsub _)) (hsub _)) _)
      h.pedidas
  · rw [hlog, respondidas_append, otorgadas_append, hotorgadas, hrespondidas, add_zero, add_zero]
    exact h.respondidas

theorem emit (h : s.Otorga) {e : Event} (he : e.aparte = true) : (s.emit e).Otorga :=
  h.aparte (fun _ => .refl _) (Manager.log_emit s e)
    (fun _ hmem => (List.mem_singleton.mp hmem) ▸ he)

theorem silencio (h : s.Otorga) (hcola : ∀ t, (s'.cola t).Sublist (s.cola t))
    (hlog : s'.log = s.log) : s'.Otorga :=
  h.aparte hcola (hlog.trans (List.append_nil _).symm) (fun _ he => absurd he List.not_mem_nil)

theorem sendJobGranted (h : s.Otorga) (i : Int32) (c : Conn) : (sendJobGranted i c s).Otorga :=
  (h.emit rfl).emit rfl

/-- More was asked for. -/
theorem reserva (h : s.Otorga) (c : Conn) (i : Int32) (t : Resource) (a : Int32) :
    (s.emit (.rx c (.reserve i t a))).Otorga := by
  refine ⟨?_, ?_⟩
  · rw [Manager.log_emit, otorgadas_append, reservadas_append]
    show otorgadas s.log + 0 + _ ≤ _
    rw [add_zero]
    exact le_trans h.pedidas (Multiset.le_add_right _ _)
  · rw [Manager.log_emit, respondidas_append, otorgadas_append]
    show Hpc.respondidas s.log + 0 = (otorgadas s.log + 0).map _
    rw [add_zero, add_zero]
    exact h.respondidas

/-- **A grant to a job of another node**, and its answer. -/
theorem concede (h : s.Otorga) {t : Resource} {p : PendingRequest}
    (hpedidas : otorgadas s.log + (p.peticion t + (s'.esperan .cpu + s'.esperan .mem
      + s'.esperan .gpu)) ≤ reservadas s.log) (hremote : p.origen = .originRemote)
    (hlog : s'.log = s.log ++ [.grant t p] ++ [.tx p.ownerConn (.granted p.jobId)]) :
    s'.Otorga := by
  have hpeticion : p.peticion t = {(p.ownerConn, p.jobId, t, p.amount)} := if_pos hremote
  refine ⟨?_, ?_⟩
  · rw [hlog, otorgadas_append, otorgadas_append, reservadas_append, reservadas_append,
      otorgadas_grant]
    show otorgadas s.log + p.peticion t + 0 + _ ≤ reservadas s.log + 0 + 0
    rw [add_zero, add_zero, add_zero, add_assoc]
    exact hpedidas
  · rw [hlog, respondidas_append, respondidas_append, otorgadas_append, otorgadas_append,
      otorgadas_grant, hpeticion, h.respondidas]
    show _ + 0 + {(p.ownerConn, p.jobId)} = (_ + _ + 0 : Multiset Peticion).map _
    rw [add_zero, add_zero, Multiset.map_add, Multiset.map_singleton]

/-- **A `RESERVE`** is granted, denied or queued. -/
theorem processReserve (h : s.Otorga) (c : Conn) (i : Int32) (type : Resource) (amount : Int32) :
    (processReserve c i type amount (s.emit (.rx c (.reserve i type amount)))).Otorga := by
  have hrx := h.reserva c i type amount
  have hmas : otorgadas (s.emit (.rx c (.reserve i type amount))).log
      + ({(c, i, type, amount)} + (s.esperan .cpu + s.esperan .mem + s.esperan .gpu))
      ≤ reservadas (s.emit (.rx c (.reserve i type amount))).log := by
    rw [Manager.log_emit, otorgadas_append, reservadas_append]
    show otorgadas s.log + 0 + _ ≤ reservadas s.log + {(c, i, type, amount)}
    rw [add_zero, add_left_comm, add_comm]
    exact add_le_add_left h.pedidas _
  rcases processReserve_cases c i type amount (s.emit (.rx c (.reserve i type amount))) with
    ⟨-, heq⟩ | ⟨-, -, heq⟩ | ⟨-, -, heq⟩
  · rw [heq]
    refine hrx.concede (t := type) (p := ⟨i, amount, c, .originRemote⟩) ?_ rfl rfl
    have hcola : ∀ t, (sendMessage c (.granted i) (takeUnits type ⟨i, amount, c, .originRemote⟩
        (s.emit (.rx c (.reserve i type amount))))).esperan t = s.esperan t := by
      intro t
      unfold Manager.esperan
      rw [cola_sendMessage, cola_takeUnits, Manager.cola_emit]
    rw [hcola, hcola, hcola]
    exact hmas
  · rw [heq]
    exact hrx.emit rfl
  · rw [heq]
    have hadd := @esperan_add
      (enqueue type ⟨i, amount, c, .originRemote⟩ (s.emit (.rx c (.reserve i type amount)))) s
      type ⟨i, amount, c, .originRemote⟩ (fun t => by
        rw [cola_enqueue]
        split
        · next ht => rw [ht]; exact List.perm_append_singleton _ _
        · exact .refl _)
    refine ⟨?_, hrx.respondidas⟩
    rw [hadd]
    exact hmas

/-- **An entry taken off a queue** is answered, if it came as a `RESERVE`. -/
theorem dequeueTop (h : s.Otorga) {tipo : Resource} {top : PendingRequest}
    {rest : List PendingRequest} (hc : s.cola tipo = top :: rest) :
    (dequeueTop tipo top s).Otorga := by
  have hcola : ∀ t, (s.cola t).Perm
      (if t = tipo then top :: (Hpc.dequeueTop tipo top s).cola t
        else (Hpc.dequeueTop tipo top s).cola t) := by
    intro t
    rw [cola_dequeueTop s tipo t hc]
    split
    · next ht => rw [ht, hc]
    · exact .refl _
  by_cases hremote : top.origen = .originRemote
  · refine h.concede ?_ hremote (log_dequeueTop_remote s tipo top hremote)
    rw [← esperan_add hcola]
    exact h.pedidas
  · have hgrant : Event.aparte (.grant tipo top) = true := bne_iff_ne.mpr hremote
    have hpop : (markTop tipo top (popTop tipo top s)).Otorga := by
      refine (h.emit hgrant).silencio (fun t => ?_) rfl
      rw [markTop, Manager.cola_setTabla, cola_popTop s t tipo hc]
      split
      · next ht => rw [ht, Manager.cola_emit, hc]; exact List.sublist_cons_self _ _
      · exact .refl _
    rw [dequeueTop_eq]
    unfold answerTop
    rw [Origin.eq_originLocal hremote]
    dsimp only
    split
    · exact hpop.sendJobGranted _ _
    · exact hpop

theorem processGranted (h : s.Otorga) (c : Conn) (i : Int32) : (processGranted c i s).Otorga := by
  unfold Hpc.processGranted
  split
  · exact h
  · next ip _ =>
    split
    · exact ((h.emit (e := .tx c (.release i .cpu 0)) rfl).emit
        (e := .tx c (.release i .mem 0)) rfl).emit (e := .tx c (.release i .gpu 0)) rfl
    · have htabla : (s.setTabla (tablaJobsJobConfirmar s.tabla ip i)).Otorga :=
        h.silencio (fun _ => .refl _) rfl
      dsimp only
      split
      · exact htabla.sendJobGranted _ _
      · exact htabla

theorem insertJob (h : s.Otorga) (job : Job) (requests : List ResourceRequest) :
    (insertJob job requests s).Otorga := by
  have htabla : (s.setTabla (tablaJobsInsertarJob s.tabla job)).Otorga :=
    h.silencio (fun _ => .refl _) rfl
  have hinserta := htabla.emit (e := .inserted job requests) rfl
  unfold Hpc.insertJob
  dsimp only
  split
  · exact hinserta.sendJobGranted _ _
  · exact hinserta

/-- A local request waits. -/
theorem enqueue (h : s.Otorga) {p : PendingRequest} (hlocal : p.origen = .originLocal)
    (tipo : Resource) : (enqueue tipo p s).Otorga := by
  have hcola : ∀ t, (Hpc.enqueue tipo p s).esperan t = s.esperan t := by
    intro t
    unfold Manager.esperan
    rw [cola_enqueue]
    split
    · next ht => simp [ht, hlocal]
    · rfl
  refine ⟨?_, h.respondidas⟩
  rw [hcola, hcola, hcola]
  exact h.pedidas

/-- A connection that comes up is asked over. -/
theorem processConnectionReady (h : s.Otorga) (hsolo : s.tabla.Forall Job.SoloReserva)
    (c : Conn) : (processConnectionReady c s).Otorga := by
  obtain ⟨conns, heq⟩ := processConnectionReady_eq s c
  rw [heq]
  refine h.aparte (fun _ => .refl _) rfl (fun e he => ?_)
  obtain ⟨req, hreq, rfl⟩ := List.mem_map.mp he
  obtain ⟨j, hj, o, ho, -, hmsg⟩ := mem_getPendientesByConn hreq
  rw [hmsg]
  cases hline : o.msg with
  | none => rfl
  | some m =>
    obtain ⟨i, type, amount, rfl⟩ := Buckets.Forall.of_mem_toList hsolo hj o ho m hline
    rfl

/-- **What a small step keeps.** -/
theorem paso {G : Guardia} {c d : Manager × List Obra} (h : c.1.Otorga)
    (hsolo : Todos Job.SoloReserva c) (hpaso : Paso G c d) : d.1.Otorga := by
  cases hpaso with
  | reserve conn jobId type amount => exact h.processReserve conn jobId type amount
  | dequeue tipo top rest hc => exact h.dequeueTop hc
  | granted conn jobId => exact (h.emit rfl).processGranted conn jobId
  | insertar requests job => exact h.insertJob job requests
  | listo conn => exact h.processConnectionReady hsolo.tabla conn
  | mensaje conn m hG hm =>
    refine h.emit ?_
    cases m <;> first | rfl | exact absurd hm Bool.false_ne_true
  | returned conn jobId type amount =>
    exact ((h.emit rfl).emit rfl).silencio (fun t => by rw [cola_giveUnits]) rfl
  | refused conn jobId type amount => exact (h.emit rfl).emit rfl
  | soltar job a rest =>
    exact (h.emit (e := .giveBack a.name a.request) rfl).silencio
      (fun t => by rw [cola_giveUnits]) rfl
  | perder job a rest => exact h.emit rfl
  | avisar job a rest jobId conn => exact h.emit rfl
  | nuevo conn jobId requests => exact h.emit rfl
  | localGranted requests next head job =>
    exact (h.emit (e := .grant head.type (head.pending job)) rfl).silencio
      (fun t => by rw [cola_takeUnits, Manager.cola_emit]) rfl
  | localQueued requests next head job => exact h.enqueue rfl head.type
  | remoteSent requests next head job remote => exact h.emit rfl
  | remoteConnecting requests next head job conn => exact h.emit rfl
  | decir conn m hm =>
    refine h.emit ?_
    cases m <;> first | rfl | exact absurd hm Bool.false_ne_true
  | purgeId jobId => exact h.silencio (fun _ => List.filter_sublist) rfl
  | purgeConn conn => exact h.silencio (fun _ => List.filter_sublist) rfl
  | _ => exact h.silencio (fun _ => .refl _) rfl

end Manager.Otorga

/-- **Grants are asked for, and answered, along every run.** -/
theorem otorga_of_reaches {cpu mem gpu : Int32} {ip : CString} {s : Manager}
    (hrun : Reaches Manager.step (fun _ _ => True) (managerInit cpu mem gpu ip) s) : s.Otorga := by
  have hany := hrun.mono (fun u c _ => Cualquiera.allows_all u c)
  refine (pasos_of_reaches (I := fun c => c.1.Otorga ∧ Todos Job.SoloReserva c) hany
    ⟨⟨le_rfl, rfl⟩, Buckets.forall_empty, fun _ _ _ h => absurd h List.not_mem_nil⟩
    (fun c d h hpaso => ⟨h.1.paso h.2 hpaso, h.2.paso soloReserva_estable hpaso⟩)).1

/-- **What other nodes are granted is what they asked for.** Along every run, whoever sends
what, the grants to jobs of other nodes and the entries that still wait are among the
`RESERVE` lines that came, with connection, job, resource and amount, each at most once;
and the `GRANTED` lines that went out are one for each grant, on its connection. -/
theorem grants_accounted {cpu mem gpu : Int32} {ip : CString} {s : Manager}
    (hrun : Reaches Manager.step (fun _ _ => True) (managerInit cpu mem gpu ip) s) :
    otorgadas s.log + (s.esperan .cpu + s.esperan .mem + s.esperan .gpu) ≤ reservadas s.log
      ∧ respondidas s.log = (otorgadas s.log).map (fun p => (p.1, p.2.1)) :=
  ⟨(otorga_of_reaches hrun).pedidas, (otorga_of_reaches hrun).respondidas⟩

/-- One request is granted, one waits, and one that waited left with its connection. -/
theorem grants_accounted_tres :
    ∃ s, Reaches.trace Manager.step (managerInit 4 0 0 ['A'])
        [.message 1 "RESERVE 7 cpu 3".toList [], .message 2 "RESERVE 8 cpu 2".toList [],
         .message 3 "RESERVE 9 cpu 2".toList [], .disconnect 2] = some s
      ∧ otorgadas s.log = {(1, 7, .cpu, 3)} ∧ s.esperan .cpu = {(3, 9, .cpu, 2)}
      ∧ reservadas s.log = {(1, 7, .cpu, 3), (2, 8, .cpu, 2), (3, 9, .cpu, 2)}
      ∧ otorgadas s.log + (s.esperan .cpu + s.esperan .mem + s.esperan .gpu) ≤ reservadas s.log
      ∧ respondidas s.log = (otorgadas s.log).map (fun p => (p.1, p.2.1)) := by
  have hcheck : (Reaches.checked Manager.step (fun _ _ => true) (managerInit 4 0 0 ['A'])
      [.message 1 "RESERVE 7 cpu 3".toList [], .message 2 "RESERVE 8 cpu 2".toList [],
       .message 3 "RESERVE 9 cpu 2".toList [], .disconnect 2]).any (fun s =>
        decide (otorgadas s.log = {(1, 7, .cpu, 3)})
          && decide (s.esperan .cpu = {(3, 9, .cpu, 2)})
          && decide (reservadas s.log
            = {(1, 7, .cpu, 3), (2, 8, .cpu, 2), (3, 9, .cpu, 2)})) = true := by
    decide +kernel
  obtain ⟨s, htrace, hrun, hs⟩ := Reaches.of_checked (fun _ _ _ => trivial) hcheck
  simp only [Bool.and_eq_true, decide_eq_true_eq] at hs
  obtain ⟨⟨hotorgadas, hesperan⟩, hreservadas⟩ := hs
  obtain ⟨hle, heq⟩ := grants_accounted hrun
  exact ⟨s, htrace, hotorgadas, hesperan, hreservadas, hle, heq⟩

end Hpc
