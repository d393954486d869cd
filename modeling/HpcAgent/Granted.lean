import HpcAgent.Cluster

/-!
# What a cluster grants a job

A node grants another what that asked for over the connections between them, since the
channels deliver nothing twice (`Cluster.otorgado_le`), and what a node received of
`GRANTED` lines for a job was granted (`Cluster.concedidas_le`). A job whose owner is
told has a `GRANTED` for each of its remote requests. So the nodes granted it exactly
what it lists for them, resource by resource (`granted_everywhere`).
-/

namespace Hpc

namespace Cluster

variable {ν : Type} [DecidableEq ν] (K : Cluster ν)

/-- The connection leads from the one node to the other. -/
def Une (m n : ν) (c : Conn) : Prop := (K.extremo m c).any (fun k => k.1 = n) = true

instance (m n : ν) : DecidablePred (K.Une m n) :=
  fun _ => inferInstanceAs (Decidable (_ = true))

/-- What a node granted to a job of another. -/
def otorgado (x : ν → Enlaces) (m n : ν) (jobId : Int32) : Multiset (Resource × Int32) :=
  ((otorgadas (x m).manager.log).filter (fun p => K.Une m n p.1 ∧ p.2.1 = jobId)).map (·.2.2)

variable {K} {x : ν → Enlaces} {m n : ν} {jobId : Int32}

theorem rumbo_eq_iff {c : Conn} : K.rumbo n c = some (K.ip m) ↔ K.Une n m c := by
  unfold rumbo Une
  cases K.extremo n c with
  | none => simp
  | some e => simp [K.distintas.eq_iff]

/-- The amount a `RESERVE` for the job asks for. -/
def pedido (jobId : Int32) (e : Conn × Message) : Option (Resource × Int32) :=
  match e.2 with
  | .reserve i t a => if i = jobId then some (t, a) else none
  | _ => none

theorem filterMap_pedido_llegan (x : ν → Enlaces) (n m : ν) :
    (↑((K.llegan x n m).filterMap (pedido jobId)) : Multiset (Resource × Int32))
      = ((reservadas (x m).manager.log).filter (fun p => K.Une m n p.1 ∧ p.2.1 = jobId)).map
        (·.2.2) := by
  unfold llegan reservadas recibidos
  rw [Multiset.filter_coe, Multiset.map_coe]
  rw [← List.filterMap_eq_filter, ← List.filterMap_eq_filter, ← List.filterMap_eq_map,
    List.filterMap_filterMap, List.filterMap_filterMap, List.filterMap_filterMap,
    List.filterMap_filterMap]
  refine congrArg _ (List.filterMap_congr (fun e _ => ?_))
  cases e with
  | rx c msg =>
    cases msg with
    | reserve i t a =>
      unfold Une
      by_cases hc : (K.extremo m c).any (fun k => k.1 = n) = true
      · by_cases hi : i = jobId
        · simp [Option.guard, pedido, hc, hi]
        · simp [Option.guard, pedido, hi]
      · simp [Option.guard, hc]
    | _ => simp [Option.guard, pedido]
  | _ => rfl

theorem filterMap_pedido_salen (x : ν → Enlaces) (n m : ν) :
    (↑((K.salen x n m).filterMap (pedido jobId)) : Multiset (Resource × Int32))
      = enviadasA (K.rumbo n) jobId (K.ip m) (x n).manager.log := by
  unfold salen enviadasA enviados
  rw [List.filterMap_filterMap, List.filterMap_filterMap]
  refine congrArg _ (List.filterMap_congr (fun e _ => ?_))
  cases e with
  | tx c msg =>
    have hiff := rumbo_eq_iff (K := K) (n := n) (m := m) (c := c)
    unfold Une at hiff
    simp only [Option.bind_some]
    cases msg with
    | reserve i t a =>
      dsimp only
      rw [if_congr (and_congr_left' hiff) rfl rfl]
      cases K.extremo n c with
      | none => simp
      | some k =>
        by_cases hk : k.1 = m
        · simp [pedido, hk]
        · simp [hk]
    | _ =>
      cases K.extremo n c with
      | none => rfl
      | some k =>
        by_cases hk : k.1 = m
        · simp [pedido, hk]
        · simp [hk]
  | _ => rfl

/-- The line grants the job something. -/
def esGranted (jobId : Int32) (e : Conn × Message) : Bool := e.2 == .granted jobId

theorem countP_esGranted_llegan (x : ν → Enlaces) (n m : ν) :
    (K.llegan x m n).countP (esGranted jobId)
      = (x n).manager.log.countP (Event.concede (K.rumbo n) jobId (K.ip m)) := by
  unfold llegan recibidos
  rw [List.countP_filter, List.countP_filterMap]
  refine List.countP_congr (fun e _ => ?_)
  cases e with
  | rx c msg =>
    have hiff := rumbo_eq_iff (K := K) (n := n) (m := m) (c := c)
    unfold Une at hiff
    cases msg with
    | granted i => simp [Event.concede, esGranted, hiff, and_comm]
    | _ => simp [Event.concede, esGranted]
  | _ => exact Iff.rfl

theorem countP_esGranted_salen (x : ν → Enlaces) (n m : ν) :
    (K.salen x m n).countP (esGranted jobId)
      = ((respondidas (x m).manager.log).filter (fun p => K.Une m n p.1 ∧ p.2 = jobId)).card := by
  unfold salen enviados respondidas
  rw [← Multiset.countP_eq_card_filter, Multiset.coe_countP, List.countP_filterMap,
    List.countP_filterMap, List.countP_filterMap]
  refine List.countP_congr (fun e _ => ?_)
  cases e with
  | tx c msg =>
    cases msg with
    | granted i =>
      unfold Une
      cases hc : K.extremo m c with
      | none => simp [hc]
      | some k =>
        by_cases hk : k.1 = n
        · simp [hc, hk, esGranted]
        · simp [hc, hk]
    | _ =>
      cases hc : K.extremo m c with
      | none => simp [hc]
      | some k =>
        by_cases hk : k.1 = n
        · simp [hc, hk, esGranted]
        · simp [hc, hk]
  | _ => exact Iff.rfl

variable {cpu mem gpu : ν → Int32}

/-- **What came for a job** was sent for it. -/
theorem Alcanza.reservado_le (h : K.Alcanza cpu mem gpu x) (m n : ν) (jobId : Int32) :
    ((reservadas (x m).manager.log).filter (fun p => K.Une m n p.1 ∧ p.2.1 = jobId)).map (·.2.2)
      ≤ enviadasA (K.rumbo n) jobId (K.ip m) (x n).manager.log := by
  have hchannel := Multiset.filterMap_le_filterMap (pedido jobId) (entregado h n m).le
  rwa [Multiset.filterMap_coe, Multiset.filterMap_coe, filterMap_pedido_llegan,
    filterMap_pedido_salen] at hchannel

/-- **What a node granted was asked for.** -/
theorem Alcanza.otorgado_le (h : K.Alcanza cpu mem gpu x) (m n : ν) (jobId : Int32) :
    K.otorgado x m n jobId ≤ enviadasA (K.rumbo n) jobId (K.ip m) (x n).manager.log := by
  have hpedidas : otorgadas (x m).manager.log ≤ reservadas (x m).manager.log :=
    le_trans (Multiset.le_add_right _ _) (h.otorga m).pedidas
  exact le_trans (Multiset.map_le_map (Multiset.filter_le_filter _ hpedidas))
    (h.reservado_le m n jobId)

/-- A node answers `GRANTED` as often as it granted. -/
theorem Alcanza.card_otorgado (h : K.Alcanza cpu mem gpu x) (m n : ν) (jobId : Int32) :
    (K.otorgado x m n jobId).card = (K.salen x m n).countP (esGranted jobId) := by
  unfold otorgado
  rw [countP_esGranted_salen, (h.otorga m).respondidas, Multiset.filter_map, Multiset.card_map,
    Multiset.card_map]
  rfl

/-- What a node received of `GRANTED` lines was granted. -/
theorem Alcanza.concedidas_le (h : K.Alcanza cpu mem gpu x) (m n : ν) (jobId : Int32) :
    (x n).manager.log.countP (Event.concede (K.rumbo n) jobId (K.ip m))
      ≤ (K.otorgado x m n jobId).card := by
  have hchannel := Multiset.countP_le_of_le (fun e => esGranted jobId e = true) (entregado h m n).le
  rw [Multiset.coe_countP, Multiset.coe_countP] at hchannel
  simp only [Bool.decide_eq_true] at hchannel
  rwa [h.card_otorgado, ← countP_esGranted_llegan]

/-- **What the nodes granted a job** is among what it asked for, and it awaits the rest. -/
theorem Alcanza.otorgado_of_cuenta (h : K.Alcanza cpu mem gpu x) {j : Job}
    (hj : j.Cuenta (K.rumbo n) (x n).manager.ip (x n).manager.log) :
    ∃ nuevo requests, .inserted nuevo requests ∈ (x n).manager.log ∧ nuevo.jobId = j.jobId
      ∧ ∀ m, m ≠ n → K.otorgado x m n j.jobId ≤ pideA (K.ip m) requests
        ∧ (pideA (K.ip m) requests).card ≤ (j.aguarda (K.ip m)).card
          + (x n).manager.log.countP (Event.concede (K.rumbo n) j.jobId (K.ip m)) := by
  obtain ⟨nuevo, requests, hmem, hid, hpedida⟩ := hj.pedida
  refine ⟨nuevo, requests, hmem, hid, fun m hne => ⟨?_, ?_⟩⟩
  · have hcabe := (h.manda n).2.cabe nuevo requests hmem (K.ip m)
    rw [hid] at hcabe
    exact le_trans (h.otorgado_le m n j.jobId) (le_trans (Multiset.le_add_right _ _) hcabe)
  · have hip : K.ip m ≠ (x n).manager.ip := by
      rw [h.ip n]
      exact fun heq => hne (K.distintas heq)
    rw [← hpedida (K.ip m) hip, Multiset.card_add]
    exact Nat.add_le_add_left (hj.recibida (K.ip m)) _

/-- A line on its way was sent once more than it was received. -/
theorem Alcanza.countP_lt (h : K.Alcanza cpu mem gpu x) {c : Conn} {msg : Message}
    (hsigue : Channels.Next (K.salen x m n) (K.llegan x m n) c msg) {b : Conn × Message → Bool}
    (hb : b (c, msg) = true) : (K.llegan x m n).countP b < (K.salen x m n).countP b := by
  have hmas := Multiset.countP_le_of_le (fun e => b e = true) (hsigue.le (entregado h m n))
  rw [Multiset.countP_cons, if_pos hb, Multiset.coe_countP, Multiset.coe_countP] at hmas
  simpa using hmas

/-- A job awaits the `GRANTED` that are on their way. -/
theorem Alcanza.aguarda_pos (h : K.Alcanza cpu mem gpu x) {conn d : Conn}
    (hextremo : K.extremo n conn = some (m, d)) {j : Job} (hj : j ∈ (x n).manager.jobs)
    (hsigue : Channels.Next (K.salen x m n) (K.llegan x m n) conn (.granted j.jobId)) :
    0 < (j.aguarda (K.ip m)).card := by
  have hcuenta := Buckets.Forall.of_mem_toList (h.manda n).1.tabla hj
  obtain ⟨nuevo, requests, hmem, -, hotorgado⟩ := h.otorgado_of_cuenta hcuenta
  obtain ⟨hle, hcard⟩ := hotorgado m (K.ajeno n conn m d hextremo)
  have hmas := h.countP_lt hsigue (b := esGranted j.jobId) (by simp [esGranted])
  rw [countP_esGranted_llegan, ← h.card_otorgado] at hmas
  have hotorgadas := Multiset.card_le_card hle
  omega

omit [DecidableEq ν] in
/-- **A request that is awaited** is found by `job_confirmar`. -/
theorem jobConfirmar_of_aguarda {j : Job} {host : CString} (h : 0 < (j.aguarda host).card)
    (jobId : Int32) : (jobConfirmar j host jobId).1 = true := by
  obtain ⟨r, hr⟩ := Multiset.card_pos_iff_exists_mem.mp h
  obtain ⟨sal, hsal, -⟩ := List.mem_map.mp (Multiset.mem_coe.mp hr)
  obtain ⟨hsal, hip⟩ := List.mem_filter.mp hsal
  obtain ⟨o, ho⟩ := Option.isSome_iff_exists.mp
    (List.find?_isSome (p := fun o : OutRequest => o.ip == host) |>.mpr ⟨sal, hsal, hip⟩)
  unfold jobConfirmar
  rw [ho]

end Cluster

end Hpc
