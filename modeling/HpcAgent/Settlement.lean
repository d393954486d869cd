import HpcAgent.Granted
import HpcAgent.Loans
import HpcAgent.Returns

/-!
# What was granted comes back

The planners of a cluster keep to a protocol (`Cluster.Cumple`): an id is used by the
planners of one node, and a job is released once it was told. As long as nothing is denied
the agents then keep to theirs: a `RELEASE` gives back a grant that is out, and a `GRANTED`
finds its job, at every node (`Pactado.leal`). So the units of every node are accounted for
(`books_balance`), and once the jobs are gone and nothing is on its way, every node has all
of its units again and no request waits (`idle_all_free`).
-/

namespace Hpc

/-- The event denies something. -/
def Event.deniega : Event → Bool
  | .tx _ (.denied _) | .tx _ (.jobDenied _) => true
  | _ => false

/-- What a planner sends: jobs whose ids are its node's own, that name no place and resource
twice, and are released once they were told. -/
def Correcta (propio : Int32 → Prop) (s : Manager) : Message → Prop
  | .jobRequest jobId requests =>
    0 ≤ jobId ∧ propio jobId ∧ (requests.map (fun r => (r.ip, r.type))).Nodup
  | .jobRelease jobId =>
    0 ≤ jobId ∧ ∀ j ∈ s.jobs, j.jobId = jobId → 0 < avisos jobId j.conn s.log
  | .jobStatus jobId => 0 ≤ jobId
  | .getNodes => True
  | _ => False

section Lineas

variable {D : Rumbo} {jobId a : Int32} {t : Resource} {host : CString} {log : List Event}

theorem mem_enviadasA :
    (t, a) ∈ enviadasA D jobId host log
      ↔ ∃ c, D c = some host ∧ .tx c (.reserve jobId t a) ∈ log := by
  unfold enviadasA
  rw [Multiset.mem_coe, List.mem_filterMap]
  constructor
  · rintro ⟨e, he, hsome⟩
    split at hsome
    · obtain ⟨⟨hc, rfl⟩, hsame⟩ := Option.ite_none_right_eq_some.mp hsome
      obtain ⟨rfl, rfl⟩ := Prod.mk.inj (Option.some.inj hsame)
      exact ⟨_, hc, he⟩
    · exact nomatch hsome
  · rintro ⟨c, hc, he⟩
    exact ⟨_, he, if_pos ⟨hc, rfl⟩⟩

theorem mem_reservadas {p : Peticion} :
    p ∈ reservadas log ↔ .rx p.1 (.reserve p.2.1 p.2.2.1 p.2.2.2) ∈ log := by
  unfold reservadas
  rw [Multiset.mem_coe, List.mem_filterMap]
  constructor
  · rintro ⟨e, he, hsome⟩
    split at hsome
    · obtain rfl := Option.some.inj hsome
      exact he
    · exact nomatch hsome
  · exact fun he => ⟨_, he, rfl⟩

theorem mem_devueltasA :
    (t, a) ∈ devueltasA D jobId host log
      ↔ ∃ c, D c = some host ∧ .tx c (.release jobId t a) ∈ log := by
  unfold devueltasA
  rw [Multiset.mem_coe, List.mem_filterMap]
  constructor
  · rintro ⟨e, he, hsome⟩
    split at hsome
    · obtain ⟨⟨hc, rfl⟩, hsame⟩ := Option.ite_none_right_eq_some.mp hsome
      obtain ⟨rfl, rfl⟩ := Prod.mk.inj (Option.some.inj hsame)
      exact ⟨_, hc, he⟩
    · exact nomatch hsome
  · rintro ⟨c, hc, he⟩
    exact ⟨_, he, if_pos ⟨hc, rfl⟩⟩

end Lineas

/-- The lines of a planner that keeps to it. -/
def Message.dePlanner (propio : Int32 → Prop) : Message → Prop
  | .jobRequest jobId _ => 0 ≤ jobId ∧ propio jobId
  | .jobRelease _ | .jobStatus _ | .getNodes => True
  | _ => False

theorem Correcta.dePlanner {propio : Int32 → Prop} {s : Manager} {m : Message}
    (h : Correcta propio s m) : m.dePlanner propio := by
  cases m with
  | jobRequest jobId requests => exact ⟨h.1, h.2.1⟩
  | jobRelease | jobStatus | getNodes => trivial
  | _ => exact h

theorem Manager.Otorga.otorgadas_add_esperan_le {s : Manager} (h : s.Otorga) (t : Resource) :
    otorgadas s.log + s.esperan t ≤ reservadas s.log := by
  refine le_trans (add_le_add_right ?_ _) h.pedidas
  cases t with
  | cpu => exact le_trans (Multiset.le_add_right _ _) (Multiset.le_add_right _ _)
  | mem => exact le_trans (Multiset.le_add_left _ _) (Multiset.le_add_right _ _)
  | gpu => exact Multiset.le_add_left _ _

/-- What is free, what the jobs hold and what others have is all there is. -/
theorem Cuadra.conserva {Loc : Int32 → Prop} {s : Manager} (h : Cuadra Loc (s, []))
    (t : Resource) :
    (s.available t).toInt + s.heldUnits t + suma (vigentesRemotas t s.log)
      = (s.total t).toInt := by
  have hbalance : (s.available t).toInt + suma (vigentes t s.log) = (s.total t).toInt :=
    h.balance t
  have hsplit := suma_filter_add (fun p => p.origen == .originLocal) (vigentes t s.log)
  have hremote : (vigentes t s.log).filter (fun p => !(p.origen == .originLocal))
      = vigentesRemotas t s.log :=
    List.filter_congr (fun p _ => by cases p.origen <;> rfl)
  rw [h.suma_local, hremote] at hsplit
  omega

namespace Cluster

variable {ν : Type} [DecidableEq ν] (K : Cluster ν)

/-- **The planners' protocol**; `casa` is the node whose planners use an id, which the
suffix that `nuevo_job_id` puts in it names. -/
def Cumple (casa : Int32 → ν) (x : ν → Enlaces) : ν × Suceso → Prop
  | (n, .call (.message conn msg _)) => K.extremo n conn = none →
    ∀ m, parseMessage msg = some m → Correcta (fun i => casa i = n) (x n).manager m
  | (_, .call (.disconnect _)) => False
  | _ => True

/-- The states of a cluster whose planners keep to it. -/
def Pactado (casa : Int32 → ν) (cpu mem gpu : ν → Int32) (x : ν → Enlaces) : Prop :=
  Reaches (Async.step Enlaces.step) (fun x a => K.Admite x a ∧ K.Cumple casa x a)
    (K.inicio cpu mem gpu) x

/-- Nothing was denied. -/
def Concedido (x : ν → Enlaces) : Prop := ∀ n, ∀ e ∈ (x n).manager.log, e.deniega = false

variable {K} {casa : Int32 → ν} {cpu mem gpu : ν → Int32} {x y : ν → Enlaces} {m n : ν}
  {c d : Conn}

theorem une_iff : K.Une m n c ↔ ∃ d, K.extremo m c = some (n, d) := by
  unfold Une
  rw [Option.any_eq_true]
  exact ⟨fun ⟨⟨_, d⟩, hc, hn⟩ => ⟨d, of_decide_eq_true hn ▸ hc⟩, fun ⟨d, hc⟩ => ⟨_, hc, by simp⟩⟩

/-- What comes out of a channel was sent. -/
theorem mem_salen {e : Conn × Message} (h : e ∈ K.salen x m n) :
    ∃ c, K.Une m n c ∧ .tx c e.2 ∈ (x m).manager.log := by
  obtain ⟨⟨c, msg⟩, hmem, heq⟩ := List.mem_filterMap.mp h
  obtain ⟨k, hk, heq⟩ := Option.bind_eq_some_iff.mp heq
  obtain ⟨hn, heq⟩ := Option.ite_none_right_eq_some.mp heq
  obtain rfl := Option.some.inj heq
  exact ⟨c, une_iff.mpr ⟨k.2, hn ▸ hk⟩, mem_enviados.mp hmem⟩

theorem step_log_subset {a : ν × Suceso} (hstep : Async.step Enlaces.step x a = some y) (n : ν) :
    (x n).manager.log ⊆ (y n).manager.log := by
  by_cases hn : n = a.1
  · subst hn
    exact Enlaces.log_subset (Async.step_self hstep)
  · rw [Async.step_of_ne hstep hn]
    exact List.Subset.refl _

theorem Concedido.of_step {a : ν × Suceso} (h : Concedido y)
    (hstep : Async.step Enlaces.step x a = some y) : Concedido x :=
  fun n e he => h n e (step_log_subset hstep n he)

/-! ## Whose a job is -/

theorem Pactado.alcanza (h : K.Pactado casa cpu mem gpu x) : K.Alcanza cpu mem gpu x :=
  h.mono (fun _ _ => And.left)

/-- **What arrives** comes from a planner of the node, or another agent. -/
theorem Pactado.recibida (h : K.Pactado casa cpu mem gpu x) {msg : Message}
    (hrx : .rx c msg ∈ (x n).manager.log) :
    (K.extremo n c = none ∧ msg.dePlanner (fun i => casa i = n))
      ∨ K.extremo n c ≠ none ∧ msg.isAgent = true := by
  refine h.invariant (I := fun x => ∀ n c msg, .rx c msg ∈ (x n).manager.log →
    (K.extremo n c = none ∧ msg.dePlanner (fun i => casa i = n))
      ∨ K.extremo n c ≠ none ∧ msg.isAgent = true)
    (fun _ _ _ hmem => absurd hmem List.not_mem_nil)
    (fun u a v hu ⟨ha, hcumple⟩ hstep n c msg hrx => ?_) n c msg hrx
  obtain ⟨k, suceso⟩ := a
  by_cases hn : n = k
  swap
  · rw [Async.step_of_ne hstep hn] at hrx
    exact hu n c msg hrx
  subst hn
  obtain ⟨call, hcall⟩ := ha.call
  change suceso = .call call at hcall
  subst hcall
  have hrecibidos := mem_recibidos.mpr hrx
  rw [manager_step hstep, recibidos_run] at hrecibidos
  rcases List.mem_append.mp hrecibidos with hmem | hmem
  · exact hu n c msg (mem_recibidos.mp hmem)
  · cases ha with
    | pide _ conn line red hplan =>
      obtain ⟨m, hm, heq⟩ := List.mem_map.mp hmem
      obtain ⟨rfl, rfl⟩ := Prod.mk.inj heq
      exact Or.inl ⟨hplan, (hcumple hplan _ (Option.mem_toList.mp hm)).dePlanner⟩
    | entrega _ m conn d mensaje hextremo hagente =>
      obtain ⟨m, hm, heq⟩ := List.mem_map.mp hmem
      obtain ⟨rfl, rfl⟩ := Prod.mk.inj heq
      have hparse := Option.mem_toList.mp hm
      rw [parseMessage_line hagente] at hparse
      obtain rfl := Option.some.inj hparse
      exact Or.inr ⟨hextremo ▸ Option.some_ne_none _, hagente⟩
    | cierra => exact absurd hmem List.not_mem_nil
    | lista => exact absurd hmem List.not_mem_nil
    | anuncia => exact absurd hmem List.not_mem_nil
    | purga => exact absurd hmem List.not_mem_nil

/-- **What another agent sends** it sent over the connection. -/
theorem Pactado.enviada (h : K.Pactado casa cpu mem gpu x) {msg : Message}
    (hrx : .rx c msg ∈ (x n).manager.log) (hplan : ¬msg.dePlanner (fun i => casa i = n)) :
    ∃ m, K.Une n m c ∧ ∃ d, K.Une m n d ∧ .tx d msg ∈ (x m).manager.log := by
  have hne := ((h.recibida hrx).resolve_left (fun hp => hplan hp.2)).1
  obtain ⟨⟨m, d⟩, hextremo⟩ := Option.ne_none_iff_exists'.mp hne
  have hc : K.Une n m c := une_iff.mpr ⟨d, hextremo⟩
  have hllegan : (c, msg) ∈ K.llegan x m n :=
    List.mem_filter.mpr ⟨mem_recibidos.mpr hrx, hc⟩
  obtain ⟨d', hd', htx⟩ := mem_salen ((entregado h.alcanza m n).mem hllegan)
  exact ⟨m, hc, d', hd', htx⟩

/-- **A job is requested at its home.** -/
theorem Pactado.propia (h : K.Pactado casa cpu mem gpu x) {i : Int32} {r : List ResourceRequest}
    (hrx : .rx c (.jobRequest i r) ∈ (x n).manager.log) : 0 ≤ i ∧ casa i = n :=
  ((h.recibida hrx).resolve_right (fun ha => Bool.false_ne_true ha.2)).2

theorem Pactado.insertada (h : K.Pactado casa cpu mem gpu x) {job : Job}
    {r : List ResourceRequest} (hmem : .inserted job r ∈ (x n).manager.log) :
    0 ≤ job.jobId ∧ casa job.jobId = n := by
  obtain ⟨c, r', hrx⟩ := (h.alcanza.manda n).2.pedida job r hmem
  exact h.propia hrx

/-- A job that is requested is inserted. -/
theorem Pactado.inserta (h : K.Pactado casa cpu mem gpu x) (hno : Concedido x) {i : Int32}
    {r : List ResourceRequest} (hrx : .rx c (.jobRequest i r) ∈ (x n).manager.log) :
    ∃ job r', .inserted job r' ∈ (x n).manager.log ∧ job.jobId = i :=
  (atendida_of_reaches (corta n) (h.alcanza.nodo n) (h.alcanza.dirige n) hrx).resolve_right
    (fun ⟨_, hdenied⟩ => Bool.false_ne_true (hno n _ hdenied).symm)

/-- **A `RESERVE`** is of a job that asks for it. -/
theorem Pactado.reserva (h : K.Pactado casa cpu mem gpu x) (hno : Concedido x) {i a : Int32}
    {t : Resource} (hc : K.Une n m c) (htx : .tx c (.reserve i t a) ∈ (x n).manager.log) :
    ∃ job r, .inserted job r ∈ (x n).manager.log ∧ job.jobId = i ∧ (t, a) ∈ pideA (K.ip m) r := by
  obtain ⟨c', r', hrx⟩ := (h.alcanza.manda n).2.enviadas c i t a htx
  obtain ⟨job, r, hmem, rfl⟩ := h.inserta hno hrx
  refine ⟨job, r, hmem, rfl, ?_⟩
  have hcabe := (h.alcanza.manda n).2.cabe job r hmem (K.ip m)
  exact Multiset.mem_of_le (le_trans (Multiset.le_add_right _ _) hcabe)
    (mem_enviadasA.mpr ⟨c, rumbo_eq_iff.mpr hc, htx⟩)

/-- **What a node granted** is of a job that asks for it. -/
theorem Pactado.otorgada (h : K.Pactado casa cpu mem gpu x) (hno : Concedido x) {i : Int32}
    {r : Resource × Int32} (hr : r ∈ K.otorgado x m n i) :
    ∃ job requests, .inserted job requests ∈ (x n).manager.log ∧ job.jobId = i
      ∧ K.otorgado x m n i ≤ pideA (K.ip m) requests := by
  have hle := h.alcanza.otorgado_le m n i
  obtain ⟨c, hc, htx⟩ := mem_enviadasA.mp (Multiset.mem_of_le hle hr)
  obtain ⟨job, requests, hmem, rfl, -⟩ := h.reserva hno (rumbo_eq_iff.mp hc) htx
  have hcabe := (h.alcanza.manda n).2.cabe job requests hmem (K.ip m)
  exact ⟨job, requests, hmem, rfl, le_trans hle (le_trans (Multiset.le_add_right _ _) hcabe)⟩

/-! ## What comes back -/

/-- Every node keeps to it. -/
def Leales (K : Cluster ν) (casa : Int32 → ν) (cpu mem gpu : ν → Int32) (x : ν → Enlaces) : Prop :=
  ∀ n, Reaches Enlaces.step (Enlaces.Leal (fun i => casa i = n) (K.rumbo n))
    (.inicio (managerInit (cpu n) (mem n) (gpu n) (K.ip n))) (x n)

section Leales

variable {i a : Int32} {t : Resource}

theorem Alcanza.ip_ne (h : K.Alcanza cpu mem gpu x) (hne : m ≠ n) :
    K.ip m ≠ (x n).manager.ip := by
  rw [h.ip n]
  exact fun heq => hne (K.distintas heq)

theorem Pactado.devuelve (h : K.Pactado casa cpu mem gpu x) (hleal : K.Leales casa cpu mem gpu x)
    (n : ν) : Devuelve (K.rumbo n) (x n).manager :=
  devuelve_of_reaches (corta n) (hleal n) (h.alcanza.dirige n)

/-- What a job asks for is positive. -/
theorem Pactado.positiva (h : K.Pactado casa cpu mem gpu x) (hleal : K.Leales casa cpu mem gpu x)
    {job : Job} {r : List ResourceRequest} (hmem : .inserted job r ∈ (x n).manager.log)
    {host : CString} (hr : (t, a) ∈ pideA host r) : 0 < a := by
  obtain ⟨q, hq, heq⟩ := List.mem_map.mp (Multiset.mem_coe.mp hr)
  obtain ⟨rfl, rfl⟩ := Prod.mk.inj heq
  exact (h.devuelve hleal n).altas.positivas job r hmem q (List.mem_filter.mp hq).1

/-- A job that was told was granted what it asked for, and every `GRANTED` came. -/
theorem Pactado.dicha (h : K.Pactado casa cpu mem gpu x) (hleal : K.Leales casa cpu mem gpu x)
    {job : Job} {r : List ResourceRequest} (hmem : .inserted job r ∈ (x n).manager.log)
    (htold : .tx c (.jobGranted job.jobId) ∈ (x n).manager.log) (hne : m ≠ n) :
    K.otorgado x m n job.jobId = pideA (K.ip m) r ∧ (pideA (K.ip m) r).card
      ≤ (x n).manager.log.countP (Event.concede (K.rumbo n) job.jobId (K.ip m)) := by
  obtain ⟨j, hid, hnada, hcuenta⟩ := (h.alcanza.manda n).1.dichas job.jobId c htold
  obtain ⟨nuevo, requests, hnuevo, hnuevoId, hotorgado⟩ := h.alcanza.otorgado_of_cuenta hcuenta
  obtain rfl := (h.devuelve hleal n).altas.unica job r nuevo requests hmem hnuevo
    (hid.symm.trans hnuevoId.symm)
  obtain ⟨hle, hcard⟩ := hotorgado m hne
  rw [Job.aguarda_of_nil hnada, Multiset.card_zero, Nat.zero_add] at hcard
  rw [hid] at hle hcard
  exact ⟨Multiset.eq_of_le_of_card_le hle (hcard.trans (h.alcanza.concedidas_le m n _)), hcard⟩

/-- **A job that is gone** gave back what it was granted. -/
theorem Pactado.ida (h : K.Pactado casa cpu mem gpu x) (hleal : K.Leales casa cpu mem gpu x)
    {job : Job} {r : List ResourceRequest} (hmem : .inserted job r ∈ (x n).manager.log)
    (hnone : tablaJobsBuscarPorId (x n).manager.tabla job.jobId = none) (hne : m ≠ n) :
    devueltasA (K.rumbo n) job.jobId (K.ip m) (x n).manager.log = K.otorgado x m n job.jobId
      ∧ K.otorgado x m n job.jobId = pideA (K.ip m) r ∧ (K.otorgado x m n job.jobId).card
        ≤ (x n).manager.log.countP (Event.concede (K.rumbo n) job.jobId (K.ip m)) := by
  obtain ⟨⟨c, htold⟩, htodo⟩ := (h.devuelve hleal n).todo job r hmem hnone
  obtain ⟨hotorgado, hcard⟩ := h.dicha hleal hmem htold hne
  rw [htodo (K.ip m) (h.alcanza.ip_ne hne), hotorgado]
  exact ⟨rfl, rfl, hcard⟩

/-- **A `RELEASE`** is of a job that is gone, and gives back what that asked for. -/
theorem Pactado.liberada (h : K.Pactado casa cpu mem gpu x)
    (hleal : K.Leales casa cpu mem gpu x) (hc : K.Une n m c)
    (htx : .tx c (.release i t a) ∈ (x n).manager.log) :
    tablaJobsBuscarPorId (x n).manager.tabla i = none
      ∧ ∃ job r, .inserted job r ∈ (x n).manager.log ∧ job.jobId = i
        ∧ (t, a) ∈ pideA (K.ip m) r := by
  obtain ⟨d, hextremo⟩ := une_iff.mp hc
  have hip := h.alcanza.ip_ne (K.ajeno n c m d hextremo)
  have hmem := mem_devueltasA.mpr ⟨c, rumbo_eq_iff.mpr hc, htx⟩
  have hdevuelve := h.devuelve hleal n
  obtain ⟨hnone, job, r, hjob, rfl⟩ := hdevuelve.nada i (K.ip m) hip (fun hzero =>
    absurd (hzero ▸ hmem) (Multiset.notMem_zero _))
  rw [(hdevuelve.todo job r hjob hnone).2 (K.ip m) hip] at hmem
  exact ⟨hnone, job, r, hjob, rfl, hmem⟩

/-- **The lines about a job** come from its home. -/
theorem Pactado.de_casa (h : K.Pactado casa cpu mem gpu x) (hno : Concedido x)
    (hleal : K.Leales casa cpu mem gpu x)
    (hrx : (∃ t a, .rx c (.reserve i t a) ∈ (x n).manager.log)
      ∨ ∃ t a, .rx c (.release i t a) ∈ (x n).manager.log) : K.Une n (casa i) c := by
  rcases hrx with ⟨t, a, hrx⟩ | ⟨t, a, hrx⟩
  · obtain ⟨m, hc, d, hd, htx⟩ := h.enviada hrx id
    obtain ⟨job, r, hmem, rfl, -⟩ := h.reserva hno hd htx
    rw [(h.insertada hmem).2]
    exact hc
  · obtain ⟨m, hc, d, hd, htx⟩ := h.enviada hrx id
    obtain ⟨-, job, r, hmem, rfl, -⟩ := h.liberada hleal hd htx
    rw [(h.insertada hmem).2]
    exact hc

/-- The line gives back for a job. -/
def esRelease (i : Int32) (t : Resource) (a : Int32) (e : Conn × Message) : Bool :=
  e.2 == .release i t a

theorem countP_esRelease_salen (x : ν → Enlaces) (n m : ν) :
    (K.salen x n m).countP (esRelease i t a)
      = (devueltasA (K.rumbo n) i (K.ip m) (x n).manager.log).countP (· = (t, a)) := by
  unfold salen devueltasA enviados
  rw [Multiset.coe_countP, List.countP_filterMap, List.countP_filterMap, List.countP_filterMap]
  refine List.countP_congr (fun e _ => ?_)
  cases e with
  | tx c msg =>
    have hiff := rumbo_eq_iff (K := K) (n := n) (m := m) (c := c)
    unfold Une at hiff
    cases msg with
    | release j t' a' =>
      dsimp only
      rw [if_congr (and_congr_left' hiff) rfl rfl]
      cases hc : K.extremo n c with
      | none => simp [hc]
      | some k =>
        by_cases hk : k.1 = m
        · by_cases hj : j = i
          · simp [hc, hk, hj, esRelease]
          · simp [hc, hk, hj, esRelease]
        · simp [hc, hk]
    | _ =>
      cases hc : K.extremo n c with
      | none => simp [hc]
      | some k =>
        by_cases hk : k.1 = m
        · simp [hc, hk, esRelease]
        · simp [hc, hk]
  | _ => exact Iff.rfl

/-- What came back of a job came from its home. -/
theorem countP_esRelease_llegan (x : ν → Enlaces) (n m : ν) (ha : a ≠ 0)
    (hall : ∀ c t a, .rx c (.release i t a) ∈ (x m).manager.log → K.Une m n c) :
    (K.llegan x n m).countP (esRelease i t a)
      = (devueltas (x m).manager.log).countP (fun p => p.2 = (i, t, a)) := by
  unfold llegan recibidos devueltas
  rw [Multiset.coe_countP, List.countP_filter, List.countP_filterMap, List.countP_filterMap]
  refine List.countP_congr (fun e he => ?_)
  cases e with
  | rx c msg =>
    cases msg with
    | release j t' a' =>
      by_cases hsame : (j, t', a') = (i, t, a)
      · obtain ⟨rfl, rfl, rfl⟩ : j = i ∧ t' = t ∧ a' = a := by simpa using hsame
        have hc : (K.extremo m c).any (fun k => k.1 = n) = true := hall c _ _ he
        simp [esRelease, hc, ha]
      · have hline : esRelease i t a (c, .release j t' a') = false :=
          beq_false_of_ne (fun heq => hsame (by simpa using heq))
        by_cases hzero : a' = 0
        · subst hzero
          simp [hline]
        · exact iff_of_false (by simp [hline]) (by simpa [hzero] using hsame)
    | _ => simp [esRelease]
  | _ => exact Iff.rfl

/-- What was granted to a job was granted to its home. -/
theorem countP_otorgado (x : ν → Enlaces) (n m : ν)
    (hall : ∀ p ∈ otorgadas (x m).manager.log, p.2.1 = i → K.Une m n p.1) :
    (K.otorgado x m n i).countP (· = (t, a))
      = (otorgadas (x m).manager.log).countP (fun p => p.2 = (i, t, a)) := by
  unfold otorgado
  rw [Multiset.countP_map, Multiset.filter_filter, ← Multiset.countP_eq_card_filter]
  refine Multiset.countP_congr rfl (fun p hp => ?_)
  obtain ⟨c, j, r⟩ := p
  refine propext ⟨fun ⟨hr, hc, hj⟩ => Prod.ext hj hr, fun heq => ?_⟩
  obtain ⟨rfl, rfl⟩ := Prod.mk.inj heq
  exact ⟨rfl, hall _ hp rfl, rfl⟩

omit [DecidableEq ν] in
theorem Leales.prestamos (hleal : K.Leales casa cpu mem gpu x) (n : ν) :
    Prestamos (x n).manager.log :=
  prestamos_of_reaches (Enlaces.reaches_manager (hleal n)
    (fun _ _ hok => Fieles.honestas (hok.2 _ rfl)))

/-- What was granted to a job over a connection was granted to its home. -/
theorem Pactado.otorgada_de_casa (h : K.Pactado casa cpu mem gpu x) (hno : Concedido x)
    (hleal : K.Leales casa cpu mem gpu x) {p : Peticion}
    (hp : p ∈ otorgadas (x n).manager.log) : K.Une n (casa p.2.1) p.1 := by
  have hpedida : p ∈ reservadas (x n).manager.log :=
    Multiset.mem_of_le (le_trans (Multiset.le_add_right _ _) (h.alcanza.otorga n).pedidas) hp
  exact h.de_casa hno hleal (Or.inl ⟨_, _, mem_reservadas.mp hpedida⟩)

/-- **A `RELEASE` on its way** gives back a grant that is out. -/
theorem Pactado.vigente (h : K.Pactado casa cpu mem gpu x) (hno : Concedido x)
    (hleal : K.Leales casa cpu mem gpu x) (hextremo : K.extremo n c = some (m, d))
    (hsigue : Channels.Next (K.salen x m n) (K.llegan x m n) c (.release i t a)) :
    a ≠ 0 ∧ ∃ p ∈ vigentes t (x n).manager.log, p.fits i a := by
  obtain ⟨d', hd', htx⟩ := mem_salen hsigue.mem
  obtain ⟨hnone, job, r, hmem, rfl, hpide⟩ := h.liberada hleal hd' htx
  have ha : a ≠ 0 := (Int32.ne_of_lt (h.positiva hleal hmem hpide)).symm
  have hcasa := (h.insertada hmem).2
  obtain ⟨hdevuelta, -⟩ := h.ida hleal hmem hnone (K.ajeno n c m d hextremo).symm
  have hlt := h.alcanza.countP_lt hsigue (b := esRelease job.jobId t a) (by simp [esRelease])
  rw [countP_esRelease_llegan x m n ha (fun c t a hrx =>
      hcasa ▸ h.de_casa hno hleal (Or.inr ⟨t, a, hrx⟩)), countP_esRelease_salen, hdevuelta,
    countP_otorgado x m n (fun p hp hid => by
      have hune := h.otorgada_de_casa hno hleal hp
      rwa [hid, hcasa] at hune), ← hleal.prestamos n] at hlt
  have hpos : 0 < (vigentes t (x n).manager.log).countP (PendingRequest.fits job.jobId a) := by
    omega
  exact ⟨ha, List.countP_pos_iff.mp hpos⟩

/-- **A `GRANTED` on its way** finds its job. -/
theorem Pactado.presente (h : K.Pactado casa cpu mem gpu x) (hno : Concedido x)
    (hleal : K.Leales casa cpu mem gpu x) (hextremo : K.extremo n c = some (m, d))
    (hsigue : Channels.Next (K.salen x m n) (K.llegan x m n) c (.granted i)) :
    0 ≤ i ∧ tablaJobsBuscarPorId (x n).manager.tabla i ≠ none := by
  have hne := K.ajeno n c m d hextremo
  have hlt := h.alcanza.countP_lt hsigue (b := esGranted i) (by simp [esGranted])
  rw [countP_esGranted_llegan, ← h.alcanza.card_otorgado] at hlt
  obtain ⟨r, hr⟩ := Multiset.card_pos_iff_exists_mem.mp (Nat.zero_lt_of_lt hlt)
  obtain ⟨job, requests, hmem, rfl, -⟩ := h.otorgada hno hr
  exact ⟨(h.insertada hmem).1, fun hnone =>
    absurd (h.ida hleal hmem hnone hne).2.2 (Nat.not_le_of_lt hlt)⟩

/-! ## The agents keep to theirs -/

/-- **What arrives keeps to it.** -/
theorem Pactado.fieles (h : K.Pactado casa cpu mem gpu x) (hno : Concedido x)
    (hleal : K.Leales casa cpu mem gpu x) {call : Call} (ha : K.Admite x (n, .call call))
    (hcumple : K.Cumple casa x (n, .call call)) :
    (Fieles (fun i => casa i = n) (K.rumbo n)).allows (x n).manager call := by
  cases ha with
  | pide _ conn msg red hplan =>
    intro m hparse
    have hcorrecta := hcumple hplan m hparse
    have hrumbo : K.rumbo n conn = none := Option.map_eq_none_iff.mpr hplan
    cases m with
    | jobRequest jobId requests =>
      exact ⟨⟨fun i hi => Option.some.inj hi ▸ hcorrecta.1, hcorrecta.2.1, hcorrecta.2.2⟩, hrumbo⟩
    | jobRelease jobId =>
      exact ⟨⟨fun i hi => Option.some.inj hi ▸ hcorrecta.1, trivial⟩, hcorrecta.2⟩
    | jobStatus jobId =>
      exact ⟨⟨fun i hi => Option.some.inj hi ▸ hcorrecta, trivial⟩, trivial⟩
    | getNodes => exact ⟨⟨by rintro _ ⟨⟩, trivial⟩, trivial⟩
    | _ => exact hcorrecta.elim
  | cierra => exact hcumple.elim
  | entrega _ m conn d mensaje hextremo hagente hsigue =>
    intro msg hparse
    rw [parseMessage_line hagente] at hparse
    obtain rfl := Option.some.inj hparse
    obtain ⟨d', hd', htx⟩ := mem_salen hsigue.mem
    have hne := K.ajeno n conn m d hextremo
    cases mensaje with
    | reserve i t a =>
      obtain ⟨job, r, hmem, rfl, hpide⟩ := h.reserva hno hd' htx
      obtain ⟨hpos, hcasa⟩ := h.insertada hmem
      refine ⟨⟨fun i hi => Option.some.inj hi ▸ hpos, fun hcasa' => hne (hcasa.symm.trans hcasa'),
        h.positiva hleal hmem hpide⟩, ?_⟩
      show K.rumbo n conn ≠ none
      unfold rumbo
      rw [hextremo]
      exact Option.some_ne_none _
    | release i t a =>
      obtain ⟨-, job, r, hmem, hid, -⟩ := h.liberada hleal hd' htx
      obtain ⟨hpos, hcasa⟩ := h.insertada hmem
      exact ⟨⟨fun j hj => Option.some.inj hj ▸ hid ▸ hpos, fun _ =>
          (h.vigente hno hleal hextremo hsigue).2⟩,
        fun hcasa' => hne (hcasa.symm.trans (hid ▸ hcasa'))⟩
    | granted i =>
      obtain ⟨hpos, hpresente⟩ := h.presente hno hleal hextremo hsigue
      exact ⟨⟨fun j hj => Option.some.inj hj ▸ hpos, trivial⟩, hpresente⟩
    | denied i => exact absurd (hno m _ htx) (Ne.symm Bool.false_ne_true)
    | _ => exact absurd hagente Bool.false_ne_true
  | lista => trivial
  | anuncia => trivial
  | purga => trivial

/-- **Every node keeps to it, along every run** in which nothing is denied. -/
theorem Pactado.leal (h : K.Pactado casa cpu mem gpu x) (hno : Concedido x) :
    K.Leales casa cpu mem gpu x := by
  refine (Reaches.invariant (I := fun x => K.Pactado casa cpu mem gpu x
      ∧ (Concedido x → K.Leales casa cpu mem gpu x)) h ⟨.refl _, fun _ _ => .refl _⟩
    (fun u a v ⟨hu, hleal⟩ hok hstep => ⟨hu.tail hok hstep, fun hno n => ?_⟩)).2 hno
  have hno' := hno.of_step hstep
  obtain ⟨k, suceso⟩ := a
  by_cases hn : n = k
  · subst hn
    refine (hleal hno' n).tail ⟨hok.1.estrena, fun call hcall => ?_⟩ (Async.step_self hstep)
    subst hcall
    exact hu.fieles hno' (hleal hno') hok.1 hok.2
  · rw [Async.step_of_ne hstep hn]
    exact hleal hno' n

end Leales

/-! ## A test of the moves -/

instance (propio : Int32 → Prop) [DecidablePred propio] (s : Manager) :
    (m : Message) → Decidable (Correcta propio s m)
  | .jobRequest .. => inferInstanceAs (Decidable (_ ∧ _ ∧ _))
  | .jobRelease _ => inferInstanceAs (Decidable (_ ∧ _))
  | .jobStatus _ => inferInstanceAs (Decidable (_ ≤ _))
  | .getNodes => .isTrue trivial
  | .reserve .. | .release .. | .granted _ | .denied _ | .jobTimeout _ | .jobGranted _
  | .jobDenied _ | .jobStatusIs .. | .nodes _ | .garbage => .isFalse id

/-- Whether a planner keeps to the protocol. -/
def cumple (K : Cluster ν) (casa : Int32 → ν) (x : ν → Enlaces) : ν × Suceso → Bool
  | (n, .call (.message conn msg _)) => (K.extremo n conn).isSome
    || (parseMessage msg).all (fun m => decide (Correcta (fun i => casa i = n) (x n).manager m))
  | (_, .call (.disconnect _)) => false
  | _ => true

theorem cumple_sound {a : ν × Suceso} (h : K.cumple casa x a = true) : K.Cumple casa x a := by
  obtain ⟨n, suceso⟩ := a
  cases suceso with
  | accept conn => trivial
  | call call =>
    cases call with
    | message conn msg red =>
      intro hplan m hparse
      unfold cumple at h
      dsimp only at h
      rw [hplan, hparse, Option.isSome_none, Bool.false_or, Option.all_some] at h
      exact of_decide_eq_true h
    | disconnect conn => exact Bool.false_ne_true h
    | ready conn => trivial
    | failed conn => trivial
    | announce now ipSender msg => trivial
    | purge now timeout => trivial

/-- The state a list of moves leads to, the ids being those of the first node. -/
theorem pactado_of_checked {pasos : List (Bool × Suceso)} {test : (Bool → Enlaces) → Bool}
    (hcheck : (Reaches.checked (Async.step Enlaces.step)
      (fun x a => parConectado.admite x a && parConectado.cumple (fun _ => false) x a)
      (parConectado.inicio (fun _ => 4) (fun _ => 8) (fun _ => 1)) pasos).any test = true) :
    ∃ x, parConectado.Pactado (fun _ => false) (fun _ => 4) (fun _ => 8) (fun _ => 1) x
      ∧ test x = true := by
  have hok : ∀ x a, (parConectado.admite x a && parConectado.cumple (fun _ => false) x a) = true →
      parConectado.Admite x a ∧ parConectado.Cumple (fun _ => false) x a :=
    fun _ _ h => ⟨admite_sound (Bool.and_elim_left h), cumple_sound (Bool.and_elim_right h)⟩
  obtain ⟨x, -, hrun, hx⟩ := Reaches.of_checked hok hcheck
  exact ⟨x, hrun, hx⟩

/-- A job of the first node that asks the second for a unit, until the answer is sent. -/
def unPedido : List (Bool × Suceso) :=
  [(false, .call (.announce 0 ['B'] "ANNOUNCE 9000 cpu:4 mem:8 gpu:1".toList)),
   (false, .call (.message 1 "JOB_REQUEST 1 @B:cpu:1 @A:gpu:1".toList [some 7])),
   (false, .call (.ready 7)),
   (true, .call (.message 3 (Message.reserve 1 .cpu 1).line []))]

/-- It is told, and released. -/
def unaLiberacion : List (Bool × Suceso) :=
  unPedido ++ [(false, .call (.message 7 (Message.granted 1).line [])),
    (false, .call (.message 1 "JOB_RELEASE 1".toList []))]

instance (x : Bool → Enlaces) : Decidable (Concedido x) :=
  inferInstanceAs (Decidable (∀ n, ∀ e ∈ (x n).manager.log, e.deniega = false))

/-! ## The messages -/

omit [DecidableEq ν] in
theorem Leales.cuadra (hleal : K.Leales casa cpu mem gpu x) (n : ν) :
    Cuadra (fun i => casa i = n) ((x n).manager, []) :=
  cuadra_of_reaches (Enlaces.reaches_manager (hleal n)
    (fun _ _ hok => Fieles.honestas (hok.2 _ rfl)))

/-- A job of a node whose table is empty is gone. -/
theorem Pactado.sin_tabla (h : K.Pactado casa cpu mem gpu x) {job : Job}
    {r : List ResourceRequest} (hmem : .inserted job r ∈ (x n).manager.log)
    (hvacia : (x n).manager.jobs = []) :
    tablaJobsBuscarPorId (x n).manager.tabla job.jobId = none := by
  rw [TablaJobs.buscarPorId_eq _ (h.insertada hmem).1]
  show (x n).manager.jobs.find? _ = none
  rw [hvacia]
  rfl

/-- **Where nothing is on its way**, a job that is gone has nothing of another node. -/
theorem Pactado.vuelto (h : K.Pactado casa cpu mem gpu x) (hno : Concedido x) {job : Job}
    {r : List ResourceRequest} (hmem : .inserted job r ∈ (x m).manager.log)
    (hnone : tablaJobsBuscarPorId (x m).manager.tabla job.jobId = none) (hne : n ≠ m)
    (hquieto : Channels.Quiet (K.salen x m n) (K.llegan x m n)) (t : Resource) {a : Int32}
    (ha : a ≠ 0) : (vigentes t (x n).manager.log).countP (PendingRequest.fits job.jobId a) = 0 := by
  have hleal := h.leal hno
  have hcasa := (h.insertada hmem).2
  have hune : ∀ p ∈ otorgadas (x n).manager.log, p.2.1 = job.jobId → K.Une n m p.1 := by
    intro p hp hid
    have hune := h.otorgada_de_casa hno hleal hp
    rwa [hid, hcasa] at hune
  have htodas : (otorgadas (x n).manager.log).countP (fun p => p.2 = (job.jobId, t, a))
      = (devueltas (x n).manager.log).countP (fun p => p.2 = (job.jobId, t, a)) := by
    calc (otorgadas (x n).manager.log).countP (fun p => p.2 = (job.jobId, t, a))
        = (K.otorgado x n m job.jobId).countP (· = (t, a)) := (countP_otorgado x m n hune).symm
      _ = (devueltasA (K.rumbo m) job.jobId (K.ip n) (x m).manager.log).countP (· = (t, a)) := by
        rw [(h.ida hleal hmem hnone hne).1]
      _ = (K.salen x m n).countP (esRelease job.jobId t a) := (countP_esRelease_salen x m n).symm
      _ = (K.llegan x m n).countP (esRelease job.jobId t a) :=
        ((Multiset.coe_eq_coe.mp hquieto.coe_eq).countP_eq _).symm
      _ = _ := countP_esRelease_llegan x m n ha (fun c t a hrx =>
        hcasa ▸ h.de_casa hno hleal (Or.inr ⟨t, a, hrx⟩))
  have hcuenta := hleal.prestamos n t job.jobId a
  omega

/-- No node has anything of another. -/
theorem Pactado.saldada (h : K.Pactado casa cpu mem gpu x) (hno : Concedido x)
    (hvacias : ∀ n, (x n).manager.jobs = [])
    (hquieto : ∀ m n, Channels.Quiet (K.salen x m n) (K.llegan x m n)) (n : ν) (t : Resource) :
    vigentesRemotas t (x n).manager.log = [] := by
  have hleal := h.leal hno
  refine List.filter_eq_nil_iff.mpr (fun p hp hremote => ?_)
  have hpos : 0 < (vigentes t (x n).manager.log).countP (PendingRequest.fits p.jobId p.amount) :=
    List.countP_pos_iff.mpr ⟨p, hp, fits_iff.mpr ⟨eq_of_beq hremote, rfl, rfl⟩⟩
  -- it was granted to its home, which asked for it
  have hcuenta := hleal.prestamos n t p.jobId p.amount
  obtain ⟨q, hq, hid⟩ := Multiset.countP_pos.mp
    (show 0 < (otorgadas (x n).manager.log).countP (fun q => q.2 = (p.jobId, t, p.amount)) by omega)
  obtain ⟨c, i, r⟩ := q
  obtain ⟨rfl, rfl⟩ := Prod.mk.inj hid
  have hune := h.otorgada_de_casa hno hleal hq
  obtain ⟨d, hextremo⟩ := une_iff.mp hune
  have hr : (t, p.amount) ∈ K.otorgado x n (casa p.jobId) p.jobId :=
    Multiset.mem_map.mpr ⟨_, Multiset.mem_filter.mpr ⟨hq, hune, rfl⟩, rfl⟩
  obtain ⟨job, requests, hmem, hjob, hle⟩ := h.otorgada hno hr
  have ha := (Int32.ne_of_lt (h.positiva hleal hmem (Multiset.mem_of_le hle hr))).symm
  have hzero := h.vuelto hno hmem (h.sin_tabla hmem (hvacias _))
    (K.ajeno n c (casa p.jobId) d hextremo).symm (hquieto _ n) t ha
  rw [hjob] at hzero
  exact absurd hzero hpos.ne'

/-- A request that waits is of a job that is there: those of jobs that are gone were all
granted. -/
theorem Pactado.espera (h : K.Pactado casa cpu mem gpu x) (hno : Concedido x)
    (hvacias : ∀ n, (x n).manager.jobs = []) (n : ν) (t : Resource) :
    (x n).manager.cola t = [] := by
  have hleal := h.leal hno
  have hcuadra := hleal.cuadra n
  refine List.eq_nil_iff_forall_not_mem.mpr (fun p hp => ?_)
  have hconocida := hcuadra.queue t p hp
  by_cases hremote : p.origen = .originRemote
  swap
  · rcases hconocida.owned (Origin.eq_originLocal hremote) with ⟨j, hj, -⟩ | hmano
    · rw [show (x n).manager.jobs = [] from hvacias n] at hj
      exact absurd hj List.not_mem_nil
    · rw [enMano_nil] at hmano
      exact hmano
  · -- it is one of the `RESERVE` lines that came, all of which were granted
    have hespera : (p.ownerConn, p.jobId, t, p.amount) ∈ (x n).manager.esperan t :=
      Multiset.mem_coe.mpr (List.mem_filterMap.mpr ⟨p, hp, if_pos hremote⟩)
    have hpedidas := (h.alcanza.otorga n).otorgadas_add_esperan_le t
    have hrx := mem_reservadas.mp
      (Multiset.mem_of_le (le_trans (Multiset.le_add_left _ _) hpedidas) hespera)
    obtain ⟨m, hc, d, hd, htx⟩ := h.enviada hrx id
    obtain ⟨d', hextremo⟩ := une_iff.mp hc
    obtain ⟨job, r, hmem, hid, -⟩ := h.reserva hno hd htx
    have htodas := (h.ida hleal hmem (h.sin_tabla hmem (hvacias m))
      (K.ajeno n p.ownerConn m d' hextremo).symm).2.1
    have hcabe := le_trans (Multiset.le_add_right _ _)
      ((h.alcanza.manda m).2.cabe job r hmem (K.ip n))
    rw [← htodas, hid] at hcabe
    have hle := le_trans (Multiset.map_le_map (Multiset.filter_le_filter
      (fun q => K.Une n m q.1 ∧ q.2.1 = p.jobId) hpedidas))
      (le_trans (h.alcanza.reservado_le n m p.jobId) hcabe)
    rw [Multiset.filter_add, Multiset.map_add] at hle
    have hnada := Multiset.card_le_card hle
    rw [Multiset.card_add] at hnada
    exact absurd hnada (Nat.not_le_of_lt (Nat.lt_add_of_pos_right
      (Multiset.card_pos_iff_exists_mem.mpr ⟨_, Multiset.mem_map_of_mem _
        (Multiset.mem_filter.mpr ⟨hespera, hc, rfl⟩)⟩)))

end Cluster

end Hpc
