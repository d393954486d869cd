import HpcAgent.Asking
import HpcAgent.Grants

/-!
# What a node is granted by others

A job of the table asks each host for what its `JOB_REQUEST` lists for it. A request is
pending until a `GRANTED` of its host is taken for it, so what a job has of a host is at
most what the host granted, and what it has and awaits is what it asked for
(`Job.Cuenta`). A job whose owner is told awaits nothing, so each host granted what the
job asked of it (`Recibe.dichas`).

Which host a connection leads to is a parameter, `D`; it is right about the
connections that the node opens (`Dirige`), and a connection of a planner leads nowhere.
-/

namespace Hpc

/-- The host a connection leads to. -/
abbrev Rumbo := Conn → Option CString

/-- The node opens connections to the hosts they lead to. -/
def Dirige (D : Rumbo) (log : List Event) : Prop :=
  ∀ host c, Event.connecting host c ∈ log → D c = some host

/-- The connections of the log lead where they were opened to. -/
def dirigidas (D : Rumbo) (log : List Event) : Bool :=
  log.all (fun e => match e with
    | .connecting host c => D c == some host
    | _ => true)

theorem dirigidas_iff {D : Rumbo} {log : List Event} :
    dirigidas D log = true ↔ Dirige D log := by
  unfold dirigidas
  rw [List.all_eq_true]
  constructor
  · intro h host c hmem
    exact eq_of_beq (h _ hmem)
  · intro h e he
    split
    · next host c => exact beq_iff_eq.mpr (h host c he)
    · rfl

instance (D : Rumbo) (log : List Event) : Decidable (Dirige D log) :=
  decidable_of_iff _ dirigidas_iff

/-- The addresses fit the buffer of a pending request. -/
def Rumbo.Corta (D : Rumbo) : Prop := ∀ c host, D c = some host → host.length ≤ 14

/-- What the requests ask of a host. -/
def pideA (host : CString) (requests : List ResourceRequest) : Multiset (Resource × Int32) :=
  ↑((requests.filter (fun r => r.ip == host)).map (fun r => (r.type, r.amount)))

/-- What the job awaits of a host. -/
def Job.aguarda (host : CString) (j : Job) : Multiset (Resource × Int32) :=
  ↑((j.pendientes.filter (fun o => o.ip == host)).map (fun o => (o.tipo, o.amount)))

/-- What an allocation has of a host. -/
def Allocation.deHost (D : Rumbo) (host : CString) (a : Allocation) : Option (Resource × Int32) :=
  if a.type = .remoteAlloc ∧ D a.conn = some host then some (a.name, a.amount) else none

/-- What the job has of a host. -/
def Job.retiene (D : Rumbo) (host : CString) (j : Job) : Multiset (Resource × Int32) :=
  ↑(j.confirmadas.filterMap (Allocation.deHost D host))

/-- A `GRANTED` for the job came from the host. -/
def Event.concede (D : Rumbo) (jobId : Int32) (host : CString) : Event → Bool
  | .rx c (.granted i) => D c == some host && i == jobId
  | _ => false

/-- **A job of the table**: its requests, and what came of those for each host. -/
structure Job.Cuenta (D : Rumbo) (ip : CString) (log : List Event) (j : Job) : Prop where
  rumbo : ∀ o ∈ j.pendientes, D o.conn = some o.ip
  llevan : ∀ a ∈ j.confirmadas, a.type = .remoteAlloc → D a.conn ≠ none
  pedida : ∃ nuevo requests, .inserted nuevo requests ∈ log ∧ nuevo.jobId = j.jobId
    ∧ ∀ host, host ≠ ip → j.aguarda host + j.retiene D host = pideA host requests
  recibida : ∀ host, (j.retiene D host).card ≤ log.countP (Event.concede D j.jobId host)

/-- **A job being built** from the requests, `next` still to be placed. -/
structure Job.Nace (D : Rumbo) (ip : CString) (requests next : List ResourceRequest) (j : Job) :
    Prop where
  rumbo : ∀ o ∈ j.pendientes, D o.conn = some o.ip
  pedida : ∀ host, host ≠ ip → j.aguarda host + pideA host next = pideA host requests
  locales : ∀ a ∈ j.confirmadas, a.type = .localAlloc

/-- **What the node is granted** by others. -/
structure Recibe (D : Rumbo) (c : Manager × List Obra) : Prop where
  conns : ∀ i, ∀ e ∈ c.1.conns.buckets i, D e.conn = some e.ip
  tabla : c.1.tabla.Forall (Job.Cuenta D c.1.ip c.1.log)
  nueva : ∀ requests next job, .nueva requests next job ∈ c.2 → job.Nace D c.1.ip requests next
  /-- A job whose owner is told has all its requests. -/
  dichas : ∀ i conn, .tx conn (.jobGranted i) ∈ c.1.log →
    ∃ job : Job, job.jobId = i ∧ job.pendientes = [] ∧ job.Cuenta D c.1.ip c.1.log

theorem pideA_cons (host : CString) (r : ResourceRequest) (l : List ResourceRequest) :
    pideA host (r :: l) = (if r.ip = host then {(r.type, r.amount)} else 0) + pideA host l := by
  unfold pideA
  by_cases h : r.ip = host
  · simp [h]
  · simp [h]

namespace Job

variable {D : Rumbo} {ip : CString} {log : List Event} {j : Job} {requests : List ResourceRequest}

theorem Cuenta.append (h : j.Cuenta D ip log) (es : List Event) : j.Cuenta D ip (log ++ es) := by
  obtain ⟨nuevo, requests, hmem, hid, hpedida⟩ := h.pedida
  refine ⟨h.rumbo, h.llevan, ⟨nuevo, requests, List.mem_append_left es hmem, hid, hpedida⟩,
    fun host => ?_⟩
  rw [List.countP_append]
  exact (h.recibida host).trans (Nat.le_add_right _ _)

/-- A job with nothing pending awaits nothing. -/
theorem aguarda_of_nil (h : j.pendientes = []) (host : CString) : j.aguarda host = 0 := by
  unfold aguarda
  rw [h]
  rfl

/-- A mark changes none of it. -/
theorem retiene_markGranted (conn : Conn) (tipo : Resource) (host : CString) (j : Job) :
    (j.markGranted conn tipo).retiene D host = j.retiene D host := by
  have hmap : ∀ l : List Allocation, l.filterMap (Allocation.deHost D host)
      = (l.map (Allocation.deHost D host)).filterMap id :=
    fun l => by rw [List.filterMap_map]; rfl
  unfold retiene markGranted
  dsimp only
  rw [hmap, hmap, List.map_modifyFirst_of_eq (f := fun a : Allocation =>
    { a with result := .granted }) (Allocation.deHost D host) (fun _ _ => rfl)]

theorem Cuenta.markGranted (h : j.Cuenta D ip log) (conn : Conn) (tipo : Resource) :
    (j.markGranted conn tipo).Cuenta D ip log := by
  refine ⟨h.rumbo, fun a ha htype => ?_, ?_, fun host => ?_⟩
  · rcases List.mem_of_mem_modifyFirst ha with hold | ⟨b, hb, -, rfl⟩
    · exact h.llevan a hold htype
    · exact h.llevan b hb htype
  · obtain ⟨nuevo, requests, hmem, hid, hpedida⟩ := h.pedida
    refine ⟨nuevo, requests, hmem, hid, fun host hne => ?_⟩
    rw [retiene_markGranted]
    exact hpedida host hne
  · rw [retiene_markGranted]
    exact h.recibida host

/-- **A request of the host becomes an allocation.** -/
theorem confirmar_cases (h : ∀ o ∈ j.pendientes, D o.conn = some o.ip) (ip : CString)
    (jobId : Int32) :
    ((jobConfirmar j ip jobId).2 = j ∧ j.aguarda ip = 0)
      ∨ ∃ r, (jobConfirmar j ip jobId).2.pendientes.Sublist j.pendientes
        ∧ ∀ host, j.aguarda host
            = (if host = ip then {r} else 0) + (jobConfirmar j ip jobId).2.aguarda host
          ∧ (jobConfirmar j ip jobId).2.retiene D host
            = (if host = ip then {r} else 0) + j.retiene D host := by
  unfold jobConfirmar
  cases hfind : j.pendientes.find? (fun sal => sal.ip == ip) with
  | none =>
    refine Or.inl ⟨rfl, ?_⟩
    unfold aguarda
    rw [List.filter_eq_nil_iff.mpr (List.find?_eq_none.mp hfind)]
    rfl
  | some sal =>
    have hsal := List.mem_of_find?_eq_some hfind
    have hip : sal.ip = ip :=
      eq_of_beq (List.find?_some (p := fun o : OutRequest => o.ip == ip) hfind)
    obtain ⟨A, B, hl, -, -, herase, -⟩ := List.find?_split hfind
    refine Or.inr ⟨(sal.tipo, sal.amount), List.eraseP_sublist, fun host => ⟨?_, ?_⟩⟩
    · show j.aguarda host = _
        + ↑(((j.pendientes.eraseP (fun sal => sal.ip == ip)).filter (fun o => o.ip == host)).map
          (fun o => (o.tipo, o.amount)))
      unfold aguarda
      rw [herase, hl, List.filter_append, List.filter_append, List.filter_cons, hip]
      by_cases hhost : host = ip
      · simp [hhost, ← Multiset.coe_add, ← Multiset.cons_coe]
      · simp [hhost, Ne.symm hhost]
    · have hleads : D sal.conn = some ip := hip ▸ h sal hsal
      have hdeHost : (crearAllocation sal.tipo sal.amount .remoteAlloc sal.ip jobId .granted
          sal.conn).deHost D host = if host = ip then some (sal.tipo, sal.amount) else none := by
        refine if_congr ?_ rfl rfl
        show AllocType.remoteAlloc = .remoteAlloc ∧ D sal.conn = some host ↔ _
        rw [hleads, Option.some.injEq, eq_comm (a := ip)]
        exact and_iff_right rfl
      unfold retiene
      rw [List.filterMap_cons, hdeHost]
      by_cases hhost : host = ip
      · simp [hhost]
      · simp [hhost]

/-- The connection of the new allocation is that of the request. -/
theorem mem_confirmadas_jobConfirmar {ip : CString} {jobId : Int32} {a : Allocation}
    (ha : a ∈ (jobConfirmar j ip jobId).2.confirmadas) :
    a ∈ j.confirmadas ∨ ∃ o ∈ j.pendientes, a.conn = o.conn := by
  unfold jobConfirmar at ha
  split at ha
  · exact Or.inl ha
  · next sal hfind =>
    rcases List.mem_cons.mp ha with rfl | ha
    · exact Or.inr ⟨sal, List.mem_of_find?_eq_some hfind, rfl⟩
    · exact Or.inl ha

/-- **A `GRANTED` of the host** is taken for one of its requests. -/
theorem Cuenta.confirmar (h : j.Cuenta D ip log) {c : Conn} {host : CString}
    (hc : D c = some host) :
    (jobConfirmar j host j.jobId).2.Cuenta D ip (log ++ [.rx c (.granted j.jobId)]) := by
  have hid : (jobConfirmar j host j.jobId).2.jobId = j.jobId := jobId_jobConfirmar j host j.jobId
  rcases confirmar_cases h.rumbo host j.jobId with ⟨heq, -⟩ | ⟨r, hsub, hmove⟩
  · rw [heq]
    exact h.append _
  · obtain ⟨nuevo, requests, hmem, hnuevo, hpedida⟩ := h.pedida
    refine ⟨fun o ho => h.rumbo o (hsub.subset ho), fun a ha htype => ?_, ⟨nuevo, requests,
      List.mem_append_left _ hmem, hnuevo.trans hid.symm, fun other hne => ?_⟩, fun other => ?_⟩
    · rcases mem_confirmadas_jobConfirmar ha with hold | ⟨o, ho, hconn⟩
      · exact h.llevan a hold htype
      · rw [hconn, h.rumbo o ho]
        exact Option.some_ne_none _
    · obtain ⟨haguarda, hretiene⟩ := hmove other
      rw [hretiene, ← hpedida other hne, haguarda]
      abel
    · rw [(hmove other).2, hid, List.countP_append, List.countP_singleton, Multiset.card_add,
        add_comm]
      refine add_le_add (h.recibida other) ?_
      by_cases hother : other = host
      · subst hother
        simp [Event.concede, hc]
      · rw [if_neg hother]
        exact Nat.zero_le _

theorem Nace.retiene_eq_zero {next : List ResourceRequest} (h : j.Nace D ip requests next)
    (host : CString) : j.retiene D host = 0 := by
  refine congrArg _ (List.filterMap_eq_nil_iff.mpr (fun a ha => if_neg (fun hremote => ?_)))
  exact absurd ((h.locales a ha).symm.trans hremote.1) AllocType.noConfusion

theorem Nace.cuenta (h : j.Nace D ip requests []) (hmem : Event.inserted j requests ∈ log) :
    j.Cuenta D ip log := by
  refine ⟨h.rumbo, fun a ha htype => ?_, ⟨j, requests, hmem, rfl, fun host hne => ?_⟩,
    fun host => ?_⟩
  · exact absurd ((h.locales a ha).symm.trans htype) AllocType.noConfusion
  · rw [h.retiene_eq_zero, ← h.pedida host hne]
    rfl
  · rw [h.retiene_eq_zero]
    exact Nat.zero_le _

theorem Nace.addLocal {head : ResourceRequest} {next requests : List ResourceRequest}
    (h : j.Nace D ip requests (head :: next)) (hip : head.ip = ip) (r : Result) :
    (j.addLocal head ip r).Nace D ip requests next := by
  refine ⟨h.rumbo, fun host hne => ?_, List.forall_mem_cons.mpr ⟨rfl, h.locales⟩⟩
  rw [← h.pedida host hne, pideA_cons, if_neg (hip ▸ hne.symm), zero_add]
  rfl

theorem Nace.addRemote {head : ResourceRequest} {next requests : List ResourceRequest}
    (h : j.Nace D ip requests (head :: next)) (hcorta : D.Corta) {conn : Conn}
    (hconn : D conn = some head.ip) (msg : Option Message) :
    (j.addRemote head conn msg).Nace D ip requests next := by
  have hcopia : copyTo 15 head.ip = head.ip :=
    copyTo_of_lt (Nat.lt_of_le_of_lt (hcorta conn head.ip hconn) (by decide))
  have hadd : ∀ host, (j.addRemote head conn msg).aguarda host
      = (if head.ip = host then {(head.type, head.amount)} else 0) + j.aguarda host := by
    intro host
    have hip : (crearOutrequest head.ip conn head.type head.amount msg).ip = head.ip := hcopia
    unfold aguarda Job.addRemote
    dsimp only
    rw [List.filter_cons, hip]
    by_cases hhost : head.ip = host
    · simp [hhost, crearOutrequest]
    · simp [hhost]
  refine ⟨?_, fun host hne => ?_, h.locales⟩
  · refine List.forall_mem_cons.mpr ⟨?_, h.rumbo⟩
    show D conn = some (copyTo 15 head.ip)
    rw [hcopia, hconn]
  · rw [← h.pedida host hne, pideA_cons, hadd]
    abel

/-- A connection that leads nowhere is not one of the job. -/
theorem Cuenta.dropRemote_eq (h : j.Cuenta D ip log) {conn : Conn} (hnone : D conn = none) :
    j.dropRemote conn = j := by
  unfold Job.dropRemote
  rw [List.filter_eq_self.mpr (fun a ha => ?_)]
  have hne : a.type = .remoteAlloc → a.conn ≠ conn := by
    rintro htype rfl
    exact h.llevan a ha htype hnone
  by_cases htype : a.type = .remoteAlloc
  · simp [htype, hne htype]
  · simp [htype]

end Job

namespace Recibe

variable {D : Rumbo} {s s' : Manager} {w w' : List Obra}

/-- **More is recorded**, and nobody is told. -/
theorem sigue (h : Recibe D (s, w)) (hconns : ∀ i, ∀ e ∈ s'.conns.buckets i,
      D e.conn = some e.ip) (htabla : s'.tabla = s.tabla) (hip : s'.ip = s.ip) {es : List Event}
    (hlog : s'.log = s.log ++ es) (hes : ∀ i conn, .tx conn (.jobGranted i) ∉ es)
    (hw : ∀ requests next job, .nueva requests next job ∈ w' → job.Nace D s.ip requests next) :
    Recibe D (s', w') := by
  refine ⟨hconns, ?_, fun requests next job hmem => ?_, fun i conn hmem => ?_⟩
  · show s'.tabla.Forall (Job.Cuenta D s'.ip s'.log)
    rw [htabla, hip, hlog]
    exact h.tabla.mono (fun _ hj => hj.append es)
  · show job.Nace D s'.ip requests next
    rw [hip]
    exact hw requests next job hmem
  · show ∃ job : Job, job.jobId = i ∧ job.pendientes = [] ∧ job.Cuenta D s'.ip s'.log
    have hmem : .tx conn (.jobGranted i) ∈ s'.log := hmem
    rw [hlog] at hmem
    obtain ⟨job, hid, hnada, hcuenta⟩ :=
      h.dichas i conn ((List.mem_append.mp hmem).resolve_right (hes i conn))
    rw [hip, hlog]
    exact ⟨job, hid, hnada, hcuenta.append es⟩

theorem emit (h : Recibe D (s, w)) {e : Event} (he : ∀ i conn, e ≠ .tx conn (.jobGranted i)) :
    Recibe D (s.emit e, w) :=
  h.sigue h.conns rfl rfl (Manager.log_emit s e)
    (fun i conn hmem => he i conn (List.mem_singleton.mp hmem).symm) h.nueva

/-- Nothing of it changes. -/
theorem callado (h : Recibe D (s, w)) (hconns : ∀ i, ∀ e ∈ s'.conns.buckets i,
      D e.conn = some e.ip) (htabla : s'.tabla = s.tabla) (hip : s'.ip = s.ip)
    (hlog : s'.log = s.log) : Recibe D (s', w) :=
  h.sigue hconns htabla hip (hlog.trans (List.append_nil _).symm)
    (fun _ _ hmem => absurd hmem List.not_mem_nil) h.nueva

theorem takeUnits (h : Recibe D (s, w)) (tipo : Resource) (p : PendingRequest) :
    Recibe D (takeUnits tipo p s, w) :=
  h.sigue h.conns rfl rfl (log_takeUnits s tipo p)
    (fun _ _ hmem => Event.noConfusion (List.mem_singleton.mp hmem)) h.nueva

theorem enqueue (h : Recibe D (s, w)) (tipo : Resource) (p : PendingRequest) :
    Recibe D (enqueue tipo p s, w) :=
  h.callado h.conns rfl rfl rfl

/-- The handler has other work. -/
theorem trabajo (h : Recibe D (s, w)) (hw : ∀ requests next job,
      .nueva requests next job ∈ w' → job.Nace D s.ip requests next) : Recibe D (s, w') :=
  ⟨h.conns, h.tabla, hw, h.dichas⟩

theorem setTabla (h : Recibe D (s, w)) {t : TablaJobs}
    (ht : t.Forall (Job.Cuenta D s.ip s.log)) : Recibe D (s.setTabla t, w) :=
  ⟨h.conns, ht, h.nueva, h.dichas⟩

/-- **The owner of a complete job is told.** -/
theorem sendJobGranted (h : Recibe D (s, w)) {i : Int32}
    (hv : tablaJobsVerificar s.tabla i = true) (conn : Conn) :
    Recibe D (sendJobGranted i conn s, w) := by
  obtain ⟨job, hfind, hcomplete⟩ := (Option.any_eq_true _ _).mp hv
  have hid : job.jobId = i :=
    eq_of_beq (List.find?_some (p := fun j : Job => j.jobId == i) hfind)
  have hnada : job.pendientes = [] := (Job.complete_iff.mp hcomplete).2
  have hcuenta := TablaJobs.forall_buscarPorId h.tabla hfind
  have hlog : (Hpc.sendJobGranted i conn s).log = s.log
      ++ [.completed i (tablaJobsBuscarPorId s.tabla i), .tx conn (.jobGranted i)] := by
    rw [log_sendJobGranted, List.append_assoc]
    rfl
  refine ⟨h.conns, ?_, h.nueva, fun i' conn' hmem => ?_⟩
  · show s.tabla.Forall (Job.Cuenta D s.ip _)
    rw [hlog]
    exact h.tabla.mono (fun _ hj => hj.append _)
  · have hmem : .tx conn' (.jobGranted i') ∈ (Hpc.sendJobGranted i conn s).log := hmem
    show ∃ job : Job, job.jobId = i' ∧ job.pendientes = [] ∧ job.Cuenta D s.ip _
    rw [hlog] at hmem ⊢
    rcases List.mem_append.mp hmem with hmem | hmem
    · obtain ⟨job', hid', hnada', hcuenta'⟩ := h.dichas i' conn' hmem
      exact ⟨job', hid', hnada', hcuenta'.append _⟩
    · rcases List.mem_cons.mp hmem with hmem | hmem
      · exact absurd hmem Event.noConfusion
      · obtain ⟨-, heq⟩ := Event.tx.inj (List.mem_singleton.mp hmem)
        obtain rfl := Message.jobGranted.inj heq
        exact ⟨job, hid, hnada, hcuenta.append _⟩

theorem dequeueTop (h : Recibe D (s, w)) (tipo : Resource) (top : PendingRequest) :
    Recibe D (dequeueTop tipo top s, w) := by
  have hpop : Recibe D (popTop tipo top s, w) :=
    h.sigue h.conns rfl rfl (log_popTop s tipo top)
      (fun _ _ hmem => Event.noConfusion (List.mem_singleton.mp hmem)) h.nueva
  have hmark : Recibe D (markTop tipo top (popTop tipo top s), w) :=
    hpop.setTabla (TablaJobs.forall_cambioAlloc hpop.tabla (fun _ hj => hj.markGranted _ _))
  rw [dequeueTop_eq]
  unfold answerTop
  split
  · exact hmark.emit (fun _ _ heq => Message.noConfusion (Event.tx.inj heq).2)
  · split
    · next hv => exact hmark.sendJobGranted hv _
    · exact hmark

/-- **`GRANTED`.** -/
theorem processGranted (h : Recibe D (s, w)) (c : Conn) (i : Int32) :
    Recibe D (processGranted c i (s.emit (.rx c (.granted i))), w) := by
  have hrx := h.emit (e := .rx c (.granted i)) (fun _ _ => Event.noConfusion)
  unfold Hpc.processGranted
  cases hip : tablaConnsGetIpByConn (s.emit (.rx c (.granted i))).conns c with
  | none => exact hrx
  | some host =>
    have hhost : D c = some host := by
      obtain ⟨e, hfind, rfl⟩ := Option.map_eq_some_iff.mp hip
      have hconn : e.conn = c :=
        eq_of_beq (List.find?_some (p := fun e : ConnEntry => e.conn == c) hfind)
      obtain ⟨k, -, he⟩ := List.mem_flatMap.mp (List.mem_of_find?_eq_some hfind)
      exact hconn ▸ h.conns k e he
    dsimp only
    split
    · have hsay : ∀ {u : Manager}, Recibe D (u, w) → ∀ t,
          Recibe D (sendMessage c (.release i t 0) u, w) :=
        fun hu t => hu.emit (fun _ _ heq => Message.noConfusion (Event.tx.inj heq).2)
      exact hsay (hsay (hsay hrx .cpu) .mem) .gpu
    · have hconfirmar : (tablaJobsJobConfirmar s.tabla host i).Forall
          (Job.Cuenta D s.ip (s.log ++ [.rx c (.granted i)])) := by
        refine Buckets.Forall.modifyFirst_of_match (f := fun j => (jobConfirmar j host i).2)
          h.tabla (fun _ hj => hj.append _) (fun j hj hcuenta => ?_)
        obtain rfl := eq_of_beq hj
        exact hcuenta.confirmar hhost
      have htabla := hrx.setTabla hconfirmar
      split
      · next hv => exact htabla.sendJobGranted (Bool.and_elim_right hv) _
      · exact htabla

/-- **The end of a `JOB_REQUEST`** whose entries are all placed. -/
theorem insertJob {requests : List ResourceRequest} {job : Job}
    (h : Recibe D (s, [.nueva requests [] job])) : Recibe D (insertJob job requests s, []) := by
  have hnace := h.nueva requests [] job List.mem_cons_self
  have hhecho : Recibe D (s, []) := h.trabajo (fun _ _ _ hmem => absurd hmem List.not_mem_nil)
  have hemit := hhecho.emit (e := .inserted job requests) (fun _ _ => Event.noConfusion)
  have hcuenta : job.Cuenta D s.ip (s.log ++ [.inserted job requests]) :=
    hnace.cuenta (List.mem_append_right _ List.mem_cons_self)
  have hinserta : Recibe D
      ((s.setTabla (tablaJobsInsertarJob s.tabla job)).emit (.inserted job requests), []) :=
    hemit.setTabla (Buckets.Forall.cons hemit.tabla hcuenta)
  unfold Hpc.insertJob
  dsimp only
  split
  · next hv => exact hinserta.sendJobGranted hv _
  · exact hinserta

/-- A connection that comes up is filed under its address. -/
theorem processConnectionReady (h : Recibe D (s, w)) (hcorta : D.Corta)
    (hsolo : s.tabla.Forall Job.SoloReserva) (c : Conn) :
    Recibe D (processConnectionReady c s, w) := by
  obtain ⟨conns, heq⟩ := processConnectionReady_eq s c
  have hlog : (Hpc.processConnectionReady c s).log
      = s.log ++ (tablaJobsGetPendientesByConn s.tabla c).map
        (fun req => .tx c (req.msg.getD .garbage)) := by
    rw [heq]
  refine h.sigue (fun i e he => ?_) (by rw [heq]) (by rw [heq]) hlog (fun i conn hmem => ?_)
    h.nueva
  · rcases conns_processConnectionReady he with hold | ⟨j, hj, o, ho, hconn, -, rfl⟩
    · exact h.conns i e hold
    · have hrumbo := (Buckets.Forall.of_mem_toList h.tabla hj).rumbo o ho
      have hlen := hcorta o.conn o.ip hrumbo
      show D c = some (copyTo 16 (copyTo 15 o.ip))
      rw [copyTo_of_lt (Nat.lt_of_le_of_lt hlen (by decide)),
        copyTo_of_lt (Nat.lt_of_le_of_lt hlen (by decide)), ← hconn, hrumbo]
  · obtain ⟨req, hreq, htx⟩ := List.mem_map.mp hmem
    obtain ⟨j, hj, o, ho, -, hmsg⟩ := mem_getPendientesByConn hreq
    obtain ⟨-, hline⟩ := Event.tx.inj htx
    rw [hmsg] at hline
    cases hm : o.msg with
    | none => exact Message.noConfusion ((congrArg (Option.getD · _) hm).symm.trans hline)
    | some m =>
      obtain ⟨i', type, amount, rfl⟩ := Buckets.Forall.of_mem_toList hsolo hj o ho m hm
      rw [hm] at hline
      exact Message.noConfusion hline

/-- A connection that is found leads to the address. -/
theorem lookup (h : Recibe D (s, w)) {host : CString} {c : Conn}
    (hlookup : tablaConnsLookup s.conns host = some c) : D c = some host := by
  obtain ⟨e, hfind, rfl⟩ := Option.map_eq_some_iff.mp hlookup
  have hip : e.ip = host :=
    eq_of_beq (List.find?_some (p := fun e : ConnEntry => e.ip == host) hfind)
  exact hip ▸ h.conns _ e (List.mem_of_find?_eq_some hfind)

/-- The work left is on the job being built. -/
theorem construye (h : Recibe D (s, w)) {requests next : List ResourceRequest} {job : Job}
    (hjob : job.Nace D s.ip requests next) : Recibe D (s, [.nueva requests next job]) := by
  refine h.trabajo (fun requests' next' job' hmem => ?_)
  obtain ⟨rfl, rfl, rfl⟩ := Obra.nueva.inj (List.mem_singleton.mp hmem)
  exact hjob

/-- **What a small step keeps**, if the connections it opens lead to their hosts. -/
theorem paso {G : Guardia} {c d : Manager × List Obra} (h : Recibe D c)
    (hsolo : Todos Job.SoloReserva c) (hcorta : D.Corta) (hD : Dirige D d.1.log)
    (hlost : ∀ t conn, G.lost t conn → D conn = none) (hpaso : Paso G c d) : Recibe D d := by
  have hother : ∀ {w' : List Obra}, (∀ requests next job, Obra.nueva requests next job ∈ w' →
      Obra.nueva requests next job ∈ c.2) → ∀ requests next job,
      Obra.nueva requests next job ∈ w' → job.Nace D c.1.ip requests next :=
    fun hw requests next job hmem => h.nueva requests next job (hw requests next job hmem)
  cases hpaso with
  | reserve conn jobId type amount =>
    have hrx := h.emit (e := .rx conn (.reserve jobId type amount)) (fun _ _ => Event.noConfusion)
    rcases processReserve_cases conn jobId type amount _ with
      ⟨-, heq⟩ | ⟨-, -, heq⟩ | ⟨-, -, heq⟩
    · rw [heq]
      exact (hrx.takeUnits type _).emit (fun _ _ heq => Message.noConfusion (Event.tx.inj heq).2)
    · rw [heq]
      exact hrx.emit (fun _ _ heq => Message.noConfusion (Event.tx.inj heq).2)
    · rw [heq]
      exact hrx.enqueue type _
  | dequeue tipo top rest => exact h.dequeueTop tipo top
  | granted conn jobId => exact h.processGranted conn jobId
  | insertar requests job => exact h.insertJob
  | listo conn => exact h.processConnectionReady hcorta hsolo.tabla conn
  | nuevo conn jobId requests =>
    refine (h.emit (e := .rx conn (.jobRequest jobId requests))
      (fun _ _ => Event.noConfusion)).construye ⟨fun _ ho => absurd ho List.not_mem_nil,
        fun _ _ => zero_add _, fun _ ha => absurd ha List.not_mem_nil⟩
  | localGranted requests next head job hip =>
    exact (h.takeUnits head.type (head.pending job)).construye
      ((h.nueva _ _ job List.mem_cons_self).addLocal hip .granted)
  | localQueued requests next head job hip =>
    exact (h.enqueue head.type (head.pending job)).construye
      ((h.nueva _ _ job List.mem_cons_self).addLocal hip .queued)
  | remoteSent requests next head job remote hip hlookup =>
    exact (h.emit (fun _ _ heq => Message.noConfusion (Event.tx.inj heq).2)).construye
      ((h.nueva _ _ job List.mem_cons_self).addRemote hcorta (h.lookup hlookup) none)
  | remoteConnecting requests next head job conn hip hlookup =>
    have hconn : D conn = some head.ip :=
      hD head.ip conn (List.mem_append_right _ List.mem_cons_self)
    exact (h.emit (e := .connecting head.ip conn) (fun _ _ => Event.noConfusion)).construye
      ((h.nueva _ _ job List.mem_cons_self).addRemote hcorta hconn _)
  | extract jobId job =>
    exact (h.setTabla (TablaJobs.forall_extractById h.tabla jobId)).trabajo (hother (by simp))
  | lose conn hG =>
    have hnone := hlost _ conn hG
    refine (h.setTabla (TablaJobs.forall_extractByRemoteConn h.tabla (fun j hj => ?_))).trabajo
      (hother (by simp))
    rw [hj.dropRemote_eq hnone]
    exact hj
  | conexiones conn hG =>
    refine h.callado (fun i e he => h.conns i e ?_) rfl rfl rfl
    change e ∈ (if i < TAM_TABLA_CONN then _ else _) at he
    split at he
    · exact List.eraseP_sublist.subset he
    · exact he
  | mensaje conn m =>
    exact (h.emit (e := .rx conn m) (fun _ _ => Event.noConfusion)).trabajo (hother (by simp))
  | returned conn jobId type amount =>
    have hrx := (h.emit (e := .rx conn (.release jobId type amount))
      (fun _ _ => Event.noConfusion)).emit (e := .returned type jobId amount)
      (fun _ _ => Event.noConfusion)
    exact (hrx.trabajo (hother (by simp))).callado hrx.conns rfl rfl rfl
  | refused conn jobId type amount =>
    have hrx := (h.emit (e := .rx conn (.release jobId type amount))
      (fun _ _ => Event.noConfusion)).emit (e := .returned type jobId amount)
      (fun _ _ => Event.noConfusion)
    exact hrx.trabajo (hother (by simp))
  | soltar job a rest =>
    have hback := h.emit (e := .giveBack a.name a.request) (fun _ _ => Event.noConfusion)
    exact (hback.trabajo (hother (by simp +contextual))).callado hback.conns rfl rfl rfl
  | perder job a rest =>
    exact (h.emit (e := .giveBack a.name a.request) (fun _ _ => Event.noConfusion)).trabajo
      (hother (by simp +contextual))
  | avisar job a rest jobId conn =>
    exact (h.emit (fun _ _ heq => Message.noConfusion (Event.tx.inj heq).2)).trabajo
      (hother (by simp +contextual))
  | decir conn m hm =>
    refine h.emit (fun i conn' heq => ?_)
    rw [(Event.tx.inj heq).2] at hm
    exact Bool.false_ne_true hm
  | _ => exact (h.trabajo (hother (by simp +contextual))).callado h.conns rfl rfl rfl

end Recibe

/-- **The log only grows.** -/
theorem Paso.log_subset {G : Guardia} {c d : Manager × List Obra} (h : Paso G c d) :
    c.1.log ⊆ d.1.log := by
  have happend : ∀ {s s' : Manager} {es : List Event}, s'.log = s.log ++ es → s.log ⊆ s'.log :=
    fun hlog => hlog ▸ List.subset_append_left _ _
  cases h with
  | @reserve s conn jobId type amount =>
    obtain ⟨es, hlog, -⟩ := (Manager.Anota.processReserve conn jobId type amount
      (s.emit (.rx conn (.reserve jobId type amount)))).log
    exact List.Subset.trans (List.subset_append_left _ _) (happend hlog)
  | @granted s conn jobId =>
    obtain ⟨es, hlog, -⟩ := (Manager.Anota.processGranted conn jobId
      (s.emit (.rx conn (.granted jobId)))).log
    exact List.Subset.trans (List.subset_append_left _ _) (happend hlog)
  | dequeue tipo top rest hc =>
    obtain ⟨es, hlog, -⟩ := (Manager.Sirve.dequeueTop hc).log
    exact happend hlog
  | @insertar s requests job =>
    obtain ⟨es, hlog, -⟩ := log_insertJob_append job requests s
    exact happend (hlog.trans (List.append_assoc _ _ _))
  | @listo s conn =>
    obtain ⟨conns, heq⟩ := processConnectionReady_eq s conn
    exact happend (congrArg Manager.log heq)
  | returned => exact List.Subset.trans (List.subset_append_left _ _) (List.subset_append_left _ _)
  | refused => exact List.Subset.trans (List.subset_append_left _ _) (List.subset_append_left _ _)
  | mensaje | soltar | perder | avisar | nuevo | localGranted | remoteSent | remoteConnecting
  | decir => exact List.subset_append_left _ _
  | _ => exact List.Subset.refl _

/-- No connection to another node is lost. -/
def SinPerdidas (D : Rumbo) : Guardia where
  message _ _ _ := True
  ids _ := True
  carries _ _ _ := trivial
  lost _ conn := D conn = none
  ready _ _ := True

instance (D : Rumbo) (s : Manager) : (call : Call) → Decidable ((SinPerdidas D).allows s call)
  | .message .. => .isTrue (fun _ _ => trivial)
  | .failed conn | .disconnect conn => inferInstanceAs (Decidable (D conn = none))
  | .ready .. | .announce .. | .purge .. => .isTrue trivial

/-- **What the node is granted, along every run** in which no connection to another node
is lost. -/
theorem recibe_of_reaches {D : Rumbo} (hcorta : D.Corta) {cpu mem gpu : Int32} {ip : CString}
    {s : Manager}
    (hrun : Reaches Manager.step (SinPerdidas D).allows (managerInit cpu mem gpu ip) s)
    (hD : Dirige D s.log) : Recibe D (s, []) := by
  refine (pasos_of_reaches (I := fun c => (Dirige D c.1.log → Recibe D c)
      ∧ Todos Job.SoloReserva c) hrun
    ⟨fun _ => ⟨fun _ _ he => absurd he List.not_mem_nil, Buckets.forall_empty,
      fun _ _ _ hmem => absurd hmem List.not_mem_nil, fun _ _ hmem => absurd hmem List.not_mem_nil⟩,
      Buckets.forall_empty, fun _ _ _ hmem => absurd hmem List.not_mem_nil⟩
    (fun c d h hpaso => ⟨fun hD => ?_, ?_⟩)).1 hD
  · exact (h.1 (fun host conn hmem => hD host conn (hpaso.log_subset hmem))).paso h.2 hcorta hD
      (fun _ _ => id) hpaso
  · exact h.2.paso soloReserva_estable (Paso.mono (G := SinPerdidas D) (H := Cualquiera)
      (fun _ _ _ _ => trivial) (fun _ _ => trivial) (fun _ _ _ => trivial) (fun _ _ _ => trivial)
      hpaso)

/-- **A job whose owner is told was granted by every host**, as often as it asked. Along
every run in which no connection to another node is lost, `JOB_GRANTED` went out for a job
only if each host sent at least as many `GRANTED` lines for it as the `JOB_REQUEST` lists
requests for that host. -/
theorem granted_by_all {D : Rumbo} (hcorta : D.Corta) {cpu mem gpu : Int32} {ip : CString}
    {s : Manager}
    (hrun : Reaches Manager.step (SinPerdidas D).allows (managerInit cpu mem gpu ip) s)
    (hD : Dirige D s.log) {jobId : Int32} {conn : Conn}
    (htold : .tx conn (.jobGranted jobId) ∈ s.log) :
    ∃ job requests, .inserted job requests ∈ s.log ∧ job.jobId = jobId
      ∧ ∀ host, host ≠ s.ip →
        (pideA host requests).card ≤ s.log.countP (Event.concede D jobId host) := by
  obtain ⟨j, rfl, hnada, hcuenta⟩ := (recibe_of_reaches hcorta hrun hD).dichas jobId conn htold
  obtain ⟨nuevo, requests, hmem, hid, hpedida⟩ := hcuenta.pedida
  refine ⟨nuevo, requests, hmem, hid, fun host hne => ?_⟩
  rw [← hpedida host hne, Job.aguarda_of_nil hnada, zero_add]
  exact hcuenta.recibida host

/-- The connections to the host of the examples. -/
def haciaB : Rumbo := fun c => if c = 7 ∨ c = 8 then some ['B'] else none

theorem haciaB_corta : haciaB.Corta := by
  intro c host hc
  obtain ⟨-, hhost⟩ := Option.ite_none_right_eq_some.mp hc
  obtain rfl := Option.some.inj hhost
  decide

/-- Two requests for one host, and its two answers. -/
theorem granted_by_all_dos :
    ∃ s, Reaches.trace Manager.step (managerInit 4 8 1 ['A'])
        [.announce 0 ['B'] "ANNOUNCE 9000 cpu:4 mem:8 gpu:1".toList,
         .message 1 "JOB_REQUEST 1 @B:cpu:1 @B:mem:2".toList [some 7, some 8], .ready 7, .ready 8,
         .message 7 "GRANTED 1".toList [], .message 8 "GRANTED 1".toList []] = some s
      ∧ .tx 1 (.jobGranted 1) ∈ s.log
      ∧ ∃ job requests, .inserted job requests ∈ s.log ∧ job.jobId = 1 ∧ ∀ host, host ≠ s.ip →
        (pideA host requests).card ≤ s.log.countP (Event.concede haciaB 1 host) := by
  have hcheck : (Reaches.checked Manager.step
      (fun s call => decide ((SinPerdidas haciaB).allows s call)) (managerInit 4 8 1 ['A'])
      [.announce 0 ['B'] "ANNOUNCE 9000 cpu:4 mem:8 gpu:1".toList,
       .message 1 "JOB_REQUEST 1 @B:cpu:1 @B:mem:2".toList [some 7, some 8], .ready 7, .ready 8,
       .message 7 "GRANTED 1".toList [], .message 8 "GRANTED 1".toList []]).any (fun s =>
        decide (Dirige haciaB s.log) && decide (.tx 1 (.jobGranted 1) ∈ s.log)) = true := by
    decide +kernel
  obtain ⟨s, htrace, hrun, hs⟩ := Reaches.of_checked (fun _ _ => of_decide_eq_true) hcheck
  obtain ⟨hD, htold⟩ := Bool.and_eq_true_iff.mp hs
  exact ⟨s, htrace, of_decide_eq_true htold, granted_by_all haciaB_corta hrun
    (of_decide_eq_true hD) (of_decide_eq_true htold)⟩

end Hpc
