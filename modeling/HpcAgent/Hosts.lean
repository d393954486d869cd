import HpcAgent.Addresses
import HpcAgent.Connections
import HpcAgent.Serving

/-!
# The hosts a job lets go of

A job that ends tells the hosts of its remote allocations, `JOB_RELEASE` over the
connection each allocation has, the other teardowns over the one that the table of
connections has under its address. Both go to the same host unless the address lost
its last character on the way, and a connection to another host with the address that
is left came up later (`avisos_eq_iff`).

While no connection is closed, there is a connection under the address of every
remote allocation (`fichado_of_reaches`).
-/

namespace Hpc

/-! ## Addresses as they are kept -/

/-- The connection was opened to a host whose address is cut to this one. -/
def Abierta (log : List Event) (ip : CString) (conn : Conn) : Prop :=
  ∃ host, Event.connecting host conn ∈ log ∧ ip = copyTo 15 host

/-- **What a job keeps of other hosts** is under addresses its connections were opened
to, and the table of connections has those of its remote allocations. -/
structure Job.Fichado (conns : TablaConns) (log : List Event) (j : Job) : Prop where
  propias : ∀ a ∈ j.confirmadas, a.jobId = j.jobId
  remotas : ∀ a ∈ j.confirmadas, a.type = .remoteAlloc →
    Abierta log a.ip a.conn ∧ (tablaConnsLookup conns a.ip).isSome = true
  pendientes : ∀ o ∈ j.pendientes, Abierta log o.ip o.conn

/-- **Connections are filed under the addresses they were opened to**, each to one
host. -/
structure Manager.Fichado (s : Manager) : Prop where
  unica : ∀ host host' conn, Event.connecting host conn ∈ s.log →
    Event.connecting host' conn ∈ s.log → host = host'
  conns : ∀ i, ∀ e ∈ s.conns.buckets i, hashIp e.ip = i ∧ Abierta s.log e.ip e.conn
  jobs : s.tabla.Forall (Job.Fichado s.conns s.log)

/-- **The runs in which nothing is closed**: `connect_remote_node` returns connections
that are new, and no connection is lost or fails. -/
def SinCierres (s : Manager) : Call → Prop
  | .message _ _ red => (red.filterMap id).Nodup ∧ ∀ c ∈ red.filterMap id, ¬s.Creada c
  | .failed _ | .disconnect _ => False
  | _ => True

theorem Abierta.mono {log log' : List Event} (hsub : log ⊆ log') {ip : CString} {conn : Conn}
    (h : Abierta log ip conn) : Abierta log' ip conn := by
  obtain ⟨host, hmem, hip⟩ := h
  exact ⟨host, hsub hmem, hip⟩

/-- An address that was cut is not cut again. -/
theorem copyTo_copyTo_of_le {n m : ℕ} (h : n ≤ m) (l : CString) :
    copyTo m (copyTo n l) = copyTo n l := by
  unfold copyTo
  rw [List.take_take, Nat.min_eq_right (Nat.sub_le_sub_right h 1)]

theorem Abierta.copyTo_eq {log : List Event} {ip : CString} {conn : Conn}
    (h : Abierta log ip conn) {n : ℕ} (hn : 15 ≤ n) : copyTo n ip = ip := by
  obtain ⟨host, -, rfl⟩ := h
  exact copyTo_copyTo_of_le hn host

namespace Job.Fichado

variable {conns : TablaConns} {log : List Event} {j j' : Job}

theorem mono (h : j.Fichado conns log) {conns' : TablaConns} {log' : List Event}
    (hsub : log ⊆ log') (hlookup : ∀ ip, (tablaConnsLookup conns ip).isSome = true →
      (tablaConnsLookup conns' ip).isSome = true) : j.Fichado conns' log' :=
  ⟨h.propias, fun a ha hremote => ⟨(h.remotas a ha hremote).1.mono hsub,
    hlookup a.ip (h.remotas a ha hremote).2⟩, fun o ho => (h.pendientes o ho).mono hsub⟩

/-- Marks change none of it. -/
theorem marcado (h : j.Fichado conns log) (hj : j.Marcado j') : j'.Fichado conns log := by
  have hback : ∀ b ∈ j'.confirmadas, ∃ a ∈ j.confirmadas, a.type = b.type ∧ a.jobId = b.jobId
      ∧ a.ip = b.ip ∧ a.conn = b.conn := by
    intro b hb
    obtain ⟨a, ha, hab⟩ := List.exists_of_forall₂ hj.confirmadas.flip hb
    rcases hab with rfl | ⟨-, rfl⟩
    · exact ⟨_, ha, rfl, rfl, rfl, rfl⟩
    · exact ⟨a, ha, rfl, rfl, rfl, rfl⟩
  refine ⟨fun b hb => ?_, fun b hb hremote => ?_, fun o ho => h.pendientes o (hj.pendientes ▸ ho)⟩
  · obtain ⟨a, ha, -, hid, -, -⟩ := hback b hb
    rw [hj.jobId, ← hid]
    exact h.propias a ha
  · obtain ⟨a, ha, htype, -, hip, hconn⟩ := hback b hb
    rw [← hip, ← hconn]
    exact h.remotas a ha (htype.trans hremote)

/-- A confirmation, by a connection that the table has. -/
theorem confirmar (h : j.Fichado conns log) {ip : CString}
    (hip : (tablaConnsLookup conns ip).isSome = true) :
    (jobConfirmar j ip j.jobId).2.Fichado conns log := by
  unfold jobConfirmar
  cases hfind : j.pendientes.find? (fun sal => sal.ip == ip) with
  | none => exact h
  | some sal =>
    have hsal := h.pendientes sal (List.mem_of_find?_eq_some hfind)
    have hsalip : sal.ip = ip :=
      eq_of_beq (List.find?_some (p := fun o : OutRequest => o.ip == ip) hfind)
    refine ⟨List.forall_mem_cons.mpr ⟨rfl, h.propias⟩,
      List.forall_mem_cons.mpr ⟨fun _ => ?_, h.remotas⟩,
      fun o ho => h.pendientes o (List.mem_of_mem_eraseP ho)⟩
    show Abierta log (copyTo 16 sal.ip) sal.conn
      ∧ (tablaConnsLookup conns (copyTo 16 sal.ip)).isSome = true
    rw [hsal.copyTo_eq (by decide)]
    exact ⟨hsal, hsalip.symm ▸ hip⟩

end Job.Fichado

namespace Manager.Fichado

variable {s s' : Manager}

/-- What is found under an address was opened to it. -/
theorem lookup (h : s.Fichado) {ip : CString} {conn : Conn}
    (hlookup : tablaConnsLookup s.conns ip = some conn) : Abierta s.log ip conn := by
  obtain ⟨e, hfind, rfl⟩ := Option.map_eq_some_iff.mp hlookup
  have hip : e.ip = ip := eq_of_beq (List.find?_some (p := fun e : ConnEntry => e.ip == ip) hfind)
  rw [← hip]
  exact (h.conns _ e (List.mem_of_find?_eq_some hfind)).2

/-- The address of a connection of the table is found. -/
theorem isSome_lookup (h : s.Fichado) {ip : CString} {conn : Conn}
    (hip : tablaConnsGetIpByConn s.conns conn = some ip) :
    (tablaConnsLookup s.conns ip).isSome = true := by
  obtain ⟨e, hfind, rfl⟩ := Option.map_eq_some_iff.mp hip
  obtain ⟨i, -, he⟩ := List.mem_flatMap.mp (List.mem_of_find?_eq_some hfind)
  unfold tablaConnsLookup
  rw [(h.conns i e he).1, Option.isSome_map, List.find?_isSome]
  exact ⟨e, he, beq_self_eq_true e.ip⟩

/-- **No connection is opened, and the jobs that stay are marked at most.** -/
theorem queda (h : s.Fichado) (hconns : s'.conns = s.conns) {es : List Event}
    (hlog : s'.log = s.log ++ es) (hes : ∀ e ∈ es, ∀ host conn, e ≠ .connecting host conn)
    (htabla : ∀ i, ∀ j' ∈ s'.tabla.bucket i, ∃ j ∈ s.tabla.bucket i, j.Marcado j') :
    s'.Fichado := by
  have hsub : s.log ⊆ s'.log := hlog ▸ List.subset_append_left _ _
  have hback : ∀ host conn, Event.connecting host conn ∈ s'.log →
      Event.connecting host conn ∈ s.log := by
    intro host conn hmem
    rw [hlog] at hmem
    rcases List.mem_append.mp hmem with hmem | hmem
    · exact hmem
    · exact absurd rfl (hes _ hmem host conn)
  refine ⟨fun host host' conn hmem hmem' => h.unica host host' conn (hback _ _ hmem)
    (hback _ _ hmem'), fun i e he => ?_, fun i j' hj' => ?_⟩
  · rw [hconns] at he
    exact ⟨(h.conns i e he).1, (h.conns i e he).2.mono hsub⟩
  · obtain ⟨j, hj, hmark⟩ := htabla i j' hj'
    rw [hconns]
    exact ((h.jobs i j hj).marcado hmark).mono hsub (fun _ => id)

/-- The tables stay as they are. -/
theorem extiende (h : s.Fichado) (hconns : s'.conns = s.conns) (htabla : s'.tabla = s.tabla)
    {es : List Event} (hlog : s'.log = s.log ++ es)
    (hes : ∀ e ∈ es, ∀ host conn, e ≠ .connecting host conn) : s'.Fichado :=
  h.queda hconns hlog hes (fun _ j hj => ⟨j, htabla ▸ hj, .refl j⟩)

theorem emit (h : s.Fichado) {e : Event} (he : ∀ host conn, e ≠ .connecting host conn) :
    (s.emit e).Fichado :=
  h.extiende rfl rfl rfl (fun _ he' => (List.mem_singleton.mp he').symm ▸ he)

theorem of_sirve (h : s.Fichado) (hs : s.Sirve s') : s'.Fichado := by
  obtain ⟨es, hlog, hes⟩ := hs.log
  refine h.queda hs.conns hlog (fun e he host conn heq => ?_) (fun i j' hj' => ?_)
  · subst heq
    exact Bool.false_ne_true (hes _ he)
  · exact List.exists_of_forall₂ (hs.tabla i).flip hj'

theorem sinJob (h : s.Fichado) (jobId : Int32) : (s.sinJob jobId).Fichado :=
  ⟨h.unica, h.conns, h.jobs.eraseFirst⟩

end Manager.Fichado

/-! ## Lines -/

namespace Manager.Fichado

variable {s : Manager}

/-- **`GRANTED`.** -/
theorem processGranted (h : s.Fichado) (conn : Conn) (jobId : Int32) :
    (processGranted conn jobId s).Fichado := by
  unfold Hpc.processGranted
  split
  · exact h
  · next ip hip =>
    split
    · exact ((h.emit (fun _ _ => Event.noConfusion)).emit (fun _ _ => Event.noConfusion)).emit
        (fun _ _ => Event.noConfusion)
    · next check _ =>
      have hconfirmar : (s.setTabla (tablaJobsJobConfirmar s.tabla ip jobId)).Fichado := by
        refine ⟨h.unica, h.conns, fun i j' hj' => ?_⟩
        have hj' : j' ∈ Function.update s.tabla.bucket (bucketOf jobId)
          ((s.tabla.bucket (bucketOf jobId)).modifyFirst (fun j => j.jobId == jobId)
            (fun j => (jobConfirmar j ip jobId).2)) i := hj'
        rw [Function.update_apply] at hj'
        split at hj'
        · rcases List.mem_of_mem_modifyFirst hj' with hj' | ⟨j, hj, hid, rfl⟩
          · exact h.jobs _ j' hj'
          · obtain rfl : j.jobId = jobId := eq_of_beq hid
            exact (h.jobs _ j hj).confirmar (h.isSome_lookup hip)
        · exact h.jobs i j' hj'
      dsimp only
      split
      · exact (hconfirmar.emit (fun _ _ => Event.noConfusion)).emit
          (fun _ _ => Event.noConfusion)
      · exact hconfirmar

/-- A line that requests no job. -/
theorem handle (h : s.Fichado) {m : Message}
    (hrequest : ∀ jobId requests, m ≠ .jobRequest jobId requests) (conn : Conn) (red : Network) :
    (handle conn red m s).Fichado := by
  cases hm : m.ends with
  | some jobId =>
    obtain ⟨u, hsirve, hu⟩ := ends_handle hm conn red s
    have hfree : u.Fichado := (h.sinJob jobId).of_sirve hsirve
    rcases hu with heq | ⟨owner, -, -, heq⟩
    · exact heq ▸ hfree
    · rw [heq]
      exact (hfree.emit (fun _ _ => Event.noConfusion)).of_sirve (.limpiarColasPorId jobId _)
  | none =>
    cases m with
    | reserve jobId type amount =>
      show (processReserve conn jobId type amount s).Fichado
      rcases processReserve_cases conn jobId type amount s with
        ⟨-, heq⟩ | ⟨-, -, heq⟩ | ⟨-, -, heq⟩
      · rw [heq]
        have htake : (takeUnits type ⟨jobId, amount, conn, .originRemote⟩ s).Fichado :=
          h.extiende rfl rfl (log_takeUnits s type _)
            (fun e he => (List.mem_singleton.mp he).symm ▸ fun _ _ => Event.noConfusion)
        exact htake.emit (fun _ _ => Event.noConfusion)
      · rw [heq]
        exact h.emit (fun _ _ => Event.noConfusion)
      · rw [heq]
        exact h.extiende rfl rfl (List.append_nil _).symm (fun _ he => absurd he List.not_mem_nil)
    | granted jobId => exact h.processGranted conn jobId
    | jobRequest jobId requests => exact absurd rfl (hrequest jobId requests)
    | release jobId type amount => exact nomatch hm
    | denied jobId => exact nomatch hm
    | jobRelease jobId => exact nomatch hm
    | jobTimeout jobId => exact nomatch hm
    | getNodes => exact h.emit (fun _ _ => Event.noConfusion)
    | jobStatus jobId => exact h.emit (fun _ _ => Event.noConfusion)
    | jobGranted jobId => exact h
    | jobDenied jobId => exact h
    | jobStatusIs jobId active => exact h
    | nodes line => exact h
    | garbage => exact h

end Manager.Fichado

/-! ## A connection comes up -/

/-- A table with one more entry finds what it found. -/
theorem isSome_lookup_insert {conns : TablaConns} {ip : CString}
    (h : (tablaConnsLookup conns ip).isSome = true) (key : CString) (conn : Conn) :
    (tablaConnsLookup (tablaConnsInsert conns key conn) ip).isSome = true := by
  unfold tablaConnsLookup at h ⊢
  rw [Option.isSome_map, List.find?_isSome] at h ⊢
  obtain ⟨e, he, hip⟩ := h
  refine ⟨e, ?_, hip⟩
  show e ∈ Function.update conns.buckets (hashIp key) _ (hashIp ip)
  rw [Function.update_apply]
  split
  · next heq => exact List.mem_cons_of_mem _ (heq ▸ he)
  · exact he

theorem isSome_lookup_foldl_readyRequest (conn : Conn) (lista : List OutRequest) {s : Manager}
    {ip : CString} (h : (tablaConnsLookup s.conns ip).isSome = true) :
    (tablaConnsLookup (lista.foldl (fun s req => readyRequest conn req s) s).conns ip).isSome
      = true := by
  induction lista generalizing s with
  | nil => exact h
  | cons req lista ih => exact ih (isSome_lookup_insert h req.ip conn)

/-- **`process_connection_ready`** files the connection. -/
theorem Manager.Fichado.processConnectionReady {s : Manager} (h : s.Fichado) (conn : Conn) :
    (processConnectionReady conn s).Fichado := by
  obtain ⟨conns, heq⟩ := processConnectionReady_eq s conn
  have hlog : (Hpc.processConnectionReady conn s).log = s.log
      ++ (tablaJobsGetPendientesByConn s.tabla conn).map
        (fun req => .tx conn (req.msg.getD .garbage)) := by
    rw [heq]
  have htabla : (Hpc.processConnectionReady conn s).tabla = s.tabla := by rw [heq]
  have hsub : s.log ⊆ (Hpc.processConnectionReady conn s).log :=
    hlog ▸ List.subset_append_left _ _
  have hback : ∀ host c, Event.connecting host c ∈ (Hpc.processConnectionReady conn s).log →
      Event.connecting host c ∈ s.log := by
    intro host c hmem
    rw [hlog] at hmem
    rcases List.mem_append.mp hmem with hmem | hmem
    · exact hmem
    · obtain ⟨req, -, heq⟩ := List.mem_map.mp hmem
      exact nomatch heq
  refine ⟨fun host host' c hmem hmem' => h.unica host host' c (hback _ _ hmem) (hback _ _ hmem'),
    fun i e he => ?_, ?_⟩
  · rcases conns_processConnectionReady he with hmem | ⟨j, hj, o, ho, rfl, rfl, rfl⟩
    · exact ⟨(h.conns i e hmem).1, (h.conns i e hmem).2.mono hsub⟩
    · have hopen := (h.jobs.of_mem_toList hj).pendientes o ho
      show hashIp (copyTo 16 (copyTo 15 o.ip)) = _ ∧ Abierta _ (copyTo 16 (copyTo 15 o.ip)) o.conn
      rw [hopen.copyTo_eq le_rfl, hopen.copyTo_eq (by decide)]
      exact ⟨rfl, hopen.mono hsub⟩
  · rw [htabla]
    exact h.jobs.mono (fun j hj => hj.mono hsub
      (fun ip => isSome_lookup_foldl_readyRequest conn _))

/-! ## A `JOB_REQUEST` -/

/-- **The loop over the entries, on the way**: the new job's requests are filed, and the
connections that `connect_remote_node` will return are new. -/
structure Job.Abriendo (s : Manager) (jobId : Int32) (red : Network) (job : Job) (u : Manager) :
    Prop where
  conns : u.conns = s.conns
  tabla : u.tabla = s.tabla
  log : s.log ⊆ u.log
  unica : ∀ host host' conn, Event.connecting host conn ∈ u.log →
    Event.connecting host' conn ∈ u.log → host = host'
  nodup : (red.filterMap id).Nodup
  nuevas : ∀ c ∈ red.filterMap id, ¬u.Creada c
  propio : job.jobId = jobId
  propias : ∀ a ∈ job.confirmadas, a.jobId = jobId ∧ a.type = .localAlloc
  pendientes : ∀ o ∈ job.pendientes, Abierta u.log o.ip o.conn

namespace Job.Abriendo

variable {s u : Manager} {jobId : Int32} {red : Network} {job : Job} {head : ResourceRequest}

/-- Something else is recorded. -/
theorem extiende (h : job.Abriendo s jobId red u) {u' : Manager} (hconns : u'.conns = u.conns)
    (htabla : u'.tabla = u.tabla) {es : List Event} (hlog : u'.log = u.log ++ es)
    (hes : ∀ e ∈ es, ∀ host conn, e ≠ .connecting host conn) : job.Abriendo s jobId red u' := by
  have hsub : u.log ⊆ u'.log := hlog ▸ List.subset_append_left _ _
  have hback : ∀ host conn, Event.connecting host conn ∈ u'.log →
      Event.connecting host conn ∈ u.log := by
    intro host conn hmem
    rw [hlog] at hmem
    rcases List.mem_append.mp hmem with hmem | hmem
    · exact hmem
    · exact absurd rfl (hes _ hmem host conn)
  exact ⟨hconns.trans h.conns, htabla.trans h.tabla, List.Subset.trans h.log hsub,
    fun host host' conn hmem hmem' => h.unica host host' conn (hback _ _ hmem) (hback _ _ hmem'),
    h.nodup, fun c hc ⟨host, hmem⟩ => h.nuevas c hc ⟨host, hback _ _ hmem⟩, h.propio, h.propias,
    fun o ho => (h.pendientes o ho).mono hsub⟩

/-- A local entry, granted or queued. -/
theorem addLocal (h : job.Abriendo s jobId red u) (ip : CString) (r : Result) :
    (job.addLocal head ip r).Abriendo s jobId red u :=
  ⟨h.conns, h.tabla, h.log, h.unica, h.nodup, h.nuevas, h.propio,
    List.forall_mem_cons.mpr ⟨⟨h.propio, rfl⟩, h.propias⟩, h.pendientes⟩

/-- A remote entry, over a connection to its host. -/
theorem addRemote (h : job.Abriendo s jobId red u) {conn : Conn}
    (hopen : Abierta u.log (copyTo 15 head.ip) conn) (msg : Option Message) :
    (job.addRemote head conn msg).Abriendo s jobId red u :=
  ⟨h.conns, h.tabla, h.log, h.unica, h.nodup, h.nuevas, h.propio, h.propias,
    List.forall_mem_cons.mpr ⟨hopen, h.pendientes⟩⟩

/-- A connection is opened. -/
theorem connecting {conn : Conn} (h : job.Abriendo s jobId (some conn :: red) u)
    (ip : CString) : job.Abriendo s jobId red (u.emit (.connecting ip conn)) := by
  have hmem : conn ∈ (some conn :: red).filterMap id :=
    List.mem_filterMap.mpr ⟨some conn, List.mem_cons_self, rfl⟩
  have hnew := h.nuevas conn hmem
  have hnodup : (conn :: red.filterMap id).Nodup := h.nodup
  have hlog : ∀ host c, Event.connecting host c ∈ (u.emit (.connecting ip conn)).log ↔
      Event.connecting host c ∈ u.log ∨ (host = ip ∧ c = conn) := by
    intro host c
    rw [Manager.log_emit, List.mem_append, List.mem_singleton, Event.connecting.injEq]
  refine ⟨h.conns, h.tabla, List.Subset.trans h.log (List.subset_append_left _ _),
    fun host host' c hc hc' => ?_, (List.nodup_cons.mp hnodup).2, fun c hc ⟨host, hcreada⟩ => ?_,
    h.propio, h.propias, fun o ho => (h.pendientes o ho).mono (List.subset_append_left _ _)⟩
  · rcases (hlog host c).mp hc with hold | ⟨rfl, rfl⟩
    · rcases (hlog host' c).mp hc' with hold' | ⟨rfl, rfl⟩
      · exact h.unica host host' c hold hold'
      · exact absurd ⟨host, hold⟩ hnew
    · rcases (hlog host' c).mp hc' with hold' | ⟨rfl, -⟩
      · exact absurd ⟨host', hold'⟩ hnew
      · rfl
  · rcases (hlog host c).mp hcreada with hold | ⟨-, rfl⟩
    · exact h.nuevas c (List.mem_filterMap.mpr
        ((List.mem_filterMap.mp hc).imp (fun _ h => ⟨List.mem_cons_of_mem _ h.1, h.2⟩)))
        ⟨host, hold⟩
    · exact (List.nodup_cons.mp hnodup).1 hc

/-- **The loop.** -/
theorem requestLoop (hs : s.Fichado) {red : Network} (hnodup : (red.filterMap id).Nodup)
    (hnew : ∀ c ∈ red.filterMap id, ¬s.Creada c) (requests : List ResourceRequest)
    (jobId : Int32) (conn : Conn) :
    ∃ red', (requestLoop requests red ⟨jobId, conn, [], []⟩ s).2.1.Abriendo s jobId red'
      (requestLoop requests red ⟨jobId, conn, [], []⟩ s).2.2 := by
  have hloop := requestLoop_network requests
    (P := fun _ left job u => job.Abriendo s jobId left u)
    (fun _ _ job u head _ _ h _ => (h.addLocal u.ip .granted).extiende rfl rfl
      (log_takeUnits u head.type _)
      (fun e he => (List.mem_singleton.mp he).symm ▸ fun _ _ => Event.noConfusion))
    (fun _ _ job u head _ _ h _ _ => (h.addLocal u.ip .queued).extiende rfl rfl
      (List.append_nil _).symm (fun _ he => absurd he List.not_mem_nil))
    (fun _ _ job u head _ remote _ h hlookup => by
      rw [h.conns] at hlookup
      have hopen := (hs.lookup hlookup).mono h.log
      rw [← hopen.copyTo_eq le_rfl] at hopen
      exact (h.addRemote hopen _).extiende rfl rfl rfl
        (fun e he => (List.mem_singleton.mp he).symm ▸ fun _ _ => Event.noConfusion))
    (fun _ _ job u head _ remote _ h _ _ => (h.connecting head.ip).addRemote
      ⟨head.ip, List.mem_append_right _ List.mem_cons_self, rfl⟩ _)
    [] red ⟨jobId, conn, [], []⟩ s
    ⟨rfl, rfl, List.Subset.refl _, hs.unica, hnodup, hnew, rfl,
      fun _ ha => absurd ha List.not_mem_nil, fun _ ho => absurd ho List.not_mem_nil⟩
  rcases hloop with ⟨-, red', h⟩ | ⟨-, -, red', h⟩
  · exact ⟨red', h⟩
  · exact ⟨red', h⟩

/-- The tables are as they were. -/
theorem fichado (h : job.Abriendo s jobId red u) (hs : s.Fichado) : u.Fichado := by
  refine ⟨h.unica, fun i e he => ?_, ?_⟩
  · rw [h.conns] at he
    exact ⟨(hs.conns i e he).1, (hs.conns i e he).2.mono h.log⟩
  · rw [h.tabla, h.conns]
    exact hs.jobs.mono (fun j hj => hj.mono h.log (fun _ => id))

end Job.Abriendo

/-- **`JOB_REQUEST`.** -/
theorem Manager.Fichado.processJobRequest {s : Manager} (h : s.Fichado) {red : Network}
    (hnodup : (red.filterMap id).Nodup) (hnew : ∀ c ∈ red.filterMap id, ¬s.Creada c)
    (conn : Conn) (jobId : Int32) (requests : List ResourceRequest) :
    (processJobRequest conn jobId requests red s).Fichado := by
  obtain ⟨red', hloop⟩ := Job.Abriendo.requestLoop h hnodup hnew requests jobId conn
  rcases processJobRequest_cases conn jobId requests red s with
    ⟨_, -, heq⟩ | ⟨-, -, heq⟩ | ⟨-, -, heq⟩
  · rw [heq]
    exact h
  all_goals
    rw [heq]
    generalize (requestLoop requests red ⟨jobId, conn, [], []⟩ s).2.2 = u at hloop ⊢
    generalize (requestLoop requests red ⟨jobId, conn, [], []⟩ s).2.1 = job at hloop ⊢
    have hu := hloop.fichado h
  · obtain ⟨es, hlog, hes⟩ := log_insertJob_append job requests u
    have hjob : job.Fichado u.conns u.log :=
      ⟨fun a ha => (hloop.propias a ha).1.trans hloop.propio.symm,
        fun a ha hremote => absurd ((hloop.propias a ha).2.symm.trans hremote) (by decide),
        hloop.pendientes⟩
    have hinsert : (u.setTabla (tablaJobsInsertarJob u.tabla job)).Fichado :=
      ⟨hu.unica, hu.conns, hu.jobs.cons hjob⟩
    refine hinsert.extiende (conns_insertJob ..) (tabla_insertJob ..)
      (hlog.trans (List.append_assoc _ _ _)) (fun e he host c heq => ?_)
    rcases List.mem_append.mp he with he | he
    · exact nomatch heq.symm.trans (List.mem_singleton.mp he)
    · subst heq
      exact Bool.false_ne_true (hes _ he)
  · exact (hu.of_sirve ((Manager.Sirve.limpiarColasPorId job.jobId u).trans
      (.freeAllocations job.jobId job.confirmadas _))).emit (fun _ _ => Event.noConfusion)

/-! ## Runs -/

/-- **Every connection is filed under the address it was opened to, and every remote
allocation finds one under its own**, in every run in which nothing is closed. -/
theorem fichado_of_reaches {cpu mem gpu : Int32} {ip : CString} {s : Manager}
    (hrun : Reaches Manager.step SinCierres (managerInit cpu mem gpu ip) s) : s.Fichado := by
  refine hrun.invariant (I := Manager.Fichado) ?_ (fun u call v hu hok hstep => ?_)
  · exact ⟨fun _ _ _ hmem => absurd hmem List.not_mem_nil,
      fun _ _ he => absurd he List.not_mem_nil, fun _ _ hj => absurd hj List.not_mem_nil⟩
  · obtain rfl := Option.some.inj hstep
    cases call with
    | message conn msg red =>
      show (processMessage conn msg red u).Fichado
      unfold processMessage
      cases parseMessage msg with
      | none => exact hu
      | some m =>
        have hrx : (u.emit (.rx conn m)).Fichado := hu.emit (fun _ _ => Event.noConfusion)
        by_cases hrequest : ∀ jobId requests, m ≠ .jobRequest jobId requests
        · exact hrx.handle hrequest conn red
        · push Not at hrequest
          obtain ⟨jobId, requests, rfl⟩ := hrequest
          refine hrx.processJobRequest hok.1 (fun c hc ⟨host, hmem⟩ => hok.2 c hc ⟨host, ?_⟩)
            conn jobId requests
          rcases List.mem_append.mp hmem with hmem | hmem
          · exact hmem
          · exact nomatch List.mem_singleton.mp hmem
    | ready conn => exact hu.processConnectionReady conn
    | failed conn => exact hok.elim
    | disconnect conn => exact hok.elim
    | announce now ipSender msg =>
      show (processAnnounce now ipSender msg u).Fichado
      unfold processAnnounce
      split
      · exact hu
      · exact ⟨hu.unica, hu.conns, hu.jobs⟩
    | purge now timeout => exact ⟨hu.unica, hu.conns, hu.jobs⟩

/-! ## The releases a job sends -/

/-- The line is a `RELEASE`. -/
def Message.isRelease : Message → Bool
  | .release .. => true
  | _ => false

/-- The `RELEASE`s that were sent, with their connections. -/
def sueltas (log : List Event) : List (Conn × Message) :=
  (enviados log).filter (fun x => x.2.isRelease)

@[simp] theorem sueltas_append (l m : List Event) : sueltas (l ++ m) = sueltas l ++ sueltas m := by
  unfold sueltas
  rw [enviados_append, List.filter_append]

/-- Those that went to a host, over a connection opened to it. -/
def paraHost (log : List Event) (host : CString) (l : List (Conn × Message)) : Multiset Message :=
  ↑((l.filter (fun x => Event.connecting host x.1 ∈ log)).map (·.2))

/-- **The `RELEASE`s that were sent to a host.** -/
def Manager.avisos (s : Manager) (host : CString) : Multiset Message :=
  paraHost s.log host (sueltas s.log)

theorem paraHost_append (log : List Event) (host : CString) (l m : List (Conn × Message)) :
    paraHost log host (l ++ m) = paraHost log host l + paraHost log host m := by
  unfold paraHost
  rw [List.filter_append, List.map_append, Multiset.coe_add]

theorem paraHost_cons (log : List Event) (host : CString) (c : Conn) (m : Message)
    (l : List (Conn × Message)) : paraHost log host ((c, m) :: l)
      = (if Event.connecting host c ∈ log then {m} else 0) + paraHost log host l := by
  unfold paraHost
  rw [List.filter_cons]
  by_cases hopen : Event.connecting host c ∈ log
  · rw [if_pos (decide_eq_true hopen), if_pos hopen]
    rfl
  · rw [if_neg (by simpa using hopen), if_neg hopen, zero_add]

theorem mem_paraHost {log : List Event} {host : CString} {l : List (Conn × Message)}
    {m : Message} : m ∈ paraHost log host l ↔
      ∃ c, (c, m) ∈ l ∧ Event.connecting host c ∈ log := by
  unfold paraHost
  rw [Multiset.mem_coe, List.mem_map]
  constructor
  · rintro ⟨⟨c, m'⟩, hmem, rfl⟩
    obtain ⟨hl, hopen⟩ := List.mem_filter.mp hmem
    exact ⟨c, hl, of_decide_eq_true hopen⟩
  · rintro ⟨c, hl, hopen⟩
    exact ⟨(c, m), List.mem_filter.mpr ⟨hl, decide_eq_true hopen⟩, rfl⟩

/-- What an ended job sends for an allocation, over the connection of its address. -/
def Allocation.porTabla (conns : TablaConns) (jobId : Int32) (a : Allocation) :
    Option (Conn × Message) :=
  if a.type = .remoteAlloc then
    (tablaConnsLookup conns a.ip).map (fun c => (c, .release jobId a.name a.amount))
  else none

/-- What an ended job sends for an allocation, over its own connection. -/
def Allocation.porConexion (a : Allocation) : Option (Conn × Message) :=
  if a.type = .remoteAlloc then some (a.conn, .release a.jobId a.name a.amount) else none

theorem Allocation.porTabla_of_remote {a : Allocation} (h : a.type = .remoteAlloc)
    (conns : TablaConns) (jobId : Int32) : a.porTabla conns jobId
      = (tablaConnsLookup conns a.ip).map (fun c => (c, .release jobId a.name a.amount)) :=
  if_pos h

theorem Allocation.porTabla_of_not_remote {a : Allocation} (h : ¬a.type = .remoteAlloc)
    (conns : TablaConns) (jobId : Int32) : a.porTabla conns jobId = none := if_neg h

theorem Allocation.porConexion_of_remote {a : Allocation} (h : a.type = .remoteAlloc) :
    a.porConexion = some (a.conn, .release a.jobId a.name a.amount) := if_pos h

theorem Allocation.porConexion_of_not_remote {a : Allocation} (h : ¬a.type = .remoteAlloc) :
    a.porConexion = none := if_neg h

theorem Allocation.not_remote_of_held {a : Allocation} (h : a.held = true) :
    ¬a.type = .remoteAlloc := by
  have hlocal : a.type = .localAlloc := eq_of_beq (Bool.and_elim_left h)
  rw [hlocal]
  decide

/-- Serving a queue sends no `RELEASE`. -/
theorem sueltas_releaseResource (tipo : Resource) (amount : Int32) (s : Manager) :
    sueltas (releaseResource tipo amount s).log = sueltas s.log := by
  have hround : ∀ u top, sueltas (dequeueTop tipo top u).log = sueltas u.log := by
    intro u top
    have hpop : sueltas (markTop tipo top (popTop tipo top u)).log = sueltas u.log := by
      rw [markTop, Manager.log_setTabla, log_popTop, sueltas_append]
      exact List.append_nil _
    rw [dequeueTop_eq]
    unfold answerTop
    split
    · rw [log_sendMessage, sueltas_append, hpop]
      exact List.append_nil _
    · split
      · rw [log_sendJobGranted, sueltas_append, sueltas_append, hpop]
        exact (List.append_nil _).trans (List.append_nil _)
      · exact hpop
  rw [releaseResource_eq]
  split
  · exact serveQueue_invariant (P := fun u => sueltas u.log = sueltas s.log)
      (fun u top rest _ _ hu => (hround u top).trans hu) _ _ rfl
  · rfl

theorem sueltas_releaseHeld (a : Allocation) (s : Manager) :
    sueltas (releaseHeld a s).log = sueltas s.log := by
  unfold releaseHeld
  rw [sueltas_releaseResource, Manager.log_emit, sueltas_append]
  exact List.append_nil _

/-- **The loop of the teardowns** tells the hosts by their addresses. -/
theorem sueltas_freeAllocations (jobId : Int32) (l : List Allocation) (s : Manager) :
    sueltas (freeAllocations jobId l s).log
      = sueltas s.log ++ l.filterMap (Allocation.porTabla s.conns jobId) := by
  induction l generalizing s with
  | nil => exact (List.append_nil _).symm
  | cons a l ih =>
    have hone : sueltas (freeAllocation jobId a s).log
        = sueltas s.log ++ [a].filterMap (Allocation.porTabla s.conns jobId) := by
      unfold freeAllocation
      split
      · next hheld =>
        rw [sueltas_releaseHeld, List.filterMap_cons_none
          (Allocation.porTabla_of_not_remote (Allocation.not_remote_of_held hheld) _ _)]
        exact (List.append_nil _).symm
      · split
        · next htype =>
          have htold := Allocation.porTabla_of_remote htype s.conns jobId
          cases hlookup : tablaConnsLookup s.conns a.ip with
          | none =>
            rw [hlookup] at htold
            rw [List.filterMap_cons_none htold]
            exact (List.append_nil _).symm
          | some remote =>
            rw [hlookup] at htold
            rw [List.filterMap_cons_some htold]
            show sueltas (sendMessage remote _ s).log = _
            rw [log_sendMessage, sueltas_append]
            rfl
        · next htype =>
          rw [List.filterMap_cons_none (Allocation.porTabla_of_not_remote htype _ _)]
          exact (List.append_nil _).symm
    show sueltas (freeAllocations jobId l (freeAllocation jobId a s)).log = _
    rw [ih, hone, (Manager.Sirve.freeAllocation jobId a s).conns, List.append_assoc,
      ← List.filterMap_append]
    rfl

/-- **The loop of `JOB_RELEASE`** tells them over the connections of the allocations. -/
theorem sueltas_jobRelease (l : List Allocation) (s : Manager) :
    sueltas (l.foldl (fun s a => jobReleaseAllocation a s) s).log
      = sueltas s.log ++ l.filterMap Allocation.porConexion := by
  induction l generalizing s with
  | nil => exact (List.append_nil _).symm
  | cons a l ih =>
    have hone : sueltas (jobReleaseAllocation a s).log
        = sueltas s.log ++ [a].filterMap Allocation.porConexion := by
      have hfirst : sueltas (if a.held then releaseHeld a s
          else limpiarColasPorId a.jobId s).log = sueltas s.log := by
        split
        · exact sueltas_releaseHeld a s
        · rfl
      unfold jobReleaseAllocation
      dsimp only
      split
      · next htype =>
        rw [List.filterMap_cons_some (Allocation.porConexion_of_remote htype), log_sendMessage,
          sueltas_append, hfirst]
        rfl
      · next htype =>
        rw [List.filterMap_cons_none (Allocation.porConexion_of_not_remote htype), hfirst]
        exact (List.append_nil _).symm
    rw [List.foldl_cons, ih, hone, List.append_assoc, ← List.filterMap_append]
    rfl

/-- **Each remote allocation's address leads to its own host**: the connection that the
table has under it was opened to the host that the allocation's connection was. -/
def Manager.Localiza (s : Manager) (j : Job) : Prop :=
  ∀ a ∈ j.confirmadas, a.type = .remoteAlloc → ∃ conn ∈ tablaConnsLookup s.conns a.ip,
    ∀ host, Event.connecting host conn ∈ s.log ↔ Event.connecting host a.conn ∈ s.log

/-- **The hosts are told the same** exactly if the addresses lead to them. -/
theorem paraHost_eq_iff {s : Manager} (h : s.Fichado) {j : Job} (hj : j.Fichado s.conns s.log) :
    (∀ host, paraHost s.log host (j.confirmadas.filterMap (Allocation.porTabla s.conns j.jobId))
        = paraHost s.log host (j.confirmadas.filterMap Allocation.porConexion))
      ↔ s.Localiza j := by
  constructor
  · intro hsame a ha hremote
    obtain ⟨⟨host, hopen, hip⟩, -⟩ := hj.remotas a ha hremote
    -- the host of the allocation is told, so some address leads to it
    have htold : Message.release a.jobId a.name a.amount
        ∈ paraHost s.log host (j.confirmadas.filterMap Allocation.porConexion) :=
      mem_paraHost.mpr ⟨a.conn, List.mem_filterMap.mpr
        ⟨a, ha, Allocation.porConexion_of_remote hremote⟩, hopen⟩
    rw [← hsame host] at htold
    obtain ⟨conn, hmem, hconn⟩ := mem_paraHost.mp htold
    obtain ⟨b, -, hb⟩ := List.mem_filterMap.mp hmem
    unfold Allocation.porTabla at hb
    split at hb
    · obtain ⟨c, hlookup, heq⟩ := Option.map_eq_some_iff.mp hb
      obtain ⟨rfl, -⟩ := Prod.mk.inj heq
      obtain ⟨host', hopen', hip'⟩ := h.lookup hlookup
      obtain rfl := h.unica _ _ _ hconn hopen'
      refine ⟨c, ?_, fun other => ⟨fun hother => ?_, fun hother => ?_⟩⟩
      · rw [hip, ← hip']
        exact hlookup
      · rwa [← h.unica _ _ _ hconn hother]
      · rwa [← h.unica _ _ _ hopen hother]
    · exact nomatch hb
  · intro hlocaliza host
    unfold Manager.Localiza at hlocaliza
    have hids := hj.propias
    clear hj
    generalize j.confirmadas = l at hlocaliza hids ⊢
    induction l with
    | nil => rfl
    | cons a l ih =>
      have ih := ih (fun b hb => hlocaliza b (List.mem_cons_of_mem a hb))
        (fun b hb => hids b (List.mem_cons_of_mem a hb))
      by_cases hremote : a.type = .remoteAlloc
      · obtain ⟨conn, hlookup, hhosts⟩ := hlocaliza a List.mem_cons_self hremote
        have htabla := Allocation.porTabla_of_remote hremote s.conns j.jobId
        have hconexion := Allocation.porConexion_of_remote hremote
        rw [hlookup] at htabla
        rw [hids a List.mem_cons_self] at hconexion
        rw [List.filterMap_cons_some htabla, List.filterMap_cons_some hconexion, paraHost_cons,
          paraHost_cons, ih, if_congr (hhosts host) rfl rfl]
      · rw [List.filterMap_cons_none (Allocation.porTabla_of_not_remote hremote _ _),
          List.filterMap_cons_none (Allocation.porConexion_of_not_remote hremote)]
        exact ih

end Hpc
