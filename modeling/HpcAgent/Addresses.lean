import HpcAgent.Fulfilment
import HpcAgent.Removal

/-!
# Messages reach the host they are meant for

The address of a request travels through five buffers: the list the parser
builds, the `OutRequest`, the table of connections, the `Allocation` made of a
confirmed request, and again the table of connections as the key under which the
next request looks for a connection. Four of them have 16 characters; the
`OutRequest` has 15, one less than the longest dotted quad needs with its
terminating NUL.

`Manager.Direcciones` says that the address survives the journey: the table of
connections has, under an address, connections that were opened to it, and what
a job holds or awaits elsewhere are requests it was inserted with, address
included. It holds in every run that opens no connection to an address of 15
characters (`direcciones_of_reaches`). Once such a connection is opened, its
address loses the last character, and a later request for the host with that
shorter address goes to the wrong node (`host_of_fifteen`).
-/

namespace Hpc

/-! ## Where the requests of a job go -/

/-- Host, resource and amount. -/
abbrev Destino := CString × Resource × Int32

/-- The destination of a request. -/
def ResourceRequest.destino (r : ResourceRequest) : Destino := (r.ip, r.type, r.amount)

/-- The destination an allocation was granted by. -/
def Allocation.destino (a : Allocation) : Destino := (a.ip, a.name, a.amount)

/-- The destination a request awaits. -/
def OutRequest.destino (o : OutRequest) : Destino := (o.ip, o.tipo, o.amount)

/-- Where the requests of a `JOB_REQUEST` go that the node with that address does not
serve itself. -/
def destinos (ip : CString) (requests : List ResourceRequest) : Multiset Destino :=
  ↑((requests.filter (fun r => r.ip != ip)).map ResourceRequest.destino)

/-- What a job holds or awaits elsewhere. -/
def Job.destinos (j : Job) : Multiset Destino :=
  ↑((j.confirmadas.filter (fun a => a.type == .remoteAlloc)).map Allocation.destino)
    + ↑(j.pendientes.map OutRequest.destino)

/-- The pending requests of the job wait on connections that were opened to their
addresses, and these fit the buffer. -/
def Job.Dirigido (log : List Event) (j : Job) : Prop :=
  ∀ o ∈ j.pendientes, Event.connecting o.ip o.conn ∈ log ∧ o.ip.length ≤ 14

/-- **Addresses survive.** -/
structure Manager.Direcciones (s : Manager) : Prop where
  /-- A connection is in the table under the address it was opened to. -/
  conns : ∀ i, ∀ e ∈ s.conns.buckets i,
    Event.connecting e.ip e.conn ∈ s.log ∧ e.ip.length ≤ 14
  /-- A pending request waits on a connection to its address. -/
  pendientes : s.tabla.Forall (Job.Dirigido s.log)
  /-- What a job holds or awaits elsewhere was requested there. -/
  jobs : s.tabla.Forall (fun j => ∃ requests, pedido j.jobId s.log = some requests
    ∧ j.destinos ≤ Hpc.destinos s.ip requests)

/-- No connection was opened to an address of 15 characters. -/
def SinLargas (log : List Event) : Prop :=
  ∀ ip conn, Event.connecting ip conn ∈ log → ip.length ≤ 14

theorem copyTo_of_lt {size : ℕ} {l : CString} (h : l.length < size) : copyTo size l = l :=
  List.take_of_length_le (Nat.le_sub_one_of_lt h)

theorem SinLargas.of_append {log es : List Event} (h : SinLargas (log ++ es)) : SinLargas log :=
  fun ip conn hmem => h ip conn (List.mem_append_left _ hmem)

theorem Event.ne_inserted_of_interno {e : Event} (h : e.interno = true) (job : Job)
    (requests : List ResourceRequest) : e ≠ .inserted job requests := by
  rintro rfl
  exact Bool.false_ne_true h

/-- Where no job is inserted, the last requests stay. -/
theorem pedido_append_of_interno {es : List Event} (hes : ∀ e ∈ es, ∀ j r, e ≠ .inserted j r)
    (jobId : Int32) (log : List Event) : pedido jobId (log ++ es) = pedido jobId log := by
  induction es generalizing log with
  | nil => rw [List.append_nil]
  | cons e es ih =>
    rw [List.append_cons, ih (fun e he => hes e (List.mem_cons_of_mem _ he)), pedido_concat]
    have he := hes e List.mem_cons_self
    cases e with
    | inserted job requests => exact absurd rfl (he job requests)
    | _ => rfl

/-! ## Changes of a job -/

theorem Job.Dirigido.mono {log log' : List Event} (h : log ⊆ log') {j : Job}
    (hj : j.Dirigido log) : j.Dirigido log' :=
  fun o ho => ⟨h (hj o ho).1, (hj o ho).2⟩

theorem Job.Dirigido.of_subset {log : List Event} {j j' : Job}
    (h : j'.pendientes ⊆ j.pendientes) (hj : j.Dirigido log) : j'.Dirigido log :=
  fun o ho => hj o (h ho)

/-- A mark changes no destination. -/
theorem Job.Marcado.destinos {j j' : Job} (h : j.Marcado j') : j'.destinos = j.destinos := by
  have hconf : ∀ {l l' : List Allocation}, List.Forall₂ Allocation.Marcada l l' →
      (l'.filter (fun a => a.type == .remoteAlloc)).map Allocation.destino
        = (l.filter (fun a => a.type == .remoteAlloc)).map Allocation.destino := by
    intro l l' hl
    induction hl with
    | nil => rfl
    | cons hab _ ih =>
      rcases hab with rfl | ⟨hlocal, rfl⟩
      · rw [List.filter_cons, List.filter_cons]
        split
        · rw [List.map_cons, List.map_cons, ih]
        · exact ih
      · rw [List.filter_cons_of_neg (by simp [hlocal]), List.filter_cons_of_neg (by simp [hlocal])]
        exact ih
  unfold Job.destinos
  rw [hconf h.confirmadas, h.pendientes]

/-- **A confirmation keeps the destination**, for the address fits. -/
theorem destinos_jobConfirmar {log : List Event} {j : Job} (h : j.Dirigido log) (ip : CString)
    (jobId : Int32) : (jobConfirmar j ip jobId).2.destinos = j.destinos := by
  unfold jobConfirmar
  cases hfind : j.pendientes.find? (fun sal => sal.ip == ip) with
  | none => rfl
  | some sal =>
    obtain ⟨l₁, l₂, hl, -, -, herase, -⟩ := List.find?_split hfind
    have hsal := (h sal (List.mem_of_find?_eq_some hfind)).2
    have hdestino : (crearAllocation sal.tipo sal.amount .remoteAlloc sal.ip jobId .granted
        sal.conn).destino = sal.destino := by
      show (copyTo 16 sal.ip, _, _) = _
      rw [copyTo_of_lt (Nat.lt_of_le_of_lt hsal (by decide))]
      rfl
    unfold Job.destinos
    dsimp only
    rw [herase, hl, List.filter_cons_of_pos (by rfl), List.map_cons, hdestino, List.map_append,
      List.map_append, List.map_cons, ← Multiset.cons_coe, ← Multiset.coe_add,
      ← Multiset.coe_add, ← Multiset.cons_coe, Multiset.cons_add, Multiset.add_cons,
      Multiset.add_cons]

theorem Job.EnSitio.destinos {log : List Event} {j j' : Job} (h : j.EnSitio j')
    (hj : j.Dirigido log) : j'.destinos = j.destinos := by
  rcases h with h | ⟨ip, jobId, rfl⟩
  · exact h.destinos
  · exact destinos_jobConfirmar hj ip jobId

theorem Job.EnSitio.pendientes {j j' : Job} (h : j.EnSitio j') :
    j'.pendientes ⊆ j.pendientes := by
  rcases h with h | ⟨ip, jobId, rfl⟩
  · exact h.pendientes ▸ List.Subset.refl _
  · unfold jobConfirmar
    split
    · exact List.Subset.refl _
    · exact fun o ho => List.mem_of_mem_eraseP ho

/-- A lost connection only takes away. -/
theorem destinos_dropRemote (conn : Conn) (j : Job) :
    (j.dropRemote conn).destinos ≤ j.destinos := by
  unfold Job.destinos Job.dropRemote
  refine add_le_add_left ?_ _
  exact Multiset.coe_le.mpr ((List.filter_sublist.filter _).map _).subperm

theorem destinos_addLocal (job : Job) (head : ResourceRequest) (ip : CString) (r : Result) :
    (job.addLocal head ip r).destinos = job.destinos := rfl

/-- A remote entry placed, and what the `JOB_REQUEST` asked for. -/
theorem destinos_addRemote {job : Job} {head : ResourceRequest} (hip : head.ip.length ≤ 14)
    (conn : Conn) (msg : Option Message) :
    (job.addRemote head conn msg).destinos = head.destino ::ₘ job.destinos := by
  have hdestino : (crearOutrequest head.ip conn head.type head.amount msg).destino
      = head.destino := by
    show (copyTo 15 head.ip, _, _) = _
    rw [copyTo_of_lt (Nat.lt_of_le_of_lt hip (by decide))]
    rfl
  unfold Job.destinos Job.addRemote
  rw [List.map_cons, hdestino, ← Multiset.cons_coe, Multiset.add_cons]

theorem destinos_cons_of_eq {ip : CString} {r : ResourceRequest} (h : r.ip = ip)
    (l : List ResourceRequest) : destinos ip (r :: l) = destinos ip l := by
  unfold destinos
  rw [List.filter_cons_of_neg (by simp [h])]

theorem destinos_cons_of_ne {ip : CString} {r : ResourceRequest} (h : r.ip ≠ ip)
    (l : List ResourceRequest) : destinos ip (r :: l) = r.destino ::ₘ destinos ip l := by
  unfold destinos
  rw [List.filter_cons_of_pos (by simp [h])]
  rfl

/-! ## Calls -/

/-- What leaves the tables, leaves the rest as it was. -/
theorem Manager.Direcciones.sigue {s s' : Manager} {conn? : Option Conn} (h : s.Direcciones)
    (hs : s.Sigue conn? s') :
    s'.Direcciones := by
  obtain ⟨es, hlog, hes⟩ := hs.log
  have hsub : s.log ⊆ s'.log := hlog ▸ List.subset_append_left _ _
  have hpedido : ∀ jobId, pedido jobId s'.log = pedido jobId s.log := fun jobId => by
    rw [hlog]
    exact pedido_append_of_interno (fun e he => Event.ne_inserted_of_interno (hes e he)) jobId s.log
  refine ⟨fun i e he => ?_, fun i j' hj' => ?_, fun i j' hj' => ?_⟩
  · obtain ⟨hmem, hip⟩ := h.conns i e ((hs.conns i).subset he)
    exact ⟨hsub hmem, hip⟩
  · obtain ⟨j, hj, hjj' | ⟨conn, hmark⟩⟩ := hs.tabla.exists_of_mem hj'
    · exact ((h.pendientes i j hj).of_subset hjj'.pendientes).mono hsub
    · refine ((h.pendientes i j hj).of_subset ?_).mono hsub
      rw [hmark.pendientes]
      exact List.Subset.refl _
  · obtain ⟨j, hj, hjj'⟩ := hs.tabla.exists_of_mem hj'
    obtain ⟨requests, hlast, hle⟩ := h.jobs i j hj
    have hdestinos : j'.destinos ≤ j.destinos := by
      rcases hjj' with hjj' | ⟨conn, hmark⟩
      · exact (hjj'.destinos (h.pendientes i j hj)).le
      · exact hmark.destinos.le.trans (destinos_dropRemote conn j)
    have hid : j'.jobId = j.jobId := Job.Sigue.jobId hjj'
    refine ⟨requests, ?_, ?_⟩
    · rw [hpedido, hid]
      exact hlast
    · rw [hs.ip]
      exact hdestinos.trans hle

/-- What an announced connection adds to the table of connections. -/
theorem conns_foldl_readyRequest {conn : Conn} {lista : List OutRequest} {s : Manager} {i : ℕ}
    {e : ConnEntry}
    (he : e ∈ (lista.foldl (fun s req => readyRequest conn req s) s).conns.buckets i) :
    e ∈ s.conns.buckets i
      ∨ ∃ req ∈ lista, hashIp req.ip = i ∧ e = ⟨copyTo 16 req.ip, conn⟩ := by
  induction lista generalizing s with
  | nil => exact Or.inl he
  | cons req lista ih =>
    rcases ih he with hmem | ⟨req', hreq', hi, heq⟩
    · have hmem : e ∈ Function.update s.conns.buckets (hashIp req.ip)
        (⟨copyTo 16 req.ip, conn⟩ :: s.conns.buckets (hashIp req.ip)) i := hmem
      rw [Function.update_apply] at hmem
      split at hmem
      · next hi =>
        rcases List.mem_cons.mp hmem with heq | hmem
        · exact Or.inr ⟨req, List.mem_cons_self, hi.symm, heq⟩
        · exact Or.inl (hi ▸ hmem)
      · exact Or.inl hmem
    · exact Or.inr ⟨req', List.mem_cons_of_mem _ hreq', hi, heq⟩

theorem conns_processConnectionReady {conn : Conn} {s : Manager} {i : ℕ} {e : ConnEntry}
    (he : e ∈ (processConnectionReady conn s).conns.buckets i) :
    e ∈ s.conns.buckets i ∨ ∃ j ∈ s.jobs, ∃ o ∈ j.pendientes, o.conn = conn
      ∧ hashIp (copyTo 15 o.ip) = i ∧ e = ⟨copyTo 16 (copyTo 15 o.ip), conn⟩ := by
  rcases conns_foldl_readyRequest he with hmem | ⟨req, hreq, hi, heq⟩
  · exact Or.inl hmem
  · obtain ⟨j, hj, hmem⟩ := List.mem_flatMap.mp (List.mem_reverse.mp hreq)
    obtain ⟨o, ho, rfl⟩ := List.mem_map.mp hmem
    obtain ⟨ho, hconn⟩ := List.mem_filter.mp ho
    exact Or.inr ⟨j, hj, o, ho, eq_of_beq hconn, hi, heq⟩

/-- **An announced connection is filed under its own address.** -/
theorem Manager.Direcciones.processConnectionReady {s : Manager} (h : s.Direcciones)
    (conn : Conn) : (processConnectionReady conn s).Direcciones := by
  obtain ⟨conns, heq⟩ := processConnectionReady_eq s conn
  have hlog : (Hpc.processConnectionReady conn s).log = s.log
      ++ (tablaJobsGetPendientesByConn s.tabla conn).map
        (fun req => .tx conn (req.msg.getD .garbage)) := by
    rw [heq]
  have htabla : (Hpc.processConnectionReady conn s).tabla = s.tabla := by rw [heq]
  have hip : (Hpc.processConnectionReady conn s).ip = s.ip := by rw [heq]
  have hsub : s.log ⊆ (Hpc.processConnectionReady conn s).log :=
    hlog ▸ List.subset_append_left _ _
  have hpedido : ∀ jobId, pedido jobId (Hpc.processConnectionReady conn s).log
      = pedido jobId s.log := fun jobId => by
    rw [hlog]
    refine pedido_append_of_interno (fun e he j r heq => ?_) jobId s.log
    obtain ⟨req, -, rfl⟩ := List.mem_map.mp he
    exact nomatch heq
  refine ⟨fun i e he => ?_, ?_, ?_⟩
  · rcases conns_processConnectionReady he with hmem | ⟨j, hj, o, ho, rfl, -, rfl⟩
    · obtain ⟨hmem, hshort⟩ := h.conns i e hmem
      exact ⟨hsub hmem, hshort⟩
    · obtain ⟨hmem, hshort⟩ := h.pendientes.of_mem_toList hj o ho
      rw [copyTo_of_lt (Nat.lt_of_le_of_lt hshort (by decide)),
        copyTo_of_lt (Nat.lt_of_le_of_lt hshort (by decide))]
      exact ⟨hsub hmem, hshort⟩
  · rw [htabla]
    exact h.pendientes.mono (fun j hj => hj.mono hsub)
  · rw [htabla, hip]
    refine h.jobs.mono (fun j hj => ?_)
    rw [hpedido]
    exact hj

/-- A connection that is found was opened to that address. -/
theorem Manager.Direcciones.lookup {s : Manager} (h : s.Direcciones) {ip : CString} {conn : Conn}
    (hlookup : tablaConnsLookup s.conns ip = some conn) :
    Event.connecting ip conn ∈ s.log ∧ ip.length ≤ 14 := by
  obtain ⟨e, hfind, rfl⟩ := Option.map_eq_some_iff.mp hlookup
  have hip : e.ip = ip := eq_of_beq (List.find?_some (p := fun e : ConnEntry => e.ip == ip) hfind)
  rw [← hip]
  exact h.conns _ e (List.mem_of_find?_eq_some hfind)

/-- **A new job asks the hosts of its requests**: what the loop over the entries has
built, if no connection it opened is to an address of 15 characters. -/
structure Job.Encargado (s : Manager) (done : List ResourceRequest) (job : Job) (u : Manager) :
    Prop where
  conns : u.conns = s.conns
  tabla : u.tabla = s.tabla
  ip : u.ip = s.ip
  log : ∃ es : List Event, u.log = s.log ++ es ∧ ∀ e ∈ es, ∀ j r, e ≠ .inserted j r
  dirigido : SinLargas u.log → job.Dirigido u.log
  destinos : SinLargas u.log → job.destinos = Hpc.destinos s.ip done

namespace Job.Encargado

variable {s u : Manager} {done : List ResourceRequest} {job : Job} {head : ResourceRequest}

/-- The loop records something and leaves the tables alone. -/
theorem note (h : job.Encargado s done u) {u' : Manager} (hconns : u'.conns = u.conns)
    (htabla : u'.tabla = u.tabla) (hip : u'.ip = u.ip) {fs : List Event}
    (hlog : u'.log = u.log ++ fs) (hfs : ∀ e ∈ fs, ∀ j r, e ≠ .inserted j r) :
    job.Encargado s done u' := by
  obtain ⟨es, hes, hnone⟩ := h.log
  have hsub : u.log ⊆ u'.log := hlog ▸ List.subset_append_left _ _
  have hshort : SinLargas u'.log → SinLargas u.log := fun hlargas =>
    (hlog ▸ hlargas : SinLargas (u.log ++ fs)).of_append
  refine ⟨hconns.trans h.conns, htabla.trans h.tabla, hip.trans h.ip, ⟨es ++ fs, ?_, ?_⟩,
    fun hlargas => (h.dirigido (hshort hlargas)).mono hsub,
    fun hlargas => h.destinos (hshort hlargas)⟩
  · rw [hlog, hes, List.append_assoc]
  · intro e he
    rcases List.mem_append.mp he with he | he
    · exact hnone e he
    · exact hfs e he

theorem emit (h : job.Encargado s done u) {e : Event} (he : ∀ j r, e ≠ .inserted j r) :
    job.Encargado s done (u.emit e) :=
  h.note rfl rfl rfl rfl (fun _ he' => (List.mem_singleton.mp he').symm ▸ he)

theorem addLocal (h : job.Encargado s done u) (hip : head.ip = u.ip) (r : Result) :
    (job.addLocal head u.ip r).Encargado s (head :: done) u :=
  ⟨h.conns, h.tabla, h.ip, h.log, h.dirigido, fun hlargas => by
    rw [destinos_addLocal, destinos_cons_of_eq (hip.trans h.ip)]
    exact h.destinos hlargas⟩

theorem addRemote (h : job.Encargado s done u) (hip : head.ip ≠ u.ip) {conn : Conn}
    (hopen : SinLargas u.log → Event.connecting head.ip conn ∈ u.log ∧ head.ip.length ≤ 14)
    (msg : Option Message) : (job.addRemote head conn msg).Encargado s (head :: done) u := by
  refine ⟨h.conns, h.tabla, h.ip, h.log, fun hlargas => ?_, fun hlargas => ?_⟩
  · obtain ⟨hmem, hshort⟩ := hopen hlargas
    refine List.forall_mem_cons.mpr ⟨?_, h.dirigido hlargas⟩
    show Event.connecting (copyTo 15 head.ip) conn ∈ u.log ∧ (copyTo 15 head.ip).length ≤ 14
    rw [copyTo_of_lt (Nat.lt_of_le_of_lt hshort (by decide))]
    exact ⟨hmem, hshort⟩
  · rw [destinos_addRemote (hopen hlargas).2, h.destinos hlargas,
      destinos_cons_of_ne (fun heq => hip (heq.trans h.ip.symm))]

end Job.Encargado

/-- **The loop over the entries.** -/
theorem encargado_requestLoop {s : Manager} (h : s.Direcciones)
    (requests : List ResourceRequest) (red : Network) (jobId : Int32) (conn : Conn) :
    ∃ done, (requestLoop requests red ⟨jobId, conn, [], []⟩ s).2.1.Encargado s done
        (requestLoop requests red ⟨jobId, conn, [], []⟩ s).2.2
      ∧ ((requestLoop requests red ⟨jobId, conn, [], []⟩ s).1 = true →
        done = requests.reverse) := by
  have hloop := requestLoop_invariant requests (P := fun done job u => job.Encargado s done u)
    (fun done job u head _ hip h _ => (h.addLocal hip .granted).note rfl rfl rfl rfl
      (fun e he => (List.mem_singleton.mp he).symm ▸ fun _ _ => Event.noConfusion))
    (fun done job u head _ hip h _ _ => (h.addLocal hip .queued).note rfl rfl rfl
      (List.append_nil _).symm (fun _ he => absurd he List.not_mem_nil))
    (fun done job u head _ remote hip h hlookup => by
      rw [h.conns] at hlookup
      obtain ⟨es, hlog, -⟩ := h.log
      obtain ⟨hmem, hshort⟩ := Manager.Direcciones.lookup ‹s.Direcciones› hlookup
      exact (h.addRemote hip (fun _ => ⟨hlog ▸ List.mem_append_left es hmem, hshort⟩) _).emit
        (fun _ _ => Event.noConfusion))
    (fun done job u head _ conn hip h _ => by
      refine (h.emit (fun _ _ => Event.noConfusion)).addRemote hip (fun hlargas => ?_) _
      have hmem : Event.connecting head.ip conn ∈ (u.emit (.connecting head.ip conn)).log :=
        List.mem_append_right _ List.mem_cons_self
      exact ⟨hmem, hlargas _ _ hmem⟩)
    [] red ⟨jobId, conn, [], []⟩ s
    ⟨rfl, rfl, rfl, ⟨[], (List.append_nil _).symm, fun _ he => absurd he List.not_mem_nil⟩,
      fun _ _ ho => absurd ho List.not_mem_nil, fun _ => rfl⟩
  rcases hloop with ⟨-, h⟩ | ⟨hend, done, h⟩
  · exact ⟨_, h, fun _ => List.append_nil _⟩
  · exact ⟨done, h, fun htrue => absurd (htrue.symm.trans hend) (by decide)⟩

/-- The order of the requests does not matter. -/
theorem destinos_reverse (ip : CString) (requests : List ResourceRequest) :
    destinos ip requests.reverse = destinos ip requests :=
  Multiset.coe_eq_coe.mpr (((List.reverse_perm requests).filter _).map _)

/-- **`JOB_REQUEST` sends its requests to their hosts.** -/
theorem Manager.Direcciones.processJobRequest {s : Manager} (h : s.Direcciones) (conn : Conn)
    (jobId : Int32) (requests : List ResourceRequest) (red : Network)
    (hlargas : SinLargas (processJobRequest conn jobId requests red s).log) :
    (processJobRequest conn jobId requests red s).Direcciones := by
  obtain ⟨done, hloop, hdone⟩ := encargado_requestLoop h requests red jobId conn
  have hid := (tabla_requestLoop requests red ⟨jobId, conn, [], []⟩ s).2
  rcases processJobRequest_cases conn jobId requests red s with
    ⟨_, -, heq⟩ | ⟨hnew, hend, heq⟩ | ⟨-, -, heq⟩
  · rw [heq]
    exact h
  all_goals
    rw [heq] at hlargas ⊢
    generalize (requestLoop requests red ⟨jobId, conn, [], []⟩ s).2.2 = u at hloop hlargas ⊢
    generalize (requestLoop requests red ⟨jobId, conn, [], []⟩ s).2.1 = job
      at hloop hid hlargas ⊢
    obtain ⟨es, hlog, hes⟩ := hloop.log
    have hu : u.Direcciones := by
      have hsub : s.log ⊆ u.log := hlog ▸ List.subset_append_left _ _
      refine ⟨fun i e he => ?_, ?_, ?_⟩
      · rw [hloop.conns] at he
        exact ⟨hsub (h.conns i e he).1, (h.conns i e he).2⟩
      · rw [hloop.tabla]
        exact h.pendientes.mono (fun j hj => hj.mono hsub)
      · rw [hloop.tabla, hloop.ip, hlog]
        refine h.jobs.mono (fun j hj => ?_)
        rw [pedido_append_of_interno hes]
        exact hj
  · obtain ⟨fs, hlog', hfs⟩ := log_insertJob_append job requests u
    have hu' : SinLargas u.log := by
      rw [hlog'] at hlargas
      exact hlargas.of_append.of_append
    have hsub : u.log ⊆ (insertJob job requests u).log := by
      rw [hlog', List.append_assoc]
      exact List.subset_append_left _ _
    have hpedido : ∀ i, pedido i (insertJob job requests u).log
        = if job.jobId = i then some requests else pedido i u.log := by
      intro i
      rw [hlog', pedido_append_of_interno (fun e he => Event.ne_inserted_of_interno (hfs e he)),
        pedido_concat]
      rfl
    refine ⟨fun i e he => ?_, ?_, ?_⟩
    · rw [conns_insertJob] at he
      exact ⟨hsub (hu.conns i e he).1, (hu.conns i e he).2⟩
    · rw [tabla_insertJob]
      exact Buckets.Forall.cons (hu.pendientes.mono (fun j hj => hj.mono hsub))
        ((hloop.dirigido hu').mono hsub)
    · rw [tabla_insertJob, ip_insertJob]
      refine Buckets.Forall.cons (fun i j hj => ?_) ?_
      · rw [hpedido, if_neg]
        · exact hu.jobs i j hj
        · intro hsame
          rw [hloop.tabla] at hj
          rw [← s.tabla.idx_of_mem hj, ← hsame, hid] at hj
          exact List.find?_eq_none.mp hnew j hj (beq_iff_eq.mpr (hsame.symm.trans hid))
      · refine ⟨requests, by rw [hpedido, if_pos rfl], ?_⟩
        rw [hloop.destinos hu', hdone hend, destinos_reverse, hloop.ip]
  · exact hu.sigue (.rollbackJob job u)

/-! ## Runs -/

/-- **Messages reach the host they are meant for**, in every run that opens no
connection to an address of 15 characters: the connections are filed under the
addresses they were opened to, each job holds and awaits elsewhere only what it asked
for there, and a connection found under an address was opened to it. -/
theorem direcciones_of_reaches {cpu mem gpu : Int32} {ip : CString} {s : Manager}
    (hrun : Reaches Manager.step (fun s call => SinLargas (call.run s).log)
      (managerInit cpu mem gpu ip) s) :
    s.Direcciones ∧ ∀ host conn, tablaConnsLookup s.conns host = some conn →
      Event.connecting host conn ∈ s.log := by
  have hdir : s.Direcciones := by
    refine hrun.invariant ?_ (fun u call v hu hlargas hstep => ?_)
    · exact ⟨fun _ _ he => absurd he List.not_mem_nil, fun _ _ hj => absurd hj List.not_mem_nil,
        fun _ _ hj => absurd hj List.not_mem_nil⟩
    · obtain rfl := Option.some.inj hstep
      rcases call.sigue u with
        hsigue | ⟨conn, rfl⟩ | ⟨conn, msg, red, jobId, requests, rfl, hparse⟩
      · exact hu.sigue hsigue
      · exact hu.processConnectionReady conn
      · have heq : (Call.message conn msg red).run u
            = processJobRequest conn jobId requests red
              (u.emit (.rx conn (.jobRequest jobId requests))) := by
          show processMessage conn msg red u = _
          unfold processMessage
          rw [hparse]
          rfl
        rw [heq] at hlargas ⊢
        have hrx : (u.emit (.rx conn (.jobRequest jobId requests))).Direcciones :=
          hu.sigue ((Manager.Sigue.refl none u).emit rfl)
        exact hrx.processJobRequest conn jobId requests red hlargas
  exact ⟨hdir, fun host conn hlookup => (hdir.lookup hlookup).1⟩

/-- The guard as a test. -/
def SinLargas.test (s : Manager) (call : Call) : Bool :=
  (call.run s).log.all (fun e => match e with
    | .connecting ip _ => decide (ip.length ≤ 14)
    | _ => true)

theorem SinLargas.of_test {s : Manager} {call : Call} (h : SinLargas.test s call = true) :
    SinLargas (call.run s).log :=
  fun _ _ hmem => of_decide_eq_true (List.all_eq_true.mp h _ hmem)

/-- The second request for a host goes out on the connection the first one opened. -/
theorem direcciones_of_reaches_host :
    ∃ s, Reaches.trace Manager.step (managerInit 4 8 1 "10.0.0.1".toList)
        [.announce 0 "192.168.0.14".toList "ANNOUNCE 9000 cpu:4 mem:8 gpu:1".toList,
         .message 1 "JOB_REQUEST 1 @192.168.0.14:cpu:1".toList [some 7],
         .ready 7,
         .message 1 "JOB_REQUEST 2 @192.168.0.14:mem:2".toList []] = some s
      ∧ .tx 7 (.reserve 2 .mem 2) ∈ s.log ∧ s.Direcciones
      ∧ Event.connecting "192.168.0.14".toList 7 ∈ s.log := by
  have hcheck : (Reaches.checked Manager.step SinLargas.test
      (managerInit 4 8 1 "10.0.0.1".toList)
      [.announce 0 "192.168.0.14".toList "ANNOUNCE 9000 cpu:4 mem:8 gpu:1".toList,
       .message 1 "JOB_REQUEST 1 @192.168.0.14:cpu:1".toList [some 7],
       .ready 7,
       .message 1 "JOB_REQUEST 2 @192.168.0.14:mem:2".toList []]).any (fun s =>
        decide (.tx 7 (.reserve 2 .mem 2) ∈ s.log
          ∧ tablaConnsLookup s.conns "192.168.0.14".toList = some 7)) = true := by
    decide +kernel
  obtain ⟨s, htrace, hrun, hs⟩ := Reaches.of_checked (fun _ _ => SinLargas.of_test) hcheck
  obtain ⟨hsent, hlookup⟩ := of_decide_eq_true hs
  obtain ⟨hdir, hconn⟩ := direcciones_of_reaches hrun
  exact ⟨s, htrace, hsent, hdir, hconn _ _ hlookup⟩

/-- **A host of 15 characters takes the place of another.** The connection to
`100.100.100.100` is filed under `100.100.100.10`, and the request of job 2 for the host
of that address goes out on it. -/
theorem host_of_fifteen :
    ∃ s, Reaches.trace Manager.step (managerInit 4 8 1 "10.0.0.1".toList)
        [.announce 0 "100.100.100.100".toList "ANNOUNCE 9000 cpu:4 mem:8 gpu:1".toList,
         .message 1 "JOB_REQUEST 1 @100.100.100.100:cpu:1".toList [some 7],
         .ready 7,
         .message 1 "JOB_REQUEST 2 @100.100.100.10:mem:2".toList []] = some s
      ∧ .tx 7 (.reserve 2 .mem 2) ∈ s.log
      ∧ tablaConnsLookup s.conns "100.100.100.10".toList = some 7
      ∧ (∀ ip, Event.connecting ip 7 ∈ s.log → ip = "100.100.100.100".toList)
      ∧ ¬s.Direcciones := by
  have hcheck : (Reaches.checked Manager.step (fun _ _ => true)
      (managerInit 4 8 1 "10.0.0.1".toList)
      [.announce 0 "100.100.100.100".toList "ANNOUNCE 9000 cpu:4 mem:8 gpu:1".toList,
       .message 1 "JOB_REQUEST 1 @100.100.100.100:cpu:1".toList [some 7],
       .ready 7,
       .message 1 "JOB_REQUEST 2 @100.100.100.10:mem:2".toList []]).any (fun s =>
        decide (.tx 7 (.reserve 2 .mem 2) ∈ s.log
          ∧ tablaConnsLookup s.conns "100.100.100.10".toList = some 7
          ∧ s.log.all (fun e => match e with
            | .connecting ip conn => decide (conn = 7 → ip = "100.100.100.100".toList)
            | _ => true) = true)) = true := by
    decide +kernel
  obtain ⟨s, htrace, -, hs⟩ := Reaches.of_checked (fun _ _ _ => trivial) hcheck
  obtain ⟨hsent, hlookup, hopened⟩ := of_decide_eq_true hs
  have hone : ∀ ip, Event.connecting ip 7 ∈ s.log → ip = "100.100.100.100".toList :=
    fun ip hmem => of_decide_eq_true (List.all_eq_true.mp hopened _ hmem) rfl
  refine ⟨s, htrace, hsent, hlookup, hone, fun hdir => ?_⟩
  exact absurd (hone _ (hdir.lookup hlookup).1) (by decide +kernel)

end Hpc
