import HpcAgent.Output

/-!
# The workers and the event loop

`worker_thread_loop` of `server.c`, run by several threads over one `epoll`
instance, with `rearm_conn`, `handle_accept`, `connect_remote_node`,
`handle_outgoing_connection_event` and the rest of `enqueue_write`: a step is
one call of `epoll_wait`, one section under a `write_mutex`, or one call that
registers or closes a descriptor. What a handler does in between is the choice
of the run: which messages it sends to which connections, and what the sockets
answer.

Of `epoll` the documented rule is assumed. A registered descriptor may be
reported with events of its mask, an error or a hang-up; if the mask has
`EPOLLONESHOT` the report disarms it, and nothing of it is reported until
`EPOLL_CTL_MOD` arms it again.

What all this does to one connection is a `Movimiento`, on its state and the
set of the workers that hold an event of it (`Servidor.movimiento`). The two
results are read off the movements: output that waits is never forgotten
(`Servidor.output_not_forgotten`), and a connection is in the hands of one
worker as long as nobody sends to it between the report of an event and the
section that sets `in_handler` (`Servidor.one_worker`).
-/

namespace Hpc

/-- `MAX_EVENTS`. -/
def MAX_EVENTS : ℕ := 64

/-- `connection_type_t`. -/
inductive ConnectionType
  | tcpPublicListen
  | tcpLocalListen
  | udpDiscovery
  | tcpClientRemote
  | tcpClientLocal
  | tcpOutgoing
deriving DecidableEq

/-- `conn_uses_oneshot`. -/
def connUsesOneshot : ConnectionType → Bool
  | .tcpClientRemote | .tcpClientLocal | .tcpOutgoing => true
  | .tcpPublicListen | .tcpLocalListen | .udpDiscovery => false

/-- The mask a descriptor is registered with. -/
structure Mascara where
  epollin : Bool
  epollout : Bool
  epolloneshot : Bool
deriving DecidableEq

/-- The events `epoll_wait` reports of a descriptor; `epollerr` is `EPOLLERR` or
`EPOLLHUP`. -/
structure Eventos where
  epollin : Bool
  epollout : Bool
  epollerr : Bool
deriving DecidableEq

namespace Eventos

/-- The test for an error, the first of the loop. -/
def roto (ev : Eventos) : Bool := ev.epollerr || !(ev.epollin || ev.epollout)

/-- Whether a descriptor registered with that mask may be reported so. -/
def permitidos (ev : Eventos) (m : Mascara) : Bool :=
  (!ev.epollin || m.epollin) && (!ev.epollout || m.epollout)
    && (ev.epollin || ev.epollout || ev.epollerr)

end Eventos

/-- A `connection_t` and its registration, `none` while it is disarmed. -/
structure Descriptor where
  type : ConnectionType
  salida : Salida
  inHandler : Bool
  armed : Option Mascara

/-- A buffer nothing was written to; what it holds is never read. -/
def Salida.vacia : Salida :=
  ⟨List.replicate BUFF_SIZE CharBuffer.nul, 0, 0, List.length_replicate, Nat.zero_le _,
    BUFF_SIZE_pos⟩

namespace Descriptor

/-- A descriptor as the source registers it. -/
def nuevo (type : ConnectionType) (m : Mascara) : Descriptor := ⟨type, .vacia, false, some m⟩

/-- A report of `epoll_wait` disarms a one-shot descriptor. -/
def report (k : Descriptor) : Descriptor :=
  if k.armed.any (·.epolloneshot) then { k with armed := none } else k

/-- The section of **`enqueue_write`**; `mod` is whether `EPOLL_CTL_MOD` succeeds,
if it is called. -/
def enqueueWrite (k : Descriptor) (msg : CString) (mod : Bool) : Descriptor :=
  if k.salida.Cabe msg then
    { k with
      salida := Hpc.enqueueWrite k.salida msg
      armed := if !k.inHandler && mod then some ⟨true, true, true⟩ else k.armed }
  else k

/-- Whether `enqueue_write` arms the descriptor. -/
def Rearma (k : Descriptor) (msg : CString) (mod : Bool) : Prop :=
  k.salida.Cabe msg ∧ k.inHandler = false ∧ mod = true

/-- The section of **`rearm_conn`**. -/
def rearmConn (k : Descriptor) (mod : Bool) : Descriptor :=
  { k with
    inHandler := false
    armed := if mod then some ⟨true, decide (0 < k.salida.writeLen), true⟩ else k.armed }

end Descriptor

/-- Where a worker stands with the first of its events. -/
inductive Fase
  /-- In front of the section that sets `in_handler`. -/
  | recibido
  /-- In the part for `EPOLLIN`. -/
  | leyendo
  /-- In the part for `EPOLLOUT`. -/
  | escribiendo
  /-- In `process_connection_ready`. -/
  | conectado
  /-- In front of `rearm_conn`. -/
  | rearmando
  /-- In `process_disconnect` or `process_connection_failed`, in front of `close`. -/
  | cerrando
deriving DecidableEq

/-- A thread of `worker_thread_loop`: the events of its last `epoll_wait` it has
not finished, and the local `oneshot`. -/
structure Worker where
  events : List (Conn × Eventos)
  fase : Fase
  oneshot : Bool

/-- The process: the open connections, the number the next one gets, and the
workers. -/
structure Servidor (W : Type) where
  conns : Conn → Option Descriptor
  next : Conn
  workers : W → Worker

/-- What a worker does next. -/
inductive Accion (W : Type)
  /-- `epoll_wait` returns these events. -/
  | epollWait (w : W) (events : List (Conn × Eventos))
  /-- The section that sets `in_handler`, and the test for an error. -/
  | begin (w : W)
  /-- A round of `handle_accept`. -/
  | handleAccept (w : W)
  /-- `connect_remote_node`. -/
  | connectRemoteNode (w : W)
  /-- The section of `enqueue_write`. -/
  | enqueueWrite (w : W) (c : Conn) (msg : CString) (mod : Bool)
  /-- The handler of `EPOLLIN` returns, or is about to close the connection. -/
  | readDone (w : W) (closed : Bool)
  /-- The section of `handle_tcp_write`; `none` is an error of `write`. -/
  | handleTcpWrite (w : W) (written : Option (Option ℕ))
  /-- `handle_outgoing_connection_event` finds the connection up, or failed. -/
  | outgoing (w : W) (up : Bool)
  /-- `process_connection_ready` returns. -/
  | connectionReady (w : W)
  /-- A part of the loop the events or the type do not ask for. -/
  | skip (w : W)
  /-- `rearm_conn`, where the type asks for it. -/
  | rearm (w : W) (mod : Bool)
  /-- `close` and `free`. -/
  | close (w : W)

namespace Servidor

variable {W : Type} [DecidableEq W]

/-- `init_server_sockets`: three listening sockets, and idle workers. -/
def inicial : Servidor W where
  conns c := match c with
    | 0 => some (.nuevo .tcpPublicListen ⟨true, false, false⟩)
    | 1 => some (.nuevo .tcpLocalListen ⟨true, false, false⟩)
    | 2 => some (.nuevo .udpDiscovery ⟨true, false, false⟩)
    | _ => none
  next := 3
  workers _ := ⟨[], .recibido, false⟩

/-- A connection replaced. -/
def setConn (s : Servidor W) (c : Conn) (k : Descriptor) : Servidor W :=
  { s with conns := Function.update s.conns c (some k) }

/-- A connection opened. -/
def openConn (s : Servidor W) (type : ConnectionType) (m : Mascara) : Servidor W :=
  { s with
    conns := Function.update s.conns s.next (some (.nuevo type m))
    next := s.next + 1 }

/-- A worker replaced. -/
def setWorker (s : Servidor W) (w : W) (x : Worker) : Servidor W :=
  { s with workers := Function.update s.workers w x }

/-- A worker at another place of the loop. -/
def setFase (s : Servidor W) (w : W) (fase : Fase) : Servidor W :=
  s.setWorker w { s.workers w with fase := fase }

/-- A worker done with its first event. -/
def finish (s : Servidor W) (w : W) : Servidor W :=
  s.setWorker w { s.workers w with events := (s.workers w).events.tail, fase := .recibido }

/-- The connections after a report of `epoll_wait`. -/
def deliver (s : Servidor W) (events : List (Conn × Eventos)) : Servidor W :=
  { s with
    conns := fun c => if c ∈ events.map (·.1) then (s.conns c).map Descriptor.report
      else s.conns c }

/-- The first event of a worker in that place of the loop, and its connection. There
is none once the connection was freed: nothing is said about what the program
then does. -/
def turno (s : Servidor W) (w : W) (fase : Fase) : Option (Conn × Eventos × Descriptor) :=
  if (s.workers w).fase = fase then do
    let e ← (s.workers w).events.head?
    let k ← s.conns e.1
    return (e.1, e.2, k)
  else none

/-- Whether `epoll_wait` may return these events. -/
def ofrece (s : Servidor W) (events : List (Conn × Eventos)) : Bool :=
  decide (events.length ≤ MAX_EVENTS) && decide (events.map (·.1)).Nodup
    && events.all (fun e => ((s.conns e.1).bind (·.armed)).any e.2.permitidos)

/-- Whether a worker is in `handle_tcp_read`, where `process_message` runs. -/
def procesando (s : Servidor W) (w : W) : Bool :=
  (s.turno w .leyendo).any (fun e => e.2.1.epollin && connUsesOneshot e.2.2.type)

/-- Whether a worker is in one of the functions that send messages. -/
def enviando (s : Servidor W) (w : W) : Bool :=
  s.procesando w || (s.turno w .conectado).isSome || (s.turno w .cerrando).isSome

/-- The answer of `write` a run chose, `none` where it took more than offered. -/
def escritura (n : ℕ) : Option (Option ℕ) → Option (Escritura n)
  | none => some .error
  | some none => some .again
  | some (some written) => if h : written ≤ n then some (.bytes written h) else none

/-- **`worker_thread_loop`**, one step of one of the threads. -/
def step (s : Servidor W) : Accion W → Option (Servidor W)
  | .epollWait w events =>
    if (s.workers w).events = [] ∧ s.ofrece events = true then
      some ((s.deliver events).setWorker w ⟨events, .recibido, false⟩)
    else none
  | .begin w => do
    let (c, ev, k) ← s.turno w .recibido
    let oneshot := connUsesOneshot k.type
    let s := s.setConn c { k with inHandler := oneshot || k.inHandler }
    return s.setWorker w
      ⟨(s.workers w).events, if ev.roto then .cerrando else .leyendo, oneshot⟩
  | .handleAccept w => do
    let (_, ev, k) ← s.turno w .leyendo
    if ev.epollin then
      match k.type with
      | .tcpPublicListen => some (s.openConn .tcpClientRemote ⟨true, false, true⟩)
      | .tcpLocalListen => some (s.openConn .tcpClientLocal ⟨true, false, true⟩)
      | _ => none
    else none
  | .connectRemoteNode w =>
    if s.procesando w then some (s.openConn .tcpOutgoing ⟨false, true, true⟩) else none
  | .enqueueWrite w c msg mod =>
    if s.enviando w then do
      let k ← s.conns c
      return s.setConn c (k.enqueueWrite msg mod)
    else none
  | .readDone w closed => do
    let (_, ev, k) ← s.turno w .leyendo
    if ev.epollin then
      -- only the handler of a TCP connection closes it
      if closed then if connUsesOneshot k.type then some (s.setFase w .cerrando) else none
      else some (s.setFase w .escribiendo)
    else none
  | .handleTcpWrite w written => do
    let (c, ev, k) ← s.turno w .escribiendo
    if ev.epollout ∧ (k.type = .tcpClientRemote ∨ k.type = .tcpClientLocal) then do
      let escritura ← escritura k.salida.pendingBytes written
      match Hpc.handleTcpWrite k.salida escritura with
      | (some salida, _) => some ((s.setConn c { k with salida := salida }).setFase w .rearmando)
      | (none, _) => some (s.setFase w .cerrando)
    else none
  | .outgoing w up => do
    let (c, ev, k) ← s.turno w .escribiendo
    if ev.epollout ∧ k.type = .tcpOutgoing then
      if up then some ((s.setConn c { k with type := .tcpClientRemote }).setFase w .conectado)
      else some (s.setFase w .cerrando)
    else none
  | .connectionReady w => do
    let _ ← s.turno w .conectado
    return s.setFase w .rearmando
  | .skip w =>
    match s.turno w .leyendo with
    | some (_, ev, _) => if ev.epollin then none else some (s.setFase w .escribiendo)
    | none => do
      let (_, ev, k) ← s.turno w .escribiendo
      if ev.epollout ∧ connUsesOneshot k.type = true then none
      else some (s.setFase w .rearmando)
  | .rearm w mod => do
    let (c, _, k) ← s.turno w .rearmando
    if (s.workers w).oneshot then
      let s := s.setConn c (k.rearmConn mod)
      return if mod then s.finish w else s.setFase w .cerrando
    else return s.finish w
  | .close w => do
    let (c, _, _) ← s.turno w .cerrando
    return { s.finish w with conns := Function.update s.conns c none }

/-- The workers that hold a delivered event of a connection they have not
finished. -/
def tiene (s : Servidor W) (c : Conn) : Set W := {w | c ∈ (s.workers w).events.map (·.1)}

end Servidor

/-! ## What a step does to one connection -/

/-- **A step as one connection sees it**: its state and the workers that hold an
event of it, before and after. `permitido` is what the run promises of the calls
of `enqueue_write`. -/
inductive Movimiento {W : Type} (permitido : Descriptor → Set W → CString → Bool → Prop)
    (k : Descriptor) (H : Set W) : Descriptor → Set W → Prop
  /-- Nothing the two sections read changes. -/
  | rest (type : ConnectionType) : Movimiento permitido k H { k with type := type } H
  /-- Its event is delivered to a worker. -/
  | report (w : W) (h : k.armed.isSome = true) :
    Movimiento permitido k H { k with armed := none } (insert w H)
  /-- A worker that holds an event sets `in_handler`. -/
  | begin (w : W) (h : w ∈ H) : Movimiento permitido k H { k with inHandler := true } H
  /-- A message is sent to it. -/
  | enqueueWrite (msg : CString) (mod : Bool) (h : permitido k H msg mod) :
    Movimiento permitido k H (k.enqueueWrite msg mod) H
  /-- Some of what waits goes to the socket. -/
  | handleTcpWrite (salida : Salida)
      (h : salida.writeLen = 0 ∨ salida.writeLen = k.salida.writeLen) :
    Movimiento permitido k H { k with salida := salida } H
  /-- A worker that holds an event arms it again and is done. -/
  | rearm (w : W) (h : w ∈ H) : Movimiento permitido k H (k.rearmConn true) (H \ {w})
  /-- A worker that holds an event fails to arm it. -/
  | rearmFailed (w : W) (h : w ∈ H) : Movimiento permitido k H (k.rearmConn false) H

namespace Servidor

section Frame

variable {W : Type} {s : Servidor W} {w : W} {c : Conn} {k : Descriptor}

@[simp] theorem workers_setConn : (s.setConn c k).workers = s.workers := rfl

@[simp] theorem next_setConn : (s.setConn c k).next = s.next := rfl

@[simp] theorem tiene_setConn : (s.setConn c k).tiene = s.tiene := rfl

@[simp] theorem tiene_openConn (type : ConnectionType) (m : Mascara) :
    (s.openConn type m).tiene = s.tiene := rfl

theorem conns_setConn (c' : Conn) :
    (s.setConn c k).conns c' = if c' = c then some k else s.conns c' :=
  Function.update_apply ..

theorem conns_openConn (type : ConnectionType) (m : Mascara) (c' : Conn) :
    (s.openConn type m).conns c'
      = if c' = s.next then some (.nuevo type m) else s.conns c' :=
  Function.update_apply ..

theorem mem_tiene : w ∈ s.tiene c ↔ c ∈ (s.workers w).events.map (·.1) := Iff.rfl

end Frame

variable {W : Type} [DecidableEq W] {s s' : Servidor W} {w : W} {c : Conn} {k : Descriptor}
  {ev : Eventos} {fase : Fase}

@[simp] theorem conns_setWorker (x : Worker) : (s.setWorker w x).conns = s.conns := rfl

@[simp] theorem next_setWorker (x : Worker) : (s.setWorker w x).next = s.next := rfl

@[simp] theorem conns_finish : (s.finish w).conns = s.conns := rfl

theorem workers_setWorker (x : Worker) (v : W) :
    (s.setWorker w x).workers v = if v = w then x else s.workers v :=
  Function.update_apply ..

/-- A worker that keeps its events holds what it held. -/
theorem tiene_setWorker {x : Worker} (h : x.events = (s.workers w).events) :
    (s.setWorker w x).tiene = s.tiene := by
  funext c
  ext v
  rw [mem_tiene, mem_tiene, workers_setWorker]
  split
  · next hv => rw [hv, h]
  · rfl

@[simp] theorem tiene_setFase : (s.setFase w fase).tiene = s.tiene := tiene_setWorker rfl

omit [DecidableEq W] in
theorem turno_eq_some : s.turno w fase = some (c, ev, k)
    ↔ (s.workers w).fase = fase
      ∧ (∃ rest, (s.workers w).events = (c, ev) :: rest) ∧ s.conns c = some k := by
  unfold turno
  split
  · next hfase =>
    cases hevents : (s.workers w).events with
    | nil => simp
    | cons e rest =>
      obtain ⟨c', ev'⟩ := e
      simp only [List.head?_cons, Option.bind_eq_bind, Option.bind_some]
      cases hconn : s.conns c' with
      | none =>
        simp only [Option.bind_none, reduceCtorEq, false_iff, not_and]
        rintro - ⟨rest', heq⟩ hk
        obtain ⟨rfl, -⟩ := Prod.mk.inj (List.cons.inj heq).1
        exact Option.some_ne_none k (hk.symm.trans hconn)
      | some k' =>
        simp only [Option.bind_some, Option.pure_def, Option.some.injEq, Prod.mk.injEq,
          List.cons.injEq]
        constructor
        · rintro ⟨rfl, rfl, rfl⟩
          exact ⟨hfase, ⟨rest, ⟨rfl, rfl⟩, rfl⟩, hconn⟩
        · rintro ⟨-, ⟨rest', ⟨rfl, rfl⟩, rfl⟩, hk⟩
          exact ⟨rfl, rfl, Option.some.inj (hconn.symm.trans hk)⟩
  · next hfase => simp [hfase]

omit [DecidableEq W] in
/-- A worker at work on a connection holds an event of it. -/
theorem mem_tiene_of_turno (h : s.turno w fase = some (c, ev, k)) : w ∈ s.tiene c := by
  obtain ⟨-, ⟨rest, hrest⟩, -⟩ := turno_eq_some.mp h
  rw [mem_tiene, hrest]
  exact List.mem_cons_self

omit [DecidableEq W] in
theorem fase_ne_of_turno (h : s.turno w fase = some (c, ev, k)) (hfase : fase ≠ .recibido) :
    (s.workers w).fase ≠ .recibido := by
  rw [(turno_eq_some.mp h).1]
  exact hfase

/-- What a worker holds when it is done with its first event. -/
theorem tiene_finish {rest : List (Conn × Eventos)}
    (hnodup : ((s.workers w).events.map (·.1)).Nodup)
    (hevents : (s.workers w).events = (c, ev) :: rest) (c' : Conn) :
    (s.finish w).tiene c' = if c' = c then s.tiene c \ {w} else s.tiene c' := by
  have hmem : ∀ v, v ∈ (s.finish w).tiene c'
      ↔ c' ∈ (if v = w then rest else (s.workers v).events).map (·.1) := by
    intro v
    unfold finish
    rw [mem_tiene, workers_setWorker, hevents]
    split <;> rfl
  rw [hevents, List.map_cons, List.nodup_cons] at hnodup
  ext v
  rw [hmem]
  by_cases hc : c' = c
  · subst hc
    rw [if_pos rfl, Set.mem_sdiff, Set.mem_singleton_iff, mem_tiene]
    split
    · next hv => exact ⟨fun h => absurd h hnodup.1, fun h => absurd hv h.2⟩
    · next hv => exact ⟨fun h => ⟨h, hv⟩, And.left⟩
  · rw [if_neg hc, mem_tiene]
    split
    · next hv =>
      rw [hv, hevents, List.map_cons, List.mem_cons]
      exact ⟨Or.inr, fun h => h.resolve_left hc⟩
    · rfl

omit [DecidableEq W] in
/-- The process starts with listening sockets only. -/
theorem listening (hk : (inicial : Servidor W).conns c = some k) :
    c < 3 ∧ connUsesOneshot k.type = false := by
  unfold inicial at hk
  dsimp only at hk
  split at hk
  · exact ⟨by decide, Option.some.inj hk ▸ rfl⟩
  · exact ⟨by decide, Option.some.inj hk ▸ rfl⟩
  · exact ⟨by decide, Option.some.inj hk ▸ rfl⟩
  · exact absurd hk (by simp)

/-- What holds between two steps: no worker holds two events of one connection,
connection numbers are not used again, the local `oneshot` is that of the
connection, and a one-shot connection is armed for one shot. -/
structure Bien (s : Servidor W) : Prop where
  nodup : ∀ w, ((s.workers w).events.map (·.1)).Nodup
  held_lt : ∀ w, ∀ c ∈ (s.workers w).events.map (·.1), c < s.next
  open_lt : ∀ c k, s.conns c = some k → c < s.next
  oneshot : ∀ w c ev rest k, (s.workers w).fase ≠ .recibido →
    (s.workers w).events = (c, ev) :: rest → s.conns c = some k →
    (s.workers w).oneshot = connUsesOneshot k.type
  armed : ∀ c k m, s.conns c = some k → connUsesOneshot k.type = true → k.armed = some m →
    m.epolloneshot = true

namespace Bien

omit [DecidableEq W] in
theorem inicial : Bien (inicial : Servidor W) :=
  ⟨fun _ => List.nodup_nil, fun _ _ hc => absurd hc List.not_mem_nil,
    fun _ _ hk => (listening hk).1, fun _ _ _ _ _ hfase => absurd rfl hfase,
    fun _ _ _ hk hone => absurd ((listening hk).2.symm.trans hone) Bool.false_ne_true⟩

omit [DecidableEq W] in
/-- A change of one connection. -/
theorem setConn (h : Bien s) {k' : Descriptor} (hk : s.conns c = some k)
    (htype : connUsesOneshot k'.type = connUsesOneshot k.type)
    (harmed : connUsesOneshot k'.type = true → ∀ m, k'.armed = some m → m.epolloneshot = true) :
    Bien (s.setConn c k') := by
  refine ⟨h.nodup, h.held_lt, fun d j hj => ?_, fun v d ev rest j hfase hevents hj => ?_,
    fun d j m hj hone hm => ?_⟩
  · rw [conns_setConn] at hj
    split at hj
    · next hd => exact hd ▸ h.open_lt c k hk
    · exact h.open_lt d j hj
  · rw [conns_setConn] at hj
    split at hj
    · next hd =>
      obtain rfl := Option.some.inj hj
      exact (h.oneshot v d ev rest k hfase hevents (hd ▸ hk)).trans htype.symm
    · exact h.oneshot v d ev rest j hfase hevents hj
  · rw [conns_setConn] at hj
    split at hj
    · obtain rfl := Option.some.inj hj
      exact harmed hone m hm
    · exact h.armed d j m hj hone hm

/-- A change of one worker. -/
theorem setWorker (h : Bien s) {x : Worker} (hnodup : (x.events.map (·.1)).Nodup)
    (hlt : ∀ c ∈ x.events.map (·.1), c < s.next)
    (hone : x.fase ≠ .recibido → ∀ c ev rest k, x.events = (c, ev) :: rest →
      s.conns c = some k → x.oneshot = connUsesOneshot k.type) :
    Bien (s.setWorker w x) := by
  refine ⟨fun v => ?_, fun v => ?_, h.open_lt, fun v c ev rest k => ?_, h.armed⟩
  · rw [workers_setWorker]
    split
    · exact hnodup
    · exact h.nodup v
  · rw [workers_setWorker]
    split
    · exact hlt
    · exact h.held_lt v
  · rw [workers_setWorker]
    split
    · exact fun hfase => hone hfase c ev rest k
    · exact h.oneshot v c ev rest k

theorem setFase (h : Bien s) (hfase : (s.workers w).fase ≠ .recibido) :
    Bien (s.setFase w fase) :=
  h.setWorker (h.nodup w) (h.held_lt w) (fun _ c ev rest k => h.oneshot w c ev rest k hfase)

theorem finish (h : Bien s) : Bien (s.finish w) := by
  have htail : ((s.workers w).events.tail.map (·.1)).Sublist ((s.workers w).events.map (·.1)) :=
    (List.tail_sublist _).map _
  exact h.setWorker ((h.nodup w).sublist htail)
    (fun c hc => h.held_lt w c (htail.subset hc)) (fun hfase => absurd rfl hfase)

omit [DecidableEq W] in
theorem openConn (h : Bien s) {type : ConnectionType} {m : Mascara}
    (hm : m.epolloneshot = true) : Bien (s.openConn type m) := by
  refine ⟨h.nodup, fun w c hc => Nat.lt_succ_of_lt (h.held_lt w c hc), fun d j hj => ?_,
    fun v d ev rest j hfase hevents hj => ?_, fun d j m' hj hone hm' => ?_⟩
  · rw [conns_openConn] at hj
    split at hj
    · next hd => exact hd ▸ Nat.lt_succ_self _
    · exact Nat.lt_succ_of_lt (h.open_lt d j hj)
  · -- the new connection has the number of no event
    have hd : d ≠ s.next := (h.held_lt v d (by
      have hmem : d ∈ (s.workers v).events.map (·.1) := by
        have hevents : (s.workers v).events = (d, ev) :: rest := hevents
        rw [hevents]
        exact List.mem_cons_self
      exact hmem)).ne
    rw [conns_openConn, if_neg hd] at hj
    exact h.oneshot v d ev rest j hfase hevents hj
  · rw [conns_openConn] at hj
    split at hj
    · obtain rfl := Option.some.inj hj
      obtain rfl := Option.some.inj hm'
      exact hm
    · exact h.armed d j m' hj hone hm'

omit [DecidableEq W] in
theorem deliver (h : Bien s) (events : List (Conn × Eventos)) : Bien (s.deliver events) := by
  have hback : ∀ c k, (s.deliver events).conns c = some k → ∃ k₀, s.conns c = some k₀
      ∧ k.type = k₀.type ∧ (k.armed = none ∨ k.armed = k₀.armed) := by
    intro c k hk
    unfold Servidor.deliver at hk
    dsimp only at hk
    split at hk
    · obtain ⟨k₀, hk₀, rfl⟩ := Option.map_eq_some_iff.mp hk
      unfold Descriptor.report
      split
      · exact ⟨k₀, hk₀, rfl, Or.inl rfl⟩
      · exact ⟨k₀, hk₀, rfl, Or.inr rfl⟩
    · exact ⟨k, hk, rfl, Or.inr rfl⟩
  refine ⟨h.nodup, h.held_lt, fun c k hk => ?_, fun v c ev rest k hfase hevents hk => ?_,
    fun c k m hk hone hm => ?_⟩
  · obtain ⟨k₀, hk₀, -⟩ := hback c k hk
    exact h.open_lt c k₀ hk₀
  · obtain ⟨k₀, hk₀, htype, -⟩ := hback c k hk
    rw [htype]
    exact h.oneshot v c ev rest k₀ hfase hevents hk₀
  · obtain ⟨k₀, hk₀, htype, hnone | hsame⟩ := hback c k hk
    · exact absurd (hnone.symm.trans hm) (by simp)
    · exact h.armed c k₀ m hk₀ (htype ▸ hone) (hsame ▸ hm)

omit [DecidableEq W] in
theorem closeConn (h : Bien s) (c : Conn) :
    Bien { s with conns := Function.update s.conns c none } := by
  have hback : ∀ d k, Function.update s.conns c none d = some k → s.conns d = some k := by
    intro d k hk
    rw [Function.update_apply] at hk
    split at hk
    · exact absurd hk (by simp)
    · exact hk
  exact ⟨h.nodup, h.held_lt, fun d k hk => h.open_lt d k (hback d k hk),
    fun v d ev rest k hfase hevents hk => h.oneshot v d ev rest k hfase hevents (hback d k hk),
    fun d k m hk => h.armed d k m (hback d k hk)⟩

end Bien

/-- What a connection that is open afterwards went through: it is new and armed, and
nobody holds an event of it, or it moved. -/
def Movida (permitido : Descriptor → Set W → CString → Bool → Prop) (s s' : Servidor W)
    (c : Conn) (k' : Descriptor) : Prop :=
  (s'.tiene c = ∅ ∧ ∃ type m, k' = .nuevo type m)
    ∨ ∃ k, s.conns c = some k ∧ connUsesOneshot k.type = true
      ∧ Movimiento permitido k (s.tiene c) k' (s'.tiene c)

/-- A step keeps the bookkeeping, and moves every one-shot connection. -/
structure Sigue (permitido : Descriptor → Set W → CString → Bool → Prop)
    (s s' : Servidor W) : Prop where
  bien : Bien s'
  movida : ∀ c k', s'.conns c = some k' → connUsesOneshot k'.type = true →
    Movida permitido s s' c k'

namespace Sigue

variable {permitido : Descriptor → Set W → CString → Bool → Prop}

omit [DecidableEq W] in
theorem refl (h : Bien s) : Sigue permitido s s :=
  ⟨h, fun _ k' hk' hone => Or.inr ⟨k', hk', hone, .rest k'.type⟩⟩

/-- A worker that goes on to another place moves nothing. -/
theorem setWorker (h : Sigue permitido s s') {x : Worker}
    (hevents : x.events = (s'.workers w).events) (hbien : Bien (s'.setWorker w x)) :
    Sigue permitido s (s'.setWorker w x) := by
  refine ⟨hbien, fun c k' hk' hone => ?_⟩
  have hmov := h.movida c k' hk' hone
  unfold Movida at hmov ⊢
  rwa [tiene_setWorker hevents]

theorem setFase (h : Sigue permitido s s') (hfase : (s'.workers w).fase ≠ .recibido) :
    Sigue permitido s (s'.setFase w fase) :=
  h.setWorker rfl (h.bien.setFase hfase)

omit [DecidableEq W] in
/-- One connection moves, and no worker with it. -/
theorem setConn (h : Bien s) {k' : Descriptor} (hk : s.conns c = some k)
    (htype : connUsesOneshot k'.type = connUsesOneshot k.type)
    (harmed : connUsesOneshot k'.type = true → ∀ m, k'.armed = some m → m.epolloneshot = true)
    (hmov : connUsesOneshot k.type = true → Movimiento permitido k (s.tiene c) k' (s.tiene c)) :
    Sigue permitido s (s.setConn c k') := by
  refine ⟨h.setConn hk htype harmed, fun d j hj hone => ?_⟩
  rw [conns_setConn] at hj
  split at hj
  · next hd =>
    obtain rfl := Option.some.inj hj
    rw [htype] at hone
    exact Or.inr ⟨k, hd ▸ hk, hone, hd ▸ hmov hone⟩
  · exact Or.inr ⟨j, hj, hone, .rest j.type⟩

omit [DecidableEq W] in
/-- A new connection. -/
theorem openConn (h : Bien s) {type : ConnectionType} {m : Mascara}
    (hm : m.epolloneshot = true) : Sigue permitido s (s.openConn type m) := by
  refine ⟨h.openConn hm, fun d j hj hone => ?_⟩
  rw [conns_openConn] at hj
  split at hj
  · next hd =>
    refine Or.inl ⟨?_, type, m, (Option.some.inj hj).symm⟩
    ext v
    exact ⟨fun hv => absurd (h.held_lt v d hv) (hd ▸ lt_irrefl _), fun hv => absurd hv (by simp)⟩
  · exact Or.inr ⟨j, hj, hone, .rest j.type⟩

/-- A report of `epoll_wait`. -/
theorem epollWait (h : Bien s) {events : List (Conn × Eventos)}
    (hidle : (s.workers w).events = []) (hofrece : s.ofrece events = true) :
    Sigue permitido s ((s.deliver events).setWorker w ⟨events, .recibido, false⟩) := by
  unfold ofrece at hofrece
  rw [Bool.and_eq_true, Bool.and_eq_true, List.all_eq_true] at hofrece
  obtain ⟨⟨-, hnodup⟩, hall⟩ := hofrece
  have hopen : ∀ c ∈ events.map (·.1), ∃ k m, s.conns c = some k ∧ k.armed = some m := by
    intro c hc
    obtain ⟨e, he, rfl⟩ := List.mem_map.mp hc
    obtain ⟨m, hm, -⟩ := Option.any_eq_true _ _ |>.mp (hall e he)
    obtain ⟨k, hk, hm⟩ := Option.bind_eq_some_iff.mp hm
    exact ⟨k, m, hk, hm⟩
  have htiene : ∀ c, ((s.deliver events).setWorker w ⟨events, .recibido, false⟩).tiene c
      = if c ∈ events.map (·.1) then insert w (s.tiene c) else s.tiene c := by
    intro c
    ext v
    rw [mem_tiene, workers_setWorker]
    by_cases hv : v = w
    · subst hv
      rw [if_pos rfl]
      split
      · next hc => exact ⟨fun _ => Set.mem_insert _ _, fun _ => hc⟩
      · next hc =>
        refine ⟨fun h => absurd h hc, fun h => ?_⟩
        rw [mem_tiene, hidle] at h
        exact absurd h List.not_mem_nil
    · rw [if_neg hv]
      split
      · exact ⟨fun h => Set.mem_insert_of_mem _ h, fun h => h.resolve_left hv⟩
      · rfl
  refine ⟨(h.deliver events).setWorker (of_decide_eq_true hnodup) (fun c hc => ?_)
    (fun hfase => absurd rfl hfase), fun c k' hk' hone => Or.inr ?_⟩
  · obtain ⟨k, -, hk, -⟩ := hopen c hc
    exact h.open_lt c k hk
  · have hk' : (s.deliver events).conns c = some k' := hk'
    rw [htiene]
    unfold deliver at hk'
    dsimp only at hk'
    split at hk'
    · next hc =>
      obtain ⟨k, m, hk, hm⟩ := hopen c hc
      rw [hk] at hk'
      obtain rfl := Option.some.inj hk'
      have hone : connUsesOneshot k.type = true := by
        unfold Descriptor.report at hone
        split at hone <;> exact hone
      have hreport : k.report = { k with armed := none } := by
        unfold Descriptor.report
        rw [hm, Option.any_some, h.armed c k m hk hone hm, if_pos rfl]
      rw [if_pos hc, hreport]
      exact ⟨k, hk, hone, .report w (hm ▸ rfl)⟩
    · next hc =>
      rw [if_neg hc]
      exact ⟨k', hk', hone, .rest k'.type⟩

/-- A worker that armed its connection is done with its event. -/
theorem rearm (h : Bien s) (hturno : s.turno w fase = some (c, ev, k)) :
    Sigue permitido s ((s.setConn c (k.rearmConn true)).finish w) := by
  obtain ⟨-, ⟨rest, hevents⟩, hk⟩ := turno_eq_some.mp hturno
  have hbien : Bien (s.setConn c (k.rearmConn true)) :=
    h.setConn hk rfl (fun _ m hm => by obtain rfl := Option.some.inj hm; rfl)
  refine ⟨hbien.finish, fun d j hj hone => Or.inr ?_⟩
  have htiene : ((s.setConn c (k.rearmConn true)).finish w).tiene d = _ :=
    tiene_finish (hbien.nodup w) hevents d
  rw [htiene]
  rw [conns_finish, conns_setConn] at hj
  split at hj
  · next hd =>
    subst hd
    obtain rfl := Option.some.inj hj
    rw [if_pos rfl]
    exact ⟨k, hk, hone, .rearm w (mem_tiene_of_turno hturno)⟩
  · next hd =>
    rw [if_neg hd]
    exact ⟨j, hj, hone, .rest j.type⟩

/-- A worker is done with an event of a listening socket. -/
theorem finish (h : Bien s) (hturno : s.turno w fase = some (c, ev, k))
    (hone : connUsesOneshot k.type = false) : Sigue permitido s (s.finish w) := by
  obtain ⟨-, ⟨rest, hevents⟩, hk⟩ := turno_eq_some.mp hturno
  refine ⟨h.finish, fun d j hj hone' => Or.inr ?_⟩
  rw [conns_finish] at hj
  have hd : d ≠ c := fun hd => by
    subst hd
    obtain rfl := Option.some.inj (hk.symm.trans hj)
    exact Bool.false_ne_true (hone.symm.trans hone')
  rw [tiene_finish (h.nodup w) hevents, if_neg hd]
  exact ⟨j, hj, hone', .rest j.type⟩

/-- A worker closes its connection. -/
theorem close (h : Bien s) (hturno : s.turno w fase = some (c, ev, k)) :
    Sigue permitido s { s.finish w with conns := Function.update s.conns c none } := by
  obtain ⟨-, ⟨rest, hevents⟩, -⟩ := turno_eq_some.mp hturno
  refine ⟨h.finish.closeConn c, fun d j hj hone => Or.inr ?_⟩
  have hj : Function.update s.conns c none d = some j := hj
  rw [Function.update_apply] at hj
  split at hj
  · exact absurd hj (by simp)
  · next hd =>
    have htiene := tiene_finish (h.nodup w) hevents d
    rw [if_neg hd] at htiene
    show ∃ k, s.conns d = some k ∧ _ ∧ Movimiento permitido k (s.tiene d) j ((s.finish w).tiene d)
    rw [htiene]
    exact ⟨j, hj, hone, .rest j.type⟩

end Sigue

/-- What the promise of a run says of an action. -/
def Promete (permitido : Descriptor → Set W → CString → Bool → Prop) (s : Servidor W) :
    Accion W → Prop
  | .enqueueWrite _ c msg mod =>
    ∀ k, s.conns c = some k → connUsesOneshot k.type = true → permitido k (s.tiene c) msg mod
  | _ => True

/-- **Every step moves every one-shot connection**, and keeps the bookkeeping. -/
theorem movimiento {permitido : Descriptor → Set W → CString → Bool → Prop} (h : Bien s)
    {a : Accion W} (ha : s.Promete permitido a) (hstep : s.step a = some s') :
    Sigue permitido s s' := by
  cases a with
  | epollWait w events =>
    rw [step] at hstep
    split at hstep
    · next hwait =>
      obtain rfl := Option.some.inj hstep
      exact .epollWait h hwait.1 hwait.2
    · exact absurd hstep (by simp)
  | begin w =>
    obtain ⟨⟨c, ev, k⟩, hturno, hstep⟩ := Option.bind_eq_some_iff.mp hstep
    obtain rfl := Option.some.inj hstep
    obtain ⟨-, ⟨rest, hevents⟩, hk⟩ := turno_eq_some.mp hturno
    have hconn : Sigue permitido s
        (s.setConn c { k with inHandler := connUsesOneshot k.type || k.inHandler }) := by
      refine .setConn h hk rfl (fun hone m hm => h.armed c k m hk hone hm) (fun hone => ?_)
      rw [hone]
      exact .begin w (mem_tiene_of_turno hturno)
    refine hconn.setWorker rfl (hconn.bien.setWorker (h.nodup w) (h.held_lt w) ?_)
    intro _ d ev' rest' j hd hj
    -- the local `oneshot` was read off this connection
    obtain ⟨hd, -⟩ := List.cons.inj (hd.symm.trans hevents)
    obtain ⟨rfl, rfl⟩ := Prod.mk.inj hd
    rw [conns_setConn, if_pos rfl] at hj
    obtain rfl := Option.some.inj hj
    rfl
  | handleAccept w =>
    obtain ⟨⟨c, ev, k⟩, hturno, hstep⟩ := Option.bind_eq_some_iff.mp hstep
    dsimp only at hstep
    split at hstep
    · split at hstep
      · obtain rfl := Option.some.inj hstep
        exact .openConn h rfl
      · obtain rfl := Option.some.inj hstep
        exact .openConn h rfl
      · exact absurd hstep (by simp)
    · exact absurd hstep (by simp)
  | connectRemoteNode w =>
    rw [step] at hstep
    split at hstep
    · obtain rfl := Option.some.inj hstep
      exact .openConn h rfl
    · exact absurd hstep (by simp)
  | enqueueWrite w c msg mod =>
    rw [step] at hstep
    split at hstep
    · obtain ⟨k, hk, hstep⟩ := Option.bind_eq_some_iff.mp hstep
      obtain rfl := Option.some.inj hstep
      have htype : (k.enqueueWrite msg mod).type = k.type := by
        unfold Descriptor.enqueueWrite
        split <;> rfl
      refine .setConn h hk (congrArg _ htype) (fun hone m hm => ?_)
        (fun hone => .enqueueWrite msg mod (ha k hk hone))
      rw [htype] at hone
      unfold Descriptor.enqueueWrite at hm
      split at hm
      · dsimp only at hm
        split at hm
        · obtain rfl := Option.some.inj hm
          rfl
        · exact h.armed c k m hk hone hm
      · exact h.armed c k m hk hone hm
    · exact absurd hstep (by simp)
  | readDone w closed =>
    obtain ⟨⟨c, ev, k⟩, hturno, hstep⟩ := Option.bind_eq_some_iff.mp hstep
    have hfase := fase_ne_of_turno hturno (by decide)
    dsimp only at hstep
    split at hstep
    · split at hstep
      · split at hstep
        · obtain rfl := Option.some.inj hstep
          exact (Sigue.refl h).setFase hfase
        · exact absurd hstep (by simp)
      · obtain rfl := Option.some.inj hstep
        exact (Sigue.refl h).setFase hfase
    · exact absurd hstep (by simp)
  | handleTcpWrite w written =>
    obtain ⟨⟨c, ev, k⟩, hturno, hstep⟩ := Option.bind_eq_some_iff.mp hstep
    obtain ⟨-, -, hk⟩ := turno_eq_some.mp hturno
    have hfase := fase_ne_of_turno hturno (by decide)
    dsimp only at hstep
    split at hstep
    · obtain ⟨escritura, -, hstep⟩ := Option.bind_eq_some_iff.mp hstep
      split at hstep
      · next salida sent hwrite =>
        obtain rfl := Option.some.inj hstep
        refine Sigue.setFase (.setConn h hk rfl (fun hone m hm => h.armed c k m hk hone hm)
          (fun _ => .handleTcpWrite salida (writeLen_handleTcpWrite hwrite))) hfase
      · obtain rfl := Option.some.inj hstep
        exact (Sigue.refl h).setFase hfase
    · exact absurd hstep (by simp)
  | outgoing w up =>
    obtain ⟨⟨c, ev, k⟩, hturno, hstep⟩ := Option.bind_eq_some_iff.mp hstep
    obtain ⟨-, -, hk⟩ := turno_eq_some.mp hturno
    have hfase := fase_ne_of_turno hturno (by decide)
    dsimp only at hstep
    split at hstep
    · next hout =>
      have hone : connUsesOneshot k.type = true := by rw [hout.2]; rfl
      split at hstep
      · obtain rfl := Option.some.inj hstep
        exact Sigue.setFase (.setConn h hk hone.symm (fun _ m hm => h.armed c k m hk hone hm)
          (fun _ => .rest .tcpClientRemote)) hfase
      · obtain rfl := Option.some.inj hstep
        exact (Sigue.refl h).setFase hfase
    · exact absurd hstep (by simp)
  | connectionReady w =>
    obtain ⟨⟨c, ev, k⟩, hturno, hstep⟩ := Option.bind_eq_some_iff.mp hstep
    obtain rfl := Option.some.inj hstep
    exact (Sigue.refl h).setFase (fase_ne_of_turno hturno (by decide))
  | skip w =>
    rw [step] at hstep
    split at hstep
    · next c ev k hturno =>
      split at hstep
      · exact absurd hstep (by simp)
      · obtain rfl := Option.some.inj hstep
        exact (Sigue.refl h).setFase (fase_ne_of_turno hturno (by decide))
    · obtain ⟨⟨c, ev, k⟩, hturno, hstep⟩ := Option.bind_eq_some_iff.mp hstep
      dsimp only at hstep
      split at hstep
      · exact absurd hstep (by simp)
      · obtain rfl := Option.some.inj hstep
        exact (Sigue.refl h).setFase (fase_ne_of_turno hturno (by decide))
  | rearm w mod =>
    obtain ⟨⟨c, ev, k⟩, hturno, hstep⟩ := Option.bind_eq_some_iff.mp hstep
    obtain ⟨-, ⟨rest, hevents⟩, hk⟩ := turno_eq_some.mp hturno
    have hfase := fase_ne_of_turno hturno (by decide)
    have hlocal := h.oneshot w c ev rest k hfase hevents hk
    dsimp only at hstep
    split at hstep
    · obtain rfl := Option.some.inj hstep
      cases mod with
      | true => exact .rearm h hturno
      | false =>
        exact Sigue.setFase (.setConn h hk rfl (fun hone m hm => h.armed c k m hk hone hm)
          (fun _ => .rearmFailed w (mem_tiene_of_turno hturno))) hfase
    · next hone =>
      obtain rfl := Option.some.inj hstep
      exact .finish h hturno (hlocal.symm.trans (Bool.eq_false_iff.mpr hone))
  | close w =>
    obtain ⟨⟨c, ev, k⟩, hturno, hstep⟩ := Option.bind_eq_some_iff.mp hstep
    obtain rfl := Option.some.inj hstep
    exact .close h hturno

end Servidor

end Hpc
