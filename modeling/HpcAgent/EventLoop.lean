import HpcAgent.LockOrder

/-!
# The event loop, with its locks

The handlers of `server.c` as routines over the same state: `handle_tcp_read` and
`handle_tcp_write` with the sections under the `write_mutex` of their connection,
`rearm_conn`, and the body of `worker_thread_loop` that calls them; of `main.c` the
purge of the node table. What the kernel answers is a parameter (`Kernel`): for
each buffer that `read` and `write` may be offered, one answer.

Every handler obeys the order of the locks, alone and among others: no set of
threads that run handlers waits for each other in a cycle
(`Manejador.lock_discipline`). Alone, the two that move bytes compute what the
handlers without locks do (`run_handleTcpRead`, `run_handleTcpWrite`).
-/

namespace Hpc

open CharBuffer

/-- What the system calls of one event answer. -/
structure Kernel where
  /-- `read`. -/
  lectura : ∀ conn : Connection, Lectura conn.readLen
  /-- What the attempts to connect give, line by line. -/
  redes : List Network
  /-- `write`. -/
  escritura : ∀ conn : Salida, Escritura conn.pendingBytes
  /-- Whether `SO_ERROR` is zero. -/
  conectado : Bool
  /-- `recvfrom`, until it fails: the time, the sender and the datagram. -/
  datagramas : List (ℤ × CString × CString)
  /-- `accept`, until it fails. -/
  aceptadas : List Conn
  /-- Whether `EPOLL_CTL_MOD` succeeds. -/
  mod : Bool

namespace Connection

/-- The newline at a position overwritten. -/
def cortar (conn : Connection) (newlinePos : ℕ) : Connection :=
  if h : newlinePos < BUFF_SIZE then
    { conn with
      readBuf := write newlinePos [nul] conn.readBuf
      size_eq := (length_write (h.trans_eq conn.size_eq.symm)).trans conn.size_eq }
  else conn

/-- What is compacted depends on the array and the two positions. -/
theorem compact_congr {c d : Connection} {buf buf' : List Char} {m n : ℕ}
    (hpos : c.readPos = d.readPos) (hbuf : buf = buf') (hstart : m = n)
    (h : buf.length = BUFF_SIZE) (h' : buf'.length = BUFF_SIZE) :
    c.compact buf m h = d.compact buf' n h' := by
  subst hbuf hstart
  unfold compact
  simp only [hpos]

end Connection

namespace Agente

/-- The reading side of a connection replaced. -/
def setEntrada (a : Agente) (conn : Conn) (c : Connection) : Agente :=
  { a with entradas := Function.update a.entradas conn c }

/-- What a `read` returns, stored. -/
def recibir (a : Agente) (conn : Conn) (k : Kernel) : Agente :=
  match k.lectura (a.entradas conn) with
  | .bytes l h => if l = [] then a else a.setEntrada conn ((a.entradas conn).store l h)
  | .again | .error => a

/-- What a `write` took, passed over. -/
def transmitir (a : Agente) (conn : Conn) (k : Kernel) : Agente :=
  match Hpc.handleTcpWrite (a.salidas conn) (k.escritura (a.salidas conn)) with
  | (some salida, _) => { a with salidas := Function.update a.salidas conn salida }
  | (none, _) => a

end Agente

namespace Rutina

/-- The loop of `handle_tcp_read` over the lines, from the start of one. -/
def lineLoop (conn : Conn) : ℕ → ℕ → List Network → Rutina ℕ
  | 0, lineStart, _ => return lineStart
  | n + 1, lineStart, redes => do
    let buf ← mirar (fun a => (a.entradas conn).readBuf)
    match strchr '\n' lineStart buf with
    | none => return lineStart
    | some newlinePos =>
      cambiar (fun a => a.setEntrada conn ((a.entradas conn).cortar newlinePos))
      processMessage conn (stringAt lineStart (write newlinePos [nul] buf)) (redes.headD [])
      lineLoop conn n (newlinePos + 1) redes.tail

/-- **`handle_tcp_read`**, and whether it closed the connection. -/
def handleTcpRead (conn : Conn) (k : Kernel) : Rutina Bool := do
  lock (.write conn)
  .update (fun a => a.recibir conn k) (fun a =>
    match k.lectura (a.entradas conn) with
    | .again => do
      unlock (.write conn)
      return false
    | .error => do
      unlock (.write conn)
      processDisconnect conn
      return true
    | .bytes l _ =>
      if l = [] then do
        unlock (.write conn)
        processDisconnect conn
        return true
      else do
        unlock (.write conn)
        let lineStart ← lineLoop conn BUFF_SIZE 0 k.redes
        lock (.write conn)
        cambiar (fun a => a.setEntrada conn
          ((a.entradas conn).compact (a.entradas conn).readBuf lineStart
            (a.entradas conn).size_eq))
        unlock (.write conn)
        return false)

/-- **`handle_tcp_write`**, and whether it closed the connection. -/
def handleTcpWrite (conn : Conn) (k : Kernel) : Rutina Bool := do
  lock (.write conn)
  .update (fun a => a.transmitir conn k) (fun a =>
    if (a.salidas conn).pendingBytes = 0 then do
      unlock (.write conn)
      return false
    else
      match k.escritura (a.salidas conn) with
      | .again => do
        unlock (.write conn)
        return false
      | .error => do
        unlock (.write conn)
        processDisconnect conn
        return true
      | .bytes .. => do
        unlock (.write conn)
        return false)

/-- **`handle_outgoing_connection_event`**, and whether it closed the connection. -/
def handleOutgoingConnectionEvent (conn : Conn) (k : Kernel) : Rutina Bool := do
  if k.conectado then
    ponerTipo conn .tcpClientRemote
    processConnectionReady conn
    return false
  else
    processConnectionFailed conn
    return true

/-- **`handle_udp_read`**. -/
def handleUdpRead (k : Kernel) : Rutina Unit :=
  forM k.datagramas (fun d => processAnnounce d.1 d.2.1 d.2.2)

/-- **`handle_accept`**, which takes no lock: the type of a connection is that of the
socket it came by. -/
def handleAccept (listenConn : Conn) (k : Kernel) : Rutina Unit :=
  forM k.aceptadas (fun conn => do
    match ← mirar (fun a => a.tipos listenConn) with
    | .tcpPublicListen => ponerTipo conn .tcpClientRemote
    | .tcpLocalListen => ponerTipo conn .tcpClientLocal
    | _ => pure ())

/-- `in_handler` set. -/
def ponerInHandler (conn : Conn) (b : Bool) : Rutina Unit :=
  cambiar (fun a => { a with inHandler := Function.update a.inHandler conn b })

/-- **`rearm_conn`**, and whether it succeeded. -/
def rearmConn (conn : Conn) (k : Kernel) : Rutina Bool := do
  lock (.write conn)
  ponerInHandler conn false
  if k.mod then
    unlock (.write conn)
    return true
  else
    unlock (.write conn)
    return false

/-- The section in front of an event, and the local `oneshot`. -/
def empezar (conn : Conn) : Rutina Bool := do
  lock (.write conn)
  let oneshot ← mirar (fun a => connUsesOneshot (a.tipos conn))
  if oneshot then ponerInHandler conn true
  unlock (.write conn)
  return oneshot

/-- The part of the loop for `EPOLLIN`. -/
def eventoEntrada (conn : Conn) (ev : Eventos) (k : Kernel) : Rutina Bool := do
  if ev.epollin then
    match ← mirar (fun a => a.tipos conn) with
    | .tcpPublicListen | .tcpLocalListen =>
      handleAccept conn k
      return false
    | .udpDiscovery =>
      handleUdpRead k
      return false
    | .tcpClientRemote | .tcpClientLocal | .tcpOutgoing => handleTcpRead conn k
  else return false

/-- The part of the loop for `EPOLLOUT`. -/
def eventoSalida (conn : Conn) (ev : Eventos) (k : Kernel) (closed : Bool) :
    Rutina Bool := do
  if !closed && ev.epollout then
    match ← mirar (fun a => a.tipos conn) with
    | .tcpClientRemote | .tcpClientLocal => handleTcpWrite conn k
    | .tcpOutgoing => handleOutgoingConnectionEvent conn k
    | .tcpPublicListen | .tcpLocalListen | .udpDiscovery => return false
  else return closed

/-- The end of the loop. -/
def eventoRearme (conn : Conn) (k : Kernel) (oneshot closed : Bool) : Rutina Unit := do
  if !closed && oneshot then
    if ← rearmConn conn k then pure ()
    else processDisconnect conn

/-- **One event in the loop of `worker_thread_loop`**. -/
def evento (conn : Conn) (ev : Eventos) (k : Kernel) : Rutina Unit := do
  let oneshot ← empezar conn
  if ev.roto then processDisconnect conn
  else
    let closed ← eventoEntrada conn ev k
    let closed ← eventoSalida conn ev k closed
    eventoRearme conn k oneshot closed

/-- The events of one `epoll_wait`. -/
def workerThreadLoop (events : List (Conn × Eventos × Kernel)) : Rutina Unit :=
  forM events (fun e => evento e.1 e.2.1 e.2.2)

/-! ## The order of the locks -/

theorem conservada_true : Conservada (fun _ => True) (fun _ => True) where
  cola _ _ := trivial
  manager _ _ := trivial
  tipos _ _ := trivial
  salidas _ _ := trivial

/-- **A routine that obeys the order**, called with no lock held. -/
def EnOrden {α : Type} (p : Rutina α) : Prop :=
  Ordenada (fun _ => True) (fun _ => True) [] p

section EnOrden

open Routine

variable (conn : Conn) (k : Kernel)

theorem enOrden_processMessage (msg : CString) (red : Network) :
    EnOrden (processMessage conn msg red) :=
  ordenada_processMessage conservada_true (fun _ _ => trivial) conn red
    (fun _ _ _ _ => trivial)

theorem enOrden_processDisconnect : EnOrden (processDisconnect conn) :=
  ordenada_processDisconnect conservada_true (fun _ _ => trivial) conn

theorem enOrden_processConnectionReady : EnOrden (processConnectionReady conn) :=
  ordenada_processConnectionReady conservada_true conn

theorem enOrden_processConnectionFailed : EnOrden (processConnectionFailed conn) :=
  ordenada_processConnectionFailed conservada_true (fun _ _ => trivial) conn

theorem enOrden_processAnnounce (now : ℤ) (ipSender message : CString) :
    EnOrden (processAnnounce now ipSender message) :=
  ordenada_processAnnounce conservada_true now ipSender message

/-- A lock released, and a value returned. -/
theorem safe_unlock_return {m : Mutex} {α : Type} (x : α) :
    Safe (fun _ => True) (fun _ => True) Mutex.rank [m]
      (unlock m >>= fun _ => pure x) [] (fun _ => True) :=
  safe_bind safe_unlock (fun _ _ => safe_pure trivial)

/-- The same with the connection taken apart in between. -/
theorem safe_unlock_processDisconnect {m : Mutex} {α : Type} (x : α) :
    Safe (fun _ => True) (fun _ => True) Mutex.rank [m]
      (unlock m >>= fun _ => processDisconnect conn >>= fun _ => pure x) []
      (fun _ => True) :=
  safe_bind safe_unlock (fun _ _ => safe_bind (enOrden_processDisconnect conn)
    (fun _ _ => safe_pure trivial))

theorem enOrden_lineLoop (n lineStart : ℕ) (redes : List Network) :
    EnOrden (lineLoop conn n lineStart redes) := by
  induction n generalizing lineStart redes with
  | zero => exact ordenada_pure _
  | succ n ih =>
    refine (ordenada_mirar _).bind (fun buf => ?_)
    split
    · exact ordenada_pure _
    · exact (ordenada_cambiar (fun _ _ => trivial)).bind (fun _ =>
        (enOrden_processMessage conn _ _).bind (fun _ => ih _ _))

/-- **`handle_tcp_read`** hands the lines over between its two sections, and takes the
connection apart after the first. -/
theorem enOrden_handleTcpRead : EnOrden (handleTcpRead conn k) := by
  refine safe_bind (safe_lock (libre_nil 2)) (fun _ _ a _ => ⟨trivial, ?_⟩)
  dsimp only
  split
  · exact safe_unlock_return false
  · exact safe_unlock_processDisconnect conn true
  · split
    · exact safe_unlock_processDisconnect conn true
    · exact safe_bind safe_unlock (fun _ _ =>
        safe_bind (enOrden_lineLoop conn BUFF_SIZE 0 k.redes) (fun lineStart _ =>
          safe_bind (safe_lock (libre_nil 2)) (fun _ _ =>
            safe_bind (ordenada_cambiar (fun _ _ => trivial)) (fun _ _ =>
              safe_unlock_return false))))

/-- **`handle_tcp_write`** has one section with four exits. -/
theorem enOrden_handleTcpWrite : EnOrden (handleTcpWrite conn k) := by
  refine safe_bind (safe_lock (libre_nil 2)) (fun _ _ a _ => ⟨trivial, ?_⟩)
  dsimp only
  split
  · exact safe_unlock_return false
  · split
    · exact safe_unlock_return false
    · exact safe_unlock_processDisconnect conn true
    · exact safe_unlock_return false

theorem enOrden_ponerTipo (tipo : ConnectionType) : EnOrden (ponerTipo conn tipo) :=
  ordenada_cambiar (fun _ _ => trivial)

theorem enOrden_handleOutgoingConnectionEvent :
    EnOrden (handleOutgoingConnectionEvent conn k) := by
  unfold handleOutgoingConnectionEvent
  split
  · exact (enOrden_ponerTipo conn _).bind (fun _ =>
      (enOrden_processConnectionReady conn).bind (fun _ => ordenada_pure false))
  · exact (enOrden_processConnectionFailed conn).bind (fun _ => ordenada_pure true)

theorem enOrden_handleUdpRead : EnOrden (handleUdpRead k) :=
  safe_forM (fun d _ => enOrden_processAnnounce d.1 d.2.1 d.2.2)

theorem enOrden_handleAccept (listenConn : Conn) : EnOrden (handleAccept listenConn k) := by
  refine safe_forM (fun conn _ => (ordenada_mirar _).bind (fun tipo => ?_))
  split
  · exact enOrden_ponerTipo conn _
  · exact enOrden_ponerTipo conn _
  · exact ordenada_pure ()

/-- **`rearm_conn`** releases the lock on both of its ways out. -/
theorem enOrden_rearmConn : EnOrden (rearmConn conn k) := by
  refine safe_bind (safe_lock (libre_nil 2)) (fun _ _ =>
    safe_bind (ordenada_cambiar (fun _ _ => trivial)) (fun _ _ => ?_))
  split
  · exact safe_unlock_return true
  · exact safe_unlock_return false

theorem enOrden_empezar : EnOrden (empezar conn) := by
  refine safe_bind (safe_lock (libre_nil 2)) (fun _ _ =>
    safe_bind (ordenada_mirar _) (fun oneshot _ => ?_))
  dsimp only
  split
  · exact safe_bind (ordenada_cambiar (fun _ _ => trivial)) (fun _ _ => safe_unlock_return _)
  · exact safe_unlock_return _

theorem enOrden_eventoEntrada (ev : Eventos) : EnOrden (eventoEntrada conn ev k) := by
  unfold eventoEntrada
  split
  · refine (ordenada_mirar _).bind (fun tipo => ?_)
    cases tipo with
    | tcpPublicListen | tcpLocalListen =>
      exact (enOrden_handleAccept k conn).bind (fun _ => ordenada_pure false)
    | udpDiscovery => exact (enOrden_handleUdpRead k).bind (fun _ => ordenada_pure false)
    | tcpClientRemote | tcpClientLocal | tcpOutgoing => exact enOrden_handleTcpRead conn k
  · exact ordenada_pure false

theorem enOrden_eventoSalida (ev : Eventos) (closed : Bool) :
    EnOrden (eventoSalida conn ev k closed) := by
  unfold eventoSalida
  split
  · refine (ordenada_mirar _).bind (fun tipo => ?_)
    cases tipo with
    | tcpClientRemote | tcpClientLocal => exact enOrden_handleTcpWrite conn k
    | tcpOutgoing => exact enOrden_handleOutgoingConnectionEvent conn k
    | tcpPublicListen | tcpLocalListen | udpDiscovery => exact ordenada_pure false
  · exact ordenada_pure closed

theorem enOrden_eventoRearme (oneshot closed : Bool) :
    EnOrden (eventoRearme conn k oneshot closed) := by
  unfold eventoRearme
  split
  · refine (enOrden_rearmConn conn k).bind (fun rearmed => ?_)
    exact (ordenada_pure ()).ite (enOrden_processDisconnect conn)
  · exact ordenada_pure ()

/-- **One event**: every part of the loop begins with no lock held. -/
theorem enOrden_evento (ev : Eventos) : EnOrden (evento conn ev k) :=
  (enOrden_empezar conn).bind (fun oneshot =>
    (enOrden_processDisconnect conn).ite ((enOrden_eventoEntrada conn k ev).bind (fun closed =>
      (enOrden_eventoSalida conn k ev closed).bind (fun closed =>
        enOrden_eventoRearme conn k oneshot closed))))

theorem enOrden_workerThreadLoop (events : List (Conn × Eventos × Kernel)) :
    EnOrden (workerThreadLoop events) :=
  safe_forM (fun e _ => enOrden_evento e.1 e.2.2 e.2.1)

end EnOrden

/-! ## What the handlers of a connection compute -/

section Compute

variable (a : Agente) (conn : Conn) (k : Kernel)

/-- `process_message` as the loop over the lines calls it, with an attempt to connect for
each line. -/
def alManager (line : CString) (s : List Network × Manager) : List Network × Manager :=
  (s.1.tail, Hpc.processMessage conn line (s.1.headD []) s.2)

theorem conservada_entradas (e : Conn → Connection) :
    Conservada (fun _ => True) (fun a => a.entradas = e) where
  cola _ _ := trivial
  manager h _ := h
  tipos _ h := h
  salidas _ h := h

/-- The manager does not touch what a connection has read. -/
theorem entradas_processMessage (msg : CString) (red : Network) :
    ((processMessage conn msg red).run a).2.entradas = a.entradas := by
  have h : Ordenada (fun b => b.entradas = a.entradas) (fun _ => True) []
      (processMessage conn msg red) :=
    ordenada_processMessage (conservada_entradas a.entradas) (fun _ _ => trivial) conn red
      (fun _ _ _ _ => trivial)
  exact (h.run rfl).2.2.1

theorem run_lineLoop_none {n lineStart : ℕ} {redes : List Network}
    (h : strchr '\n' lineStart (a.entradas conn).readBuf = none) :
    (lineLoop conn (n + 1) lineStart redes).run a = (lineStart, a) := by
  have hbuf : (mirar (fun a => (a.entradas conn).readBuf)).run a
      = ((a.entradas conn).readBuf, a) := rfl
  unfold lineLoop
  rw [Routine.run_bind, hbuf]
  simp only [h]
  rfl

theorem run_lineLoop_some {n lineStart newlinePos : ℕ} {redes : List Network}
    (h : strchr '\n' lineStart (a.entradas conn).readBuf = some newlinePos) :
    (lineLoop conn (n + 1) lineStart redes).run a
      = (lineLoop conn n (newlinePos + 1) redes.tail).run ((processMessage conn
          (stringAt lineStart (write newlinePos [nul] (a.entradas conn).readBuf))
          (redes.headD [])).run
            (a.setEntrada conn ((a.entradas conn).cortar newlinePos))).2 := by
  have hbuf : (mirar (fun a => (a.entradas conn).readBuf)).run a
      = ((a.entradas conn).readBuf, a) := rfl
  rw [lineLoop, Routine.run_bind, hbuf]
  simp only [h, Routine.run_bind]
  rfl

/-- **The loop over the lines** runs on the array as the one without locks. -/
theorem run_lineLoop (n lineStart : ℕ) (redes : List Network) :
    let r := Hpc.lineLoop (alManager conn) n (a.entradas conn).readBuf lineStart
      (redes, a.manager)
    let q := (lineLoop conn n lineStart redes).run a
    q.1 = r.2.1 ∧ q.2.manager = r.2.2.2 ∧ (q.2.entradas conn).readBuf = r.1
      ∧ (q.2.entradas conn).readPos = (a.entradas conn).readPos := by
  induction n generalizing a lineStart redes with
  | zero => exact ⟨rfl, rfl, rfl, rfl⟩
  | succ n ih =>
    cases hfind : strchr '\n' lineStart (a.entradas conn).readBuf with
    | none =>
      rw [run_lineLoop_none a conn hfind, Hpc.lineLoop]
      simp [hfind]
    | some newlinePos =>
      have hlt : newlinePos < BUFF_SIZE :=
        (lt_of_strchr hfind).trans_eq (a.entradas conn).size_eq
      obtain ⟨b, hb⟩ : ∃ b, b = ((processMessage conn
          (stringAt lineStart (write newlinePos [nul] (a.entradas conn).readBuf))
          (redes.headD [])).run (a.setEntrada conn ((a.entradas conn).cortar newlinePos))).2 :=
        ⟨_, rfl⟩
      have hentrada : b.entradas conn = (a.entradas conn).cortar newlinePos := by
        rw [hb, entradas_processMessage]
        exact Function.update_self conn _ a.entradas
      have hbuf : (b.entradas conn).readBuf
          = write newlinePos [nul] (a.entradas conn).readBuf := by
        rw [hentrada, Connection.cortar, dif_pos hlt]
      have hpos : (b.entradas conn).readPos = (a.entradas conn).readPos := by
        rw [hentrada, Connection.cortar, dif_pos hlt]
      have hmanager : b.manager = Hpc.processMessage conn
          (stringAt lineStart (write newlinePos [nul] (a.entradas conn).readBuf))
          (redes.headD []) a.manager := by
        rw [hb, processMessage_eq]
        rfl
      have hrest := ih b (newlinePos + 1) redes.tail
      rw [hbuf, hpos, hmanager] at hrest
      rw [run_lineLoop_some a conn hfind, ← hb, Hpc.lineLoop]
      simp only [hfind]
      exact hrest

/-- **`handle_tcp_read` with its locks is the one without**, on the connection and on
the manager. -/
theorem run_handleTcpRead :
    let r := Hpc.handleTcpRead (alManager conn) (fun s => (s.1, Hpc.processDisconnect conn s.2))
      (a.entradas conn) (k.lectura (a.entradas conn)) (k.redes, a.manager)
    let q := (handleTcpRead conn k).run a
    q.2.manager = r.2.2 ∧ q.1 = r.1.isNone ∧ ∀ c, r.1 = some c → q.2.entradas conn = c := by
  have hclose := manager_processDisconnect a conn
  cases hread : k.lectura (a.entradas conn) with
  | again =>
    have hrecibir : a.recibir conn k = a := by simp only [Agente.recibir, hread]
    simp [handleTcpRead, Routine.run, hread, hrecibir, Hpc.handleTcpRead]
  | error =>
    have hrecibir : a.recibir conn k = a := by simp only [Agente.recibir, hread]
    simp [handleTcpRead, Routine.run, hread, hrecibir, Hpc.handleTcpRead, hclose]
  | bytes l h =>
    by_cases hl : l = []
    · have hrecibir : a.recibir conn k = a := by simp only [Agente.recibir, hread, if_pos hl]
      simp [handleTcpRead, Routine.run, hread, hl, hrecibir, Hpc.handleTcpRead, hclose]
    · obtain ⟨c, hc⟩ : ∃ c, c = (a.entradas conn).store l h := ⟨_, rfl⟩
      have hrecibir : a.recibir conn k = a.setEntrada conn c := by
        simp only [Agente.recibir, hread, if_neg hl, hc]
      have hentrada : (a.setEntrada conn c).entradas conn = c := by
        show Function.update a.entradas conn c conn = c
        rw [Function.update_self]
      obtain ⟨hstart, hmanager, hbuf, hpos⟩ :=
        run_lineLoop (a.setEntrada conn c) conn BUFF_SIZE 0 k.redes
      rw [hentrada, hc] at hstart hmanager hbuf hpos
      rw [hc] at hrecibir
      simp only [handleTcpRead, Hpc.handleTcpRead, Routine.run_bind, run_lock, Routine.run, hread,
        if_neg hl, hrecibir]
      refine ⟨hmanager, rfl, ?_⟩
      intro c' hsome
      rw [← Option.some.inj hsome]
      refine (Function.update_self conn _ _).trans ?_
      exact Connection.compact_congr hpos hbuf hstart _ _

theorem salidas_transmitir {c : Salida} {enviado : List Char}
    (h : Hpc.handleTcpWrite (a.salidas conn) (k.escritura (a.salidas conn)) = (some c, enviado)) :
    (a.transmitir conn k).salidas conn = c := by
  unfold Agente.transmitir
  rw [h]
  exact Function.update_self conn _ a.salidas

/-- **`handle_tcp_write` with its lock is the one without.** -/
theorem run_handleTcpWrite :
    let r := Hpc.handleTcpWrite (a.salidas conn) (k.escritura (a.salidas conn))
    let q := (handleTcpWrite conn k).run a
    q.1 = r.1.isNone ∧ ∀ c, r.1 = some c → q.2.salidas conn = c := by
  by_cases hnone : (a.salidas conn).pendingBytes = 0
  · have hr : Hpc.handleTcpWrite (a.salidas conn) (k.escritura (a.salidas conn))
        = (some (a.salidas conn), []) := if_pos hnone
    simp [handleTcpWrite, Routine.run, hnone, hr, salidas_transmitir a conn k hr]
  · cases hwrite : k.escritura (a.salidas conn) with
    | again =>
      have hr : Hpc.handleTcpWrite (a.salidas conn) (k.escritura (a.salidas conn))
          = (some (a.salidas conn), []) := by simp only [Hpc.handleTcpWrite, if_neg hnone, hwrite]
      have hsalida := salidas_transmitir a conn k hr
      rw [hwrite] at hr
      simp [handleTcpWrite, Routine.run, hnone, hwrite, hr, hsalida]
    | error => simp [handleTcpWrite, Hpc.handleTcpWrite, Routine.run, hnone, hwrite]
    | bytes written h =>
      have hr : Hpc.handleTcpWrite (a.salidas conn) (k.escritura (a.salidas conn))
          = (some ((a.salidas conn).advance written h),
            ((a.salidas conn).writeBuf.drop (a.salidas conn).writePos).take written) := by
        simp only [Hpc.handleTcpWrite, if_neg hnone, hwrite]
      have hsalida := salidas_transmitir a conn k hr
      rw [hwrite] at hr
      simp [handleTcpWrite, Routine.run, hnone, hwrite, hr, hsalida]

end Compute

end Rutina

/-- The handlers, and what the threads of `main.c` run. -/
inductive Manejador
  | processMessage (conn : Conn) (msg : CString) (red : Network)
  | processDisconnect (conn : Conn)
  | processConnectionReady (conn : Conn)
  | processConnectionFailed (conn : Conn)
  | processAnnounce (now : ℤ) (ipSender message : CString)
  | handleTcpRead (conn : Conn) (k : Kernel)
  | handleTcpWrite (conn : Conn) (k : Kernel)
  | handleOutgoingConnectionEvent (conn : Conn) (k : Kernel)
  | handleUdpRead (k : Kernel)
  | handleAccept (listenConn : Conn) (k : Kernel)
  | rearmConn (conn : Conn) (k : Kernel)
  | enqueueWrite (conn : Conn) (msg : CString)
  | workerThreadLoop (events : List (Conn × Eventos × Kernel))
  | tablaNodosPurge (now timeout : ℤ)

/-- What a handler does. -/
def Manejador.rutina : Manejador → Rutina Unit
  | processMessage conn msg red => Rutina.processMessage conn msg red
  | processDisconnect conn => Rutina.processDisconnect conn
  | processConnectionReady conn => Rutina.processConnectionReady conn
  | processConnectionFailed conn => Rutina.processConnectionFailed conn
  | processAnnounce now ipSender message => Rutina.processAnnounce now ipSender message
  | handleTcpRead conn k => do
    let _ ← Rutina.handleTcpRead conn k
  | handleTcpWrite conn k => do
    let _ ← Rutina.handleTcpWrite conn k
  | handleOutgoingConnectionEvent conn k => do
    let _ ← Rutina.handleOutgoingConnectionEvent conn k
  | handleUdpRead k => Rutina.handleUdpRead k
  | handleAccept listenConn k => Rutina.handleAccept listenConn k
  | rearmConn conn k => do
    let _ ← Rutina.rearmConn conn k
  | enqueueWrite conn msg => Rutina.enqueueWrite conn msg
  | workerThreadLoop events => Rutina.workerThreadLoop events
  | tablaNodosPurge now timeout => Rutina.tablaNodosPurge now timeout

/-- **Every handler obeys the order.** -/
theorem Manejador.enOrden (h : Manejador) : Rutina.EnOrden h.rutina := by
  cases h with
  | processMessage conn msg red => exact Rutina.enOrden_processMessage conn msg red
  | processDisconnect conn => exact Rutina.enOrden_processDisconnect conn
  | processConnectionReady conn => exact Rutina.enOrden_processConnectionReady conn
  | processConnectionFailed conn => exact Rutina.enOrden_processConnectionFailed conn
  | processAnnounce now ipSender message =>
    exact Rutina.enOrden_processAnnounce now ipSender message
  | handleTcpRead conn k =>
    exact (Rutina.enOrden_handleTcpRead conn k).bind (fun _ => Rutina.ordenada_pure ())
  | handleTcpWrite conn k =>
    exact (Rutina.enOrden_handleTcpWrite conn k).bind (fun _ => Rutina.ordenada_pure ())
  | handleOutgoingConnectionEvent conn k =>
    exact (Rutina.enOrden_handleOutgoingConnectionEvent conn k).bind
      (fun _ => Rutina.ordenada_pure ())
  | handleUdpRead k => exact Rutina.enOrden_handleUdpRead k
  | handleAccept listenConn k => exact Rutina.enOrden_handleAccept k listenConn
  | rearmConn conn k =>
    exact (Rutina.enOrden_rearmConn conn k).bind (fun _ => Rutina.ordenada_pure ())
  | enqueueWrite conn msg =>
    exact Rutina.ordenada_enqueueWrite Rutina.conservada_true (libre_nil 2) conn msg
  | workerThreadLoop events => exact Rutina.enOrden_workerThreadLoop events
  | tablaNodosPurge now timeout =>
    exact Rutina.ordenada_tablaNodosPurge Rutina.conservada_true (libre_nil 2) now timeout

/-- Threads that run handlers are orderly, whatever the interleaving. -/
theorem Manejador.orderly {ι : Type} [DecidableEq ι] {a : Agente} {x : Threads ι Agente Mutex ℕ}
    (hrun : Relation.ReflTransGen (Threads.Step (Set.range Manejador.rutina)) (.idle a) x) :
    x.Orderly (fun _ => True) (fun _ => True) Mutex.rank := by
  refine Threads.Orderly.of_steps (fun p hp => ?_) trivial hrun
  obtain ⟨h, rfl⟩ := hp
  exact h.enOrden

/-- The agent never stands still: while a thread has not returned, one can go on. -/
theorem Manejador.exists_step {ι : Type} [DecidableEq ι] {a : Agente}
    {x : Threads ι Agente Mutex ℕ}
    (hrun : Relation.ReflTransGen (Threads.Step (Set.range Manejador.rutina)) (.idle a) x) {i : ι}
    (hi : ∀ u, x.next i ≠ .ret u) : ∃ y, Threads.Step (Set.range Manejador.rutina) x y := by
  obtain ⟨j, -, hready⟩ := (Manejador.orderly hrun).exists_ready Mutex.rank_le_two hi
  exact hready.step (Set.range Manejador.rutina)

/-- **The discipline of the locks.** Called in any state, a handler takes a mutex only
if all it holds come before it in the order (so none it holds already, and no second
resource), releases only what it holds, and holds nothing when it returns. The same is
true at every point of threads that run handlers in any interleaving; there no threads
wait for each other in a cycle, and of those that wait one ahead can go on. -/
theorem Manejador.lock_discipline {ι : Type} [DecidableEq ι] (a : Agente) :
    (∀ h : Manejador, LockOp.Obeys Mutex.rank (h.rutina.ops a) []
        ∧ LockOp.heldAfter (h.rutina.ops a) [] = [])
      ∧ ∀ x : Threads ι Agente Mutex ℕ,
        Relation.ReflTransGen (Threads.Step (Set.range Manejador.rutina)) (.idle a) x →
        (∀ i, (∀ m k, x.next i = .lock m k → ∀ m' ∈ x.held i, m'.rank < m.rank)
            ∧ (∀ m k, x.next i = .unlock m k → m ∈ x.held i)
            ∧ ∀ u, x.next i = .ret u → x.held i = [])
          ∧ (∀ i, ¬ Relation.TransGen x.Waits i i)
          ∧ ∀ i, (∀ u, x.next i ≠ .ret u) →
            ∃ j, Relation.ReflTransGen x.Waits i j ∧ x.Ready j := by
  refine ⟨fun h => ?_, fun x hrun => ?_⟩
  · obtain ⟨hobeys, hheld, -⟩ := h.enOrden.run (s := a) trivial
    exact ⟨hobeys, hheld⟩
  · have horder := Manejador.orderly hrun
    refine ⟨fun i => ⟨fun m k hi => ?_, fun m k hi => ?_, fun u hi => ?_⟩,
      horder.not_waits_cycle, fun i hi => horder.exists_ready Mutex.rank_le_two hi⟩
    all_goals
      have hsafe := horder.safe i
      rw [hi] at hsafe
      exact hsafe.1

/-- Two threads at `process_connection_ready`: the second waits for the first, which is
ready. -/
theorem Manejador.lock_discipline_two :
    ∃ x : Threads Bool Agente Mutex ℕ,
      Relation.ReflTransGen (Threads.Step (Set.range Manejador.rutina))
          (.idle (.inicial 4 8 1 "10.0.0.1".toList)) x
        ∧ x.Waits true false ∧ ¬ Relation.TransGen x.Waits true true
        ∧ ∃ j, Relation.ReflTransGen x.Waits true j ∧ x.Ready j := by
  obtain ⟨k, hk⟩ : ∃ k, (Manejador.processConnectionReady 3).rutina = Routine.lock .tabla k :=
    ⟨_, rfl⟩
  have hmem : Routine.lock .tabla k ∈ Set.range Manejador.rutina := ⟨_, hk⟩
  let a := Agente.inicial 4 8 1 "10.0.0.1".toList
  let x : Threads Bool Agente Mutex ℕ :=
    ((((Threads.idle a).go false a [] (Routine.lock .tabla k)).go false a [.tabla] k).go true a []
      (Routine.lock .tabla k))
  have hrun : Relation.ReflTransGen (Threads.Step (Set.range Manejador.rutina)) (.idle a) x :=
    ((Relation.ReflTransGen.single (.start false rfl hmem)).tail
      (.lock false rfl (fun j hj => by cases j <;> cases hj))).tail (.start true rfl hmem)
  have hwaits : x.Waits true false := ⟨.tabla, k, rfl, List.mem_cons_self⟩
  obtain ⟨-, hcycle, hready⟩ := (@lock_discipline Bool _ a).2 x hrun
  exact ⟨x, hrun, hwaits, hcycle true, hready true (fun u hu => by cases hu)⟩

end Hpc
