import HpcAgent.Server
import HpcAgent.WireFormat
import HpcAgent.Workers

/-!
# From one agent to another

One direction of a TCP connection between two agents: the buffer `enqueue_write`
fills and `handle_tcp_write` empties, the bytes on their way, and the buffer
`handle_tcp_read` cuts into lines. TCP is taken for what it promises, that `read`
returns the bytes in the order `write` took them; how many each call moves is left
open on both sides.

What the buffer of the sender did not reject arrives (`Canal.entrega`): the receiver's
`process_message` gets a prefix of the accepted messages, whole and in order, and all
of them when nothing is left on the way.
-/

namespace Hpc

open CharBuffer Scan Erl

/-- **What a call on the writing side does** to what was sent and what was accepted. -/
theorem Flujo.step_cases {x y : Flujo} {a : Llamada} (h : x.step a = some y) :
    (∃ msg, a = .enqueueWrite msg ∧ y.enviado = x.enviado
        ∧ y.aceptados = if x.conn.Cabe msg then x.aceptados ++ [msg] else x.aceptados)
      ∨ ∃ written sent, a = .handleTcpWrite written ∧ y.enviado = x.enviado ++ sent
        ∧ y.aceptados = x.aceptados := by
  cases a with
  | enqueueWrite msg =>
    obtain rfl := Option.some.inj h
    exact Or.inl ⟨msg, rfl, rfl, rfl⟩
  | handleTcpWrite written =>
    obtain ⟨escritura, -, h⟩ := Option.bind_eq_some_iff.mp h
    split at h
    · next conn sent hwrite =>
      obtain rfl := Option.some.inj h
      exact Or.inr ⟨written, sent, rfl, rfl, rfl⟩
    · exact absurd h (by simp)

/-- A `read` is added to what arrived. -/
theorem Sesion.recibido_leer {σ : Type} {processMessage : CString → σ → σ}
    {processDisconnect : σ → σ} {x y : Sesion σ} {l : List Char}
    (h : x.leer processMessage processDisconnect l = some y) :
    y.recibido = x.recibido ++ l := by
  unfold Sesion.leer at h
  split at h
  · split at h
    · obtain rfl := Option.some.inj h
      rfl
    · exact absurd h (by simp)
  · exact absurd h (by simp)

/-- A message as `send_message` prints it: one line. -/
def EsLinea (msg : CString) : Prop :=
  msg = msg.dropLast ++ ['\n'] ∧ '\n' ∉ msg.dropLast ∧ nul ∉ msg

instance (msg : CString) : Decidable (EsLinea msg) := inferInstanceAs (Decidable (_ ∧ _ ∧ _))

/-- A direction of a connection: the side that writes, and the side that reads with the
state of its resource manager. -/
structure Canal (σ : Type) where
  flujo : Flujo
  sesion : Sesion σ

/-- What happens on it: a call on the side that writes, or a `read` that returns that
many bytes. -/
inductive Evento
  | escribe (a : Llamada)
  | lee (n : ℕ)

namespace Canal

variable {σ α : Type}

/-- The bytes `write` took and no `read` returned. -/
def camino (x : Canal σ) : List Char := x.flujo.enviado.drop x.sesion.recibido.length

/-- The accepted messages, without their newlines. -/
def lineas (x : Canal σ) : List CString := x.flujo.aceptados.map List.dropLast

/-- One event. -/
def step (processMessage : CString → σ → σ) (processDisconnect : σ → σ) (x : Canal σ) :
    Evento → Option (Canal σ)
  | .escribe a => (x.flujo.step a).map (fun flujo => { x with flujo := flujo })
  | .lee n => (x.sesion.leer processMessage processDisconnect (x.camino.take n)).map
      (fun sesion => { x with sesion := sesion })

/-- The two ends of a new connection. -/
def inicial : Canal (List α) :=
  ⟨⟨.vacia, [], []⟩, ⟨⟨Salida.vacia.writeBuf, 0, Salida.vacia.size_eq, BUFF_SIZE_pos⟩, [], []⟩⟩

/-- The messages are lines, and `read` returns at least one byte, no more than are on
the way and no more than it is asked for. -/
def Admite (x : Canal σ) : Evento → Prop
  | .escribe (.enqueueWrite msg) => EsLinea msg
  | .escribe (.handleTcpWrite _) => True
  | .lee n => 0 < n ∧ n ≤ x.camino.length ∧ n ≤ x.sesion.conn.readLen

instance (x : Canal σ) : (e : Evento) → Decidable (x.Admite e)
  | .escribe (.enqueueWrite msg) => inferInstanceAs (Decidable (EsLinea msg))
  | .escribe (.handleTcpWrite _) => .isTrue trivial
  | .lee _ => inferInstanceAs (Decidable (_ ∧ _ ∧ _))

/-- **Between two events** both buffers are in step with the stream. -/
structure Fluye (processMessage : CString → σ → σ) (s : σ) (x : Canal σ) : Prop where
  entero : x.flujo.Entero
  lineas : ∀ msg ∈ x.flujo.aceptados, EsLinea msg ∧ msg.length < BUFF_SIZE
  recibido : x.sesion.recibido <+: x.flujo.enviado
  alDia : x.sesion.AlDia processMessage s

namespace Fluye

variable {processMessage : CString → σ → σ} {processDisconnect : σ → σ} {s : σ} {x y : Canal σ}

/-- The stream is made of the lines. -/
theorem stream (h : Fluye processMessage s x) :
    x.flujo.enviado ++ x.flujo.conn.pendiente = Lines.join '\n' x.lineas := by
  have hwhole : x.lineas.map (· ++ ['\n']) = x.flujo.aceptados := by
    unfold Canal.lineas
    rw [List.map_map]
    exact (List.map_congr_left (fun msg hmsg => (h.lineas msg hmsg).1.1.symm)).trans
      (List.map_id' _)
  unfold Lines.join
  rw [hwhole]
  exact h.entero

/-- What was read is the beginning of it. -/
theorem recibido_prefix (h : Fluye processMessage s x) :
    x.sesion.recibido <+: Lines.join '\n' x.lineas :=
  h.stream ▸ h.recibido.trans (List.prefix_append _ _)

/-- The lines have no newline, and fit the buffer of the reader. -/
theorem lineas_fit (h : Fluye processMessage s x) :
    ∀ w ∈ x.lineas, '\n' ∉ w ∧ w.length ≤ BUFF_SIZE - 2 := by
  intro w hw
  obtain ⟨msg, hmsg, rfl⟩ := List.mem_map.mp hw
  obtain ⟨⟨-, hnewline, -⟩, hlen⟩ := h.lineas msg hmsg
  refine ⟨hnewline, ?_⟩
  rw [List.length_dropLast]
  omega

/-- The bytes on the way are the next of the stream. -/
theorem recibido_camino (h : Fluye processMessage s x) :
    x.sesion.recibido ++ x.camino = x.flujo.enviado :=
  List.prefix_iff_eq_append.mp h.recibido

/-- **A `read` of the next bytes** is one the reader can take. -/
theorem llega (h : Fluye processMessage s x) {n : ℕ} (hn : x.Admite (.lee n)) :
    x.sesion.Llega (x.camino.take n) := by
  obtain ⟨hpos, hcamino, hroom⟩ := hn
  have hlen : (x.camino.take n).length = n := List.length_take_of_le hcamino
  have hmore : x.sesion.recibido ++ x.camino.take n <+: Lines.join '\n' x.lineas := by
    rw [← h.stream, ← h.recibido_camino, List.append_assoc, List.prefix_append_right_inj]
    exact (List.take_prefix n x.camino).trans (List.prefix_append _ _)
  refine ⟨by rw [hlen]; exact ⟨hpos, hroom⟩, fun hnul => ?_, ?_⟩
  · -- a byte on the way is one of an accepted message
    have hmem : nul ∈ x.flujo.aceptados.flatten := by
      have hentero : x.flujo.enviado ++ x.flujo.conn.pendiente = x.flujo.aceptados.flatten :=
        h.entero
      rw [← hentero, ← h.recibido_camino]
      exact List.mem_append_left _ (List.mem_append_right _ (List.mem_of_mem_take hnul))
    obtain ⟨msg, hmsg, hnul⟩ := List.mem_flatten.mp hmem
    exact (h.lineas msg hmsg).1.2.2 hnul
  · exact Lines.length_le_of_prefix (fun w hw => (h.lineas_fit w hw).1)
      (fun w hw => (h.lineas_fit w hw).2) hmore

/-- **Every event keeps the buffers in step.** -/
theorem step (h : Fluye processMessage s x) {e : Evento} (he : x.Admite e)
    (hstep : x.step processMessage processDisconnect e = some y) : Fluye processMessage s y := by
  cases e with
  | escribe a =>
    obtain ⟨flujo, hflujo, rfl⟩ := Option.map_eq_some_iff.mp hstep
    refine ⟨h.entero.step hflujo, ?_, ?_, h.alDia⟩
    · rcases Flujo.step_cases hflujo with ⟨msg, rfl, -, haceptados⟩ | ⟨_, _, -, -, haceptados⟩
      · rw [haceptados]
        split
        · next hcabe =>
          unfold Salida.Cabe at hcabe
          refine List.forall_mem_append.mpr ⟨h.lineas, List.forall_mem_singleton.mpr ⟨he, ?_⟩⟩
          omega
        · exact h.lineas
      · rw [haceptados]
        exact h.lineas
    · rcases Flujo.step_cases hflujo with ⟨_, -, henviado, -⟩ | ⟨_, sent, -, henviado, -⟩
      · rw [henviado]
        exact h.recibido
      · rw [henviado]
        exact h.recibido.trans (List.prefix_append _ _)
  | lee n =>
    obtain ⟨sesion, hsesion, rfl⟩ := Option.map_eq_some_iff.mp hstep
    obtain ⟨z, hz, hdia⟩ := h.alDia.leer processDisconnect (h.llega he)
    obtain rfl := Option.some.inj (hz.symm.trans hsesion)
    refine ⟨h.entero, h.lineas, ?_, hdia⟩
    show z.recibido <+: x.flujo.enviado
    rw [Sesion.recibido_leer hsesion, ← h.recibido_camino, List.prefix_append_right_inj]
    exact List.take_prefix n x.camino

/-- What was handed over is a prefix of the lines. -/
theorem complete_prefix (h : Fluye processMessage s x) :
    Lines.complete '\n' x.sesion.recibido <+: x.lineas :=
  (Lines.complete_of_prefix (fun w hw => (h.lineas_fit w hw).1) h.recibido_prefix).1

/-- The receiver has handled as many lines as it completed. -/
theorem estado_eq (h : Fluye processMessage s x) :
    x.sesion.estado = (x.lineas.take (Lines.complete '\n' x.sesion.recibido).length).foldl
      (fun s line => processMessage line s) s := by
  rw [← List.prefix_iff_eq_take.mp h.complete_prefix]
  exact h.alDia.estado

/-- Nothing waits and nothing is on the way: every line was handed over. -/
theorem complete_eq (h : Fluye processMessage s x)
    (hwait : x.flujo.conn.writePos = x.flujo.conn.writeLen) (hcamino : x.camino = []) :
    Lines.complete '\n' x.sesion.recibido = x.lineas := by
  have hwaits : x.flujo.conn.pendiente = [] := by
    unfold Salida.pendiente Salida.pendingBytes
    rw [hwait, Nat.sub_self, List.take_zero]
  have hall : x.sesion.recibido = Lines.join '\n' x.lineas := by
    rw [← h.stream, hwaits, List.append_nil, ← h.recibido_camino, hcamino, List.append_nil]
  rw [hall, Lines.complete_join (fun w hw => (h.lineas_fit w hw).1)]

/-- The reader has room for a byte. -/
theorem readLen_pos (h : Fluye processMessage s x) : 0 < x.sesion.conn.readLen := by
  have hlen := x.sesion.conn.length_pendiente
  rw [h.alDia.pendiente] at hlen
  have hshort := h.alDia.short
  have hsize : BUFF_SIZE = 1024 := rfl
  unfold Connection.readLen
  omega

end Fluye

section Entrega

variable {processMessage : CString → σ → σ} {processDisconnect : σ → σ} {salida : Salida}
  {conn : Connection} {s : σ} {x : Canal σ}

theorem fluye_of_reaches (hwrite : salida.writeLen = 0) (hread : conn.readPos = 0)
    (hrun : Reaches (step processMessage processDisconnect) Admite
      ⟨⟨salida, [], []⟩, ⟨conn, s, []⟩⟩ x) : Fluye processMessage s x := by
  refine hrun.invariant ⟨?_, fun _ h => absurd h List.not_mem_nil, List.prefix_refl [],
    ⟨List.not_mem_nil, rfl, ?_, Nat.zero_le _⟩⟩ (fun u e v hu he hv => hu.step he hv)
  · show [] ++ (salida.writeBuf.drop salida.writePos).take (salida.writeLen - salida.writePos) = []
    rw [hwrite, Nat.zero_sub, List.take_zero, List.nil_append]
  · show conn.readBuf.take conn.readPos = []
    rw [hread, List.take_zero]

/-- **What is accepted arrives.** However many bytes the calls of `write` and `read` move,
the receiver has been handed a prefix of the accepted messages, in order, each once and
whole. It is all of them when none wait and none are on the way, and as long as some are
on the way a `read` can take them, which leaves the connection open. -/
theorem entrega (hwrite : salida.writeLen = 0) (hread : conn.readPos = 0)
    (hrun : Reaches (step processMessage processDisconnect) Admite
      ⟨⟨salida, [], []⟩, ⟨conn, s, []⟩⟩ x) :
    (∃ k ≤ x.flujo.aceptados.length,
        x.sesion.estado = (((x.flujo.aceptados.take k).map List.dropLast).foldl
          (fun s line => processMessage line s) s)
        ∧ (x.flujo.conn.writePos = x.flujo.conn.writeLen → x.camino = [] →
          k = x.flujo.aceptados.length))
      ∧ (x.camino ≠ [] → ∃ n, x.Admite (.lee n))
      ∧ ∀ n, x.Admite (.lee n) →
        (x.step processMessage processDisconnect (.lee n)).isSome = true := by
  have h := fluye_of_reaches hwrite hread hrun
  have hcount : x.lineas.length = x.flujo.aceptados.length := List.length_map _
  refine ⟨⟨(Lines.complete '\n' x.sesion.recibido).length, ?_, ?_, fun hwait hcamino => ?_⟩,
    fun hcamino => ⟨1, Nat.one_pos, List.length_pos_iff.mpr hcamino, h.readLen_pos⟩,
    fun n hn => ?_⟩
  · exact hcount ▸ h.complete_prefix.length_le
  · rw [List.map_take]
    exact h.estado_eq
  · rw [h.complete_eq hwait hcamino, hcount]
  · obtain ⟨y, hy, -⟩ := h.alDia.leer processDisconnect (h.llega hn)
    show (Option.map _ _).isSome = true
    rw [hy]
    rfl

end Entrega

/-- Two lines in three calls of `write` and two of `read`. -/
theorem entrega_dosLineas :
    ∃ x, Reaches.trace (step (fun line lines => lines ++ [line]) id) inicial
        [.escribe (.enqueueWrite "RESERVE 7 cpu 3\n".toList),
          .escribe (.handleTcpWrite (some 10)), .lee 4,
          .escribe (.enqueueWrite "GRANTED 8\n".toList), .escribe (.handleTcpWrite (some 9)),
          .lee 15, .escribe (.handleTcpWrite (some 7))] = some x
      ∧ ∃ k ≤ x.flujo.aceptados.length,
        x.sesion.estado = ((x.flujo.aceptados.take k).map List.dropLast).foldl
          (fun s line => s ++ [line]) [] := by
  have hcheck : (Reaches.checked (step (fun line lines => lines ++ [line]) id)
      (fun x e => decide (x.Admite e)) inicial
      [.escribe (.enqueueWrite "RESERVE 7 cpu 3\n".toList),
        .escribe (.handleTcpWrite (some 10)), .lee 4,
        .escribe (.enqueueWrite "GRANTED 8\n".toList), .escribe (.handleTcpWrite (some 9)),
        .lee 15, .escribe (.handleTcpWrite (some 7))]).any (fun _ => true) = true := by
    decide +kernel
  obtain ⟨x, htrace, hrun, -⟩ := Reaches.of_checked (fun _ _ => of_decide_eq_true) hcheck
  obtain ⟨⟨k, hk, hestado, -⟩, -⟩ := entrega rfl rfl hrun
  exact ⟨x, htrace, k, hk, hestado⟩

/-! ## Messages -/

/-- A manager that collects what it reads. -/
def anota (line : CString) (ms : List Message) : List Message := ms ++ (parseMessage line).toList

/-- The messages are those of an agent. -/
def AdmiteMensaje (x : Canal (List Message)) : Evento → Prop
  | .escribe (.enqueueWrite msg) => ∃ m : Message, m.isAgent = true ∧ msg = m.wire
  | e => x.Admite e

theorem nul_not_mem_showInt (v : ℤ) : nul ∉ showInt v := by
  intro h
  rcases mem_showInt h with h | h
  · exact absurd h (by decide)
  · exact absurd h (by decide)

theorem nul_not_mem_line {m : Message} (h : m.isAgent = true) : nul ∉ m.line := by
  cases m with
  | reserve jobId type amount | release jobId type amount =>
    have htype : nul ∉ type.toStr := by cases type <;> decide
    simp only [Message.line, resourceLine, List.mem_append, List.mem_cons, not_or]
    exact ⟨by decide, by decide, nul_not_mem_showInt _, by decide, htype, by decide,
      nul_not_mem_showInt _⟩
  | granted jobId | denied jobId =>
    simp only [Message.line, idLine, List.mem_append, List.mem_cons, not_or]
    exact ⟨by decide, by decide, nul_not_mem_showInt _⟩
  | _ => exact absurd h Bool.false_ne_true

theorem isAnswer_of_isAgent {m : Message} (h : m.isAgent = true) : m.isAnswer = true := by
  cases m <;> first | rfl | exact absurd h Bool.false_ne_true

/-- The receiver of a message can tell. -/
theorem exists_wire_iff (msg : CString) :
    (parseMessage msg.dropLast).any (fun m => m.isAgent && decide (msg = m.wire)) = true
      ↔ ∃ m : Message, m.isAgent = true ∧ msg = m.wire := by
  constructor
  · intro h
    obtain ⟨m, -, hm⟩ := (Option.any_eq_true _ _).mp h
    rw [Bool.and_eq_true, decide_eq_true_eq] at hm
    exact ⟨m, hm⟩
  · rintro ⟨m, hm, rfl⟩
    rw [m.wire_eq (isAnswer_of_isAgent hm), List.dropLast_concat, parseMessage_line hm]
    simp [hm, m.wire_eq (isAnswer_of_isAgent hm)]

instance (x : Canal (List Message)) : (e : Evento) → Decidable (x.AdmiteMensaje e)
  | .escribe (.enqueueWrite msg) => decidable_of_iff _ (exists_wire_iff msg)
  | .escribe (.handleTcpWrite _) => .isTrue trivial
  | .lee n => inferInstanceAs (Decidable (x.Admite (.lee n)))

/-- What an agent sends another is a line. -/
theorem esLinea_wire {m : Message} (h : m.isAgent = true) : EsLinea m.wire := by
  have hanswer := isAnswer_of_isAgent h
  unfold EsLinea
  rw [m.wire_eq hanswer, List.dropLast_concat]
  refine ⟨rfl, (m.line_fits hanswer).2, ?_⟩
  rw [List.mem_append, List.mem_singleton, not_or]
  exact ⟨nul_not_mem_line h, by decide⟩

/-- The receiver reads the messages back. -/
theorem foldl_anota {ms : List Message} (h : ∀ m ∈ ms, m.isAgent = true) (read : List Message) :
    ((ms.map Message.wire).map List.dropLast).foldl (fun ms line => anota line ms) read
      = read ++ ms := by
  induction ms generalizing read with
  | nil => exact (List.append_nil read).symm
  | cons m ms ih =>
    have hm := h m List.mem_cons_self
    have hread : anota m.wire.dropLast read = read ++ [m] := by
      unfold anota
      rw [m.wire_eq (isAnswer_of_isAgent hm), List.dropLast_concat, parseMessage_line hm]
      rfl
    rw [List.map_cons, List.map_cons, List.foldl_cons, hread,
      ih (fun k hk => h k (List.mem_cons_of_mem m hk)), List.append_assoc, List.singleton_append]

section Mensajes

variable {processDisconnect : List Message → List Message} {salida : Salida} {conn : Connection}
  {x : Canal (List Message)}

/-- What was accepted is what `send_message` printed of some messages. -/
theorem aceptados_of_reaches
    (hrun : Reaches (step anota processDisconnect) AdmiteMensaje
      ⟨⟨salida, [], []⟩, ⟨conn, [], []⟩⟩ x) :
    ∃ ms : List Message, (∀ m ∈ ms, m.isAgent = true)
      ∧ x.flujo.aceptados = ms.map Message.wire := by
  refine hrun.invariant (I := fun x => ∃ ms : List Message, (∀ m ∈ ms, m.isAgent = true)
    ∧ x.flujo.aceptados = ms.map Message.wire)
    ⟨[], fun _ h => absurd h List.not_mem_nil, rfl⟩ (fun u e v hu he hv => ?_)
  obtain ⟨ms, hms, haceptados⟩ := hu
  cases e with
  | escribe a =>
    obtain ⟨flujo, hflujo, rfl⟩ := Option.map_eq_some_iff.mp hv
    rcases Flujo.step_cases hflujo with ⟨msg, rfl, -, hnew⟩ | ⟨_, _, -, -, hnew⟩
    · obtain ⟨m, hm, rfl⟩ := he
      split at hnew
      · refine ⟨ms ++ [m], ?_, ?_⟩
        · exact List.forall_mem_append.mpr ⟨hms, List.forall_mem_singleton.mpr hm⟩
        · rw [List.map_append, ← haceptados]
          exact hnew
      · exact ⟨ms, hms, hnew.trans haceptados⟩
    · exact ⟨ms, hms, hnew.trans haceptados⟩
  | lee n =>
    obtain ⟨sesion, -, rfl⟩ := Option.map_eq_some_iff.mp hv
    exact ⟨ms, hms, haceptados⟩

/-- Messages are lines. -/
theorem admite_of_admiteMensaje {u : Canal (List Message)} {e : Evento} (he : u.AdmiteMensaje e) :
    u.Admite e := by
  cases e with
  | escribe a =>
    cases a with
    | enqueueWrite msg =>
      obtain ⟨m, hm, rfl⟩ := he
      exact esLinea_wire hm
    | handleTcpWrite written => exact he
  | lee n => exact he

/-- **The messages of an agent arrive as they were sent**: `process_message` reads from
the stream a prefix of the messages that were accepted, with all their fields, and all of
them once nothing waits and nothing is on the way. -/
theorem entrega_mensajes (hwrite : salida.writeLen = 0) (hread : conn.readPos = 0)
    (hrun : Reaches (step anota processDisconnect) AdmiteMensaje
      ⟨⟨salida, [], []⟩, ⟨conn, [], []⟩⟩ x) :
    ∃ ms : List Message, x.flujo.aceptados = ms.map Message.wire
      ∧ x.sesion.estado <+: ms
      ∧ (x.flujo.conn.writePos = x.flujo.conn.writeLen → x.camino = [] →
        x.sesion.estado = ms) := by
  have h := fluye_of_reaches hwrite hread (hrun.mono (fun _ _ => admite_of_admiteMensaje))
  obtain ⟨ms, hms, haceptados⟩ := aceptados_of_reaches hrun
  have hestado : x.sesion.estado = ms.take (Lines.complete '\n' x.sesion.recibido).length := by
    rw [h.estado_eq, Canal.lineas, haceptados, ← List.map_take, ← List.map_take,
      foldl_anota (fun m hm => hms m (List.mem_of_mem_take hm)), List.nil_append]
  refine ⟨ms, haceptados, hestado ▸ List.take_prefix _ _, fun hwait hcamino => ?_⟩
  rw [hestado, h.complete_eq hwait hcamino, Canal.lineas, haceptados, List.length_map,
    List.length_map, List.take_length]

end Mensajes

/-- Two messages in two calls of `write` and two of `read`. -/
theorem entrega_mensajes_dos :
    ∃ x, Reaches.trace (step anota id) inicial
        [.escribe (.enqueueWrite (Message.reserve 7 .cpu 3).wire),
          .escribe (.handleTcpWrite (some 10)), .lee 4,
          .escribe (.enqueueWrite (Message.granted (-8)).wire),
          .escribe (.handleTcpWrite (some 16)), .lee 22] = some x
      ∧ ∃ ms : List Message, x.flujo.aceptados = ms.map Message.wire
        ∧ x.sesion.estado <+: ms := by
  have hcheck : (Reaches.checked (step anota id) (fun x e => decide (x.AdmiteMensaje e)) inicial
      [.escribe (.enqueueWrite (Message.reserve 7 .cpu 3).wire),
        .escribe (.handleTcpWrite (some 10)), .lee 4,
        .escribe (.enqueueWrite (Message.granted (-8)).wire),
        .escribe (.handleTcpWrite (some 16)), .lee 22]).any (fun _ => true) = true := by
    decide +kernel
  obtain ⟨x, htrace, hrun, -⟩ := Reaches.of_checked (fun _ _ => of_decide_eq_true) hcheck
  obtain ⟨ms, haceptados, hestado, -⟩ := entrega_mensajes rfl rfl hrun
  exact ⟨x, htrace, ms, haceptados, hestado⟩

end Canal

end Hpc
