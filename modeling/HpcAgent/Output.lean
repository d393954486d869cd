import HpcAgent.Lib.CharBuffer
import HpcAgent.Lib.Reaches
import HpcAgent.Types

/-!
# Writing to a connection

`enqueue_write` and `handle_tcp_write` of `server.c`, on the buffer they share.
A message is copied behind what is waiting, if it fits; the event loop offers
what is waiting to `write`, which takes what it wants of it, and the two
positions go back to zero when all of it was taken.

The buffer is flat: what was sent stays in front of what waits, and room is
made by the reset only. What holds over any sequence of calls is that the
stream is not disturbed (`enqueueWrite_stream`).
-/

namespace Hpc

open CharBuffer

/-- The writing side of `connection_t`. -/
structure Salida where
  writeBuf : List Char
  writePos : ℕ
  writeLen : ℕ
  size_eq : writeBuf.length = BUFF_SIZE
  pos_le : writePos ≤ writeLen
  len_lt : writeLen < BUFF_SIZE

namespace Salida

/-- `pending_bytes`. -/
def pendingBytes (conn : Salida) : ℕ := conn.writeLen - conn.writePos

/-- `write_buf[write_pos..write_len)`: what waits to be sent. -/
def pendiente (conn : Salida) : List Char :=
  (conn.writeBuf.drop conn.writePos).take conn.pendingBytes

/-- The capacity test of `enqueue_write`, passed. -/
def Cabe (conn : Salida) (msg : CString) : Prop :=
  ¬ BUFF_SIZE ≤ conn.writeLen + msg.length

instance (conn : Salida) (msg : CString) : Decidable (conn.Cabe msg) :=
  inferInstanceAs (Decidable (¬ _))

end Salida

/-- The part of **`enqueue_write`** that fills the buffer. -/
def enqueueWrite (conn : Salida) (msg : CString) : Salida :=
  if h : conn.Cabe msg then
    { writeBuf := write conn.writeLen msg conn.writeBuf
      writePos := conn.writePos
      writeLen := conn.writeLen + msg.length
      size_eq := (length_write ((not_le.mp h).le.trans conn.size_eq.ge)).trans conn.size_eq
      pos_le := conn.pos_le.trans (Nat.le_add_right _ _)
      len_lt := not_le.mp h }
  else conn

/-- An answer of `write`, offered `n` bytes. -/
inductive Escritura (n : ℕ)
  /-- That many bytes were taken. -/
  | bytes (written : ℕ) (h : written ≤ n)
  /-- `EAGAIN` or `EWOULDBLOCK`. -/
  | again
  /-- Any other error. -/
  | error

/-- The positions after `write` took some of what waits. -/
def Salida.advance (conn : Salida) (written : ℕ) (h : written ≤ conn.pendingBytes) : Salida :=
  if conn.writePos + written = conn.writeLen then
    { conn with
      writePos := 0
      writeLen := 0
      pos_le := le_rfl
      len_lt := BUFF_SIZE_pos }
  else
    { conn with
      writePos := conn.writePos + written
      pos_le := by
        have hle := conn.pos_le
        unfold Salida.pendingBytes at h
        omega }

/-- **`handle_tcp_write`**: the buffer, unless the connection was closed, and
what was handed to the socket. -/
def handleTcpWrite (conn : Salida) (escritura : Escritura conn.pendingBytes) :
    Option Salida × List Char :=
  if conn.pendingBytes = 0 then (some conn, [])
  else
    match escritura with
    | .again => (some conn, [])
    | .error => (none, [])
    | .bytes written h =>
      (some (conn.advance written h), (conn.writeBuf.drop conn.writePos).take written)

/-! ## One call -/

namespace Salida

/-- **What an accepted message does to what waits**: it stands behind it. -/
theorem pendiente_enqueueWrite (conn : Salida) {msg : CString} (h : conn.Cabe msg) :
    (enqueueWrite conn msg).pendiente = conn.pendiente ++ msg := by
  have hle := conn.pos_le
  have hpos : conn.writePos ≤ (conn.writeBuf.take conn.writeLen).length := by
    rw [List.length_take, conn.size_eq]
    exact le_min hle (hle.trans conn.len_lt.le)
  have hlen : conn.writeLen ≤ conn.writeBuf.length := conn.size_eq ▸ conn.len_lt.le
  have hsum : conn.writeLen + msg.length - conn.writePos
      = conn.pendingBytes + msg.length := by
    unfold pendingBytes
    omega
  unfold enqueueWrite
  rw [dif_pos h]
  show List.take (conn.writeLen + msg.length - conn.writePos)
    (List.drop conn.writePos (write conn.writeLen msg conn.writeBuf)) = _
  -- what is in front of the new end is the old part and the message
  rw [← List.drop_take, take_write msg hlen, List.drop_append_of_le_length hpos]
  unfold pendiente pendingBytes
  rw [List.drop_take]

/-- What was taken and what then waits is what waited. -/
theorem take_append_pendiente_advance (conn : Salida) {written : ℕ}
    (h : written ≤ conn.pendingBytes) :
    (conn.writeBuf.drop conn.writePos).take written ++ (conn.advance written h).pendiente
      = conn.pendiente := by
  have hle := conn.pos_le
  unfold advance
  split
  · next hall =>
    -- all of it was taken, and nothing waits
    have hwritten : written = conn.pendingBytes := by
      unfold pendingBytes
      omega
    show _ ++ (conn.writeBuf.drop 0).take (0 - 0) = conn.pendiente
    rw [Nat.sub_zero, List.take_zero, List.append_nil, hwritten]
    rfl
  · have hrest : conn.pendingBytes = written + (conn.writeLen - (conn.writePos + written)) := by
      unfold pendingBytes at h ⊢
      omega
    show _ ++ (conn.writeBuf.drop (conn.writePos + written)).take
      (conn.writeLen - (conn.writePos + written)) = conn.pendiente
    unfold pendiente
    rw [hrest, List.take_add, List.drop_drop]

end Salida

/-- **A call of `handle_tcp_write`** moves the front of what waits to the socket. -/
theorem handleTcpWrite_pendiente {conn conn' : Salida}
    {escritura : Escritura conn.pendingBytes} {sent : List Char}
    (h : handleTcpWrite conn escritura = (some conn', sent)) :
    sent ++ conn'.pendiente = conn.pendiente := by
  unfold handleTcpWrite at h
  split at h
  · obtain ⟨rfl, rfl⟩ : conn = conn' ∧ [] = sent := by simpa using h
    rfl
  · cases escritura with
    | again =>
      obtain ⟨rfl, rfl⟩ : conn = conn' ∧ [] = sent := by simpa using h
      rfl
    | error => simp at h
    | bytes written hle =>
      obtain ⟨rfl, rfl⟩ : conn.advance written hle = conn'
          ∧ (conn.writeBuf.drop conn.writePos).take written = sent := by simpa using h
      exact conn.take_append_pendiente_advance hle

/-- A call of `handle_tcp_write` leaves the end of what waits where it is, unless
it sends all of it. -/
theorem writeLen_handleTcpWrite {conn conn' : Salida}
    {escritura : Escritura conn.pendingBytes} {sent : List Char}
    (h : handleTcpWrite conn escritura = (some conn', sent)) :
    conn'.writeLen = 0 ∨ conn'.writeLen = conn.writeLen := by
  unfold handleTcpWrite at h
  split at h
  · obtain ⟨rfl, -⟩ : conn = conn' ∧ [] = sent := by simpa using h
    exact Or.inr rfl
  · cases escritura with
    | again =>
      obtain ⟨rfl, -⟩ : conn = conn' ∧ [] = sent := by simpa using h
      exact Or.inr rfl
    | error => simp at h
    | bytes written hle =>
      obtain ⟨rfl, -⟩ : conn.advance written hle = conn'
          ∧ (conn.writeBuf.drop conn.writePos).take written = sent := by simpa using h
      unfold Salida.advance
      split
      · exact Or.inl rfl
      · exact Or.inr rfl

/-! ## The calls of a connection's life -/

/-- A connection being written to, what its socket was handed so far, and the
messages that were not rejected, in the order of the calls. -/
structure Flujo where
  conn : Salida
  enviado : List Char
  aceptados : List CString

/-- A call on a connection: a message to send, or an event of the socket with
the number of bytes `write` takes, none of them for `EAGAIN`. -/
inductive Llamada
  | enqueueWrite (msg : CString)
  | handleTcpWrite (written : Option ℕ)

namespace Flujo

/-- The answer of `write` to a call, `none` where it took more than offered. -/
def respuesta (n : ℕ) : Option ℕ → Option (Escritura n)
  | none => some .again
  | some written => if h : written ≤ n then some (.bytes written h) else none

/-- One call. -/
def step (x : Flujo) : Llamada → Option Flujo
  | .enqueueWrite msg => some
      { x with
        conn := Hpc.enqueueWrite x.conn msg
        aceptados := if x.conn.Cabe msg then x.aceptados ++ [msg] else x.aceptados }
  | .handleTcpWrite written => do
    let escritura ← respuesta x.conn.pendingBytes written
    match Hpc.handleTcpWrite x.conn escritura with
    | (some conn, sent) => some { x with conn := conn, enviado := x.enviado ++ sent }
    | (none, _) => none

/-- What was handed to the socket and what waits are the accepted messages. -/
def Entero (x : Flujo) : Prop := x.enviado ++ x.conn.pendiente = x.aceptados.flatten

/-- **A call keeps the stream whole.** -/
theorem Entero.step {x y : Flujo} (hx : x.Entero) {a : Llamada} (h : x.step a = some y) :
    y.Entero := by
  cases a with
  | enqueueWrite msg =>
    obtain rfl := Option.some.inj h
    show x.enviado ++ (Hpc.enqueueWrite x.conn msg).pendiente = List.flatten (ite _ _ _)
    by_cases hcabe : x.conn.Cabe msg
    · rw [x.conn.pendiente_enqueueWrite hcabe, if_pos hcabe, List.flatten_append,
        List.flatten_singleton, ← List.append_assoc, hx]
    · rw [Hpc.enqueueWrite, dif_neg hcabe, if_neg hcabe, hx]
  | handleTcpWrite written =>
    obtain ⟨escritura, -, h⟩ := Option.bind_eq_some_iff.mp h
    split at h
    · next conn sent hwrite =>
      obtain rfl := Option.some.inj h
      show (x.enviado ++ sent) ++ conn.pendiente = x.aceptados.flatten
      rw [List.append_assoc, handleTcpWrite_pendiente hwrite, hx]
    · exact absurd h (by simp)

/-- **The stream is the accepted messages, whole and in order**, whatever `write`
takes each time: what the socket was handed, followed by what waits in the
buffer, is their concatenation, and the positions stay inside the buffer. -/
theorem enqueueWrite_stream {conn : Salida} (hempty : conn.writeLen = 0) {x : Flujo}
    (hrun : Reaches Flujo.step (fun _ _ => True) ⟨conn, [], []⟩ x) :
    x.enviado ++ (x.conn.writeBuf.drop x.conn.writePos).take (x.conn.writeLen - x.conn.writePos)
        = x.aceptados.flatten
      ∧ x.conn.writePos ≤ x.conn.writeLen
      ∧ x.conn.writeLen < BUFF_SIZE
      ∧ x.conn.writeBuf.length = BUFF_SIZE := by
  have hinv : x.Entero := by
    refine hrun.invariant ?_ (fun u a v hu _ hv => hu.step hv)
    show [] ++ (conn.writeBuf.drop conn.writePos).take (conn.writeLen - conn.writePos) = []
    rw [hempty, Nat.zero_sub, List.take_zero, List.nil_append]
  exact ⟨hinv, x.conn.pos_le, x.conn.len_lt, x.conn.size_eq⟩

/-- Two messages, of which the socket takes five bytes between them. -/
theorem enqueueWrite_stream_partial :
    ∃ x, Reaches.trace Flujo.step
        ⟨⟨List.replicate BUFF_SIZE nul, 0, 0, List.length_replicate, le_rfl, by decide⟩, [], []⟩
        [.enqueueWrite "GRANTED 7\n".toList, .handleTcpWrite (some 5), .handleTcpWrite none,
          .enqueueWrite "DENIED 8\n".toList, .handleTcpWrite (some 14)] = some x
      ∧ x.enviado ++ (x.conn.writeBuf.drop x.conn.writePos).take
          (x.conn.writeLen - x.conn.writePos) = "GRANTED 7\nDENIED 8\n".toList := by
  have hcheck : (Reaches.checked Flujo.step (fun _ _ => true)
      ⟨⟨List.replicate BUFF_SIZE nul, 0, 0, List.length_replicate, le_rfl, by decide⟩, [], []⟩
      [.enqueueWrite "GRANTED 7\n".toList, .handleTcpWrite (some 5), .handleTcpWrite none,
        .enqueueWrite "DENIED 8\n".toList, .handleTcpWrite (some 14)]).any (fun x =>
          decide (x.aceptados = ["GRANTED 7\n".toList, "DENIED 8\n".toList])) = true := by
    decide +kernel
  obtain ⟨x, htrace, hrun, hx⟩ := Reaches.of_checked (fun _ _ _ => trivial) hcheck
  obtain ⟨hstream, -⟩ := enqueueWrite_stream rfl hrun
  rw [of_decide_eq_true hx] at hstream
  exact ⟨x, htrace, hstream.trans (by decide)⟩

/-! ## When a message is rejected -/

/-- A call that sends all that waits or nothing of it, as far as it sends. -/
def Completo (x : Flujo) : Llamada → Prop
  | .enqueueWrite _ | .handleTcpWrite none => True
  | .handleTcpWrite (some written) => written = 0 ∨ written = x.conn.pendingBytes

instance (x : Flujo) (a : Llamada) : Decidable (x.Completo a) := by
  unfold Completo
  split <;> infer_instance

/-- No message is dropped that the unsent bytes leave room for. -/
def Aprovecha (x : Flujo) : Prop :=
  ∀ msg : CString, ¬ x.conn.Cabe msg →
    BUFF_SIZE ≤ (x.conn.writeLen - x.conn.writePos) + msg.length

/-- The room of sent bytes is lost: what is rejected would fit without them. -/
theorem aprovecha_iff (x : Flujo) : x.Aprovecha ↔ x.conn.writePos = 0 := by
  have hle := x.conn.pos_le
  have hlt := x.conn.len_lt
  constructor
  · intro h
    -- the shortest message that is rejected
    have hlen : (List.replicate (BUFF_SIZE - x.conn.writeLen) ' ').length
        = BUFF_SIZE - x.conn.writeLen := List.length_replicate
    have hroom := h (List.replicate (BUFF_SIZE - x.conn.writeLen) ' ') (by
      unfold Salida.Cabe
      omega)
    omega
  · intro hpos msg hmsg
    unfold Salida.Cabe at hmsg
    omega

/-- **From a state with nothing sent in front**, a call leaves something sent in
front just if it sends a part of what waits. -/
theorem writePos_step {x y : Flujo} (hx : x.conn.writePos = 0) {a : Llamada}
    (h : x.step a = some y) : y.conn.writePos = 0 ↔ x.Completo a := by
  cases a with
  | enqueueWrite msg =>
    obtain rfl := Option.some.inj h
    refine iff_of_true ?_ trivial
    show (Hpc.enqueueWrite x.conn msg).writePos = 0
    unfold Hpc.enqueueWrite
    split
    · exact hx
    · exact hx
  | handleTcpWrite written =>
    obtain ⟨escritura, hrespuesta, h⟩ := Option.bind_eq_some_iff.mp h
    have hsame : x.conn.pendingBytes = 0 ∨ escritura = .again → y.conn = x.conn := by
      intro hidle
      have hwrite : Hpc.handleTcpWrite x.conn escritura = (some x.conn, []) := by
        unfold Hpc.handleTcpWrite
        rcases hidle with hzero | rfl
        · rw [if_pos hzero]
        · split <;> rfl
      rw [hwrite] at h
      obtain rfl := Option.some.inj h
      rfl
    cases written with
    | none =>
      obtain rfl : .again = escritura := Option.some.inj hrespuesta
      exact iff_of_true (by rw [hsame (Or.inr rfl), hx]) trivial
    | some written =>
      show _ ↔ written = 0 ∨ written = x.conn.pendingBytes
      have hrespuesta : (if hle : written ≤ x.conn.pendingBytes then
          some (Escritura.bytes written hle) else none) = some escritura := hrespuesta
      split at hrespuesta
      · next hle =>
        obtain rfl := Option.some.inj hrespuesta
        by_cases hzero : x.conn.pendingBytes = 0
        · exact iff_of_true (by rw [hsame (Or.inl hzero), hx]) (Or.inl (by omega))
        · have hwrite : Hpc.handleTcpWrite x.conn (.bytes written hle)
              = (some (x.conn.advance written hle),
                (x.conn.writeBuf.drop x.conn.writePos).take written) := by
            unfold Hpc.handleTcpWrite
            rw [if_neg hzero]
          rw [hwrite] at h
          obtain rfl := Option.some.inj h
          have hpending : x.conn.pendingBytes = x.conn.writeLen := by
            unfold Salida.pendingBytes
            omega
          show (x.conn.advance written hle).writePos = 0 ↔ _
          unfold Salida.advance
          split
          · next hall => exact iff_of_true rfl (Or.inr (by omega))
          · next hpart =>
            show x.conn.writePos + written = 0 ↔ _
            omega
      · exact absurd hrespuesta (by simp)

/-- The states a run passes through and the calls it makes there. -/
theorem aprovecha_run_iff {x last : Flujo} (hx : x.conn.writePos = 0) {calls : List Llamada}
    (hrun : Reaches.trace Flujo.step x calls = some last) :
    (∀ before y, before <+: calls → Reaches.trace Flujo.step x before = some y → y.Aprovecha)
      ↔ ∀ before a y, before ++ [a] <+: calls →
          Reaches.trace Flujo.step x before = some y → y.Completo a := by
  induction calls generalizing x with
  | nil =>
    refine iff_of_true (fun before y hbefore hy => ?_) (fun before a y hbefore => ?_)
    · obtain rfl := List.prefix_nil.mp hbefore
      obtain rfl := Option.some.inj hy
      exact (aprovecha_iff x).mpr hx
    · exact absurd (List.prefix_nil.mp hbefore) (by simp)
  | cons c calls ih =>
    obtain ⟨z, hstep, hrest⟩ := Option.bind_eq_some_iff.mp
      ((List.foldlM_cons (f := Flujo.step) (a := c) (l := calls) (b := x)).symm.trans hrun)
    have htrace : ∀ before, Reaches.trace Flujo.step x (c :: before)
        = Reaches.trace Flujo.step z before := by
      intro before
      unfold Reaches.trace
      rw [List.foldlM_cons, hstep]
      rfl
    constructor
    · intro h before a y hbefore hy
      have hz : z.conn.writePos = 0 := (aprovecha_iff z).mp
        (h [c] z ((List.prefix_cons_inj c).mpr List.nil_prefix) (htrace []))
      cases before with
      | nil =>
        obtain rfl := Option.some.inj hy
        obtain rfl : a = c := (List.cons_prefix_cons.mp hbefore).1
        exact (writePos_step hx hstep).mp hz
      | cons d before =>
        obtain ⟨rfl, htail⟩ := List.cons_prefix_cons.mp hbefore
        refine (ih hz hrest).mp (fun before y hbefore hy => ?_) before a y htail
          ((htrace before).symm.trans hy)
        exact h (d :: before) y (List.cons_prefix_cons.mpr ⟨rfl, hbefore⟩)
          ((htrace before).trans hy)
    · intro h before y hbefore hy
      have hz : z.conn.writePos = 0 := (writePos_step hx hstep).mpr
        (h [] c x (List.cons_prefix_cons.mpr ⟨rfl, List.nil_prefix⟩) rfl)
      cases before with
      | nil =>
        obtain rfl := Option.some.inj hy
        exact (aprovecha_iff x).mpr hx
      | cons d before =>
        obtain ⟨rfl, htail⟩ := List.cons_prefix_cons.mp hbefore
        refine (ih hz hrest).mpr (fun before a y hbefore hy => ?_) before y htail
          ((htrace before).symm.trans hy)
        exact h (d :: before) a y (List.cons_prefix_cons.mpr ⟨rfl, hbefore⟩)
          ((htrace before).trans hy)

/-- **A run drops messages for want of room only just if no call sends a part of
what waits**: the property holds in every state of the run if and only if each
`handle_tcp_write` of it sends everything or nothing. -/
theorem enqueueWrite_drops_iff {conn : Salida} (hempty : conn.writeLen = 0)
    {calls : List Llamada} {last : Flujo}
    (hrun : Reaches.trace Flujo.step ⟨conn, [], []⟩ calls = some last) :
    (∀ before x, before <+: calls → Reaches.trace Flujo.step ⟨conn, [], []⟩ before = some x →
        ∀ msg : CString, ¬ x.conn.Cabe msg →
          BUFF_SIZE ≤ (x.conn.writeLen - x.conn.writePos) + msg.length)
      ↔ ∀ before a x, before ++ [a] <+: calls →
          Reaches.trace Flujo.step ⟨conn, [], []⟩ before = some x → x.Completo a := by
  exact aprovecha_run_iff (Nat.le_zero.mp (hempty ▸ conn.pos_le)) hrun

/-- A message sent whole before the next one. -/
theorem enqueueWrite_drops_iff_whole :
    ∃ x, Reaches.trace Flujo.step
        ⟨⟨List.replicate BUFF_SIZE nul, 0, 0, List.length_replicate, le_rfl, by decide⟩, [], []⟩
        [.enqueueWrite "GRANTED 7\n".toList, .handleTcpWrite (some 10),
          .enqueueWrite "DENIED 8\n".toList] = some x
      ∧ ∀ msg : CString, ¬ x.conn.Cabe msg →
          BUFF_SIZE ≤ (x.conn.writeLen - x.conn.writePos) + msg.length := by
  have hcheck : (Reaches.checked Flujo.step (fun x a => decide (x.Completo a))
      ⟨⟨List.replicate BUFF_SIZE nul, 0, 0, List.length_replicate, le_rfl, by decide⟩, [], []⟩
      [.enqueueWrite "GRANTED 7\n".toList, .handleTcpWrite (some 10),
        .enqueueWrite "DENIED 8\n".toList]).isSome = true := by
    decide +kernel
  obtain ⟨x, hx⟩ := Option.isSome_iff_exists.mp hcheck
  have hrun := Reaches.trace_of_checked hx
  exact ⟨x, hrun, (enqueueWrite_drops_iff rfl hrun).mpr
    (fun _ _ _ hbefore hy => of_decide_eq_true (Reaches.test_of_checked hx hbefore hy))
    _ x List.prefix_rfl hrun⟩

/-- **Room that the backlog leaves and the buffer does not.** A line of 1000 bytes
of which the socket took 999 leaves one byte to send, and the next message of
24 bytes is dropped. -/
theorem enqueueWrite_drops :
    ∃ x msg, Reaches Flujo.step (fun _ _ => True)
        ⟨⟨List.replicate BUFF_SIZE nul, 0, 0, List.length_replicate, le_rfl, by decide⟩, [], []⟩ x
      ∧ ¬ x.conn.Cabe msg
      ∧ (x.conn.writeLen - x.conn.writePos) + msg.length < BUFF_SIZE := by
  have hcheck : (Reaches.checked Flujo.step (fun _ _ => true)
      ⟨⟨List.replicate BUFF_SIZE nul, 0, 0, List.length_replicate, le_rfl, by decide⟩, [], []⟩
      [.enqueueWrite (List.replicate 1000 'x'), .handleTcpWrite (some 999)]).any (fun x =>
        decide (¬ x.conn.Cabe "RELEASE 100 mem 1048576\n".toList
          ∧ (x.conn.writeLen - x.conn.writePos) + "RELEASE 100 mem 1048576\n".toList.length
            < BUFF_SIZE)) = true := by
    decide +kernel
  obtain ⟨x, -, hrun, hx⟩ := Reaches.of_checked (fun _ _ _ => trivial) hcheck
  exact ⟨x, _, hrun, of_decide_eq_true hx⟩

end Flujo

end Hpc
