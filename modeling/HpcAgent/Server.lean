import HpcAgent.Lib.CharBuffer
import HpcAgent.Lib.Lines
import HpcAgent.Lib.Reaches
import HpcAgent.ResourceManager

/-!
# Reading from a connection

`handle_tcp_read` of `server.c`. TCP delivers a stream of bytes and the
protocol has lines: what a `read` returns is stored behind the unfinished line
of the last one, the newlines are overwritten by NULs and each string they end
is handed to `process_message`, and the tail is moved to the front.

The two calls into the resource manager are parameters, so that what the loop
hands over can be told from what the manager makes of it. `read` is asked for
what the buffer has room for, less the terminating NUL, and returns no more
than that; its answer is a `Lectura`. An answer of no bytes is how the kernel
reports the end of the stream, and also how it answers a request for no bytes,
so the handler must never make one (`handleTcpRead_lines`).
-/

namespace Hpc

open CharBuffer

/-- The reading side of `connection_t`. The terminating NUL has its place. -/
structure Connection where
  readBuf : List Char
  readPos : ℕ
  size_eq : readBuf.length = BUFF_SIZE
  pos_lt : readPos < BUFF_SIZE

namespace Connection

/-- What `read` is asked for. -/
def readLen (conn : Connection) : ℕ := BUFF_SIZE - conn.readPos - 1

/-- What is kept of the stream. -/
def pendiente (conn : Connection) : List Char := conn.readBuf.take conn.readPos

end Connection

/-- An answer of `read`, asked for `n` bytes. -/
inductive Lectura (n : ℕ)
  /-- That many bytes. -/
  | bytes (l : List Char) (h : l.length ≤ n)
  /-- `EAGAIN` or `EWOULDBLOCK`. -/
  | again
  /-- Any other error. -/
  | error

/-- The loop over the lines: the array, the start of the line and the state
reached. Each round moves the start forward, so the size of the array bounds
the rounds. -/
def lineLoop {σ : Type} (processMessage : CString → σ → σ) :
    ℕ → List Char → ℕ → σ → List Char × ℕ × σ
  | 0, buf, lineStart, s => (buf, lineStart, s)
  | n + 1, buf, lineStart, s =>
    match strchr '\n' lineStart buf with
    | none => (buf, lineStart, s)
    | some newlinePos =>
      let buf := write newlinePos [nul] buf
      lineLoop processMessage n buf (newlinePos + 1)
        (processMessage (stringAt lineStart buf) s)

/-- The loop keeps the size of the array. -/
theorem length_lineLoop {σ : Type} (processMessage : CString → σ → σ) (n : ℕ)
    (buf : List Char) (lineStart : ℕ) (s : σ) :
    (lineLoop processMessage n buf lineStart s).1.length = buf.length := by
  induction n generalizing buf lineStart s with
  | zero => rfl
  | succ n ih =>
    rw [lineLoop]
    split
    · rfl
    · next newlinePos hfind => exact (ih _ _ _).trans (length_write (lt_of_strchr hfind))

namespace Connection

/-- The bytes of a `read` stored behind the unfinished line, and the NUL behind
them. -/
def store (conn : Connection) (l : List Char) (h : l.length ≤ conn.readLen) : Connection where
  readBuf := write (conn.readPos + l.length) [nul] (write conn.readPos l conn.readBuf)
  readPos := conn.readPos + l.length
  size_eq := by
    have hlt := conn.pos_lt
    have hsize := conn.size_eq
    unfold readLen at h
    have hfirst : (write conn.readPos l conn.readBuf).length = BUFF_SIZE :=
      (length_write (by omega)).trans hsize
    exact (length_write (by rw [hfirst, List.length_singleton]; omega)).trans hfirst
  pos_lt := by
    have hlt := conn.pos_lt
    unfold readLen at h
    omega

/-- The unfinished line moved to the front. -/
def compact (conn : Connection) (buf : List Char) (lineStart : ℕ)
    (h : buf.length = BUFF_SIZE) : Connection where
  readBuf :=
    if 0 < conn.readPos - lineStart ∧ 0 < lineStart then
      write 0 ((buf.drop lineStart).take (conn.readPos - lineStart)) buf
    else buf
  readPos := conn.readPos - lineStart
  size_eq := by
    split
    · refine (length_write ?_).trans h
      rw [List.length_take, List.length_drop]
      omega
    · exact h
  pos_lt := (Nat.sub_le _ _).trans_lt conn.pos_lt

end Connection

/-- **`handle_tcp_read`**: the connection, unless it was closed, and the state
the calls into the resource manager leave. -/
def handleTcpRead {σ : Type} (processMessage : CString → σ → σ) (processDisconnect : σ → σ)
    (conn : Connection) (lectura : Lectura conn.readLen) (s : σ) : Option Connection × σ :=
  match lectura with
  | .again => (some conn, s)
  | .error => (none, processDisconnect s)
  | .bytes l h =>
    if l = [] then (none, processDisconnect s)
    else
      let conn := conn.store l h
      let r := lineLoop processMessage BUFF_SIZE conn.readBuf 0 s
      (some (conn.compact r.1 r.2.1 ((length_lineLoop ..).trans conn.size_eq)), r.2.2)

/-! ## One call -/

/-- **The loop hands over the complete lines**, and leaves the rest behind what it
has read. -/
theorem lineLoop_lines {σ : Type} (processMessage : CString → σ → σ) (w b : List Char)
    (hnul : nul ∉ w) {n : ℕ} (hn : w.length ≤ n) (a : List Char) (s : σ) :
    ∃ a', a'.length + (Lines.rest '\n' w).length = a.length + w.length
      ∧ lineLoop processMessage n (a ++ (w ++ nul :: b)) a.length s
        = (a' ++ (Lines.rest '\n' w ++ nul :: b), a'.length,
          (Lines.complete '\n' w).foldl (fun s line => processMessage line s) s) := by
  induction w using Lines.induction '\n' generalizing n a s with
  | rest w hw =>
    rw [Lines.rest_of_not_mem hw, Lines.complete_of_not_mem hw]
    refine ⟨a, rfl, ?_⟩
    cases n with
    | zero => rfl
    | succ n =>
      rw [lineLoop, strchr_eq_none a b hnul hw]
      rfl
  | line line w hline ih =>
    have hnulLine : nul ∉ line := fun h => hnul (List.mem_append_left _ h)
    have hnulRest : nul ∉ w := fun h =>
      hnul (List.mem_append_right _ (List.mem_cons_of_mem _ h))
    rw [List.length_append, List.length_cons] at hn
    cases n with
    | zero => exact absurd hn (by omega)
    | succ n =>
      -- the newline becomes the NUL that ends the line
      have hwrite : write (a.length + line.length) [nul]
          (a ++ ((line ++ '\n' :: w) ++ nul :: b))
          = a ++ (line ++ nul :: (w ++ nul :: b)) := by
        have h := write_append (a ++ line) [nul] ['\n'] (w ++ nul :: b) rfl
        rw [List.length_append] at h
        simpa using h
      obtain ⟨a', hlen, hloop⟩ := ih hnulRest (n := n) (by omega) (a ++ (line ++ [nul]))
        (processMessage line s)
      refine ⟨a', ?_, ?_⟩
      · rw [Lines.rest_line]
        rw [List.length_append, List.length_append, List.length_singleton] at hlen
        rw [List.length_append, List.length_cons]
        omega
      · rw [lineLoop, strchr_eq_some a b hnul hline]
        dsimp only
        rw [hwrite, stringAt_append a _ hnulLine, Lines.rest_line, Lines.complete_line hline,
          List.foldl_cons, ← hloop]
        simp [Nat.add_assoc]

namespace Connection

/-- What a `read` stores stands behind what was kept. -/
theorem store_eq (conn : Connection) (l : List Char) (h : l.length ≤ conn.readLen) :
    ∃ b, (conn.store l h).readBuf = (conn.pendiente ++ l) ++ nul :: b := by
  have hlt := conn.pos_lt
  have hsize := conn.size_eq
  have htake := take_write l (conn.size_eq ▸ hlt.le : conn.readPos ≤ conn.readBuf.length)
  refine ⟨(write conn.readPos l conn.readBuf).drop (conn.readPos + l.length + 1), ?_⟩
  show write (conn.readPos + l.length) [nul] (write conn.readPos l conn.readBuf) = _
  rw [write, htake, List.length_singleton, List.append_assoc]
  rfl

theorem length_pendiente (conn : Connection) : conn.pendiente.length = conn.readPos := by
  unfold pendiente
  rw [List.length_take, conn.size_eq, min_eq_left conn.pos_lt.le]

/-- **The tail moves to the front.** -/
theorem pendiente_compact (conn : Connection) {buf a t b : List Char} (hbuf : buf = a ++ (t ++ b))
    (hpos : a.length + t.length = conn.readPos) (h : buf.length = BUFF_SIZE) :
    (conn.compact buf a.length h).pendiente = t := by
  have hremaining : conn.readPos - a.length = t.length := by omega
  subst hbuf
  unfold pendiente compact
  dsimp only
  rw [hremaining, List.drop_left, List.take_left]
  split
  · have htake := take_write t (Nat.zero_le (a ++ (t ++ b)).length)
    rwa [Nat.zero_add, List.take_zero, List.nil_append] at htake
  · next hnot =>
    rcases Nat.eq_zero_or_pos t.length with ht | ht
    · rw [List.length_eq_zero_iff.mp ht]
      rfl
    · have ha : a = [] := List.length_eq_zero_iff.mp (by omega)
      rw [ha, List.nil_append, List.take_left]

end Connection

/-- **A call of `handle_tcp_read`** hands over the lines that are complete in what
was kept and what arrived, and keeps the rest. -/
theorem handleTcpRead_bytes {σ : Type} (processMessage : CString → σ → σ)
    (processDisconnect : σ → σ) {conn : Connection} {l : List Char}
    (h : l.length ≤ conn.readLen) (hne : l ≠ []) (hnul : nul ∉ conn.pendiente ++ l) (s : σ) :
    ∃ conn' : Connection, conn'.pendiente = Lines.rest '\n' (conn.pendiente ++ l)
      ∧ handleTcpRead processMessage processDisconnect conn (.bytes l h) s
        = (some conn', (Lines.complete '\n' (conn.pendiente ++ l)).foldl
          (fun s line => processMessage line s) s) := by
  obtain ⟨b, hbuf⟩ := conn.store_eq l h
  have hlen : (conn.pendiente ++ l).length = conn.readPos + l.length := by
    rw [List.length_append, conn.length_pendiente]
  have hfuel : (conn.pendiente ++ l).length ≤ BUFF_SIZE := by
    have hlt := (conn.store l h).pos_lt
    exact hlen ▸ hlt.le
  obtain ⟨a, hpos, hloop⟩ := lineLoop_lines processMessage _ b hnul hfuel [] s
  have hloop : lineLoop processMessage BUFF_SIZE (conn.store l h).readBuf 0 s
      = (a ++ (Lines.rest '\n' (conn.pendiente ++ l) ++ nul :: b), a.length,
        (Lines.complete '\n' (conn.pendiente ++ l)).foldl
          (fun s line => processMessage line s) s) := by
    rw [hbuf]
    exact hloop
  have hsize : (a ++ (Lines.rest '\n' (conn.pendiente ++ l) ++ nul :: b)).length = BUFF_SIZE := by
    have hsame := length_lineLoop processMessage BUFF_SIZE (conn.store l h).readBuf 0 s
    rw [hloop] at hsame
    exact hsame.trans (conn.store l h).size_eq
  refine ⟨(conn.store l h).compact _ a.length hsize,
    (conn.store l h).pendiente_compact rfl ?_ hsize, ?_⟩
  · rw [hpos, List.length_nil, Nat.zero_add, hlen]
    rfl
  · unfold handleTcpRead
    dsimp only
    rw [if_neg hne]
    simp only [hloop]

/-! ## The calls of a connection's life -/

/-- A connection being read, the state of the resource manager, and all that
arrived so far. -/
structure Sesion (σ : Type) where
  conn : Connection
  estado : σ
  recibido : List Char

namespace Sesion

variable {σ : Type}

/-- A call of `handle_tcp_read` whose `read` returns these bytes. -/
def leer (processMessage : CString → σ → σ) (processDisconnect : σ → σ) (x : Sesion σ)
    (l : List Char) : Option (Sesion σ) :=
  if h : l.length ≤ x.conn.readLen then
    match handleTcpRead processMessage processDisconnect x.conn (.bytes l h) x.estado with
    | (some conn, estado) => some ⟨conn, estado, x.recibido ++ l⟩
    | (none, _) => none
  else none

/-- What `read` may return: some bytes, no more than it is asked for, no NUL, of a
stream whose pieces leave room for the newline and the NUL behind them. -/
def Llega (x : Sesion σ) (l : List Char) : Prop :=
  (0 < l.length ∧ l.length ≤ x.conn.readLen) ∧ nul ∉ l
    ∧ ∀ piece ∈ (x.recibido ++ l).splitOn '\n', piece.length ≤ BUFF_SIZE - 2

instance (x : Sesion σ) (l : List Char) : Decidable (x.Llega l) :=
  inferInstanceAs (Decidable (_ ∧ _ ∧ _))

/-- Between two calls the buffer holds the unfinished line, and the state is that
of the lines handed over. -/
structure AlDia (processMessage : CString → σ → σ) (s : σ) (x : Sesion σ) : Prop where
  nul : CharBuffer.nul ∉ x.recibido
  estado : x.estado
    = (Lines.complete '\n' x.recibido).foldl (fun s line => processMessage line s) s
  pendiente : x.conn.pendiente = Lines.rest '\n' x.recibido
  short : (Lines.rest '\n' x.recibido).length ≤ BUFF_SIZE - 2

/-- **A call keeps the lines in step**, and does not close the connection. -/
theorem AlDia.leer {processMessage : CString → σ → σ} (processDisconnect : σ → σ) {s : σ}
    {x : Sesion σ} (hx : AlDia processMessage s x) {l : List Char} (hl : x.Llega l) :
    ∃ y, x.leer processMessage processDisconnect l = some y
      ∧ AlDia processMessage s y := by
  obtain ⟨⟨hpos, hlen⟩, hnul, hpieces⟩ := hl
  have hkept : CharBuffer.nul ∉ x.conn.pendiente ++ l := by
    rw [hx.pendiente, List.mem_append, not_or]
    exact ⟨fun h => hx.nul (Lines.mem_of_mem_rest h), hnul⟩
  obtain ⟨conn, hconn, hread⟩ := handleTcpRead_bytes processMessage processDisconnect hlen
    (List.ne_nil_of_length_pos hpos) hkept x.estado
  rw [hx.pendiente] at hconn hread
  refine ⟨⟨conn, (Lines.complete '\n' (Lines.rest '\n' x.recibido ++ l)).foldl
    (fun s line => processMessage line s) x.estado, x.recibido ++ l⟩, ?_, ?_, ?_, ?_, ?_⟩
  · unfold Sesion.leer
    rw [dif_pos hlen, hread]
  · rw [List.mem_append, not_or]
    exact ⟨hx.nul, hnul⟩
  · show List.foldl _ x.estado _ = List.foldl _ s (Lines.complete '\n' (x.recibido ++ l))
    rw [Lines.complete_append x.recibido l, List.foldl_append, ← hx.estado]
  · exact hconn.trans (Lines.rest_append _ _).symm
  · exact hpieces _ (Lines.rest_mem_splitOn _ _)

/-- **Framing does not depend on how the bytes arrive.** After any number of calls
the complete lines of what arrived were handed to `process_message`, in order
and each once, the buffer holds exactly the unfinished tail, the next `read`
asks for at least one byte, and whatever it returns the connection stays open. -/
theorem handleTcpRead_lines (processMessage : CString → σ → σ) (processDisconnect : σ → σ)
    (conn : Connection) (s : σ) (hempty : conn.readPos = 0) {x : Sesion σ}
    (hrun : Reaches (Sesion.leer processMessage processDisconnect) Llega ⟨conn, s, []⟩ x) :
    x.estado = (Lines.complete '\n' x.recibido).foldl (fun s line => processMessage line s) s
      ∧ x.conn.readBuf.take x.conn.readPos = Lines.rest '\n' x.recibido
      ∧ 0 < x.conn.readLen
      ∧ ∀ l, x.Llega l → (x.leer processMessage processDisconnect l).isSome = true := by
  have hinv : AlDia processMessage s x := by
    refine hrun.invariant ?_ (fun u l v hu hl hv => ?_)
    · refine ⟨List.not_mem_nil, rfl, ?_, Nat.zero_le _⟩
      show conn.readBuf.take conn.readPos = []
      rw [hempty, List.take_zero]
    · obtain ⟨y, hy, hinv⟩ := hu.leer processDisconnect hl
      obtain rfl := Option.some.inj (hy.symm.trans hv)
      exact hinv
  refine ⟨hinv.estado, hinv.pendiente, ?_, fun l hl => ?_⟩
  · have hlen := x.conn.length_pendiente
    rw [hinv.pendiente] at hlen
    have hshort := hinv.short
    unfold Connection.readLen
    have hsize : BUFF_SIZE = 1024 := rfl
    omega
  · obtain ⟨y, hy, -⟩ := hinv.leer processDisconnect hl
    exact hy ▸ rfl

/-- A line in two reads, the second with another line and a part of a third. -/
theorem handleTcpRead_lines_split :
    ∃ x, Reaches.trace (Sesion.leer (fun line lines => lines ++ [line]) id)
        ⟨⟨List.replicate BUFF_SIZE nul, 0, List.length_replicate, by decide⟩, [], []⟩
        ["RESERVE 7 c".toList, "pu 3\nRELEASE 7 cpu 3\nGRA".toList] = some x
      ∧ x.estado = ["RESERVE 7 cpu 3".toList, "RELEASE 7 cpu 3".toList]
      ∧ x.conn.pendiente = "GRA".toList := by
  have hcheck : (Reaches.checked (Sesion.leer (fun line lines => lines ++ [line]) id)
      (fun x l => decide (x.Llega l))
      ⟨⟨List.replicate BUFF_SIZE nul, 0, List.length_replicate, by decide⟩, [], []⟩
      ["RESERVE 7 c".toList, "pu 3\nRELEASE 7 cpu 3\nGRA".toList]).any (fun x =>
        decide (x.recibido = "RESERVE 7 cpu 3\nRELEASE 7 cpu 3\nGRA".toList)) = true := by
    decide +kernel
  obtain ⟨x, htrace, hrun, hx⟩ := Reaches.of_checked (fun _ _ => of_decide_eq_true) hcheck
  obtain ⟨hestado, hpendiente, -, -⟩ := handleTcpRead_lines (fun line lines => lines ++ [line])
    id _ [] rfl hrun
  rw [of_decide_eq_true hx] at hestado hpendiente
  exact ⟨x, htrace, hestado.trans (by decide +kernel), hpendiente.trans (by decide +kernel)⟩

end Sesion

end Hpc
