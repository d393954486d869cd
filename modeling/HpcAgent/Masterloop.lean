import HpcAgent.CAgentClient
import HpcAgent.Lib.Reaches
import HpcAgent.NodeList

/-!
# The planner's processes

`masterloop`, `disparar_rafaga` and `job_handler` of `c_agent_client.erl`: a
master that owns the socket, and one process per job that waits for the answer,
works, and asks the master for the release. A step is one action of one of the
processes; what the agent answers, what is drawn at random and which clock runs
out are the choices of the run. A message sent to a process stands at the end of
its mailbox, the master is registered, and the socket does not fail.

The books are kept by the master's map and by the `{release, Id}` each handler
sends once (`Cuentas`). They balance whatever the agent answers, and however
late (`masterloop_cuentas`).
-/

namespace Hpc

open Scan Erl

/-! ## What the master reads -/

/-- `TipoMensaje`. -/
inductive TipoMensaje
  | granted
  | denied
  | timeout
deriving DecidableEq

/-- What `masterloop` makes of a line. -/
inductive Recibido
  | desconocido
  | mensaje (tipo : TipoMensaje) (jobId : ℤ)
  /-- `list_to_integer` fails. -/
  | badarg
deriving DecidableEq

/-- The id behind the word. -/
def leerId (tipo : TipoMensaje) (idCrudo : CString) : Recibido :=
  match listToInteger (trim idCrudo) with
  | some jobId => .mensaje tipo jobId
  | none => .badarg

/-- The `case Linea of` of **`masterloop`**, on a line of the socket. -/
def leerLinea (lineaConSalto : CString) : Recibido :=
  let linea := trimTrailing '\n' lineaConSalto
  match (Cmd.jobGranted ++ [' ']).isPrefixOf? linea with
  | some resto => leerId .granted resto
  | none =>
    match (Cmd.jobDenied ++ [' ']).isPrefixOf? linea with
    | some resto => leerId .denied resto
    | none =>
      match (Cmd.jobTimeout ++ [' ']).isPrefixOf? linea with
      | some resto => leerId .timeout resto
      | none => .desconocido

/-! ## The processes -/

/-- Where a `job_handler` stands. -/
inductive EstadoHandler
  /-- In its `receive`. -/
  | esperando
  /-- In `sleep`, granted. -/
  | trabajando
  /-- Gone, its `{release, Job_id}` sent. -/
  | terminado
deriving DecidableEq

/-- A `job_handler`, with its mailbox. -/
structure Handler where
  jobId : ℤ
  estado : EstadoHandler
  buzon : List TipoMensaje

/-- What the books of the master see of a handler: its id, and whether it is
gone. -/
def Handler.ficha (h : Handler) : ℤ × Bool := (h.jobId, decide (h.estado = .terminado))

/-- `RAFAGA`. -/
def RAFAGA : ℕ := 2

/-- Where the master stands. -/
inductive FaseMaster
  /-- At the entry of `masterloop`. -/
  | entrada
  /-- In `get_nodes_recv`. -/
  | nodos
  /-- In `sleep`, in front of a burst. -/
  | pausa
  /-- In `disparar_rafaga`, with that many requests to go. -/
  | rafaga (cantidad : ℕ)
  /-- In front of `receive {release, _} … after 0`. -/
  | buzon
  /-- In `gen_tcp:recv`. -/
  | red
  /-- The master has ended. -/
  | fin
deriving DecidableEq

/-- A line the master sends. -/
inductive Envio
  | getNodes
  | jobRequest (jobId : ℤ) (comando : CString)
  | jobRelease (jobId : ℤ)

/-- The planner: `Maps_list`, `HandlersMap` with the numbers of the processes, the
ids of the `{release, _}` in the master's mailbox, the handlers by number, and
what was sent to the agent. -/
structure Planificador where
  fase : FaseMaster
  mapsList : List Mapa
  handlersMap : List (ℤ × ℕ)
  buzon : List ℤ
  handlers : List Handler
  enviados : List Envio

/-- `start`, at the first call of `masterloop`. -/
def Planificador.inicial : Planificador := ⟨.entrada, [], [], [], [], []⟩

/-- What happens next. -/
inductive Planificador.Suceso
  /-- The master goes on: the tests of `masterloop`, the end of `sleep`, the end of
  the burst, the look into the mailbox. -/
  | master
  /-- `armar_comando` and `nuevo_job_id` return these. -/
  | peticion (comando : CString) (jobId : ℤ)
  /-- The socket delivers a line. -/
  | linea (linea : CString)
  /-- `gen_tcp:recv` gives up after five seconds. -/
  | silencio
  /-- A handler takes a message from its mailbox. -/
  | respuesta (pid : ℕ)
  /-- A handler waited thirty seconds. -/
  | expira (pid : ℕ)
  /-- A handler has worked. -/
  | trabajado (pid : ℕ)

namespace Planificador

/-- `maps:put`. -/
def mapsPut (jobId : ℤ) (pid : ℕ) (m : List (ℤ × ℕ)) : List (ℤ × ℕ) :=
  (jobId, pid) :: m.filter (fun r => r.1 != jobId)

/-- `maps:remove`. -/
def mapsRemove (jobId : ℤ) (m : List (ℤ × ℕ)) : List (ℤ × ℕ) :=
  m.filter (fun r => r.1 != jobId)

/-- `maps:find`. -/
def mapsFind (jobId : ℤ) (m : List (ℤ × ℕ)) : Option ℕ :=
  (m.find? (fun r => r.1 == jobId)).map (·.2)

/-- The ids sent in `JOB_REQUEST`. -/
def pedidos (s : Planificador) : List ℤ :=
  s.enviados.filterMap (fun e => match e with | .jobRequest jobId _ => some jobId | _ => none)

/-- The ids sent in `JOB_RELEASE`. -/
def liberados (s : Planificador) : List ℤ :=
  s.enviados.filterMap (fun e => match e with | .jobRelease jobId => some jobId | _ => none)

/-- A handler replaced. -/
def setHandler (s : Planificador) (pid : ℕ) (h : Handler) : Planificador :=
  { s with handlers := s.handlers.set pid h }

/-- The end of `job_handler`: `master ! {release, Job_id}`, unless the master is
gone. -/
def terminar (s : Planificador) (pid : ℕ) (h : Handler) : Planificador :=
  { s with
    handlers := s.handlers.set pid { h with estado := .terminado }
    buzon := if s.fase = .fin then s.buzon else s.buzon ++ [h.jobId] }

/-- `Destinatario ! TipoMensaje`; a process that is gone gets nothing. -/
def avisar (s : Planificador) (pid : ℕ) (tipo : TipoMensaje) : Planificador :=
  { s with
    handlers := s.handlers.modify pid (fun h =>
      if h.estado = .terminado then h else { h with buzon := h.buzon ++ [tipo] }) }

/-- A line of the socket, in `masterloop`. -/
def recibir (s : Planificador) (linea : CString) : Planificador :=
  match leerLinea linea with
  | .desconocido => { s with fase := .entrada }
  | .badarg => { s with fase := .fin }
  | .mensaje tipo jobId =>
    match mapsFind jobId s.handlersMap with
    | some destinatario => { s.avisar destinatario tipo with fase := .entrada }
    | none => { s with fase := .entrada }

/-- A line of the socket, in `get_nodes_recv`. -/
def recibirNodos (s : Planificador) (linea : CString) : Planificador :=
  match nodesPrefix.isPrefixOf? linea with
  | none => s
  | some data =>
    match leerNodos data with
    | none => { s with fase := .fin }
    | some [] => { s with fase := .fin }
    | some mapsList => { s with fase := .pausa, mapsList := mapsList }

/-- The clause for `{release, JobIdToRelease}` of `masterloop`. -/
def liberar (s : Planificador) (jobId : ℤ) (resto : List ℤ) : Planificador :=
  { s with
    fase := .entrada
    buzon := resto
    handlersMap := mapsRemove jobId s.handlersMap
    enviados := s.enviados ++ [.jobRelease jobId] }

/-- The request of a job, and the start of its handler. -/
def lanzar (s : Planificador) (cantidad : ℕ) (comando : CString) (jobId : ℤ) : Planificador :=
  { s with
    fase := .rafaga cantidad
    enviados := s.enviados ++ [.jobRequest jobId comando]
    handlers := s.handlers ++ [⟨jobId, .esperando, []⟩]
    handlersMap := mapsPut jobId s.handlers.length s.handlersMap }

/-- The master's next move, where it is its own. -/
def avanzar (s : Planificador) : Option Planificador :=
  match s.fase with
  | .entrada =>
    if s.handlersMap = [] then
      some { s with fase := .nodos, enviados := s.enviados ++ [.getNodes] }
    else if s.mapsList.isEmpty then some { s with fase := .fin }
    else some { s with fase := .buzon }
  | .pausa => some { s with fase := .rafaga RAFAGA }
  | .rafaga 0 => some { s with fase := .buzon }
  | .buzon =>
    match s.buzon with
    | jobId :: resto => some (s.liberar jobId resto)
    | [] => some { s with fase := .red }
  | _ => none

/-- One request of **`disparar_rafaga`**. `nuevo_job_id` returns an id that was not
used before. -/
def pedir (s : Planificador) (comando : CString) (jobId : ℤ) : Option Planificador :=
  match s.fase with
  | .rafaga (cantidad + 1) =>
    if comando = [] then some { s with fase := .rafaga cantidad }
    else if jobId ∈ s.pedidos then none
    else some (s.lanzar cantidad comando jobId)
  | _ => none

/-- **The planner's step.** -/
def step (s : Planificador) : Suceso → Option Planificador
  | .master => s.avanzar
  | .peticion comando jobId => s.pedir comando jobId
  | .linea linea =>
    if s.fase = .red then some (s.recibir linea)
    else if s.fase = .nodos then some (s.recibirNodos linea)
    else none
  | .silencio => if s.fase = .red then some { s with fase := .entrada } else none
  | .respuesta pid => do
    let h ← s.handlers[pid]?
    if h.estado = .esperando then
      match h.buzon with
      | [] => none
      | .granted :: resto =>
        some (s.setHandler pid { h with estado := .trabajando, buzon := resto })
      | _ :: resto => some (s.terminar pid { h with buzon := resto })
    else none
  | .expira pid => do
    let h ← s.handlers[pid]?
    if h.estado = .esperando ∧ h.buzon = [] then some (s.terminar pid h) else none
  | .trabajado pid => do
    let h ← s.handlers[pid]?
    if h.estado = .trabajando then some (s.terminar pid h) else none

/-! ## The books -/

/-- The keys of `HandlersMap`. -/
def claves (s : Planificador) : List ℤ := s.handlersMap.map (·.1)

/-- **The books of the master balance**: the keys are the ids requested and not
released, each has a handler at work or its release in the mailbox, and between
two bursts there are none. -/
structure Cuentas (s : Planificador) : Prop where
  nodup : s.claves.Nodup
  mem_claves : ∀ j, j ∈ s.claves ↔ j ∈ s.pedidos ∧ j ∉ s.liberados
  once : s.liberados.Nodup
  asked : ∀ j ∈ s.liberados, j ∈ s.pedidos
  buzon : ∀ j ∈ s.buzon, j ∈ s.claves
  handler : ∀ j pid, (j, pid) ∈ s.handlersMap → ∃ h, s.handlers[pid]? = some h ∧ h.jobId = j
    ∧ s.buzon.count j = if h.estado = .terminado then 1 else 0
  alive : ∀ pid h, s.handlers[pid]? = some h → h.estado ≠ .terminado →
    (h.jobId, pid) ∈ s.handlersMap
  rafaga : ∀ n, s.fase = .rafaga n → n ≤ RAFAGA
  empty : s.fase = .nodos ∨ s.fase = .pausa ∨ s.fase = .rafaga RAFAGA → s.handlersMap = []

theorem mem_mapsRemove {j jobId : ℤ} {pid : ℕ} {m : List (ℤ × ℕ)} :
    (j, pid) ∈ mapsRemove jobId m ↔ (j, pid) ∈ m ∧ j ≠ jobId := by
  unfold mapsRemove
  rw [List.mem_filter, bne_iff_ne]

theorem claves_mapsRemove {j jobId : ℤ} {m : List (ℤ × ℕ)} :
    j ∈ (mapsRemove jobId m).map (·.1) ↔ j ∈ m.map (·.1) ∧ j ≠ jobId := by
  constructor
  · intro h
    obtain ⟨⟨j, pid⟩, hmem, rfl⟩ := List.mem_map.mp h
    obtain ⟨hmem, hne⟩ := mem_mapsRemove.mp hmem
    exact ⟨List.mem_map_of_mem hmem, hne⟩
  · rintro ⟨h, hne⟩
    obtain ⟨⟨j, pid⟩, hmem, rfl⟩ := List.mem_map.mp h
    exact List.mem_map_of_mem (f := Prod.fst) (mem_mapsRemove.mpr ⟨hmem, hne⟩)

namespace Cuentas

variable {s : Planificador}

/-- A key has one handler. -/
theorem pid_eq (hs : s.Cuentas) {j : ℤ} {p q : ℕ} (hp : (j, p) ∈ s.handlersMap)
    (hq : (j, q) ∈ s.handlersMap) : p = q := by
  have hinj := List.inj_on_of_nodup_map hs.nodup hp hq rfl
  exact (Prod.mk.inj hinj).2

theorem inicial : Planificador.inicial.Cuentas where
  nodup := List.nodup_nil
  mem_claves j := by
    show j ∈ ([] : List ℤ) ↔ j ∈ ([] : List ℤ) ∧ _
    simp
  once := List.nodup_nil
  asked j hj := absurd hj List.not_mem_nil
  buzon j hj := absurd hj List.not_mem_nil
  handler j pid hmem := absurd hmem List.not_mem_nil
  alive pid h hh := absurd hh (by simp [Planificador.inicial])
  rafaga n hn := absurd hn (by simp [Planificador.inicial])
  empty _ := rfl

/-- The master goes to another place, which is not between two bursts. -/
theorem setFase (hs : s.Cuentas) {fase : FaseMaster} (mapsList : List Mapa)
    (hrafaga : ∀ n, fase = .rafaga n → n ≤ RAFAGA)
    (hempty : fase = .nodos ∨ fase = .pausa ∨ fase = .rafaga RAFAGA → s.handlersMap = []) :
    { s with fase := fase, mapsList := mapsList }.Cuentas :=
  ⟨hs.nodup, hs.mem_claves, hs.once, hs.asked, hs.buzon, hs.handler, hs.alive, hrafaga, hempty⟩

/-- The handlers change, but not their ids and not which of them are gone. -/
theorem congr_handlers (hs : s.Cuentas) {handlers : List Handler}
    (hsame : ∀ pid : ℕ, (handlers[pid]?).map Handler.ficha
      = (s.handlers[pid]?).map Handler.ficha) :
    { s with handlers := handlers }.Cuentas := by
  refine ⟨hs.nodup, hs.mem_claves, hs.once, hs.asked, hs.buzon, fun j pid hmem => ?_,
    fun pid h hh halive => ?_, hs.rafaga, hs.empty⟩
  · obtain ⟨h, hh, hid, hcount⟩ := hs.handler j pid hmem
    have hnew := hsame pid
    rw [hh, Option.map_some] at hnew
    obtain ⟨h', hh', heq⟩ := Option.map_eq_some_iff.mp hnew
    obtain ⟨hid', hest⟩ := Prod.mk.inj heq
    refine ⟨h', hh', hid'.trans hid, ?_⟩
    show s.buzon.count j = _
    simp only [decide_eq_decide] at hest
    simp only [hcount, hest]
  · have hold := (hsame pid).symm
    have hh : handlers[pid]? = some h := hh
    rw [hh, Option.map_some] at hold
    obtain ⟨h', hh', heq⟩ := Option.map_eq_some_iff.mp hold
    obtain ⟨hid', hest⟩ := Prod.mk.inj heq
    simp only [decide_eq_decide] at hest
    exact hid' ▸ hs.alive pid h' hh' (fun hdone => halive (hest.mp hdone))

/-- A handler that goes on. -/
theorem setHandler (hs : s.Cuentas) {pid : ℕ} {h h' : Handler} (hh : s.handlers[pid]? = some h)
    (hid : h'.jobId = h.jobId) (halive : h.estado ≠ .terminado) (halive' : h'.estado ≠ .terminado) :
    (s.setHandler pid h').Cuentas := by
  refine hs.congr_handlers (fun q => ?_)
  rw [List.getElem?_set]
  split
  · next hq =>
    subst hq
    obtain ⟨hlt, -⟩ := List.getElem?_eq_some_iff.mp hh
    rw [if_pos hlt, hh, Option.map_some, Option.map_some]
    simp [Handler.ficha, hid, halive, halive']
  · rfl

/-- A message to a handler. -/
theorem avisar (hs : s.Cuentas) (pid : ℕ) (tipo : TipoMensaje) : (s.avisar pid tipo).Cuentas := by
  refine hs.congr_handlers (fun q => ?_)
  rw [List.getElem?_modify]
  split
  · cases s.handlers[q]? with
    | none => rfl
    | some h =>
      show some (Handler.ficha (if h.estado = .terminado then h
        else { h with buzon := h.buzon ++ [tipo] })) = some h.ficha
      split <;> rfl
  · cases s.handlers[q]? <;> rfl

/-- **A handler ends**: its release is in the mailbox, once. -/
theorem terminar (hs : s.Cuentas) (hfase : s.fase ≠ .fin) {pid : ℕ} {h h' : Handler}
    (hh : s.handlers[pid]? = some h) (hid : h'.jobId = h.jobId) (halive : h.estado ≠ .terminado) :
    (s.terminar pid h').Cuentas := by
  have hkey := hs.alive pid h hh halive
  obtain ⟨hlt, -⟩ := List.getElem?_eq_some_iff.mp hh
  have hbuzon : (s.terminar pid h').buzon = s.buzon ++ [h.jobId] := by
    unfold Planificador.terminar
    rw [if_neg hfase, hid]
  have hget : ∀ q, (s.terminar pid h').handlers[q]?
      = if pid = q then some { h' with estado := .terminado } else s.handlers[q]? := by
    intro q
    unfold Planificador.terminar
    rw [List.getElem?_set]
    by_cases hq : pid = q
    · rw [if_pos hq, if_pos hq, if_pos hlt]
    · rw [if_neg hq, if_neg hq]
  refine ⟨hs.nodup, hs.mem_claves, hs.once, hs.asked, fun j hj => ?_, fun j q hmem => ?_,
    fun q g hg hgalive => ?_, hs.rafaga, hs.empty⟩
  · rw [hbuzon] at hj
    rcases List.mem_append.mp hj with hj | hj
    · exact hs.buzon j hj
    · rw [List.mem_singleton.mp hj]
      exact List.mem_map_of_mem (f := Prod.fst) hkey
  · have hmem : (j, q) ∈ s.handlersMap := hmem
    obtain ⟨g, hg, hgid, hcount⟩ := hs.handler j q hmem
    rw [hget, hbuzon, List.count_append]
    by_cases hq : pid = q
    · subst hq
      obtain rfl := Option.some.inj (hh.symm.trans hg)
      rw [if_neg halive] at hcount
      rw [if_pos rfl]
      refine ⟨_, rfl, hid.trans hgid, ?_⟩
      rw [hcount, hgid, if_pos rfl, List.count_singleton_self]
    · -- the other keys are other ids
      have hne : h.jobId ≠ j := fun heq => hq (hs.pid_eq (heq ▸ hkey) hmem)
      rw [if_neg hq]
      refine ⟨g, hg, hgid, ?_⟩
      rw [hcount, List.count_singleton, beq_false_of_ne hne]
      rfl
  · rw [hget] at hg
    split at hg
    · obtain rfl := Option.some.inj hg
      exact absurd rfl hgalive
    · exact hs.alive q g hg hgalive

/-- **The master releases a job**: its key goes, and no second release of it was or
is on its way. -/
theorem liberar (hs : s.Cuentas) {jobId : ℤ} {resto : List ℤ} (hbuzon : s.buzon = jobId :: resto) :
    (s.liberar jobId resto).Cuentas := by
  have hkey : jobId ∈ s.claves := hs.buzon jobId (hbuzon ▸ List.mem_cons_self)
  obtain ⟨hpedido, hnew⟩ := (hs.mem_claves jobId).mp hkey
  obtain ⟨⟨id, pid⟩, hpid, hid⟩ := List.mem_map.mp hkey
  obtain rfl : id = jobId := hid
  obtain ⟨h, hh, hid, hcount⟩ := hs.handler id pid hpid
  -- the handler is gone, so this was its only message
  rw [hbuzon, List.count_cons_self] at hcount
  have hdone : h.estado = .terminado := by
    by_contra hne
    rw [if_neg hne] at hcount
    exact absurd hcount (Nat.succ_ne_zero _)
  rw [if_pos hdone] at hcount
  have hlast : id ∉ resto := List.count_eq_zero.mp (Nat.succ.inj hcount)
  have hclaves : ∀ j, j ∈ (s.liberar id resto).claves ↔ j ∈ s.claves ∧ j ≠ id :=
    fun j => claves_mapsRemove
  have hliberados : (s.liberar id resto).liberados = s.liberados ++ [id] := by
    unfold Planificador.liberados Planificador.liberar
    rw [List.filterMap_append]
    rfl
  have hpedidos : (s.liberar id resto).pedidos = s.pedidos := by
    unfold Planificador.pedidos Planificador.liberar
    rw [List.filterMap_append]
    exact List.append_nil _
  refine ⟨hs.nodup.sublist (List.filter_sublist.map _), fun j => ?_, ?_, fun j hj => ?_,
    fun j hj => ?_, fun j q hmem => ?_, fun q g hg halive => ?_,
    fun n hn => absurd hn (by simp [Planificador.liberar]),
    fun hfase => absurd hfase (by simp [Planificador.liberar])⟩
  · rw [hclaves, hs.mem_claves, hliberados, hpedidos, List.mem_append, List.mem_singleton, not_or,
      and_assoc]
  · rw [hliberados]
    exact List.nodup_append.mpr ⟨hs.once, List.nodup_singleton id, fun j hj k hk heq =>
      hnew (List.mem_singleton.mp hk ▸ heq ▸ hj)⟩
  · rw [hliberados] at hj
    rw [hpedidos]
    rcases List.mem_append.mp hj with hj | hj
    · exact hs.asked j hj
    · exact List.mem_singleton.mp hj ▸ hpedido
  · have hj : j ∈ resto := hj
    rw [hclaves]
    exact ⟨hs.buzon j (hbuzon ▸ List.mem_cons_of_mem _ hj), fun heq => hlast (heq ▸ hj)⟩
  · obtain ⟨hmem, hne⟩ := mem_mapsRemove.mp hmem
    obtain ⟨g, hg, hgid, hgcount⟩ := hs.handler j q hmem
    rw [hbuzon, List.count_cons_of_ne hne.symm] at hgcount
    exact ⟨g, hg, hgid, hgcount⟩
  · have hmem := hs.alive q g hg halive
    refine mem_mapsRemove.mpr ⟨hmem, fun heq => ?_⟩
    -- a handler of this id would be the one that is gone
    obtain rfl := hs.pid_eq (heq ▸ hmem) hpid
    exact halive (Option.some.inj (hh.symm.trans hg) ▸ hdone)

/-- **The master asks for a job** with a new id, and its handler starts. -/
theorem lanzar (hs : s.Cuentas) {cantidad : ℕ} (hfase : s.fase = .rafaga (cantidad + 1))
    (comando : CString) {jobId : ℤ} (hnew : jobId ∉ s.pedidos) :
    (s.lanzar cantidad comando jobId).Cuentas := by
  have hkey : jobId ∉ s.claves := fun h => hnew ((hs.mem_claves jobId).mp h).1
  have hbuzon : jobId ∉ s.buzon := fun h => hkey (hs.buzon jobId h)
  have hle := hs.rafaga _ hfase
  have hother : s.handlersMap.filter (fun r => r.1 != jobId) = s.handlersMap := by
    refine List.filter_eq_self.mpr (fun r hr => bne_iff_ne.mpr (fun heq => hkey ?_))
    exact heq ▸ List.mem_map_of_mem (f := Prod.fst) hr
  have hmap : (s.lanzar cantidad comando jobId).handlersMap
      = (jobId, s.handlers.length) :: s.handlersMap := by
    show mapsPut jobId s.handlers.length s.handlersMap = _
    rw [mapsPut, hother]
  have hclaves : (s.lanzar cantidad comando jobId).claves = jobId :: s.claves := by
    unfold Planificador.claves
    rw [hmap]
    rfl
  have hliberados : (s.lanzar cantidad comando jobId).liberados = s.liberados := by
    unfold Planificador.liberados Planificador.lanzar
    rw [List.filterMap_append]
    exact List.append_nil _
  have hpedidos : (s.lanzar cantidad comando jobId).pedidos = s.pedidos ++ [jobId] := by
    unfold Planificador.pedidos Planificador.lanzar
    rw [List.filterMap_append]
    rfl
  have hold : ∀ (q : ℕ) (g : Handler), s.handlers[q]? = some g →
      (s.lanzar cantidad comando jobId).handlers[q]? = some g := by
    intro q g hg
    obtain ⟨hlt, -⟩ := List.getElem?_eq_some_iff.mp hg
    show (s.handlers ++ _)[q]? = some g
    rw [List.getElem?_append_left hlt, hg]
  refine ⟨?_, fun j => ?_, hliberados ▸ hs.once, fun j hj => ?_, fun j hj => ?_,
    fun j q hmem => ?_, fun q g hg halive => ?_, fun n hn => ?_, fun hempty => ?_⟩
  · rw [hclaves]
    exact List.nodup_cons.mpr ⟨hkey, hs.nodup⟩
  · rw [hclaves, hpedidos, hliberados, List.mem_cons, List.mem_append, List.mem_singleton,
      hs.mem_claves]
    constructor
    · rintro (rfl | ⟨hj, hfree⟩)
      · exact ⟨Or.inr rfl, fun hlib => hnew (hs.asked j hlib)⟩
      · exact ⟨Or.inl hj, hfree⟩
    · rintro ⟨hj | hj, hfree⟩
      · exact Or.inr ⟨hj, hfree⟩
      · exact Or.inl hj
  · rw [hliberados] at hj
    rw [hpedidos]
    exact List.mem_append_left _ (hs.asked j hj)
  · rw [hclaves]
    exact List.mem_cons_of_mem _ (hs.buzon j hj)
  · rw [hmap] at hmem
    rcases List.mem_cons.mp hmem with heq | hmem
    · -- the new handler has sent nothing
      obtain ⟨rfl, rfl⟩ := Prod.mk.inj heq
      refine ⟨⟨j, .esperando, []⟩, ?_, rfl, ?_⟩
      · show (s.handlers ++ _)[s.handlers.length]? = _
        rw [List.getElem?_append_right le_rfl, Nat.sub_self]
        rfl
      · exact List.count_eq_zero.mpr hbuzon
    · obtain ⟨g, hg, hgid, hcount⟩ := hs.handler j q hmem
      exact ⟨g, hold q g hg, hgid, hcount⟩
  · rw [hmap]
    have hg : (s.handlers ++ [⟨jobId, .esperando, []⟩])[q]? = some g := hg
    rcases lt_or_ge q s.handlers.length with hlt | hge
    · rw [List.getElem?_append_left hlt] at hg
      exact List.mem_cons_of_mem _ (hs.alive q g hg halive)
    · rw [List.getElem?_append_right hge, List.getElem?_singleton] at hg
      split at hg
      · next hzero =>
        obtain rfl := Option.some.inj hg
        have hq : q = s.handlers.length := by omega
        exact hq ▸ List.mem_cons_self
      · exact absurd hg (by simp)
  · obtain rfl : cantidad = n := FaseMaster.rafaga.inj hn
    exact (Nat.le_succ cantidad).trans hle
  · rcases hempty with h | h | h
    · exact absurd h (by simp [Planificador.lanzar])
    · exact absurd h (by simp [Planificador.lanzar])
    · -- there is one request less to go than at most `RAFAGA`
      obtain rfl : cantidad = RAFAGA := FaseMaster.rafaga.inj h
      exact absurd hle (Nat.not_succ_le_self _)

/-- The master asks for the nodes; the books do not see it. -/
theorem getNodes (hs : s.Cuentas) (hnil : s.handlersMap = []) :
    { s with fase := .nodos, enviados := s.enviados ++ [Envio.getNodes] }.Cuentas := by
  have hpedidos : { s with fase := .nodos, enviados := s.enviados ++ [Envio.getNodes] }.pedidos
      = s.pedidos := by
    unfold Planificador.pedidos
    rw [List.filterMap_append]
    exact List.append_nil _
  have hliberados : { s with fase := .nodos, enviados := s.enviados ++ [Envio.getNodes] }.liberados
      = s.liberados := by
    unfold Planificador.liberados
    rw [List.filterMap_append]
    exact List.append_nil _
  refine ⟨hs.nodup, fun j => ?_, hliberados ▸ hs.once, fun j hj => ?_, hs.buzon, hs.handler,
    hs.alive, (fun n hn => nomatch hn), fun _ => hnil⟩
  · rw [hpedidos, hliberados]
    exact hs.mem_claves j
  · rw [hliberados] at hj
    rw [hpedidos]
    exact hs.asked j hj

/-- A line in `masterloop`, whatever it says. -/
theorem recibir (hs : s.Cuentas) (linea : CString) : (s.recibir linea).Cuentas := by
  unfold Planificador.recibir
  split
  · exact hs.setFase s.mapsList (fun n hn => nomatch hn) (by simp)
  · exact hs.setFase s.mapsList (fun n hn => nomatch hn) (by simp)
  · split
    · next pid _ =>
      exact (hs.avisar pid _).setFase s.mapsList (fun n hn => nomatch hn) (by simp)
    · exact hs.setFase s.mapsList (fun n hn => nomatch hn) (by simp)

/-- A line in `get_nodes_recv`, whatever it says. -/
theorem recibirNodos (hs : s.Cuentas) (hfase : s.fase = .nodos) (linea : CString) :
    (s.recibirNodos linea).Cuentas := by
  have hnil := hs.empty (Or.inl hfase)
  unfold Planificador.recibirNodos
  split
  · exact hs
  · split
    · exact hs.setFase s.mapsList (fun n hn => nomatch hn) (fun _ => hnil)
    · exact hs.setFase s.mapsList (fun n hn => nomatch hn) (fun _ => hnil)
    · exact hs.setFase _ (fun n hn => nomatch hn) (fun _ => hnil)

end Cuentas

/-- **Every step keeps the books**, as long as the master is there. -/
theorem Cuentas.step {s t : Planificador} (hs : s.fase ≠ .fin → s.Cuentas) {a : Suceso}
    (hstep : s.step a = some t) (hfin : t.fase ≠ .fin) : t.Cuentas := by
  cases a with
  | master =>
    have hstep : s.avanzar = some t := hstep
    unfold avanzar at hstep
    split at hstep
    · next hfase =>
      have hs := hs (by rw [hfase]; decide)
      split at hstep
      · next hnil =>
        obtain rfl := Option.some.inj hstep
        exact hs.getNodes hnil
      · split at hstep
        · obtain rfl := Option.some.inj hstep
          exact absurd rfl hfin
        · obtain rfl := Option.some.inj hstep
          exact hs.setFase s.mapsList (fun n hn => nomatch hn) (by simp)
    · next hfase =>
      have hs := hs (by rw [hfase]; decide)
      obtain rfl := Option.some.inj hstep
      exact hs.setFase s.mapsList (fun n hn => (FaseMaster.rafaga.inj hn).ge)
        (fun _ => hs.empty (Or.inr (Or.inl hfase)))
    · next hfase =>
      have hs := hs (by rw [hfase]; decide)
      obtain rfl := Option.some.inj hstep
      exact hs.setFase s.mapsList (fun n hn => nomatch hn) (by simp)
    · next hfase =>
      have hs := hs (by rw [hfase]; decide)
      split at hstep
      · next jobId resto hbuzon =>
        obtain rfl := Option.some.inj hstep
        exact hs.liberar hbuzon
      · obtain rfl := Option.some.inj hstep
        exact hs.setFase s.mapsList (fun n hn => nomatch hn) (by simp)
    · exact absurd hstep (by simp)
  | peticion comando jobId =>
    have hstep : s.pedir comando jobId = some t := hstep
    unfold pedir at hstep
    split at hstep
    · next cantidad hfase =>
      have hs := hs (by rw [hfase]; simp)
      split at hstep
      · obtain rfl := Option.some.inj hstep
        have hle : cantidad + 1 ≤ RAFAGA := hs.rafaga _ hfase
        refine hs.setFase s.mapsList (fun n hn => ?_) (fun hempty => ?_)
        · obtain rfl := FaseMaster.rafaga.inj hn
          exact (Nat.le_succ _).trans hle
        · rcases hempty with h | h | h
          · exact absurd h (by simp)
          · exact absurd h (by simp)
          · obtain rfl := FaseMaster.rafaga.inj h
            exact absurd hle (Nat.not_succ_le_self _)
      · split at hstep
        · exact absurd hstep (by simp)
        · next hnew =>
          obtain rfl := Option.some.inj hstep
          exact hs.lanzar hfase comando hnew
    · exact absurd hstep (by simp)
  | linea linea =>
    change (if s.fase = .red then some (s.recibir linea)
      else if s.fase = .nodos then some (s.recibirNodos linea) else none) = some t at hstep
    split at hstep
    · next hfase =>
      obtain rfl := Option.some.inj hstep
      exact (hs (by rw [hfase]; decide)).recibir linea
    · split at hstep
      · next hfase =>
        obtain rfl := Option.some.inj hstep
        exact (hs (by rw [hfase]; decide)).recibirNodos hfase linea
      · exact absurd hstep (by simp)
  | silencio =>
    change (if s.fase = .red then some { s with fase := .entrada } else none) = some t at hstep
    split at hstep
    · next hfase =>
      obtain rfl := Option.some.inj hstep
      exact (hs (by rw [hfase]; decide)).setFase s.mapsList (fun n hn => nomatch hn) (by simp)
    · exact absurd hstep (by simp)
  | respuesta pid =>
    obtain ⟨h, hh, hstep⟩ := Option.bind_eq_some_iff.mp hstep
    split at hstep
    · next hest =>
      have halive : h.estado ≠ .terminado := by rw [hest]; decide
      split at hstep
      · exact absurd hstep (by simp)
      · obtain rfl := Option.some.inj hstep
        exact (hs hfin).setHandler hh rfl halive (by simp)
      · obtain rfl := Option.some.inj hstep
        exact (hs hfin).terminar hfin hh rfl halive
    · exact absurd hstep (by simp)
  | expira pid =>
    obtain ⟨h, hh, hstep⟩ := Option.bind_eq_some_iff.mp hstep
    split at hstep
    · next hest =>
      obtain rfl := Option.some.inj hstep
      exact (hs hfin).terminar hfin hh rfl (by rw [hest.1]; decide)
    · exact absurd hstep (by simp)
  | trabajado pid =>
    obtain ⟨h, hh, hstep⟩ := Option.bind_eq_some_iff.mp hstep
    split at hstep
    · next hest =>
      obtain rfl := Option.some.inj hstep
      exact (hs hfin).terminar hfin hh rfl (by rw [hest]; decide)
    · exact absurd hstep (by simp)

/-- The books balance all along. -/
theorem cuentas_of_reaches {s : Planificador}
    (hrun : Reaches step (fun _ _ => True) Planificador.inicial s) (hfin : s.fase ≠ .fin) :
    s.Cuentas :=
  hrun.invariant (I := fun s => s.fase ≠ .fin → s.Cuentas) (fun _ => Cuentas.inicial)
    (fun _ _ _ hs _ hstep hfin => Cuentas.step hs hstep hfin) hfin

/-- **The planner releases each job once and loses none**: at every entry of
`masterloop`, whatever the agent answered and however late. -/
theorem masterloop_cuentas {s : Planificador}
    (hrun : Reaches step (fun _ _ => True) Planificador.inicial s) :
    (s.fase = .entrada →
      (∀ j, j ∈ s.claves ↔ j ∈ s.pedidos ∧ j ∉ s.liberados) ∧
      s.liberados.Nodup ∧
      ∀ j pid, (j, pid) ∈ s.handlersMap →
        ∃ h, s.handlers[pid]? = some h ∧ h.jobId = j ∧
          ((h.estado ≠ .terminado ∧ j ∉ s.buzon)
            ∨ (h.estado = .terminado ∧ s.buzon.count j = 1))) ∧
    (s.fase = .pausa ∨ s.fase = .rafaga RAFAGA → ∀ j ∈ s.pedidos, j ∈ s.liberados) := by
  refine ⟨fun hfase => ?_, fun hfase j hj => ?_⟩
  · have hs := cuentas_of_reaches hrun (by rw [hfase]; decide)
    refine ⟨hs.mem_claves, hs.once, fun j pid hmem => ?_⟩
    obtain ⟨h, hh, hid, hcount⟩ := hs.handler j pid hmem
    refine ⟨h, hh, hid, ?_⟩
    by_cases hdone : h.estado = .terminado
    · exact Or.inr ⟨hdone, by rw [hcount, if_pos hdone]⟩
    · exact Or.inl ⟨hdone, List.count_eq_zero.mp (by rw [hcount, if_neg hdone])⟩
  · have hs := cuentas_of_reaches hrun (by rcases hfase with h | h <;> rw [h] <;> simp)
    have hnil := hs.empty (Or.inr hfase)
    -- a job that was not released would be a key
    by_contra hopen
    have hkey := (hs.mem_claves j).mpr ⟨hj, hopen⟩
    unfold claves at hkey
    rw [hnil] at hkey
    exact absurd hkey List.not_mem_nil

/-- After a burst with one job, which was granted and is done. -/
theorem masterloop_cuentas_unJob : ∃ s, Reaches step (fun _ _ => True) Planificador.inicial s ∧
    s.fase = .entrada ∧ s.claves = [7] ∧ s.buzon = [7] ∧ s.liberados.Nodup := by
  have hcheck : (Reaches.checked step (fun _ _ => true) Planificador.inicial
      [.master, .linea "NODES 10.0.0.1:4000:cpu:4:mem:1024:gpu:0\n".toList, .master,
       .peticion "@10.0.0.1:cpu:2".toList 7, .peticion [] 0, .master, .master,
       .linea "JOB_GRANTED 7\n".toList, .respuesta 0, .trabajado 0]).any
      (fun s => decide (s.fase = .entrada ∧ s.claves = [7] ∧ s.buzon = [7])) = true := by
    decide
  obtain ⟨s, -, hrun, hs⟩ := Reaches.of_checked (fun _ _ _ => trivial) hcheck
  obtain ⟨hfase, hclaves, hbuzon⟩ := of_decide_eq_true hs
  exact ⟨s, hrun, hfase, hclaves, hbuzon, ((masterloop_cuentas hrun).1 hfase).2.1⟩

end Planificador

end Hpc
