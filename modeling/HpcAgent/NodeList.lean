import HpcAgent.Lib.ErlString
import HpcAgent.ResourceManager

/-!
# The list of nodes

`get_nodes_recv` and `armar_lista` of `c_agent_client.erl`, which read the line
`process_message` answers a `GET_NODES` with. The agent writes an entry per
node, separated by semicolons, as long as its buffer has room; the planner
splits at the semicolons and the colons, and makes a map of each entry.

An entry is written whole or not at all, and the newline takes the place of the
last separator, so the two agree on every table, however much of it the buffer
holds (`getNodesRecv_nodesLine`).
-/

namespace Hpc

open Scan Erl

/-! ## The planner's side -/

/-- An Erlang map with string keys. -/
abbrev Mapa := CString → Option CString

/-- `maps:from_list`: of two values for a key the last one stays. -/
def mapsFromList (l : List (CString × CString)) : Mapa := fun key =>
  (l.reverse.find? (fun r => r.1 == key)).map (·.2)

/-- A pair in front of pairs with other keys. -/
theorem mapsFromList_cons {r : CString × CString} {l : List (CString × CString)}
    (h : r.1 ∉ l.map (·.1)) (key : CString) :
    mapsFromList (r :: l) key = if key = r.1 then some r.2 else mapsFromList l key := by
  unfold mapsFromList
  rw [List.reverse_cons, List.find?_append]
  split
  · next hkey =>
    have hnone : l.reverse.find? (fun q => q.1 == key) = none := by
      refine List.find?_eq_none.mpr (fun q hq heq => h ?_)
      rw [← hkey, ← eq_of_beq heq]
      exact List.mem_map_of_mem (List.mem_reverse.mp hq)
    rw [hnone, Option.none_or, List.find?_cons_of_pos (by simp [hkey])]
    rfl
  · next hkey =>
    rw [List.find?_cons_of_neg (by simpa using Ne.symm hkey), List.find?_nil, Option.or_none]

/-- `"host"`. -/
def claveHost : CString := ['h', 'o', 's', 't']

/-- `armar_lista`; `none` is a list no clause matches. -/
def armarLista : List CString → Option (List (CString × CString))
  | [] => some []
  | [_] => none
  | [first, second] =>
    some [(first, if first = Resource.gpu.toStr then trim second else second)]
  | first :: second :: third :: tail =>
    if first = claveHost then (armarLista tail).map ((first, second) :: ·)
    else (armarLista (third :: tail)).map
      ((first, if first = Resource.gpu.toStr then trim second else second) :: ·)

/-- `"NODES "`. -/
def nodesPrefix : CString := ['N', 'O', 'D', 'E', 'S', ' ']

/-- The map of one node: `maps:from_list(armar_lista(["host" | …]))`. -/
def leerNodo (nodo : CString) : Option Mapa :=
  (armarLista (claveHost :: nodo.splitOn ':')).map mapsFromList

/-- The maps of a `NODES` line, without the word. -/
def leerNodos (data : CString) : Option (List Mapa) :=
  (((trim data).splitOn ';').filter (fun nodo => !nodo.isEmpty)).mapM leerNodo

/-- **`get_nodes_recv`**, on the lines the socket delivers until it fails: lines of
another kind are skipped. -/
def getNodesRecv : List CString → Option (List Mapa)
  | [] => some []
  | line :: lines =>
    match nodesPrefix.isPrefixOf? line with
    | some data => leerNodos data
    | none => getNodesRecv lines

/-! ## The agent's side -/

/-- `inet_ntop` for an IPv4 address. -/
def inetNtop (a b c d : UInt8) : CString :=
  showInt a.toNat ++ '.' :: (showInt b.toNat ++ '.' :: (showInt c.toNat ++ '.' :: showInt d.toNat))

namespace NodeEntry

/-- The fields of an entry, in the order they are written. -/
def campos (e : NodeEntry) : List CString :=
  [e.ip, showInt e.puerto.toInt, Resource.cpu.toStr, showInt e.cpuDisp.toInt,
    Resource.mem.toStr, showInt e.memDisp.toInt, Resource.gpu.toStr, showInt e.gpuDisp.toInt]

/-- What the planner is to know of a node. -/
def mapa (e : NodeEntry) : Mapa := fun key =>
  if key = claveHost then some e.ip
  else if key = Resource.cpu.toStr then some (showInt e.cpuDisp.toInt)
  else if key = Resource.mem.toStr then some (showInt e.memDisp.toInt)
  else if key = Resource.gpu.toStr then some (showInt e.gpuDisp.toInt)
  else none

/-- An entry whose address is one that `inet_ntop` wrote. -/
def Escrita (e : NodeEntry) : Prop := ∃ a b c d, e.ip = inetNtop a b c d

end NodeEntry

/-- Text without separators and white space. -/
def Limpio (s : CString) : Prop := ∀ c ∈ s, c ≠ ':' ∧ c ≠ ';' ∧ whitespace c = false

theorem limpio_append {s t : CString} (hs : Limpio s) (ht : Limpio t) : Limpio (s ++ t) :=
  fun c hc => (List.mem_append.mp hc).elim (hs c) (ht c)

theorem limpio_cons {c : Char} {s : CString} (hc : c ≠ ':' ∧ c ≠ ';' ∧ whitespace c = false)
    (hs : Limpio s) : Limpio (c :: s) := List.forall_mem_cons.mpr ⟨hc, hs⟩

theorem limpio_showInt (v : ℤ) : Limpio (showInt v) := by
  intro c hc
  refine ⟨?_, ?_, whitespace_of_mem_showInt hc⟩
  all_goals
    rintro rfl
    rcases mem_showInt hc with h | h
    · exact absurd h (by decide)
    · exact absurd h (by decide)

theorem limpio_toStr (t : Resource) : Limpio t.toStr := by
  have hall : t.toStr.all (fun c => c != ':' && c != ';' && !whitespace c) = true := by
    cases t <;> rfl
  intro c hc
  simpa [and_assoc] using List.all_eq_true.mp hall c hc

theorem limpio_inetNtop (a b c d : UInt8) : Limpio (inetNtop a b c d) := by
  have hdot : '.' ≠ ':' ∧ '.' ≠ ';' ∧ whitespace '.' = false := by decide
  exact limpio_append (limpio_showInt _) (limpio_cons hdot (limpio_append (limpio_showInt _)
    (limpio_cons hdot (limpio_append (limpio_showInt _) (limpio_cons hdot (limpio_showInt _))))))

theorem length_inetNtop (a b c d : UInt8) : (inetNtop a b c d).length ≤ 19 := by
  have hbyte : ∀ x : UInt8, (showInt x.toNat).length ≤ 4 := fun x => by
    refine length_showInt_le (k := 3) (by decide) ?_
    have hlt : x.toNat < 256 := x.toNat_lt
    exact lt_of_lt_of_le hlt (by norm_num)
  have ha := hbyte a
  have hb := hbyte b
  have hc := hbyte c
  have hd := hbyte d
  unfold inetNtop
  simp only [List.length_append, List.length_cons]
  omega

namespace NodeEntry

variable {e : NodeEntry}

theorem limpio_campos (h : e.Escrita) : ∀ s ∈ e.campos, Limpio s := by
  obtain ⟨a, b, c, d, hip⟩ := h
  unfold campos
  rw [hip]
  simp only [List.forall_mem_cons]
  exact ⟨limpio_inetNtop a b c d, limpio_showInt _, limpio_toStr _, limpio_showInt _,
    limpio_toStr _, limpio_showInt _, limpio_toStr _, limpio_showInt _,
    fun s hs => absurd hs List.not_mem_nil⟩

/-- **An entry is written whole**: the buffer of 128 does not cut it. -/
theorem text_eq (h : e.Escrita) : e.text = [':'].intercalate e.campos ++ [';'] := by
  obtain ⟨a, b, c, d, hip⟩ := h
  have hlen := length_inetNtop a b c d
  have hpuerto := length_showInt_int32 e.puerto
  have hcpu := length_showInt_int32 e.cpuDisp
  have hmem := length_showInt_int32 e.memDisp
  have hgpu := length_showInt_int32 e.gpuDisp
  have hname : ∀ t : Resource, t.toStr.length = 3 := fun t => by cases t <;> rfl
  unfold text copyTo campos
  rw [List.take_of_length_le]
  · simp [List.intercalate]
  · rw [hip]
    simp only [List.length_append, List.length_cons, List.length_nil, hname]
    omega

/-- The planner splits an entry into its fields. -/
theorem splitOn_campos (h : e.Escrita) :
    ([':'].intercalate e.campos).splitOn ':' = e.campos :=
  List.splitOn_intercalate ':' (fun s hs hmem => (limpio_campos h s hs ':' hmem).1 rfl)
    (List.cons_ne_nil _ _)

/-- **The planner reads an entry back.** -/
theorem leerNodo_campos (h : e.Escrita) :
    leerNodo ([':'].intercalate e.campos) = some e.mapa := by
  have hlist : armarLista (claveHost :: e.campos)
      = some [(claveHost, e.ip), (Resource.cpu.toStr, showInt e.cpuDisp.toInt),
        (Resource.mem.toStr, showInt e.memDisp.toInt),
        (Resource.gpu.toStr, showInt e.gpuDisp.toInt)] := by
    have htrim : trim (showInt e.gpuDisp.toInt) = showInt e.gpuDisp.toInt :=
      trim_eq_self (fun c hc => whitespace_of_mem_showInt hc)
    have hcpu : Resource.cpu.toStr ≠ claveHost ∧ Resource.cpu.toStr ≠ Resource.gpu.toStr := by
      decide
    have hmem : Resource.mem.toStr ≠ claveHost ∧ Resource.mem.toStr ≠ Resource.gpu.toStr := by
      decide
    unfold campos
    simp [armarLista, hcpu.1, hcpu.2, hmem.1, hmem.2, htrim]
  unfold leerNodo
  rw [splitOn_campos h, hlist, Option.map_some]
  refine congrArg some (funext fun key => ?_)
  have hkeys : [claveHost, Resource.cpu.toStr, Resource.mem.toStr, Resource.gpu.toStr].Nodup := by
    decide
  simp only [List.nodup_cons] at hkeys
  obtain ⟨hhost, hcpu, hmem, hgpu, -⟩ := hkeys
  unfold mapa
  rw [mapsFromList_cons hhost, mapsFromList_cons hcpu, mapsFromList_cons hmem,
    mapsFromList_cons hgpu]
  rfl

end NodeEntry

/-! ## The line -/

/-- The entries the buffer has room for, when it holds that many characters. -/
def caben : ℕ → List NodeEntry → List NodeEntry
  | _, [] => []
  | len, e :: es =>
    if len + e.text.length < BUFF_SIZE - 2 then e :: caben (len + e.text.length) es
    else caben len es

theorem caben_sublist (len : ℕ) (l : List NodeEntry) : (caben len l).Sublist l := by
  induction l generalizing len with
  | nil => exact List.Sublist.slnil
  | cons e l ih =>
    rw [caben]
    split
    · exact (ih _).cons_cons e
    · exact (ih _).cons e

/-- The whole table fits if its text does. -/
theorem caben_eq_self {len : ℕ} {l : List NodeEntry}
    (h : len + (l.map (fun e => e.text.length)).sum < BUFF_SIZE - 2) : caben len l = l := by
  induction l generalizing len with
  | nil => rfl
  | cons e l ih =>
    rw [List.map_cons, List.sum_cons] at h
    rw [caben, if_pos (by omega), ih (by omega)]

/-- **What the loop writes**: the entries that fit, behind what is there. -/
theorem foldl_caben (buf : CString) (l : List NodeEntry) :
    l.foldl (fun buf e =>
        if buf.length + e.text.length < BUFF_SIZE - 2 then buf ++ e.text else buf) buf
      = buf ++ (caben buf.length l).flatMap NodeEntry.text := by
  induction l generalizing buf with
  | nil => exact (List.append_nil buf).symm
  | cons e l ih =>
    rw [List.foldl_cons, ih, caben]
    split
    · rw [List.length_append, List.flatMap_cons, List.append_assoc]
    · rfl

/-- The loop leaves room for the newline and the NUL. -/
theorem length_caben {len : ℕ} (h : len < BUFF_SIZE - 2) (l : List NodeEntry) :
    len + ((caben len l).flatMap NodeEntry.text).length < BUFF_SIZE - 2 := by
  induction l generalizing len with
  | nil => exact h
  | cons e l ih =>
    rw [caben]
    split
    · next hfits =>
      rw [List.flatMap_cons, List.length_append, ← Nat.add_assoc]
      exact ih hfits
    · exact ih h

/-- **The line fits its buffers**, with the newline and the NUL. -/
theorem length_nodesLine (t : TablaNodos) : (nodesLine t).length < BUFF_SIZE := by
  have hlen : (t.entries.foldl (fun buf e =>
      if buf.length + e.text.length < BUFF_SIZE - 2 then buf ++ e.text else buf)
      ['N', 'O', 'D', 'E', 'S', ' ']).length < BUFF_SIZE - 2 := by
    rw [foldl_caben, List.length_append]
    exact length_caben (by decide) t.entries
  have hone : (['\n'] : CString).length = 1 := rfl
  unfold nodesLine
  dsimp only
  split
  · rw [List.length_append, List.length_dropLast]
    omega
  · rw [List.length_append]
    omega

/-- The texts of the entries, one behind the other, are the entries separated by
semicolons, and one more semicolon. -/
theorem flatMap_text {l : List NodeEntry} (hl : ∀ e ∈ l, e.Escrita) (hne : l ≠ []) :
    l.flatMap NodeEntry.text
      = [';'].intercalate (l.map (fun e => [':'].intercalate e.campos)) ++ [';'] := by
  induction l with
  | nil => exact absurd rfl hne
  | cons e l ih =>
    have he := NodeEntry.text_eq (hl e List.mem_cons_self)
    rw [List.flatMap_cons, he]
    cases l with
    | nil => simp [List.intercalate]
    | cons e' l =>
      rw [ih (fun e he => hl e (List.mem_cons_of_mem _ he)) (List.cons_ne_nil _ _)]
      simp [List.intercalate]

/-- **The line**: the entries that fit, separated by semicolons, and a newline. -/
theorem nodesLine_eq (t : TablaNodos) (ht : ∀ e ∈ t.entries, e.Escrita) :
    nodesLine t = nodesPrefix
      ++ ([';'].intercalate ((caben 6 t.entries).map (fun e => [':'].intercalate e.campos))
        ++ ['\n']) := by
  have hwritten : ∀ e ∈ caben 6 t.entries, e.Escrita := fun e he =>
    ht e ((caben_sublist 6 t.entries).subset he)
  unfold nodesLine
  rw [foldl_caben]
  by_cases hnil : caben 6 t.entries = []
  · have hbuf : (['N', 'O', 'D', 'E', 'S', ' '] : CString)
        ++ (caben (['N', 'O', 'D', 'E', 'S', ' '] : CString).length t.entries).flatMap
          NodeEntry.text = nodesPrefix := by
      show nodesPrefix ++ (caben 6 t.entries).flatMap NodeEntry.text = nodesPrefix
      rw [hnil, List.flatMap_nil, List.append_nil]
    rw [hbuf, hnil]
    rfl
  · have hbuf : (['N', 'O', 'D', 'E', 'S', ' '] : CString)
        ++ (caben (['N', 'O', 'D', 'E', 'S', ' '] : CString).length t.entries).flatMap
          NodeEntry.text = (nodesPrefix ++ [';'].intercalate
            ((caben 6 t.entries).map (fun e => [':'].intercalate e.campos))) ++ [';'] := by
      show nodesPrefix ++ (caben 6 t.entries).flatMap NodeEntry.text = _
      rw [flatMap_text hwritten hnil, List.append_assoc]
    have hlong : 6 < ((nodesPrefix ++ [';'].intercalate
        ((caben 6 t.entries).map (fun e => [':'].intercalate e.campos))) ++ [';']).length := by
      rw [List.length_append, List.length_append]
      show 6 < 6 + _ + 1
      omega
    dsimp only
    rw [hbuf, if_pos ⟨hlong, List.getLast?_concat⟩, List.dropLast_concat, List.append_assoc]

/-- What separators and pieces are made of, the whole is made of. -/
theorem forall_mem_intercalate {P : Char → Prop} {sep : CString} {l : List CString}
    (hsep : ∀ c ∈ sep, P c) (hl : ∀ s ∈ l, ∀ c ∈ s, P c) : ∀ c ∈ sep.intercalate l, P c := by
  induction l with
  | nil => exact fun c hc => absurd hc List.not_mem_nil
  | cons s l ih =>
    have hs := hl s List.mem_cons_self
    cases l with
    | nil => simpa [List.intercalate] using hs
    | cons s' l =>
      have hrest := ih (fun s hs => hl s (List.mem_cons_of_mem _ hs))
      have hcons : sep.intercalate (s :: s' :: l) = s ++ (sep ++ sep.intercalate (s' :: l)) := by
        simp [List.intercalate]
      rw [hcons]
      intro c hc
      rcases List.mem_append.mp hc with hc | hc
      · exact hs c hc
      · exact (List.mem_append.mp hc).elim (hsep c) (hrest c)

/-- An entry on the wire has no semicolon and no white space. -/
theorem NodeEntry.entrada_chars {e : NodeEntry} (h : e.Escrita) :
    ∀ c ∈ [':'].intercalate e.campos, c ≠ ';' ∧ whitespace c = false := by
  refine forall_mem_intercalate (fun c hc => ?_)
    (fun s hs c hc => (NodeEntry.limpio_campos h s hs c hc).2)
  rw [List.mem_singleton.mp hc]
  decide

theorem NodeEntry.entrada_ne_nil {e : NodeEntry} : [':'].intercalate e.campos ≠ [] := by
  unfold NodeEntry.campos
  simp [List.intercalate]

/-- The planner reads the entries back, one after the other. -/
theorem mapM_leerNodo {l : List NodeEntry} (hl : ∀ e ∈ l, e.Escrita) :
    (l.map (fun e => [':'].intercalate e.campos)).mapM leerNodo
      = some (l.map NodeEntry.mapa) := by
  induction l with
  | nil => rfl
  | cons e l ih =>
    rw [List.map_cons, List.mapM_cons, NodeEntry.leerNodo_campos (hl e List.mem_cons_self),
      ih (fun e he => hl e (List.mem_cons_of_mem _ he))]
    rfl

/-- **The planner reads the line back.** -/
theorem getNodesRecv_caben (t : TablaNodos) (ht : ∀ e ∈ t.entries, e.Escrita)
    (lines : List CString) :
    getNodesRecv (nodesLine t :: lines) = some ((caben 6 t.entries).map NodeEntry.mapa) := by
  have hwritten : ∀ e ∈ caben 6 t.entries, e.Escrita := fun e he =>
    ht e ((caben_sublist 6 t.entries).subset he)
  have hpieces : ∀ s ∈ (caben 6 t.entries).map (fun e => [':'].intercalate e.campos),
      ∀ c ∈ s, c ≠ ';' ∧ whitespace c = false := by
    intro s hs
    obtain ⟨e, he, rfl⟩ := List.mem_map.mp hs
    exact NodeEntry.entrada_chars (hwritten e he)
  have htrim := trim_append (s := [';'].intercalate
      ((caben 6 t.entries).map (fun e => [':'].intercalate e.campos))) (w := ['\n'])
    (forall_mem_intercalate (fun c hc => by rw [List.mem_singleton.mp hc]; decide)
      (fun s hs c hc => (hpieces s hs c hc).2))
    (fun c hc => by rw [List.mem_singleton.mp hc]; decide)
  rw [getNodesRecv, nodesLine_eq t ht, isPrefixOf?_append]
  dsimp only
  rw [leerNodos, htrim]
  by_cases hnil : caben 6 t.entries = []
  · -- an empty line splits into one empty piece, which is dropped
    rw [hnil]
    rfl
  · rw [List.splitOn_intercalate ';' (fun s hs hmem => (hpieces s hs ';' hmem).1 rfl)
      (by simpa using hnil), List.filter_eq_self.mpr (fun s hs => ?_), mapM_leerNodo hwritten]
    obtain ⟨e, -, rfl⟩ := List.mem_map.mp hs
    simpa using NodeEntry.entrada_ne_nil

/-- **`GET_NODES` is read back faithfully.** For every node table, the line the
agent answers with fits its buffers and ends in its only newline, and the
planner makes of it one map for each entry that was written, in the order of the
table: of all of them, if the text of the table fits. -/
theorem getNodesRecv_nodesLine (conn : Conn) (red : Network) (s : Manager)
    (hip : ∀ e ∈ s.nodos.entries, e.Escrita) :
    ∃ line entries,
      processMessage conn Cmd.getNodes red s
          = (s.emit (.rx conn .getNodes)).emit (.tx conn (.nodes line))
        ∧ line.length < BUFF_SIZE
        ∧ (∃ w, line = w ++ ['\n'] ∧ '\n' ∉ w)
        ∧ entries.Sublist s.nodos.entries
        ∧ (∀ lines, getNodesRecv (line :: lines) = some (entries.map NodeEntry.mapa))
        ∧ (6 + (s.nodos.entries.map (fun e => e.text.length)).sum < BUFF_SIZE - 2 →
          entries = s.nodos.entries) := by
  refine ⟨nodesLine s.nodos, caben 6 s.nodos.entries, rfl, length_nodesLine s.nodos, ?_,
    caben_sublist 6 _, getNodesRecv_caben s.nodos hip, caben_eq_self⟩
  · refine ⟨nodesPrefix ++ [';'].intercalate
      ((caben 6 s.nodos.entries).map (fun e => [':'].intercalate e.campos)), ?_, fun hmem => ?_⟩
    · rw [nodesLine_eq s.nodos hip, List.append_assoc]
    · rcases List.mem_append.mp hmem with hmem | hmem
      · exact absurd hmem (by decide)
      · refine forall_mem_intercalate (P := fun c => c ≠ '\n') (fun c hc => ?_)
          (fun text htext c hc => ?_) '\n' hmem rfl
        · rw [List.mem_singleton.mp hc]
          decide
        · -- the newline is white space, and an entry has none
          obtain ⟨e, he, rfl⟩ := List.mem_map.mp htext
          have hwhite := (NodeEntry.entrada_chars (hip e ((caben_sublist 6 _).subset he)) c hc).2
          rintro rfl
          exact Bool.false_ne_true (hwhite.symm.trans (by decide))

/-- One node has announced itself. -/
theorem getNodesRecv_nodesLine_one :
    ∃ line, processMessage 9 Cmd.getNodes []
          (processAnnounce 0 "10.0.0.2".toList "ANNOUNCE 8100 cpu:4 mem:8192 gpu:1\n".toList
            (managerInit 4 8 1 "10.0.0.1".toList))
        = ((processAnnounce 0 "10.0.0.2".toList "ANNOUNCE 8100 cpu:4 mem:8192 gpu:1\n".toList
            (managerInit 4 8 1 "10.0.0.1".toList)).emit (.rx 9 .getNodes)).emit
          (.tx 9 (.nodes line))
      ∧ ∀ lines, getNodesRecv (line :: lines)
        = some [NodeEntry.mapa ⟨"10.0.0.2".toList, 8100, 4, 8192, 1, 0⟩] := by
  have hentries : (processAnnounce 0 "10.0.0.2".toList
      "ANNOUNCE 8100 cpu:4 mem:8192 gpu:1\n".toList
      (managerInit 4 8 1 "10.0.0.1".toList)).nodos.entries
      = [⟨"10.0.0.2".toList, 8100, 4, 8192, 1, 0⟩] := by
    decide +kernel
  obtain ⟨line, entries, hmsg, -, -, -, hread, hall⟩ := getNodesRecv_nodesLine 9 []
    (processAnnounce 0 "10.0.0.2".toList "ANNOUNCE 8100 cpu:4 mem:8192 gpu:1\n".toList
      (managerInit 4 8 1 "10.0.0.1".toList)) (fun e he => by
        rw [hentries] at he
        rw [List.mem_singleton.mp he]
        exact ⟨10, 0, 0, 2, by decide +kernel⟩)
  refine ⟨line, hmsg, fun lines => ?_⟩
  rw [hread lines, hall (by rw [hentries]; decide +kernel), hentries]
  rfl

end Hpc
