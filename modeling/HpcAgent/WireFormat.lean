import HpcAgent.Lib.Lines
import HpcAgent.Masterloop
import HpcAgent.Parsing

/-!
# The wire

The lines between the components as they leave: `send_message` prints a message
and a newline into its buffer, `main` and `broadcast_loop` print the `ANNOUNCE`.
The readers are `process_message`, which gets a line without its newline,
`masterloop`, which gets it with the newline, and `parse_announce`, which gets a
datagram and splits it at the blanks, so that the newline stands in the last
field. Each reads back what was written (`wire_roundTrip`).
-/

namespace Hpc

open Scan Erl

/-! ## What is written -/

/-- The buffer of `send_message`: `vsnprintf` of a format that ends in a newline. -/
def Message.wire (m : Message) : CString := copyTo BUFF_SIZE (m.line ++ ['\n'])

/-- A field of the `ANNOUNCE`: `<name>:%d`. -/
def announceField (f : Resource × Int32) : CString := f.1.toStr ++ ':' :: showInt f.2.toInt

/-- The `announce_msg` of `main` and `broadcast_loop`, with its fields in the order
given. -/
def announceLine (puerto : Int32) (fields : List (Resource × Int32)) : CString :=
  copyTo 256 (Cmd.announce ++ ' ' :: showInt puerto.toInt
    ++ fields.flatMap (fun f => ' ' :: announceField f) ++ ['\n'])

/-! ## The lines of the agents -/

theorem length_toStr (t : Resource) : t.toStr.length = 3 := by cases t <;> rfl

theorem separators_not_mem_toStr (t : Resource) : ' ' ∉ t.toStr ∧ '\n' ∉ t.toStr := by
  cases t <;> decide

theorem newline_not_mem_showInt (v : ℤ) : '\n' ∉ showInt v := by
  intro h
  have hspace := whitespace_of_mem_showInt h
  exact absurd hspace (by decide)

/-- What goes on the wire between the agents and to the planner, but for the
`JOB_STATUS` and the `NODES`. -/
def Message.isAnswer : Message → Bool
  | .jobGranted _ | .jobDenied _ => true
  | m => m.isAgent

/-- A line of an id. -/
theorem length_idLine {cmd : CString} (hcmd : cmd.length ≤ 11) (jobId : Int32) :
    (idLine cmd jobId).length ≤ 23 := by
  have hid := length_showInt_int32 jobId
  unfold idLine
  rw [List.length_append, List.length_cons]
  omega

theorem newline_not_mem_idLine {cmd : CString} (hcmd : '\n' ∉ cmd) (jobId : Int32) :
    '\n' ∉ idLine cmd jobId := by
  unfold idLine
  rw [List.mem_append, List.mem_cons, not_or, not_or]
  exact ⟨hcmd, by decide, newline_not_mem_showInt _⟩

/-- A line of an id, a resource and an amount. -/
theorem length_resourceLine {cmd : CString} (hcmd : cmd.length ≤ 11) (jobId : Int32)
    (type : Resource) (amount : Int32) :
    (resourceLine cmd jobId type amount).length ≤ 39 := by
  have hid := length_showInt_int32 jobId
  have hamount := length_showInt_int32 amount
  unfold resourceLine
  simp only [List.length_append, List.length_cons, length_toStr]
  omega

theorem newline_not_mem_resourceLine {cmd : CString} (hcmd : '\n' ∉ cmd) (jobId : Int32)
    (type : Resource) (amount : Int32) : '\n' ∉ resourceLine cmd jobId type amount := by
  unfold resourceLine
  simp only [List.mem_append, List.mem_cons, not_or]
  exact ⟨hcmd, by decide, newline_not_mem_showInt _, by decide, (separators_not_mem_toStr type).2,
    by decide, newline_not_mem_showInt _⟩

/-- A line and its newline fit the buffer, and the newline is the only one. -/
theorem Message.line_fits {m : Message} (h : m.isAnswer = true) :
    m.line.length ≤ 39 ∧ '\n' ∉ m.line := by
  cases m with
  | reserve j t a =>
    exact ⟨length_resourceLine (by decide) j t a, newline_not_mem_resourceLine (by decide) j t a⟩
  | release j t a =>
    exact ⟨length_resourceLine (by decide) j t a, newline_not_mem_resourceLine (by decide) j t a⟩
  | granted j | denied j | jobGranted j | jobDenied j =>
    exact ⟨(length_idLine (by decide) j).trans (by decide), newline_not_mem_idLine (by decide) j⟩
  | _ => exact absurd h Bool.false_ne_true

/-- **Nothing is cut off**: what leaves is the line and its newline. -/
theorem Message.wire_eq {m : Message} (h : m.isAnswer = true) : m.wire = m.line ++ ['\n'] := by
  have hlen := (m.line_fits h).1
  refine List.take_of_length_le ?_
  rw [List.length_append, List.length_singleton, BUFF_SIZE]
  omega

/-- The reader of the stream finds the line. -/
theorem Message.complete_wire {m : Message} (h : m.isAnswer = true) :
    Lines.complete '\n' m.wire = [m.line] := by
  rw [m.wire_eq h, Lines.complete_line (m.line_fits h).2]
  rfl

/-! ## The lines of the planner -/

theorem leerId_showInt (tipo : TipoMensaje) (v : ℤ) :
    leerId tipo (showInt v) = .mensaje tipo v := by
  unfold leerId
  rw [trim_eq_self (fun c hc => whitespace_of_mem_showInt hc), listToInteger_showInt]

/-- `masterloop` cuts the newline. -/
theorem trimTrailing_wire {m : Message} (h : m.isAnswer = true) :
    trimTrailing '\n' m.wire = m.line := by
  rw [m.wire_eq h]
  exact trimTrailing_concat (m.line_fits h).2

/-- What stands behind the word and the blank. -/
theorem isPrefixOf?_idLine (cmd : CString) (jobId : Int32) :
    (cmd ++ [' ']).isPrefixOf? (idLine cmd jobId) = some (showInt jobId.toInt) := by
  have hline : idLine cmd jobId = (cmd ++ [' ']) ++ showInt jobId.toInt := by
    unfold idLine
    rw [List.append_assoc]
    rfl
  rw [hline, isPrefixOf?_append]

theorem leerLinea_jobGranted (jobId : Int32) :
    leerLinea (Message.jobGranted jobId).wire = .mensaje .granted jobId.toInt := by
  unfold leerLinea
  rw [trimTrailing_wire rfl]
  dsimp only [Message.line]
  rw [isPrefixOf?_idLine]
  exact leerId_showInt .granted jobId.toInt

theorem leerLinea_jobDenied (jobId : Int32) :
    leerLinea (Message.jobDenied jobId).wire = .mensaje .denied jobId.toInt := by
  have hother : (Cmd.jobGranted ++ [' ']).isPrefixOf? (idLine Cmd.jobDenied jobId) = none := rfl
  unfold leerLinea
  rw [trimTrailing_wire rfl]
  dsimp only [Message.line]
  rw [hother, isPrefixOf?_idLine]
  exact leerId_showInt .denied jobId.toInt

/-! ## The `ANNOUNCE` -/

/-- A field stored in the record. -/
def AnnounceMsg.set (r : AnnounceMsg) (f : Resource × Int32) : AnnounceMsg :=
  match f.1 with
  | .cpu => { r with cpu := f.2 }
  | .mem => { r with mem := f.2 }
  | .gpu => { r with gpu := f.2 }

/-- Two fields of different resources are stored in any order. -/
theorem AnnounceMsg.set_comm (r : AnnounceMsg) {f g : Resource × Int32} (h : f.1 ≠ g.1) :
    (r.set f).set g = (r.set g).set f := by
  obtain ⟨s, v⟩ := f
  obtain ⟨t, w⟩ := g
  cases s <;> cases t <;> first | rfl | exact absurd rfl h

theorem blank_not_mem_announceField (f : Resource × Int32) : ' ' ∉ announceField f := by
  unfold announceField
  rw [List.mem_append, List.mem_cons, not_or, not_or]
  exact ⟨(separators_not_mem_toStr f.1).1, by decide, blank_not_mem_showInt _⟩

theorem announceField_ne_nil (f : Resource × Int32) : announceField f ≠ [] := by
  unfold announceField
  exact List.append_ne_nil_of_right_ne_nil _ (List.cons_ne_nil _ _)

theorem length_announceField (f : Resource × Int32) : (announceField f).length ≤ 15 := by
  have hvalue := length_showInt_int32 f.2
  unfold announceField
  rw [List.length_append, List.length_cons, length_toStr]
  omega

/-- The scan of the resource's own name. -/
theorem parseComponent_self (t : Resource) (v : Int32) {tail : CString}
    (htail : ∀ c ∈ tail.head?, c.isDigit = false) :
    parseComponent t.toStr (announceField (t, v) ++ tail) = some v := by
  have hfield : announceField (t, v) ++ tail
      = (t.toStr ++ [':']) ++ (showInt v.toInt ++ tail) := by
    unfold announceField
    rw [List.append_assoc, List.append_assoc]
    rfl
  unfold parseComponent
  rw [hfield, isPrefixOf?_append]
  simp only [Option.bind_eq_bind, Option.bind_some, int?_showInt v htail]
  rfl

/-- **One round of the loop**: the field is stored, whatever stands behind its
digits. -/
theorem parseComponents_field (n : ℕ) (f : Resource × Int32) {tail : CString}
    (htail : ∀ c ∈ tail.head?, c.isDigit = false) (rest : List CString) (r : AnnounceMsg) :
    parseComponents (n + 1) ((announceField f ++ tail) :: rest) r
      = parseComponents n rest (r.set f) := by
  obtain ⟨t, v⟩ := f
  have hself := parseComponent_self t v htail
  -- the names in front of the right one do not match
  rw [parseComponents]
  cases t with
  | cpu => rw [hself]; rfl
  | mem =>
    rw [show parseComponent Resource.cpu.toStr (announceField (.mem, v) ++ tail) = none from rfl,
      hself]
    rfl
  | gpu =>
    rw [show parseComponent Resource.cpu.toStr (announceField (.gpu, v) ++ tail) = none from rfl,
      show parseComponent Resource.mem.toStr (announceField (.gpu, v) ++ tail) = none from rfl,
      hself]
    rfl

/-- The tokens of the line: the newline stays in the last. -/
theorem tokens_announceLine (puerto : Int32) (f g h : Resource × Int32) :
    tokens ' ' (copyTo 256 (announceLine puerto [f, g, h]))
      = [Cmd.announce, showInt puerto.toInt, announceField f, announceField g,
        announceField h ++ ['\n']] := by
  have hport := length_showInt_int32 puerto
  have hf := length_announceField f
  have hg := length_announceField g
  have hh := length_announceField h
  have hcmd : Cmd.announce.length = 8 := rfl
  have hline : copyTo 256 (announceLine puerto [f, g, h])
      = Cmd.announce ++ ' ' :: (showInt puerto.toInt ++ ' ' :: (announceField f
        ++ ' ' :: (announceField g ++ ' ' :: (announceField h ++ ['\n'])))) := by
    unfold announceLine copyTo
    rw [List.take_take, min_self, List.take_of_length_le]
    · simp
    · simp only [List.flatMap_cons, List.flatMap_nil, List.length_append, List.length_cons,
        List.length_nil]
      omega
  have hlast : ' ' ∉ announceField h ++ ['\n'] := by
    rw [List.mem_append, not_or]
    exact ⟨blank_not_mem_announceField h, by decide⟩
  rw [hline, tokens_append (by decide) (by decide),
    tokens_append showInt_ne_nil (blank_not_mem_showInt _),
    tokens_append (announceField_ne_nil f) (blank_not_mem_announceField f),
    tokens_append (announceField_ne_nil g) (blank_not_mem_announceField g),
    tokens_of_not_mem (List.append_ne_nil_of_left_ne_nil (announceField_ne_nil h) _) hlast]

/-- **The `ANNOUNCE` is read back**, in any order of its fields. -/
theorem parseAnnounce_announceLine (puerto : Int32) {cpu mem gpu : Int32} (hcpu : 0 ≤ cpu)
    (hmem : 0 ≤ mem) (hgpu : 0 ≤ gpu) {fields : List (Resource × Int32)}
    (hfields : fields.Perm [(.cpu, cpu), (.mem, mem), (.gpu, gpu)]) :
    parseAnnounce (announceLine puerto fields) = some ⟨puerto, cpu, mem, gpu⟩ := by
  obtain ⟨f, g, h, rfl⟩ := List.length_eq_three.mp hfields.length_eq
  have hport : int? (showInt puerto.toInt) = some (puerto, []) := by
    have h := @int?_showInt puerto [] (fun _ hc => nomatch hc)
    rwa [List.append_nil] at h
  -- the three rounds store the three fields
  have hloop : parseComponents 3 [announceField f, announceField g, announceField h ++ ['\n']]
      ⟨puerto, -1, -1, -1⟩ = some ([f, g, h].foldl AnnounceMsg.set ⟨puerto, -1, -1, -1⟩) := by
    have hnil : ∀ c ∈ ([] : CString).head?, c.isDigit = false := fun _ hc => nomatch hc
    have hstep := fun n f rest r => @parseComponents_field n f [] hnil rest r
    simp only [List.append_nil] at hstep
    have hnewline : ∀ c ∈ (['\n'] : CString).head?, c.isDigit = false := by
      intro c hc
      obtain rfl : '\n' = c := Option.some.inj hc
      rfl
    rw [hstep, hstep, parseComponents_field _ h hnewline]
    rfl
  -- and it does not matter in which order
  have hfold : [f, g, h].foldl AnnounceMsg.set ⟨puerto, -1, -1, -1⟩ = ⟨puerto, cpu, mem, gpu⟩ := by
    rw [hfields.foldl_eq' (fun x hx y hy r => ?_)]
    · rfl
    · by_cases hxy : x = y
      · rw [hxy]
      · refine r.set_comm (fun hname => hxy ?_)
        have hmem₁ := hfields.mem_iff.mp hx
        have hmem₂ := hfields.mem_iff.mp hy
        simp only [List.mem_cons, List.not_mem_nil, or_false] at hmem₁ hmem₂
        rcases hmem₁ with rfl | rfl | rfl <;> rcases hmem₂ with rfl | rfl | rfl <;>
          first | rfl | exact absurd hname (by simp)
  have hpos : ∀ x : Int32, 0 ≤ x → x ≠ -1 := by
    rintro x hx rfl
    exact absurd hx (by decide)
  unfold parseAnnounce
  rw [tokens_announceLine]
  simp only [if_true, hport, hloop, hfold, Option.bind_eq_bind, Option.bind_some]
  rw [if_neg (not_or.mpr ⟨hpos cpu hcpu, not_or.mpr ⟨hpos mem hmem, hpos gpu hgpu⟩⟩)]

/-- **What is written is read back**: between the agents, by the planner, and in
the discovery. -/
theorem wire_roundTrip :
    (∀ m : Message, m.isAgent = true →
      Lines.complete '\n' m.wire = [m.line] ∧ parseMessage m.line = some m) ∧
    (∀ jobId : Int32, leerLinea (Message.jobGranted jobId).wire = .mensaje .granted jobId.toInt) ∧
    (∀ jobId : Int32, leerLinea (Message.jobDenied jobId).wire = .mensaje .denied jobId.toInt) ∧
    (∀ puerto cpu mem gpu : Int32, 0 ≤ puerto → 0 ≤ cpu → 0 ≤ mem → 0 ≤ gpu →
      ∀ fields : List (Resource × Int32),
        fields.Perm [(.cpu, cpu), (.mem, mem), (.gpu, gpu)] →
          parseAnnounce (announceLine puerto fields) = some ⟨puerto, cpu, mem, gpu⟩) := by
  refine ⟨fun m hm => ⟨m.complete_wire ?_, parseMessage_line hm⟩, leerLinea_jobGranted,
    leerLinea_jobDenied, fun puerto cpu mem gpu _ hcpu hmem hgpu fields hfields =>
      parseAnnounce_announceLine puerto hcpu hmem hgpu hfields⟩
  cases m with
  | reserve | release | granted | denied => rfl
  | _ => exact absurd hm Bool.false_ne_true

/-- At the limits of an `int`. -/
theorem wire_roundTrip_limits :
    parseMessage (Message.reserve (-2147483648) .gpu 2147483647).line
      = some (.reserve (-2147483648) .gpu 2147483647) ∧
    parseAnnounce (announceLine 8000 [(.gpu, 0), (.cpu, 4), (.mem, 2147483647)])
      = some ⟨8000, 4, 2147483647, 0⟩ :=
  ⟨(wire_roundTrip.1 _ rfl).2, wire_roundTrip.2.2.2 8000 4 2147483647 0 (by decide) (by decide)
    (by decide) (by decide) _ (by decide)⟩

end Hpc
