import HpcAgent.Types

/-!
# Parsing

`parsing.c`, and the chain of prefix tests with which `process_message` picks
a parser. A parser returns `none` where the C function leaves `valido` false.
The parsers of one format (a command, an id, a resource and an amount; a
command and an id) are one definition with the command as a parameter.

`Message.line` is the text the agent composes for a message, without the
newline that ends it on the wire and that `handle_tcp_read` cuts off. What
one agent writes another reads back (`parseMessage_line`).
-/

namespace Hpc

open Scan

/-! ## The command words -/

namespace Cmd

/-- `RESERVE` -/
def reserve : CString := ['R', 'E', 'S', 'E', 'R', 'V', 'E']

/-- `RELEASE` -/
def release : CString := ['R', 'E', 'L', 'E', 'A', 'S', 'E']

/-- `GRANTED` -/
def granted : CString := ['G', 'R', 'A', 'N', 'T', 'E', 'D']

/-- `DENIED` -/
def denied : CString := ['D', 'E', 'N', 'I', 'E', 'D']

/-- `JOB_REQUEST` -/
def jobRequest : CString := ['J', 'O', 'B', '_', 'R', 'E', 'Q', 'U', 'E', 'S', 'T']

/-- `GET_NODES` -/
def getNodes : CString := ['G', 'E', 'T', '_', 'N', 'O', 'D', 'E', 'S']

/-- `ANNOUNCE` -/
def announce : CString := ['A', 'N', 'N', 'O', 'U', 'N', 'C', 'E']

/-- `JOB_RELEASE` -/
def jobRelease : CString := ['J', 'O', 'B', '_', 'R', 'E', 'L', 'E', 'A', 'S', 'E']

/-- `JOB_STATUS` -/
def jobStatus : CString := ['J', 'O', 'B', '_', 'S', 'T', 'A', 'T', 'U', 'S']

/-- `JOB_TIMEOUT` -/
def jobTimeout : CString := ['J', 'O', 'B', '_', 'T', 'I', 'M', 'E', 'O', 'U', 'T']

/-- `JOB_GRANTED` -/
def jobGranted : CString := ['J', 'O', 'B', '_', 'G', 'R', 'A', 'N', 'T', 'E', 'D']

/-- `JOB_DENIED` -/
def jobDenied : CString := ['J', 'O', 'B', '_', 'D', 'E', 'N', 'I', 'E', 'D']

end Cmd

/-! ## The parsers of one line -/

/-- The comparisons of a resource name with `"cpu"`, `"mem"` and `"gpu"`. -/
def resourceOf (s : CString) : Option Resource :=
  if s = Resource.cpu.toStr then some .cpu
  else if s = Resource.mem.toStr then some .mem
  else if s = Resource.gpu.toStr then some .gpu
  else none

/-- `sscanf(msg, "<cmd> %d %15s %d", …)` and the resource name after it. -/
def parseResourceLine (cmd msg : CString) : Option (Int32 × Resource × Int32) := do
  let s ← cmd.isPrefixOf? msg
  let (jobId, s) ← int? s
  let (name, s) ← word? 15 s
  let (amount, _) ← int? s
  let type ← resourceOf name
  return (jobId, type, amount)

/-- `sscanf(msg, "<cmd> %d", …)`. -/
def parseIdLine (cmd msg : CString) : Option Int32 := do
  let s ← cmd.isPrefixOf? msg
  let (jobId, _) ← int? s
  return jobId

/-- `parse_reserve`. -/
def parseReserve : CString → Option (Int32 × Resource × Int32) :=
  parseResourceLine Cmd.reserve

/-- `parse_release`. -/
def parseRelease : CString → Option (Int32 × Resource × Int32) :=
  parseResourceLine Cmd.release

/-- `parse_granted`. -/
def parseGranted : CString → Option Int32 := parseIdLine Cmd.granted

/-- `parse_denied`. -/
def parseDenied : CString → Option Int32 := parseIdLine Cmd.denied

/-- `parse_job_release`. -/
def parseJobRelease : CString → Option Int32 := parseIdLine Cmd.jobRelease

/-- `parse_job_status`. -/
def parseJobStatus : CString → Option Int32 := parseIdLine Cmd.jobStatus

/-- `parse_job_timeout`. -/
def parseJobTimeout : CString → Option Int32 := parseIdLine Cmd.jobTimeout

/-! ## `parse_job_request` -/

/-- The inner loop over the pairs `:type:amount` of one host. Each round
consumes part of the token, whose length bounds the rounds. -/
def parsePairs (ip : CString) : ℕ → CString → Option (List ResourceRequest)
  | n + 1, ':' :: s => do
    let (name, s) ← until? 7 ':' s
    let s ← [':'].isPrefixOf? s
    let (amount, s) ← int? s
    let type ← resourceOf name
    let more ← parsePairs ip n s
    -- a pair that asks for nothing is checked and dropped
    return if 0 < amount then ⟨ip, type, amount⟩ :: more else more
  | _, _ => some []

/-- One blank-separated token, `@host(:type:amount)+`. -/
def parseToken (token : CString) : Option (List ResourceRequest) := do
  let s ← ['@'].isPrefixOf? token
  let (ip, rest) ← until? 15 ':' s
  if rest.head? = some ':' then parsePairs ip rest.length rest else none

/-- The outer loop over the tokens. -/
def parseTokens : List CString → Option (List ResourceRequest)
  | [] => some []
  | token :: tokens => do
    let here ← parseToken token
    let more ← parseTokens tokens
    return here ++ more

/-- `parse_job_request`: the id is read by `sscanf`, then the first two tokens
are skipped and the others parsed. -/
def parseJobRequest (buf : CString) : Option (Int32 × List ResourceRequest) := do
  let jobId ← parseIdLine Cmd.jobRequest buf
  let requests ← parseTokens ((tokens ' ' buf).drop 2)
  return (jobId, requests)

/-! ## `parse_announce` -/

/-- `announce_msg_t`. -/
structure AnnounceMsg where
  puerto : Int32
  cpu : Int32
  mem : Int32
  gpu : Int32
deriving DecidableEq

/-- `sscanf(token, "<name>:%d", …)`. -/
def parseComponent (name token : CString) : Option Int32 := do
  let s ← (name ++ [':']).isPrefixOf? token
  let (v, _) ← int? s
  return v

/-- The loop over at most three component tokens. -/
def parseComponents : ℕ → List CString → AnnounceMsg → Option AnnounceMsg
  | n + 1, token :: tokens, r =>
    match parseComponent Resource.cpu.toStr token with
    | some v => parseComponents n tokens { r with cpu := v }
    | none =>
      match parseComponent Resource.mem.toStr token with
      | some v => parseComponents n tokens { r with mem := v }
      | none =>
        match parseComponent Resource.gpu.toStr token with
        | some v => parseComponents n tokens { r with gpu := v }
        | none => none
  | _, _, r => some r

/-- `parse_announce`, on the first 255 characters of the datagram. -/
def parseAnnounce (msg : CString) : Option AnnounceMsg :=
  match tokens ' ' (copyTo 256 msg) with
  | cmd :: port :: components =>
    if cmd = Cmd.announce then do
      let (puerto, _) ← int? port
      let r ← parseComponents 3 components ⟨puerto, -1, -1, -1⟩
      if r.cpu = -1 ∨ r.mem = -1 ∨ r.gpu = -1 then none else some r
    else none
  | _ => none

/-! ## The dispatch of `process_message` -/

/-- Which message a line is: the chain of `strncmp` tests of
`process_message`, each followed by the parser of its branch. A malformed
line, an unknown command and an `ANNOUNCE` have no effect there. -/
def parseMessage (msg : CString) : Option Message :=
  if Cmd.reserve.isPrefixOf msg then
    (parseReserve msg).map (fun r => .reserve r.1 r.2.1 r.2.2)
  else if Cmd.release.isPrefixOf msg then
    (parseRelease msg).map (fun r => .release r.1 r.2.1 r.2.2)
  else if Cmd.granted.isPrefixOf msg then (parseGranted msg).map .granted
  else if Cmd.denied.isPrefixOf msg then (parseDenied msg).map .denied
  else if Cmd.jobRequest.isPrefixOf msg then
    (parseJobRequest msg).map (fun r => .jobRequest r.1 r.2)
  else if Cmd.getNodes.isPrefixOf msg then some .getNodes
  else if Cmd.announce.isPrefixOf msg then none
  else if Cmd.jobRelease.isPrefixOf msg then (parseJobRelease msg).map .jobRelease
  else if Cmd.jobStatus.isPrefixOf msg then (parseJobStatus msg).map .jobStatus
  else if Cmd.jobTimeout.isPrefixOf msg then (parseJobTimeout msg).map .jobTimeout
  else none

/-! ## What a parsed `JOB_REQUEST` asks for -/

theorem parsePairs_pos {ip : CString} {n : ℕ} {s : CString} {l : List ResourceRequest}
    (h : parsePairs ip n s = some l) : ∀ r ∈ l, 0 < r.amount := by
  induction n generalizing s l with
  | zero =>
    obtain rfl : [] = l := by simpa [parsePairs] using h
    simp
  | succ n ih =>
    match s with
    | [] =>
      obtain rfl : [] = l := by simpa [parsePairs] using h
      simp
    | c :: s =>
      by_cases hc : c = ':'
      · subst hc
        simp only [parsePairs, Option.bind_eq_bind, Option.bind_eq_some_iff] at h
        obtain ⟨⟨name, s⟩, -, s', -, ⟨amount, s''⟩, -, type, -, more, hmore, h⟩ := h
        obtain rfl := Option.some.inj h
        intro r hr
        split at hr
        · next hpos =>
          rcases List.mem_cons.mp hr with rfl | hr
          · exact hpos
          · exact ih hmore r hr
        · exact ih hmore r hr
      · obtain rfl : [] = l := by simpa [parsePairs, hc] using h
        simp

theorem parseTokens_pos {tokens : List CString} {l : List ResourceRequest}
    (h : parseTokens tokens = some l) : ∀ r ∈ l, 0 < r.amount := by
  induction tokens generalizing l with
  | nil =>
    obtain rfl := Option.some.inj h
    simp
  | cons token tokens ih =>
    simp only [parseTokens, Option.bind_eq_bind, Option.bind_eq_some_iff] at h
    obtain ⟨here, hhere, more, hmore, h⟩ := h
    obtain rfl := Option.some.inj h
    intro r hr
    rcases List.mem_append.mp hr with hr | hr
    · simp only [parseToken, Option.bind_eq_bind, Option.bind_eq_some_iff] at hhere
      obtain ⟨s, -, ⟨ip, rest⟩, -, hhere⟩ := hhere
      split at hhere
      · exact parsePairs_pos hhere r hr
      · exact absurd hhere (by simp)
    · exact ih hmore r hr

/-- **Every request of a parsed `JOB_REQUEST` asks for something.** -/
theorem requests_pos {msg : CString} {jobId : Int32} {requests : List ResourceRequest}
    (h : parseMessage msg = some (.jobRequest jobId requests)) :
    ∀ r ∈ requests, 0 < r.amount := by
  have hparse : parseJobRequest msg = some (jobId, requests) := by
    unfold parseMessage at h
    repeat' split at h
    all_goals
      simp only [Option.map_eq_some_iff, reduceCtorEq, Option.some.injEq,
        Message.jobRequest.injEq, and_false, exists_false] at h
    obtain ⟨⟨j, l⟩, hj, rfl, rfl⟩ := h
    exact hj
  simp only [parseJobRequest, Option.bind_eq_bind, Option.bind_eq_some_iff] at hparse
  obtain ⟨j, -, l, hl, hparse⟩ := hparse
  obtain ⟨rfl, rfl⟩ := Prod.mk.inj (Option.some.inj hparse)
  exact parseTokens_pos hl

/-! ## What the agent writes -/

/-- `<cmd> %d %s %d`. -/
def resourceLine (cmd : CString) (jobId : Int32) (type : Resource) (amount : Int32) :
    CString :=
  cmd ++ ' ' :: (showInt jobId.toInt ++ ' ' :: (type.toStr ++ ' ' :: showInt amount.toInt))

/-- `<cmd> %d`. -/
def idLine (cmd : CString) (jobId : Int32) : CString := cmd ++ ' ' :: showInt jobId.toInt

/-- The text of a message, without the newline that ends it. A planner's
`JOB_REQUEST` is written with one token per request. -/
def Message.line : Message → CString
  | .reserve jobId type amount => resourceLine Cmd.reserve jobId type amount
  | .release jobId type amount => resourceLine Cmd.release jobId type amount
  | .granted jobId => idLine Cmd.granted jobId
  | .denied jobId => idLine Cmd.denied jobId
  | .jobRequest jobId requests => idLine Cmd.jobRequest jobId
      ++ requests.flatMap (fun r => ' ' :: '@' :: r.ip ++ ':' :: r.type.toStr
        ++ ':' :: showInt r.amount.toInt)
  | .getNodes => Cmd.getNodes
  | .jobRelease jobId => idLine Cmd.jobRelease jobId
  | .jobStatus jobId => idLine Cmd.jobStatus jobId
  | .jobTimeout jobId => idLine Cmd.jobTimeout jobId
  | .jobGranted jobId => idLine Cmd.jobGranted jobId
  | .jobDenied jobId => idLine Cmd.jobDenied jobId
  | .jobStatusIs jobId active => idLine Cmd.jobStatus jobId
      ++ if active then [' ', 'A', 'C', 'T', 'I', 'V', 'E']
        else [' ', 'U', 'N', 'K', 'N', 'O', 'W', 'N']
  | .nodes line => line
  | .garbage => []

/-- The messages one agent sends another. -/
def Message.isAgent : Message → Bool
  | .reserve .. | .release .. | .granted _ | .denied _ => true
  | _ => false

theorem isPrefixOf?_append (p s : CString) : p.isPrefixOf? (p ++ s) = some s := by
  induction p with
  | nil => rfl
  | cons c p ih => simp [List.isPrefixOf?, ih]

@[simp] theorem resourceOf_toStr (t : Resource) : resourceOf t.toStr = some t := by
  cases t <;> decide

/-- The name of a resource is a word. -/
theorem word?_toStr (t : Resource) {rest : CString}
    (hrest : ∀ c ∈ rest.head?, isSpace c = true) :
    word? 15 (t.toStr ++ rest) = some (t.toStr, rest) := by
  have hword : t.toStr.all (fun c => !isSpace c) = true := by cases t <;> decide
  refine word?_append ?_ ?_ (fun c hc => ?_) hrest
  · cases t <;> decide
  · cases t <;> decide
  · simpa using List.all_eq_true.mp hword c hc

theorem head?_space {s : CString} :
    ∀ c ∈ (' ' :: s).head?, c.isDigit = false ∧ isSpace c = true := by
  intro c hc
  obtain rfl : ' ' = c := Option.some.inj hc
  decide

/-- **A resource line is read back**, for every id, resource and amount. -/
theorem parseResourceLine_resourceLine (cmd : CString) (jobId : Int32)
    (type : Resource) (amount : Int32) :
    parseResourceLine cmd (resourceLine cmd jobId type amount)
      = some (jobId, type, amount) := by
  have hamount : int? (showInt amount.toInt) = some (amount, []) := by
    have h := @int?_showInt amount [] (fun _ hc => nomatch hc)
    rwa [List.append_nil] at h
  unfold parseResourceLine resourceLine
  simp only [isPrefixOf?_append, Option.bind_eq_bind, Option.bind_some, int?_space]
  rw [int?_showInt jobId (fun c hc => (head?_space c hc).1)]
  simp only [Option.bind_some, word?_space]
  rw [word?_toStr type (fun c hc => (head?_space c hc).2)]
  simp only [Option.bind_some, int?_space, hamount, resourceOf_toStr]
  rfl

/-- **An id line is read back.** -/
theorem parseIdLine_idLine (cmd : CString) (jobId : Int32) :
    parseIdLine cmd (idLine cmd jobId) = some jobId := by
  have hid : int? (showInt jobId.toInt) = some (jobId, []) := by
    have h := @int?_showInt jobId [] (fun _ hc => nomatch hc)
    rwa [List.append_nil] at h
  unfold parseIdLine idLine
  simp only [isPrefixOf?_append, Option.bind_eq_bind, Option.bind_some, int?_space, hid]
  rfl

theorem isPrefixOf_append_self (p s : CString) : p.isPrefixOf (p ++ s) = true :=
  List.isPrefixOf_iff_prefix.mpr (List.prefix_append p s)

/-- **What one agent writes another reads back.** -/
theorem parseMessage_line {m : Message} (h : m.isAgent = true) :
    parseMessage m.line = some m := by
  have hself := isPrefixOf_append_self
  unfold parseMessage
  cases m with
  | reserve j t a =>
    simp only [Message.line, resourceLine, hself, if_true]
    exact congrArg _ (parseResourceLine_resourceLine _ j t a)
  | release j t a =>
    have h₁ : ∀ s, Cmd.reserve.isPrefixOf (Cmd.release ++ s) = false :=
      fun _ => rfl
    simp only [Message.line, resourceLine, hself, h₁, Bool.false_eq_true, if_true,
      if_false]
    exact congrArg _ (parseResourceLine_resourceLine _ j t a)
  | granted j =>
    have h₁ : ∀ s, Cmd.reserve.isPrefixOf (Cmd.granted ++ s) = false
        ∧ Cmd.release.isPrefixOf (Cmd.granted ++ s) = false :=
      fun _ => ⟨rfl, rfl⟩
    simp only [Message.line, idLine, hself, h₁, Bool.false_eq_true, if_true, if_false]
    exact congrArg _ (parseIdLine_idLine _ j)
  | denied j =>
    have h₁ : ∀ s, Cmd.reserve.isPrefixOf (Cmd.denied ++ s) = false
        ∧ Cmd.release.isPrefixOf (Cmd.denied ++ s) = false
        ∧ Cmd.granted.isPrefixOf (Cmd.denied ++ s) = false :=
      fun _ => ⟨rfl, rfl, rfl⟩
    simp only [Message.line, idLine, hself, h₁, Bool.false_eq_true, if_true, if_false]
    exact congrArg _ (parseIdLine_idLine _ j)
  | _ => exact absurd h Bool.false_ne_true

end Hpc
