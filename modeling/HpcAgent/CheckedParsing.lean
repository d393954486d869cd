import HpcAgent.JobRequestFormat

/-!
# The parsers with checked stores

`parse_reserve`, `parse_release`, `parse_job_request` and `parse_announce` once
more, every store of a string into a local array checked against the size of the
array: `type[16]`, `ip[16]`, `rec[7]` and `temp[256]`. A conversion of `sscanf`
stores its terminating NUL as well, and stores before the next conversion is
tried, so a store counts even where the call then fails. The inner loop of
`parse_job_request` is given rounds and says when it wants more.

Without the checks these are the parsers of the model (`parseJobRequestC_spec`), and
none ever asks for more rounds than its text has characters. One store goes wrong: the
format `%7[^:]` fills `rec[7]` and one character more.
-/

namespace Hpc

open Scan

/-- What a parser with checked stores does. -/
inductive Chequeo (α : Type)
  /-- A store ended outside its array. -/
  | fuera
  /-- A loop was not over after its rounds. -/
  | sinFin
  /-- The parser returned with `valido` false. -/
  | invalido
  /-- The parser went on. -/
  | sigue (a : α)
deriving DecidableEq

namespace Chequeo

variable {α β : Type}

/-- The first parser, and the second unless the first stopped. -/
protected def bind : Chequeo α → (α → Chequeo β) → Chequeo β
  | fuera, _ => fuera
  | sinFin, _ => sinFin
  | invalido, _ => invalido
  | sigue a, f => f a

instance : Monad Chequeo where
  pure := sigue
  bind := Chequeo.bind

/-- A conversion, which makes the parser return where `sscanf` stops. -/
def leer : Option α → Chequeo α
  | none => invalido
  | some a => sigue a

/-- The store of a string and its NUL into an array of `size` characters. -/
def guardar (size : ℕ) (s : CString) : Chequeo CString :=
  if s.length + 1 ≤ size then sigue s else fuera

/-- `strncpy(dst, s, n)`, which stores `n` characters, NULs behind the end of a
shorter string, and then `dst[sizeof(dst) - 1] = '\0'`. -/
def copiar (size n : ℕ) (s : CString) : Chequeo CString :=
  if n ≤ size ∧ size - 1 < size then sigue ((s.take n).take (size - 1)) else fuera

/-- What the parser returns, a parser that went wrong returning nothing. -/
def resultado : Chequeo α → Option α
  | sigue a => some a
  | fuera | sinFin | invalido => none

/-- Every store was inside its array and every loop was over in time. -/
def Seguro (r : Chequeo α) : Prop := r ≠ fuera ∧ r ≠ sinFin

@[simp] theorem bind_fuera (f : α → Chequeo β) : (fuera >>= f) = fuera := rfl

@[simp] theorem bind_sinFin (f : α → Chequeo β) : (sinFin >>= f) = sinFin := rfl

@[simp] theorem bind_invalido (f : α → Chequeo β) : (invalido >>= f) = invalido := rfl

@[simp] theorem bind_sigue (a : α) (f : α → Chequeo β) : (sigue a >>= f) = f a := rfl

@[simp] theorem leer_none : leer (none : Option α) = invalido := rfl

@[simp] theorem leer_some (a : α) : leer (some a) = sigue a := rfl

theorem guardar_of_le {size : ℕ} {s : CString} (h : s.length + 1 ≤ size) :
    guardar size s = sigue s := if_pos h

/-- A store goes wrong just by going outside. -/
theorem bind_eq_fuera_iff {r : Chequeo α} {f : α → Chequeo β} :
    (r >>= f) = fuera ↔ r = fuera ∨ ∃ a, r = sigue a ∧ f a = fuera := by
  cases r <;> simp

theorem bind_eq_sinFin_iff {r : Chequeo α} {f : α → Chequeo β} :
    (r >>= f) = sinFin ↔ r = sinFin ∨ ∃ a, r = sigue a ∧ f a = sinFin := by
  cases r <;> simp

theorem resultado_eq_some_iff {r : Chequeo α} {a : α} : r.resultado = some a ↔ r = sigue a := by
  cases r <;> simp [resultado]

theorem resultado_bind (r : Chequeo α) (f : α → Chequeo β) :
    (r >>= f).resultado = r.resultado.bind (fun a => (f a).resultado) := by
  cases r <;> rfl

@[simp] theorem resultado_leer (r : Option α) : (leer r).resultado = r := by
  cases r <;> rfl

theorem leer_bind (r : Option α) (f : α → Option β) :
    leer (r.bind f) = (leer r >>= fun a => leer (f a)) := by
  cases r <;> rfl

theorem leer_ne (r : Option α) : leer r ≠ fuera ∧ leer r ≠ sinFin := by
  cases r <;> simp

end Chequeo

open Chequeo

/-! ## The parsers -/

/-- `sscanf(msg, "<cmd> %d %15s %d", …)` into `type[16]`, and the name. -/
def parseResourceLineC (cmd msg : CString) : Chequeo (Int32 × Resource × Int32) := do
  let s ← leer (cmd.isPrefixOf? msg)
  let (jobId, s) ← leer (int? s)
  let (name, s) ← leer (word? 15 s)
  let name ← guardar 16 name
  let (amount, _) ← leer (int? s)
  let type ← leer (resourceOf name)
  return (jobId, type, amount)

/-- `parse_reserve`. -/
def parseReserveC : CString → Chequeo (Int32 × Resource × Int32) :=
  parseResourceLineC Cmd.reserve

/-- `parse_release`. -/
def parseReleaseC : CString → Chequeo (Int32 × Resource × Int32) :=
  parseResourceLineC Cmd.release

/-- The inner loop of `parse_job_request`, with `rec[7]`. -/
def parsePairsC (ip : CString) : ℕ → CString → Chequeo (List ResourceRequest)
  | n + 1, ':' :: s => do
    let (name, s) ← leer (until? 7 ':' s)
    let name ← guardar 7 name
    let s ← leer ([':'].isPrefixOf? s)
    let (amount, s) ← leer (int? s)
    let type ← leer (resourceOf name)
    let more ← parsePairsC ip n s
    return if 0 < amount then ⟨ip, type, amount⟩ :: more else more
  | 0, ':' :: _ => sinFin
  | _, _ => return []

/-- A token, with `ip[16]`. -/
def parseTokenC (token : CString) : Chequeo (List ResourceRequest) := do
  let s ← leer (['@'].isPrefixOf? token)
  let (ip, rest) ← leer (until? 15 ':' s)
  let ip ← guardar 16 ip
  if rest.head? = some ':' then parsePairsC ip rest.length rest else invalido

/-- The outer loop, over the tokens `strtok_r` yields. -/
def parseTokensC : List CString → Chequeo (List ResourceRequest)
  | [] => return []
  | token :: tokens => do
    let here ← parseTokenC token
    let more ← parseTokensC tokens
    return here ++ more

/-- `parse_job_request`. -/
def parseJobRequestC (buf : CString) : Chequeo (Int32 × List ResourceRequest) := do
  let jobId ← leer (parseIdLine Cmd.jobRequest buf)
  let requests ← parseTokensC ((tokens ' ' buf).drop 2)
  return (jobId, requests)

/-- `parse_announce`, with `temp[256]`. -/
def parseAnnounceC (msg : CString) : Chequeo AnnounceMsg := do
  let temp ← copiar 256 255 msg
  match tokens ' ' temp with
  | cmd :: port :: components =>
    if cmd = Cmd.announce then do
      let (puerto, _) ← leer (int? port)
      let r ← leer (parseComponents 3 components ⟨puerto, -1, -1, -1⟩)
      if r.cpu = -1 ∨ r.mem = -1 ∨ r.gpu = -1 then invalido else return r
    else invalido
  | _ => invalido

/-! ## Without the checks -/

theorem length_of_word? {width : ℕ} {s w rest : CString} (h : word? width s = some (w, rest)) :
    w.length ≤ width := by
  unfold word? at h
  dsimp only at h
  split at h
  · exact absurd h (by simp)
  · obtain ⟨rfl, -⟩ := Prod.mk.inj (Option.some.inj h)
    exact List.length_take_le _ _

/-- The width 15 of the resource name and the array of 16 fit. -/
theorem parseResourceLineC_eq (cmd msg : CString) :
    parseResourceLineC cmd msg = leer (parseResourceLine cmd msg) := by
  unfold parseResourceLineC parseResourceLine
  cases cmd.isPrefixOf? msg with
  | none => rfl
  | some s =>
    simp only [leer_some, bind_sigue, Option.bind_eq_bind, Option.bind_some]
    cases int? s with
    | none => rfl
    | some r =>
      simp only [leer_some, bind_sigue, Option.bind_some]
      cases hword : word? 15 r.2 with
      | none => rfl
      | some w =>
        have hfits := length_of_word? hword
        simp only [leer_some, bind_sigue, Option.bind_some,
          @guardar_of_le 16 w.1 (by omega)]
        cases int? w.2 with
        | none => rfl
        | some a =>
          simp only [leer_some, bind_sigue, Option.bind_some]
          cases resourceOf w.1 <;> rfl

/-- The copy of 255 characters and its NUL fit. -/
theorem parseAnnounceC_eq (msg : CString) : parseAnnounceC msg = leer (parseAnnounce msg) := by
  have hcopy : copiar 256 255 msg = sigue (copyTo 256 msg) := by
    unfold copiar copyTo
    rw [if_pos (by omega), List.take_take]
    rfl
  unfold parseAnnounceC parseAnnounce
  rw [hcopy, bind_sigue]
  match tokens ' ' (copyTo 256 msg) with
  | [] => rfl
  | [_] => rfl
  | cmd :: port :: components =>
    dsimp only
    by_cases hcmd : cmd = Cmd.announce
    · rw [if_pos hcmd, if_pos hcmd, Option.bind_eq_bind, leer_bind]
      congr 1
      ext r
      rw [Option.bind_eq_bind, leer_bind]
      congr 1
      ext r
      split <;> rfl
    · rw [if_neg hcmd, if_neg hcmd]
      rfl

/-- A name too long for `rec` is none of the three. -/
theorem resourceOf_eq_none {name : CString} (h : 7 ≤ name.length) : resourceOf name = none := by
  cases hname : resourceOf name with
  | none => rfl
  | some t =>
    obtain rfl := resourceOf_eq_some_iff.mp hname
    cases t <;> exact absurd h (by decide)

/-- A round that finds a pair goes on behind it. -/
theorem parsePairsC_texto (ip : CString) (n : ℕ) (p : Par) {rest : CString}
    (hrest : ∀ c ∈ rest.head?, c.isDigit = false) :
    parsePairsC ip (n + 1) (p.texto ++ rest)
      = (parsePairsC ip n rest >>= fun more =>
        sigue (if 0 < p.amount then ⟨ip, p.tipo, p.amount⟩ :: more else more)) := by
  have hname : until? 7 ':' (p.tipo.toStr ++ ':' :: (p.hueco ++ (p.cifras ++ rest)))
      = some (p.tipo.toStr, ':' :: (p.hueco ++ (p.cifras ++ rest))) := until?_toStr p.tipo (by simp)
  have hstore : guardar 7 p.tipo.toStr = sigue p.tipo.toStr :=
    guardar_of_le (by cases p.tipo <;> decide)
  have hamount : int? (p.hueco ++ (p.cifras ++ rest)) = some (p.amount, rest) :=
    int?_eq_some_iff.mpr ⟨p.hueco, p.cifras, p.valor, rfl, p.hueco_space, p.decimal, rfl, hrest⟩
  unfold Par.texto
  simp only [List.cons_append, List.append_assoc, parsePairsC, hname, leer_some, bind_sigue,
    hstore, List.isPrefixOf?, BEq.rfl, if_true, hamount, resourceOf_toStr]
  rfl

/-- **What a round of the inner loop does**: the name it reads has seven
characters and is stored outside `rec`, or the round returns, or it has read a
pair. -/
theorem parsePairsC_cases (ip : CString) (n : ℕ) (s : CString) :
    (parsePairsC ip (n + 1) (':' :: s) = fuera ∧ parsePairs ip (n + 1) (':' :: s) = none
      ∧ ∃ nombre more, s = nombre ++ more ∧ nombre.length = 7 ∧ ':' ∉ nombre)
    ∨ (parsePairsC ip (n + 1) (':' :: s) = invalido ∧ parsePairs ip (n + 1) (':' :: s) = none)
    ∨ ∃ (p : Par) (rest : CString), ':' :: s = p.texto ++ rest
      ∧ ∀ c ∈ rest.head?, c.isDigit = false := by
  simp only [parsePairsC, parsePairs, Option.bind_eq_bind]
  cases hname : until? 7 ':' s with
  | none => exact Or.inr (Or.inl ⟨rfl, rfl⟩)
  | some r =>
    obtain ⟨name, s₁⟩ := r
    obtain ⟨rfl, -, hlen, hsep, -⟩ := until?_eq_some_iff.mp hname
    simp only [leer_some, bind_sigue, Option.bind_some]
    by_cases hfits : name.length + 1 ≤ 7
    · refine Or.inr ?_
      rw [guardar_of_le hfits, bind_sigue]
      cases hcolon : [':'].isPrefixOf? s₁ with
      | none => exact Or.inl ⟨rfl, rfl⟩
      | some s₂ =>
        obtain rfl := List.isPrefixOf?_eq_some_iff_append_eq.mp hcolon
        simp only [leer_some, bind_sigue, Option.bind_some]
        cases hamount : int? s₂ with
        | none => exact Or.inl ⟨rfl, rfl⟩
        | some r =>
          obtain ⟨amount, rest⟩ := r
          simp only [leer_some, bind_sigue, Option.bind_some]
          obtain ⟨hueco, cifras, v, rfl, hhueco, hcifras, -, hrest⟩ := int?_eq_some_iff.mp hamount
          cases htype : resourceOf name with
          | none => exact Or.inl ⟨rfl, rfl⟩
          | some type =>
            obtain rfl := resourceOf_eq_some_iff.mp htype
            refine Or.inr ⟨⟨type, hueco, cifras, v, hhueco, hcifras⟩, rest, ?_, hrest⟩
            simp [Par.texto]
    · refine Or.inl ⟨?_, ?_, name, s₁, rfl, by omega, hsep⟩
      · rw [guardar, if_neg hfits, bind_fuera]
      · simp only [resourceOf_eq_none (by omega : 7 ≤ name.length), Option.bind_none,
          Option.bind_fun_none]

/-- **The inner loop**: what its result is, what sends a store outside, and that
its rounds suffice. -/
theorem parsePairsC_spec (ip : CString) {n : ℕ} {s : CString} (hn : s.length ≤ n) :
    (parsePairsC ip n s).resultado = parsePairs ip n s
      ∧ parsePairsC ip n s ≠ sinFin
      ∧ (parsePairsC ip n s = fuera → ∃ (pares : List Par) (nombre more : CString),
        s = pares.flatMap Par.texto ++ ':' :: (nombre ++ more)
          ∧ nombre.length = 7 ∧ ':' ∉ nombre) := by
  induction n generalizing s with
  | zero =>
    obtain rfl := List.length_eq_zero_iff.mp (Nat.le_zero.mp hn)
    exact ⟨rfl, by simp [parsePairsC], by simp [parsePairsC]⟩
  | succ n ih =>
    by_cases hcolon : s.head? = some ':'
    · obtain ⟨s, rfl⟩ := List.head?_eq_some_iff.mp hcolon
      rcases parsePairsC_cases ip n s with ⟨hfuera, hnone, nombre, more, rfl, hlen, hsep⟩
        | ⟨hinvalido, hnone⟩ | ⟨p, rest, heq, hrest⟩
      · rw [hfuera, hnone]
        exact ⟨rfl, by simp, fun _ => ⟨[], nombre, more, rfl, hlen, hsep⟩⟩
      · rw [hinvalido, hnone]
        exact ⟨rfl, by simp, by simp⟩
      · have hlen : (':' :: s).length = p.texto.length + rest.length := by
          rw [heq, List.length_append]
        have hpos : 0 < p.texto.length := by simp [Par.texto]
        obtain ⟨hresult, hend, hout⟩ := ih (s := rest) (by omega)
        rw [heq, parsePairsC_texto ip n p hrest, parsePairs_texto ip n p hrest]
        refine ⟨?_, fun h => ?_, fun h => ?_⟩
        · rw [resultado_bind, hresult]
          cases parsePairs ip n rest <;> rfl
        · rcases bind_eq_sinFin_iff.mp h with h | ⟨more, -, h⟩
          · exact hend h
          · cases h
        · rcases bind_eq_fuera_iff.mp h with h | ⟨more, -, h⟩
          · obtain ⟨pares, nombre, more, rfl, hnombre⟩ := hout h
            refine ⟨p :: pares, nombre, more, ?_, hnombre⟩
            rw [List.flatMap_cons, List.append_assoc]
          · cases h
    · have hplain : parsePairsC ip (n + 1) s = sigue [] ∧ parsePairs ip (n + 1) s = some [] := by
        cases s with
        | nil => exact ⟨rfl, rfl⟩
        | cons c s =>
          have hc : c ≠ ':' := fun h => hcolon (by rw [h]; rfl)
          have hreturn : parsePairsC ip (n + 1) (c :: s) = pure [] := by simp [parsePairsC, hc]
          exact ⟨hreturn, by simp [parsePairs, hc]⟩
      rw [hplain.1, hplain.2]
      exact ⟨rfl, by simp, by simp⟩

/-- **The name that does not fit**: behind any pairs, a name of seven characters
or more is stored outside `rec`. -/
theorem parsePairsC_fuera (ip : CString) {n : ℕ} {pares : List Par} {nombre : CString}
    (hlen : nombre.length = 7) (hsep : ':' ∉ nombre) (more : CString) (hn : pares.length < n) :
    parsePairsC ip n (pares.flatMap Par.texto ++ ':' :: (nombre ++ more)) = fuera := by
  induction pares generalizing n with
  | nil =>
    obtain ⟨n, rfl⟩ : ∃ m, n = m + 1 := ⟨n - 1, by simp at hn; omega⟩
    have hname : until? 7 ':' (nombre ++ more) = some (nombre, more) :=
      until?_eq_some_iff.mpr ⟨rfl, List.ne_nil_of_length_pos (by omega), hlen.le, hsep,
        fun hlt => absurd hlt (by omega)⟩
    simp [parsePairsC, hname, guardar, hlen]
  | cons p pares ih =>
    obtain ⟨n, rfl⟩ : ∃ m, n = m + 1 := ⟨n - 1, by simp at hn; omega⟩
    have hhead : ∀ c ∈ (pares.flatMap Par.texto ++ ':' :: (nombre ++ more)).head?,
        c.isDigit = false := by
      intro c hc
      cases pares with
      | nil =>
        obtain rfl : ':' = c := Option.some.inj hc
        decide
      | cons q pares =>
        obtain rfl : ':' = c := Option.some.inj hc
        decide
    rw [List.flatMap_cons, List.append_assoc, parsePairsC_texto ip n p hhead,
      ih (by simpa using hn), bind_fuera]

/-! ## The tokens and the lines -/

/-- A token with a host and pairs that read well, and then the name of a resource
of at least seven characters. -/
def NombreLargo (token : CString) : Prop :=
  ∃ (host : CString) (pares : List Par) (nombre more : CString),
    token = '@' :: (host ++ (pares.flatMap Par.texto ++ ':' :: (nombre ++ more)))
      ∧ host ≠ [] ∧ host.length ≤ 15 ∧ ':' ∉ host ∧ nombre.length = 7 ∧ ':' ∉ nombre

/-- **A line whose parse reaches such a token**: an id can be read behind the
command, and every token between the first two and that one is accepted. -/
def Desborda (line : CString) : Prop :=
  (∃ hueco cifras valor resto, line = Cmd.jobRequest ++ (hueco ++ (cifras ++ resto))
      ∧ (∀ c ∈ hueco, isSpace c = true) ∧ Decimal cifras valor
      ∧ ∀ c ∈ resto.head?, c.isDigit = false)
    ∧ ∃ (bloques : List Bloque) (token : CString) (ts : List CString),
      (tokens ' ' line).drop 2 = bloques.map Bloque.texto ++ token :: ts ∧ NombreLargo token

theorem NombreLargo.fuera {token : CString} (h : NombreLargo token) :
    parseTokenC token = fuera := by
  obtain ⟨host, pares, nombre, more, rfl, hne, hle, hhost, hlen, hsep⟩ := h
  have hcolon : (pares.flatMap Par.texto ++ ':' :: (nombre ++ more)).head? = some ':' := by
    cases pares <;> rfl
  have hread : until? 15 ':' (host ++ (pares.flatMap Par.texto ++ ':' :: (nombre ++ more)))
      = some (host, pares.flatMap Par.texto ++ ':' :: (nombre ++ more)) :=
    until?_append hne hle hhost (fun c hc => (Option.some.inj (hcolon.symm.trans hc)).symm)
  have hrounds : pares.length
      < (pares.flatMap Par.texto ++ ':' :: (nombre ++ more)).length := by
    have h := length_pares_le pares []
    rw [List.append_nil] at h
    rw [List.length_append, List.length_cons]
    omega
  unfold parseTokenC
  simp only [List.isPrefixOf?, BEq.rfl, if_true, leer_some, bind_sigue, hread,
    @guardar_of_le 16 host (by omega), hcolon]
  exact parsePairsC_fuera host hlen hsep more hrounds

/-- **A token**: its result, that its rounds suffice, and what sends a store
outside. -/
theorem parseTokenC_spec (token : CString) :
    (parseTokenC token).resultado = parseToken token
      ∧ parseTokenC token ≠ sinFin ∧ (parseTokenC token = fuera ↔ NombreLargo token) := by
  suffices h : (parseTokenC token).resultado = parseToken token
      ∧ parseTokenC token ≠ sinFin ∧ (parseTokenC token = fuera → NombreLargo token) from
    ⟨h.1, h.2.1, h.2.2, NombreLargo.fuera⟩
  unfold parseTokenC parseToken
  cases hat : ['@'].isPrefixOf? token with
  | none => exact ⟨rfl, by simp, by simp⟩
  | some s =>
    obtain rfl := List.isPrefixOf?_eq_some_iff_append_eq.mp hat
    simp only [leer_some, bind_sigue, Option.bind_eq_bind, Option.bind_some]
    cases hhost : until? 15 ':' s with
    | none => exact ⟨rfl, by simp, by simp⟩
    | some r =>
      obtain ⟨host, rest⟩ := r
      obtain ⟨rfl, hne, hle, hsep, -⟩ := until?_eq_some_iff.mp hhost
      simp only [leer_some, bind_sigue, Option.bind_some,
        @guardar_of_le 16 host (by omega)]
      split
      · obtain ⟨hresult, hend, hout⟩ := parsePairsC_spec host (n := rest.length) le_rfl
        refine ⟨hresult, hend, fun h => ?_⟩
        obtain ⟨pares, nombre, more, hrest, hlen, hnombre⟩ := hout h
        exact ⟨host, pares, nombre, more, by rw [← hrest]; rfl, hne, hle, hsep, hlen, hnombre⟩
      · exact ⟨rfl, by simp, by simp⟩

/-- The tokens of a line. -/
theorem parseTokensC_spec (ts : List CString) :
    (parseTokensC ts).resultado = parseTokens ts
      ∧ parseTokensC ts ≠ sinFin
      ∧ (parseTokensC ts = fuera ↔ ∃ (bloques : List Bloque) (token : CString)
        (rest : List CString), ts = bloques.map Bloque.texto ++ token :: rest
          ∧ NombreLargo token) := by
  induction ts with
  | nil => exact ⟨rfl, by simp [parseTokensC], by simp [parseTokensC], by simp⟩
  | cons t ts ih =>
    obtain ⟨hresult, hend, hout⟩ := ih
    obtain ⟨htresult, htend, htout⟩ := parseTokenC_spec t
    have hblock : ∀ here, parseTokenC t = sigue here → ∃ b : Bloque, t = b.texto := by
      intro here h
      have hparse : parseToken t = some here := by
        rw [← htresult, h]
        rfl
      obtain ⟨b, hb, -⟩ := parseToken_eq_some_iff.mp hparse
      exact ⟨b, hb⟩
    unfold parseTokensC
    refine ⟨?_, fun h => ?_, fun h => ?_, ?_⟩
    · rw [resultado_bind, htresult]
      simp only [parseTokens, Option.bind_eq_bind]
      congr 1
      ext here
      rw [resultado_bind, hresult]
      cases parseTokens ts <;> rfl
    · rcases bind_eq_sinFin_iff.mp h with h | ⟨here, -, h⟩
      · exact htend h
      · rcases bind_eq_sinFin_iff.mp h with h | ⟨more, -, h⟩
        · exact hend h
        · cases h
    · rcases bind_eq_fuera_iff.mp h with h | ⟨here, hhere, h⟩
      · exact ⟨[], t, ts, rfl, htout.mp h⟩
      · rcases bind_eq_fuera_iff.mp h with hmore | ⟨more, -, hmore⟩
        · obtain ⟨b, rfl⟩ := hblock here hhere
          obtain ⟨bloques, token, rest, rfl, htoken⟩ := hout.mp hmore
          exact ⟨b :: bloques, token, rest, rfl, htoken⟩
        · cases hmore
    · rintro ⟨bloques, token, rest, heq, htoken⟩
      cases bloques with
      | nil =>
        obtain ⟨rfl, rfl⟩ := List.cons.inj heq
        rw [htoken.fuera, bind_fuera]
      | cons b bloques =>
        obtain ⟨rfl, rfl⟩ := List.cons.inj heq
        have hread : parseTokenC b.texto = sigue b.pedidos := resultado_eq_some_iff.mp
          (htresult.trans (parseToken_eq_some_iff.mpr ⟨b, rfl, rfl⟩))
        rw [hread, bind_sigue, hout.mpr ⟨bloques, token, rest, rfl, htoken⟩, bind_fuera]

/-- **The checked parser is the parser of the model**, and its loops end. -/
theorem parseJobRequestC_spec (line : CString) :
    (parseJobRequestC line).resultado = parseJobRequest line
      ∧ parseJobRequestC line ≠ sinFin ∧ (parseJobRequestC line = fuera ↔ Desborda line) := by
  obtain ⟨hresult, hend, hout⟩ := parseTokensC_spec ((tokens ' ' line).drop 2)
  unfold parseJobRequestC parseJobRequest
  cases hid : parseIdLine Cmd.jobRequest line with
  | none =>
    refine ⟨rfl, by simp, by simp, ?_⟩
    rintro ⟨⟨hueco, cifras, valor, resto, hline⟩, -⟩
    have hread := parseIdLine_eq_some_iff.mpr
      ⟨hueco, cifras, valor, resto, hline.1, hline.2.1, hline.2.2.1, hline.2.2.2, rfl⟩
    exact absurd (hid.symm.trans hread) (by simp)
  | some jobId =>
    obtain ⟨hueco, cifras, valor, resto, hline, hhueco, hcifras, hresto, -⟩ :=
      parseIdLine_eq_some_iff.mp hid
    simp only [leer_some, bind_sigue, Option.bind_eq_bind, Option.bind_some]
    refine ⟨?_, fun h => ?_, fun h => ?_, fun h => ?_⟩
    · rw [resultado_bind, hresult]
      cases parseTokens ((tokens ' ' line).drop 2) <;> rfl
    · rcases bind_eq_sinFin_iff.mp h with h | ⟨l, -, h⟩
      · exact hend h
      · cases h
    · rcases bind_eq_fuera_iff.mp h with h | ⟨l, -, h⟩
      · exact ⟨⟨hueco, cifras, valor, resto, hline, hhueco, hcifras, hresto⟩, hout.mp h⟩
      · cases h
    · rw [hout.mpr h.2, bind_fuera]

/-- **The stores of the parsers stay inside their arrays**, and the loops end in
time, on exactly the lines that do not reach a resource name of seven characters
or more. -/
theorem parsers_seguro_iff (line : CString) :
    ((parseReserveC line).Seguro ∧ (parseReleaseC line).Seguro
        ∧ (parseJobRequestC line).Seguro ∧ (parseAnnounceC line).Seguro)
      ↔ ¬ Desborda line := by
  obtain ⟨-, hend, hout⟩ := parseJobRequestC_spec line
  have hresource : ∀ cmd, (parseResourceLineC cmd line).Seguro :=
    fun cmd => parseResourceLineC_eq cmd line ▸ leer_ne _
  have hannounce : (parseAnnounceC line).Seguro := parseAnnounceC_eq line ▸ leer_ne _
  constructor
  · rintro ⟨-, -, hjob, -⟩ hline
    exact hjob.1 (hout.mpr hline)
  · intro hline
    exact ⟨hresource _, hresource _, ⟨fun h => hline (hout.mp h), hend⟩, hannounce⟩

/-- **The seventh character.** The name `network` fills `rec`, and its NUL is
stored behind it. -/
theorem parseJobRequestC_seven :
    parseJobRequestC "JOB_REQUEST 1 @10.0.0.1:network:1".toList = fuera := by
  decide +kernel

end Hpc
