import HpcAgent.Parsing

/-!
# The format of a `JOB_REQUEST`

`parse_job_request` mixes two ways of reading: `strtok_r` cuts the line at the
blanks, and `sscanf` reads the id and each pair with conversions that skip white
space and do not ask what stands behind them. This module says what the two
accept together.

A `Bloque` is a token as the loops of the parser read it: the host, the pairs,
and whatever the inner loop leaves when it meets a character that is not a
colon. What the header promises is the special case without leavings
(`Bloque.Exacto`), on a line whose first two tokens are the command and the id.
-/

namespace Hpc

open Scan

/-- A pair `:res:amount`, as one round of the inner loop reads it: the white
space that `%d` skips, and the text of the number. -/
structure Par where
  tipo : Resource
  hueco : CString
  cifras : CString
  valor : ℤ
  hueco_space : ∀ c ∈ hueco, isSpace c = true
  decimal : Decimal cifras valor

/-- The text of a pair. -/
def Par.texto (p : Par) : CString :=
  ':' :: (p.tipo.toStr ++ ':' :: (p.hueco ++ p.cifras))

/-- `c_amt`. -/
def Par.amount (p : Par) : Int32 := toInt32 p.valor

/-- The requests of the pairs of one host: those that ask for something. -/
def Par.pedidos (host : CString) (pares : List Par) : List ResourceRequest :=
  (pares.filter (fun p => 0 < p.amount)).map (fun p => ⟨host, p.tipo, p.amount⟩)

/-- A token the two loops accept. -/
structure Bloque where
  host : CString
  pares : List Par
  /-- What stands behind the last pair. -/
  resto : CString
  host_ne : host ≠ []
  host_le : host.length ≤ 15
  host_sep : ':' ∉ host
  pares_ne : pares ≠ []
  resto_head : ∀ c ∈ resto.head?, c ≠ ':' ∧ c.isDigit = false

/-- The text of a token. -/
def Bloque.texto (b : Bloque) : CString :=
  '@' :: (b.host ++ (b.pares.flatMap Par.texto ++ b.resto))

/-- The requests of a token. -/
def Bloque.pedidos (b : Bloque) : List ResourceRequest := Par.pedidos b.host b.pares

/-- **`@host(:res:amount)+`**, and nothing else: no white space inside, nothing
left over. -/
def Bloque.Exacto (b : Bloque) : Prop := b.resto = [] ∧ ∀ p ∈ b.pares, p.hueco = []

/-- **The format of a `JOB_REQUEST`**: the command, the id, and blank-separated
tokens `@host(:res:amount)+`. -/
def EnFormato (line : CString) (jobId : Int32) (requests : List ResourceRequest) : Prop :=
  Cmd.jobRequest <+: line ∧ ∃ cifras valor, ∃ bloques : List Bloque,
    tokens ' ' line = Cmd.jobRequest :: cifras :: bloques.map Bloque.texto
      ∧ Decimal cifras valor ∧ jobId = toInt32 valor
      ∧ (∀ b ∈ bloques, b.Exacto) ∧ requests = bloques.flatMap Bloque.pedidos

/-- The first two tokens are the command and the id, each alone. -/
def IdAparte (line : CString) : Prop :=
  ∃ cifras valor, (tokens ' ' line).take 2 = [Cmd.jobRequest, cifras] ∧ Decimal cifras valor

/-- **A line that gets through with something unread**: an id can be read behind
the command and every token behind the first two is one the loops accept, but
the id shares its token with other text, or a token has text behind its last
pair or white space in front of an amount. -/
def SeCuela (line : CString) : Prop :=
  ∃ hueco cifras valor resto, ∃ bloques : List Bloque,
    line = Cmd.jobRequest ++ (hueco ++ (cifras ++ resto))
      ∧ (∀ c ∈ hueco, isSpace c = true) ∧ Decimal cifras valor
      ∧ (∀ c ∈ resto.head?, c.isDigit = false)
      ∧ (tokens ' ' line).drop 2 = bloques.map Bloque.texto
      ∧ (¬ IdAparte line ∨ ∃ b ∈ bloques, ¬ b.Exacto)

/-! ## The pairs of a token -/

/-- What the pairs of a token leave starts with neither a colon nor a digit. -/
def Ajeno (resto : CString) : Prop := ∀ c ∈ resto.head?, c ≠ ':' ∧ c.isDigit = false

theorem resourceOf_eq_some_iff {s : CString} {t : Resource} :
    resourceOf s = some t ↔ s = t.toStr := by
  constructor
  · intro h
    unfold resourceOf at h
    repeat' split at h
    · obtain rfl := Option.some.inj h
      assumption
    · obtain rfl := Option.some.inj h
      assumption
    · obtain rfl := Option.some.inj h
      assumption
    · exact absurd h (by simp)
  · rintro rfl
    exact resourceOf_toStr t

theorem colon_not_mem_toStr (t : Resource) : ':' ∉ t.toStr := by cases t <;> decide

/-- Behind a pair stands another one, or what the pairs leave. -/
theorem head?_pares {pares : List Par} {resto : CString} (h : Ajeno resto) :
    ∀ c ∈ (pares.flatMap Par.texto ++ resto).head?, c.isDigit = false := by
  intro c hc
  cases pares with
  | nil => exact (h c hc).2
  | cons p pares =>
    obtain rfl : ':' = c := Option.some.inj hc
    decide

/-- The name of a resource fits the width of its conversion. -/
theorem until?_toStr (t : Resource) {rest : CString} (hrest : ∀ c ∈ rest.head?, c = ':') :
    until? 7 ':' (t.toStr ++ rest) = some (t.toStr, rest) := by
  refine until?_append ?_ ?_ (colon_not_mem_toStr t) hrest
  · cases t <;> decide
  · cases t <;> decide

/-- **One round of the inner loop reads one pair.** -/
theorem parsePairs_texto (ip : CString) (n : ℕ) (p : Par) {rest : CString}
    (hrest : ∀ c ∈ rest.head?, c.isDigit = false) :
    parsePairs ip (n + 1) (p.texto ++ rest)
      = (parsePairs ip n rest).map (fun more =>
        if 0 < p.amount then ⟨ip, p.tipo, p.amount⟩ :: more else more) := by
  have hname : until? 7 ':' (p.tipo.toStr ++ ':' :: (p.hueco ++ (p.cifras ++ rest)))
      = some (p.tipo.toStr, ':' :: (p.hueco ++ (p.cifras ++ rest))) := until?_toStr p.tipo (by simp)
  have hamount : int? (p.hueco ++ (p.cifras ++ rest)) = some (p.amount, rest) :=
    int?_eq_some_iff.mpr ⟨p.hueco, p.cifras, p.valor, rfl, p.hueco_space, p.decimal, rfl, hrest⟩
  unfold Par.texto
  simp only [List.cons_append, List.append_assoc, parsePairs, hname, Option.bind_eq_bind,
    Option.bind_some, List.isPrefixOf?, BEq.rfl, if_true, hamount, resourceOf_toStr]
  cases parsePairs ip n rest <;> rfl

/-- A round that goes through has read a pair. -/
theorem exists_par {ip : CString} {n : ℕ} {s : CString} {l : List ResourceRequest}
    (h : parsePairs ip (n + 1) (':' :: s) = some l) :
    ∃ (p : Par) (rest : CString) (more : List ResourceRequest), ':' :: s = p.texto ++ rest
      ∧ (∀ c ∈ rest.head?, c.isDigit = false) ∧ parsePairs ip n rest = some more := by
  simp only [parsePairs, Option.bind_eq_bind, Option.bind_eq_some_iff] at h
  obtain ⟨⟨name, s₁⟩, hname, s₂, hcolon, ⟨amount, s₃⟩, hamount, type, htype, more, hmore, -⟩ := h
  obtain ⟨hs, -, -, -, -⟩ := until?_eq_some_iff.mp hname
  obtain ⟨hueco, cifras, v, hs₂, hhueco, hcifras, -, hrest⟩ := int?_eq_some_iff.mp hamount
  obtain rfl := resourceOf_eq_some_iff.mp htype
  obtain rfl := List.isPrefixOf?_eq_some_iff_append_eq.mp hcolon
  refine ⟨⟨type, hueco, cifras, v, hhueco, hcifras⟩, s₃, more, ?_, hrest, hmore⟩
  subst hs hs₂
  simp [Par.texto]

/-- **The inner loop reads the pairs of a token**, whatever stands behind them. -/
theorem parsePairs_pares (ip : CString) {pares : List Par} {resto : CString} (h : Ajeno resto)
    {n : ℕ} (hn : pares.length ≤ n) :
    parsePairs ip n (pares.flatMap Par.texto ++ resto) = some (Par.pedidos ip pares) := by
  induction pares generalizing n with
  | nil =>
    unfold parsePairs
    split
    · next s heq =>
      exact absurd rfl (h ':' (by rw [← List.nil_append resto]; exact congrArg List.head? heq)).1
    · rfl
  | cons p pares ih =>
    obtain ⟨n, rfl⟩ : ∃ m, n = m + 1 := ⟨n - 1, by simp at hn; omega⟩
    rw [List.flatMap_cons, List.append_assoc, parsePairs_texto ip n p (head?_pares h),
      ih (by simpa using hn)]
    unfold Par.pedidos
    by_cases hpos : 0 < p.amount
    · simp [hpos]
    · simp [hpos]

/-- **A loop that goes through has read pairs**, as long as its rounds suffice. -/
theorem exists_pares {ip : CString} {n : ℕ} {s : CString} {l : List ResourceRequest}
    (hn : s.length ≤ n) (hs : ∀ c ∈ s.head?, c.isDigit = false)
    (h : parsePairs ip n s = some l) :
    ∃ (pares : List Par) (resto : CString),
      s = pares.flatMap Par.texto ++ resto ∧ Ajeno resto := by
  induction n generalizing s l with
  | zero =>
    obtain rfl := List.length_eq_zero_iff.mp (Nat.le_zero.mp hn)
    exact ⟨[], [], rfl, by simp [Ajeno]⟩
  | succ n ih =>
    by_cases hcolon : s.head? = some ':'
    · obtain ⟨s', rfl⟩ : ∃ s', s = ':' :: s' := by
        cases s with
        | nil => exact absurd hcolon (by simp)
        | cons c s' => exact ⟨s', by rw [Option.some.inj hcolon]⟩
      obtain ⟨p, rest, more, heq, hrest, hmore⟩ := exists_par h
      have hlen : (':' :: s').length = p.texto.length + rest.length := by
        rw [heq, List.length_append]
      have hpos : 0 < p.texto.length := by simp [Par.texto]
      obtain ⟨pares, resto, hpares, hresto⟩ := ih (by omega) hrest hmore
      exact ⟨p :: pares, resto, by rw [heq, hpares, List.flatMap_cons, List.append_assoc], hresto⟩
    · exact ⟨[], s, rfl, fun c hc => ⟨fun heq => hcolon (heq ▸ hc), hs c hc⟩⟩

/-- A pair is at least one character. -/
theorem length_pares_le (pares : List Par) (resto : CString) :
    pares.length ≤ (pares.flatMap Par.texto ++ resto).length := by
  induction pares with
  | nil => exact Nat.zero_le _
  | cons p pares ih =>
    have hpos : 0 < p.texto.length := by simp [Par.texto]
    rw [List.flatMap_cons, List.append_assoc, List.length_append, List.length_cons]
    omega

/-- **What a token is to `parse_job_request`**: accepted just if it is a block,
with the requests of its pairs. -/
theorem parseToken_eq_some_iff {token : CString} {requests : List ResourceRequest} :
    parseToken token = some requests
      ↔ ∃ b : Bloque, token = b.texto ∧ requests = b.pedidos := by
  constructor
  · intro h
    simp only [parseToken, Option.bind_eq_bind, Option.bind_eq_some_iff] at h
    obtain ⟨s, hat, ⟨host, rest⟩, hhost, h⟩ := h
    obtain rfl := List.isPrefixOf?_eq_some_iff_append_eq.mp hat
    obtain ⟨rfl, hne, hlen, hsep, -⟩ := until?_eq_some_iff.mp hhost
    split at h
    · next hcolon =>
      obtain ⟨pares, resto, rfl, hresto⟩ := exists_pares le_rfl
        (fun c hc => by rw [hcolon] at hc; obtain rfl := Option.some.inj hc; decide) h
      have hpares : pares ≠ [] := by
        rintro rfl
        exact (hresto ':' hcolon).1 rfl
      refine ⟨⟨host, pares, resto, hne, hlen, hsep, hpares, hresto⟩, rfl, ?_⟩
      have hrounds := parsePairs_pares host hresto
        (length_pares_le pares resto)
      exact Option.some.inj (h.symm.trans hrounds)
    · exact absurd h (by simp)
  · rintro ⟨b, rfl, rfl⟩
    obtain ⟨p, pares, hpares⟩ := List.exists_cons_of_ne_nil b.pares_ne
    have hcolon : (b.pares.flatMap Par.texto ++ b.resto).head? = some ':' := by
      rw [hpares]
      rfl
    have hhost : until? 15 ':' (b.host ++ (b.pares.flatMap Par.texto ++ b.resto))
        = some (b.host, b.pares.flatMap Par.texto ++ b.resto) :=
      until?_append b.host_ne b.host_le b.host_sep
        (fun c hc => (Option.some.inj (hcolon.symm.trans hc)).symm)
    unfold parseToken Bloque.texto
    simp only [List.isPrefixOf?, BEq.rfl, if_true, Option.bind_eq_bind, Option.bind_some, hhost,
      hcolon]
    exact parsePairs_pares b.host b.resto_head (length_pares_le b.pares b.resto)

theorem parseTokens_eq_some_iff {ts : List CString} {requests : List ResourceRequest} :
    parseTokens ts = some requests
      ↔ ∃ bloques : List Bloque, ts = bloques.map Bloque.texto
        ∧ requests = bloques.flatMap Bloque.pedidos := by
  induction ts generalizing requests with
  | nil =>
    constructor
    · intro h
      exact ⟨[], rfl, (Option.some.inj h).symm⟩
    · rintro ⟨bloques, hts, rfl⟩
      obtain rfl := List.map_eq_nil_iff.mp hts.symm
      rfl
  | cons t ts ih =>
    simp only [parseTokens, Option.bind_eq_bind, Option.bind_eq_some_iff]
    constructor
    · rintro ⟨here, hhere, more, hmore, h⟩
      obtain ⟨b, rfl, rfl⟩ := parseToken_eq_some_iff.mp hhere
      obtain ⟨bloques, rfl, rfl⟩ := ih.mp hmore
      exact ⟨b :: bloques, rfl, (Option.some.inj h).symm⟩
    · rintro ⟨bloques, hts, rfl⟩
      obtain ⟨b, bloques, rfl⟩ := List.exists_cons_of_ne_nil (l := bloques) (by
        rintro rfl
        exact absurd hts (by simp))
      obtain ⟨rfl, rfl⟩ := List.cons.inj hts
      exact ⟨b.pedidos, parseToken_eq_some_iff.mpr ⟨b, rfl, rfl⟩,
        bloques.flatMap Bloque.pedidos, ih.mpr ⟨bloques, rfl, rfl⟩, rfl⟩

/-- The id that `sscanf` reads behind the command. -/
theorem parseIdLine_eq_some_iff {cmd line : CString} {jobId : Int32} :
    parseIdLine cmd line = some jobId
      ↔ ∃ hueco cifras valor resto, line = cmd ++ (hueco ++ (cifras ++ resto))
        ∧ (∀ c ∈ hueco, isSpace c = true) ∧ Decimal cifras valor
        ∧ (∀ c ∈ resto.head?, c.isDigit = false) ∧ jobId = toInt32 valor := by
  simp only [parseIdLine, Option.bind_eq_bind, Option.bind_eq_some_iff]
  constructor
  · rintro ⟨s, hs, ⟨x, resto⟩, hx, h⟩
    obtain rfl := Option.some.inj h
    obtain rfl := List.isPrefixOf?_eq_some_iff_append_eq.mp hs
    obtain ⟨hueco, cifras, v, rfl, hhueco, hcifras, rfl, hresto⟩ := int?_eq_some_iff.mp hx
    exact ⟨hueco, cifras, v, resto, rfl, hhueco, hcifras, hresto, rfl⟩
  · rintro ⟨hueco, cifras, v, resto, rfl, hhueco, hcifras, hresto, rfl⟩
    exact ⟨_, List.isPrefixOf?_eq_some_iff_append_eq.mpr rfl, (toInt32 v, resto),
      int?_eq_some_iff.mpr ⟨hueco, cifras, v, rfl, hhueco, hcifras, rfl, hresto⟩, rfl⟩

/-- **What `parse_job_request` accepts**: an id behind the command, and blocks
behind the first two tokens. -/
theorem parseJobRequest_eq_some_iff {line : CString} {jobId : Int32}
    {requests : List ResourceRequest} :
    parseJobRequest line = some (jobId, requests)
      ↔ parseIdLine Cmd.jobRequest line = some jobId
        ∧ ∃ bloques : List Bloque, (tokens ' ' line).drop 2 = bloques.map Bloque.texto
          ∧ requests = bloques.flatMap Bloque.pedidos := by
  simp only [parseJobRequest, Option.bind_eq_bind, Option.bind_eq_some_iff]
  constructor
  · rintro ⟨id, hid, l, hl, h⟩
    obtain ⟨rfl, rfl⟩ := Prod.mk.inj (Option.some.inj h)
    exact ⟨hid, parseTokens_eq_some_iff.mp hl⟩
  · rintro ⟨hid, hl⟩
    exact ⟨jobId, hid, requests, parseTokens_eq_some_iff.mpr hl, rfl⟩

/-! ## Texts that read in one way -/

/-- Two readings of the pairs of a token agree on whether anything is left
unread. -/
theorem exacto_of_pares_eq {pares pares' : List Par} {resto : CString} (h : Ajeno resto)
    (heq : pares.flatMap Par.texto ++ resto = pares'.flatMap Par.texto)
    (hexact : ∀ p ∈ pares', p.hueco = []) : resto = [] ∧ ∀ p ∈ pares, p.hueco = [] := by
  induction pares generalizing pares' with
  | nil =>
    cases pares' with
    | nil => exact ⟨heq, by simp⟩
    | cons p' pares' =>
      have heq : resto = (p' :: pares').flatMap Par.texto := heq
      exact absurd rfl (h ':' (by rw [heq]; rfl)).1
  | cons p pares ih =>
    cases pares' with
    | nil => exact absurd heq (by simp [Par.texto])
    | cons p' pares' =>
      obtain ⟨hp', hpares'⟩ := List.forall_mem_cons.mp hexact
      simp only [List.flatMap_cons, Par.texto, hp', List.cons_append, List.append_assoc,
        List.nil_append, List.cons.injEq, true_and] at heq
      -- the resource names end at the same colon
      have hcut : ∀ (t : Resource) (s : CString),
          (t.toStr ++ ':' :: s).dropWhile (fun c => c != ':') = ':' :: s := by
        intro t s
        refine dropWhile_append_of_head (fun c hc => ?_) (by simp)
        simpa using ne_of_mem_of_not_mem hc (colon_not_mem_toStr t)
      have hnumber := congrArg (List.dropWhile (fun c => c != ':')) heq
      rw [hcut, hcut] at hnumber
      have hnumber := (List.cons.inj hnumber).2
      have hread : int? (p'.cifras ++ pares'.flatMap Par.texto)
          = some (p'.amount, pares'.flatMap Par.texto) := by
        refine int?_eq_some_iff.mpr ⟨[], p'.cifras, p'.valor, rfl, by simp, p'.decimal, rfl, ?_⟩
        have := @head?_pares pares' [] (by simp [Ajeno])
        rwa [List.append_nil] at this
      have hread' : int? (p.hueco ++ (p.cifras ++ (pares.flatMap Par.texto ++ resto)))
          = some (p.amount, pares.flatMap Par.texto ++ resto) :=
        int?_eq_some_iff.mpr ⟨p.hueco, p.cifras, p.valor, rfl, p.hueco_space, p.decimal, rfl,
          head?_pares h⟩
      have hrest : pares.flatMap Par.texto ++ resto = pares'.flatMap Par.texto := by
        rw [hnumber, hread] at hread'
        exact (Prod.mk.inj (Option.some.inj hread')).2.symm
      obtain ⟨hresto, hpares⟩ := ih hrest hpares'
      refine ⟨hresto, List.forall_mem_cons.mpr ⟨?_, hpares⟩⟩
      -- the number of the exact reading does not start with white space
      by_contra hne
      obtain ⟨c, hueco, hhueco⟩ := List.exists_cons_of_ne_nil hne
      obtain ⟨d, cifras, hcifras⟩ := List.exists_cons_of_ne_nil p'.decimal.ne_nil
      rw [hhueco, hcifras] at hnumber
      obtain rfl : c = d := (List.cons.inj hnumber).1
      have hspace := p.hueco_space c (hhueco ▸ List.mem_cons_self)
      rw [p'.decimal.not_isSpace c (hcifras ▸ List.mem_cons_self)] at hspace
      exact Bool.false_ne_true hspace

/-- Two readings of a token agree on whether anything is left unread. -/
theorem Bloque.exacto_of_texto_eq {b b' : Bloque} (h : b.texto = b'.texto) (hb' : b'.Exacto) :
    b.Exacto := by
  have hcut : ∀ b : Bloque, (b.host ++ (b.pares.flatMap Par.texto ++ b.resto)).dropWhile
      (fun c => c != ':') = b.pares.flatMap Par.texto ++ b.resto := by
    intro b
    refine dropWhile_append_of_head (fun c hc => ?_) (fun c hc => ?_)
    · simpa using ne_of_mem_of_not_mem hc b.host_sep
    · obtain ⟨p, pares, hpares⟩ := List.exists_cons_of_ne_nil b.pares_ne
      rw [hpares] at hc
      obtain rfl : ':' = c := Option.some.inj hc
      decide
  have heq := congrArg (List.dropWhile (fun c => c != ':')) (List.cons.inj h).2
  rw [hcut, hcut, hb'.1, List.append_nil] at heq
  exact exacto_of_pares_eq b.resto_head heq hb'.2

/-! ## The line -/

/-- An id alone in its token is the id `sscanf` reads. -/
theorem parseIdLine_of_tokens {line cifras : CString} {valor : ℤ} {ts : List CString}
    (hline : Cmd.jobRequest <+: line) (htokens : tokens ' ' line = Cmd.jobRequest :: cifras :: ts)
    (hcifras : Decimal cifras valor) :
    parseIdLine Cmd.jobRequest line = some (toInt32 valor) := by
  obtain ⟨blancos, rest, rfl, hblancos, -, -, -, hrest⟩ := tokens_eq_cons htokens
  obtain ⟨hueco, resto, rfl, hhueco, hresto, -, -, -⟩ := tokens_eq_cons hrest
  have hnone : blancos = [] := by
    by_contra hne
    obtain ⟨c, blancos, rfl⟩ := List.exists_cons_of_ne_nil hne
    obtain rfl := hblancos c List.mem_cons_self
    obtain ⟨s, hs⟩ := hline
    exact absurd (List.cons.inj hs).1 (by decide)
  subst hnone
  exact parseIdLine_eq_some_iff.mpr ⟨hueco, cifras, valor, resto, rfl,
    fun c hc => by rw [hhueco c hc]; decide, hcifras,
    fun c hc => by rw [hresto c hc]; decide, rfl⟩

/-- A line of the format is accepted, with the requests it says. -/
theorem EnFormato.parse {line : CString} {jobId : Int32} {requests : List ResourceRequest}
    (h : EnFormato line jobId requests) : parseJobRequest line = some (jobId, requests) := by
  obtain ⟨hline, cifras, valor, bloques, htokens, hcifras, rfl, -, hrequests⟩ := h
  refine parseJobRequest_eq_some_iff.mpr
    ⟨parseIdLine_of_tokens hline htokens hcifras, bloques, ?_, hrequests⟩
  rw [htokens]
  rfl

/-- **`parse_job_request` accepts its format, and what gets through beside it**:
on a line the result is valid just for the lines of the format, with the requests
they say, if and only if the line does not get through with something unread. -/
theorem parseJobRequest_iff (line : CString) :
    (∀ jobId requests, parseJobRequest line = some (jobId, requests)
        ↔ EnFormato line jobId requests) ↔ ¬ SeCuela line := by
  constructor
  · rintro h ⟨hueco, cifras, valor, resto, bloques, hline, hhueco, hcifras, hresto, hbloques,
      hslip⟩
    have haccepted := parseJobRequest_eq_some_iff.mpr
      ⟨parseIdLine_eq_some_iff.mpr ⟨hueco, cifras, valor, resto, hline, hhueco, hcifras, hresto,
        rfl⟩, bloques, hbloques, rfl⟩
    obtain ⟨-, cifras', valor', bloques', htokens, hcifras', -, hexact, -⟩ :=
      (h _ _).mp haccepted
    rw [htokens] at hbloques
    rcases hslip with hid | ⟨b, hb, hnot⟩
    · exact hid ⟨cifras', valor', by rw [htokens]; rfl, hcifras'⟩
    · have hmem : b.texto ∈ bloques'.map Bloque.texto :=
        (show bloques'.map Bloque.texto = bloques.map Bloque.texto from hbloques)
          ▸ List.mem_map_of_mem hb
      obtain ⟨b', hb', htexto⟩ := List.mem_map.mp hmem
      exact hnot (Bloque.exacto_of_texto_eq htexto.symm (hexact b' hb'))
  · intro hnot jobId requests
    refine ⟨fun h => ?_, EnFormato.parse⟩
    obtain ⟨hid, bloques, hbloques, hrequests⟩ := parseJobRequest_eq_some_iff.mp h
    obtain ⟨hueco, cifras, valor, resto, hline, hhueco, hcifras, hresto, rfl⟩ :=
      parseIdLine_eq_some_iff.mp hid
    have hclean : IdAparte line ∧ ∀ b ∈ bloques, b.Exacto := by
      by_contra hslip
      refine hnot ⟨hueco, cifras, valor, resto, bloques, hline, hhueco, hcifras, hresto, hbloques,
        ?_⟩
      by_cases haparte : IdAparte line
      · obtain ⟨b, hb⟩ := not_forall.mp (fun hall => hslip ⟨haparte, hall⟩)
        exact Or.inr ⟨b, Classical.not_imp.mp hb⟩
      · exact Or.inl haparte
    obtain ⟨⟨cifras', valor', htake, hcifras'⟩, hexact⟩ := hclean
    have hstarts : Cmd.jobRequest <+: line := ⟨_, hline.symm⟩
    have htokens : tokens ' ' line = Cmd.jobRequest :: cifras' :: bloques.map Bloque.texto := by
      rw [← List.take_append_drop 2 (tokens ' ' line), htake, hbloques]
      rfl
    have hsame := parseIdLine_of_tokens hstarts htokens hcifras'
    exact ⟨hstarts, cifras', valor', bloques, htokens, hcifras',
      Option.some.inj (hid.symm.trans hsame), hexact, hrequests⟩

/-- **Three lines that get through.** An id that is not cut off from the command
makes the first host the second token, which is skipped; the other two leave text
behind a pair and skip white space in front of an amount. -/
theorem parseJobRequest_unread :
    parseJobRequest "JOB_REQUEST5 @10.0.0.1:cpu:2 @10.0.0.2:mem:8".toList
        = some (5, [⟨"10.0.0.2".toList, .mem, 8⟩])
      ∧ (∀ jobId requests,
        ¬ EnFormato "JOB_REQUEST5 @10.0.0.1:cpu:2 @10.0.0.2:mem:8".toList jobId requests)
      ∧ parseJobRequest "JOB_REQUEST 5 @10.0.0.1:cpu:2;mem:8".toList
        = some (5, [⟨"10.0.0.1".toList, .cpu, 2⟩])
      ∧ parseJobRequest "JOB_REQUEST 5 @10.0.0.1:cpu:\t2".toList
        = some (5, [⟨"10.0.0.1".toList, .cpu, 2⟩]) := by
  refine ⟨by decide +kernel, ?_, by decide +kernel, by decide +kernel⟩
  rintro jobId requests ⟨-, cifras, valor, bloques, htokens, -⟩
  have hfirst : (tokens ' ' "JOB_REQUEST5 @10.0.0.1:cpu:2 @10.0.0.2:mem:8".toList).head?
      = some Cmd.jobRequest := by rw [htokens, List.head?_cons]
  exact absurd hfirst (by decide +kernel)

end Hpc
