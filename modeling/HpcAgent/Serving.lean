import HpcAgent.Lib.Arithmetic
import HpcAgent.Lib.Fitting
import HpcAgent.Ledger

/-!
# What a release serves

`release_resource` puts units back and takes requests off the queue as long as
the one at the top fits. `Entrega` says what taking a number of requests off does
to the state: the counter, the queue, the allocations of the jobs and the answers
sent. It holds of one round of the loop, it composes, and so it holds of the loop
with the longest prefix that fits (`entrega_serveQueue`).

The guard of the function adds before it compares, and the sum of two `int`s can
pass the largest one. A release is served as it should be exactly if that does
not happen (`releaseResource_reparte`).
-/

namespace Hpc

/-! ## The specification -/

/-- The lines handed to `send_message`, with their connections. -/
def enviados (log : List Event) : List (Conn × Message) :=
  log.filterMap (fun e => match e with | .tx conn msg => some (conn, msg) | _ => none)

@[simp] theorem enviados_append (l m : List Event) :
    enviados (l ++ m) = enviados l ++ enviados m :=
  List.filterMap_append

/-- What a request asks for. -/
abbrev costo (p : PendingRequest) : ℤ := p.amount.toInt

/-- The mark of a request in the table: the first local allocation of its
connection and resource, in the job of its id. -/
def marcar (tipo : Resource) (jobs : List Job) (p : PendingRequest) : List Job :=
  jobs.modifyFirst (fun j => j.jobId == p.jobId) (Job.markGranted p.ownerConn tipo)

/-- The job of that id is there and complete. -/
def completo (jobs : List Job) (jobId : Int32) : Bool :=
  (jobs.find? (fun j => j.jobId == jobId)).any (·.complete)

/-- The answer to a request that is served, its allocation marked. -/
def respuesta (jobs : List Job) (p : PendingRequest) : List (Conn × Message) :=
  match p.origen with
  | .originRemote => [(p.ownerConn, .granted p.jobId)]
  | .originLocal => if completo jobs p.jobId then [(p.ownerConn, .jobGranted p.jobId)] else []

/-- The answers to requests that are served one after the other. -/
def respuestas (tipo : Resource) : List Job → List PendingRequest → List (Conn × Message)
  | _, [] => []
  | jobs, p :: ps => respuesta (marcar tipo jobs p) p ++ respuestas tipo (marcar tipo jobs p) ps

/-- **The requests `servidas` are taken off the queue** of a resource, with so many
units to begin with: the rest waits in order, the units are gone, the allocations
marked, the answers sent, and nothing else happens. -/
structure Manager.Entrega (tipo : Resource) (unidades : ℤ) (servidas : List PendingRequest)
    (s s' : Manager) : Prop where
  cola : s.cola tipo = servidas ++ s'.cola tipo
  available : (s'.available tipo).toInt = unidades - suma servidas
  jobs : s'.jobs = servidas.foldl (marcar tipo) s.jobs
  envios : enviados s'.log = enviados s.log ++ respuestas tipo s.jobs servidas
  otros : ∀ t, t ≠ tipo → s'.recursos t = s.recursos t
  total : s'.total tipo = s.total tipo
  conns : s'.conns = s.conns
  nodos : s'.nodos = s.nodos
  ip : s'.ip = s.ip

/-- **The longest prefix that fits**: its running sum is within the budget, and no
longer one's is. -/
structure PrefijoMaximo (cola : List PendingRequest) (unidades : ℤ)
    (servidas : List PendingRequest) : Prop where
  isPrefix : servidas <+: cola
  fits : servidas ≠ [] → suma servidas ≤ unidades
  longest : ∀ l, l <+: cola → l ≠ [] → suma l ≤ unidades → l <+: servidas

/-- What is free of a resource together with what is given back. -/
def Manager.unidades (s : Manager) (tipo : Resource) (amount : Int32) : ℤ :=
  (s.available tipo).toInt + amount.toInt

/-- **`release_resource` serves as it should**: what may be given back is given to
the longest prefix of the queue that fits, and anything else is ignored. -/
structure Manager.Reparte (s : Manager) (tipo : Resource) (amount : Int32) : Prop where
  admitido : 0 ≤ amount → s.unidades tipo amount ≤ (s.total tipo).toInt →
    ∃ servidas, PrefijoMaximo (s.cola tipo) (s.unidades tipo amount) servidas ∧
      Manager.Entrega tipo (s.unidades tipo amount) servidas s (releaseResource tipo amount s)
  ignorado : ¬(0 ≤ amount ∧ s.unidades tipo amount ≤ (s.total tipo).toInt) →
    releaseResource tipo amount s = s

/-- The sum of the guard passes the largest `int`, comes out negative, and is not
refused. -/
def Manager.Desborda (s : Manager) (tipo : Resource) (amount : Int32) : Prop :=
  0 ≤ amount ∧ Int32.intMax < s.unidades tipo amount ∧
    s.unidades tipo amount - 4294967296 ≤ (s.total tipo).toInt

instance (s : Manager) (tipo : Resource) (amount : Int32) : Decidable (s.Desborda tipo amount) :=
  inferInstanceAs (Decidable (_ ∧ _ ∧ _))

/-! ## The loop -/

/-- The answer of a round is sent as the table has the job then. -/
theorem enviados_answerTop {p : PendingRequest} (hid : 0 ≤ p.jobId) (s : Manager) :
    enviados (answerTop p s).log = enviados s.log ++ respuesta s.jobs p := by
  have hver : tablaJobsVerificar s.tabla p.jobId = completo s.jobs p.jobId :=
    TablaJobs.verificar_eq s.tabla hid
  unfold answerTop respuesta
  cases p.origen with
  | originRemote => exact enviados_append _ _
  | originLocal =>
    dsimp only
    rw [hver]
    split
    · rw [log_sendJobGranted, enviados_append, enviados_append]
      simp [enviados]
    · exact (List.append_nil _).symm

namespace Manager.Entrega

variable {tipo : Resource} {s t u : Manager}

theorem refl (tipo : Resource) (s : Manager) :
    Entrega tipo (s.available tipo).toInt [] s s :=
  ⟨rfl, by simp, rfl, (List.append_nil _).symm, fun _ _ => rfl, rfl, rfl, rfl, rfl⟩

/-- Requests taken off, and then more. -/
theorem trans {unidades : ℤ} {l m : List PendingRequest} (h : Entrega tipo unidades l s t)
    (h' : Entrega tipo (t.available tipo).toInt m t u) : Entrega tipo unidades (l ++ m) s u := by
  have hanswers : ∀ jobs, respuestas tipo jobs (l ++ m)
      = respuestas tipo jobs l ++ respuestas tipo (l.foldl (marcar tipo) jobs) m := by
    intro jobs
    clear h
    induction l generalizing jobs with
    | nil => rfl
    | cons p l ih => simp only [List.cons_append, respuestas, ih, List.append_assoc,
        List.foldl_cons]
  refine ⟨?_, ?_, ?_, ?_, fun r hr => (h'.otros r hr).trans (h.otros r hr),
    h'.total.trans h.total, h'.conns.trans h.conns, h'.nodos.trans h.nodos, h'.ip.trans h.ip⟩
  · rw [h.cola, h'.cola, List.append_assoc]
  · rw [h'.available, h.available]
    rw [suma_append]
    omega
  · rw [h'.jobs, h.jobs, List.foldl_append]
  · rw [h'.envios, h.envios, h.jobs, hanswers, List.append_assoc]

/-- **One round of the loop** takes off the request at the top. -/
theorem dequeueTop {top : PendingRequest} {rest : List PendingRequest}
    (hcola : s.cola tipo = top :: rest) (hid : 0 ≤ top.jobId) (hpos : 0 < top.amount)
    (hfits : top.amount ≤ s.available tipo) :
    Entrega tipo (s.available tipo).toInt [top] s (dequeueTop tipo top s) := by
  rw [dequeueTop_eq]
  have hjobs : (markTop tipo top (popTop tipo top s)).jobs = marcar tipo s.jobs top :=
    TablaJobs.jobs_cambioAlloc s.tabla hid _ _
  refine ⟨?_, ?_, ?_, ?_, fun r hr => ?_, ?_, ?_, ?_, ?_⟩
  · have hrest := cola_popTop s tipo tipo hcola
    rw [if_pos rfl] at hrest
    rw [cola_answerTop]
    exact hcola.trans (congrArg _ hrest.symm)
  · rw [available_answerTop]
    show ((popTop tipo top s).available tipo).toInt = _
    rw [available_popTop, if_pos rfl, Int32.toInt_sub_of_pos_of_le hpos hfits]
    simp
  · rw [jobs_answerTop, hjobs]
    rfl
  · rw [enviados_answerTop hid, hjobs]
    show Hpc.enviados (s.log ++ [.grant tipo top]) ++ _ = _
    rw [enviados_append]
    simp [Hpc.enviados, respuestas]
  · unfold answerTop
    repeat' split
    all_goals exact Function.update_of_ne hr _ _
  · rw [total_answerTop]
    exact total_popTop s tipo tipo top
  · rw [conns_answerTop]
    rfl
  · unfold answerTop
    repeat' split
    all_goals rfl
  · rw [ip_answerTop]
    rfl

end Manager.Entrega

/-- **The loop of `release_resource`** takes off what fits. -/
theorem entrega_serveQueue (tipo : Resource) (n : ℕ) {s : Manager}
    (hn : (s.cola tipo).length ≤ n) (hpos : ∀ p ∈ s.cola tipo, 0 < p.amount)
    (hids : ∀ p ∈ s.cola tipo, 0 ≤ p.jobId) :
    Manager.Entrega tipo (s.available tipo).toInt
      (fitting costo (s.available tipo).toInt (s.cola tipo))
      s (serveQueue tipo n s) := by
  induction n generalizing s with
  | zero =>
    rw [List.length_eq_zero_iff.mp (Nat.le_zero.mp hn)]
    exact .refl tipo s
  | succ n ih =>
    rw [serveQueue]
    cases hcola : s.cola tipo with
    | nil => exact .refl tipo s
    | cons top rest =>
      dsimp only
      by_cases hfits : top.amount ≤ s.available tipo
      · have hmem : top ∈ s.cola tipo := hcola ▸ List.mem_cons_self
        have hround := Manager.Entrega.dequeueTop hcola (hids top hmem) (hpos top hmem) hfits
        have hrest : (dequeueTop tipo top s).cola tipo = rest :=
          (List.cons.inj (hcola.symm.trans hround.cola)).2.symm
        have hleft : ((dequeueTop tipo top s).available tipo).toInt
            = (s.available tipo).toInt - costo top := by
          rw [hround.available, suma_cons, suma_nil, add_zero]
        have htail := ih (s := dequeueTop tipo top s)
          (by rw [hrest]; rw [hcola, List.length_cons] at hn; omega)
          (fun p hp => hpos p (hcola ▸ List.mem_cons_of_mem _ (hrest ▸ hp)))
          (fun p hp => hids p (hcola ▸ List.mem_cons_of_mem _ (hrest ▸ hp)))
        have hboth := hround.trans htail
        rw [hrest, hleft] at hboth
        have hle : costo top ≤ (s.available tipo).toInt := Int32.le_iff_toInt_le.mp hfits
        rw [if_pos hfits, fitting_cons_of_le hle]
        exact hboth
      · have hle : ¬costo top ≤ (s.available tipo).toInt :=
          fun h => hfits (Int32.le_iff_toInt_le.mpr h)
        rw [if_neg hfits, fitting_cons_of_not_le hle]
        exact .refl tipo s

/-! ## The release -/

section Release

variable {s : Manager} {tipo : Resource} {amount : Int32}

/-- **A release that is not refused** gives the units to what fits. -/
theorem entrega_releaseResource (hguard : 0 ≤ amount ∧ s.available tipo + amount ≤ s.total tipo)
    (hpos : ∀ p ∈ s.cola tipo, 0 < p.amount) (hids : ∀ p ∈ s.cola tipo, 0 ≤ p.jobId) :
    Manager.Entrega tipo (s.available tipo + amount).toInt
      (fitting costo (s.available tipo + amount).toInt (s.cola tipo))
      s (releaseResource tipo amount s) := by
  have hloop := entrega_serveQueue tipo (s.cola tipo).length (s := giveUnits tipo amount s)
    (by rw [cola_giveUnits]) (by rwa [cola_giveUnits]) (by rwa [cola_giveUnits])
  rw [available_giveUnits, if_pos rfl, cola_giveUnits] at hloop
  rw [releaseResource_eq, if_pos hguard]
  refine ⟨?_, hloop.available, hloop.jobs, hloop.envios, fun t ht => ?_, ?_, hloop.conns,
    hloop.nodos, hloop.ip⟩
  · rw [← hloop.cola, cola_giveUnits]
  · rw [hloop.otros t ht]
    exact Function.update_of_ne ht _ _
  · rw [hloop.total, total_giveUnits]

/-- What fits is the longest prefix. -/
theorem prefijoMaximo_fitting {cola : List PendingRequest} (unidades : ℤ)
    (hpos : ∀ p ∈ cola, 0 < p.amount) :
    PrefijoMaximo cola unidades (fitting costo unidades cola) :=
  ⟨fitting_prefix_of _ _, sum_fitting_le, fun _ hl hne hsum =>
    prefix_fitting (fun p hp => (Int32.pos_iff.mp (hpos p hp)).le) hl hne hsum⟩

/-- The sum of the guard, when it does not. -/
theorem toInt_add_of_not_desborda (hamount : 0 ≤ amount)
    (h : s.unidades tipo amount ≤ Int32.intMax) :
    (s.available tipo + amount).toInt = s.unidades tipo amount := by
  have h₁ := (s.available tipo).le_toInt
  have h₂ := Int32.nonneg_iff.mp hamount
  exact Int32.toInt_add_of_fits (by omega) h

/-- **A release is served as it should be** exactly if the sum of its guard does
not wrap. -/
theorem releaseResource_reparte (hpos : ∀ p ∈ s.cola tipo, 0 < p.amount)
    (hids : ∀ p ∈ s.cola tipo, 0 ≤ p.jobId) :
    s.Reparte tipo amount ↔ ¬s.Desborda tipo amount := by
  constructor
  · rintro hreparte ⟨hamount, hbig, htotal⟩
    -- the counter ends below zero, though nothing should change
    have hwrap : (s.available tipo + amount).toInt = s.unidades tipo amount - 4294967296 :=
      Int32.toInt_add_of_wraps hbig
    have hguard : s.available tipo + amount ≤ s.total tipo :=
      Int32.le_iff_toInt_le.mpr (hwrap ▸ htotal)
    have hmax := Int32.toInt_le_intMax (s.total tipo)
    have hsame := hreparte.ignorado (fun h => by omega)
    have hentrega := (entrega_releaseResource ⟨hamount, hguard⟩ hpos hids).available
    have hserved : 0 ≤ suma (fitting costo (s.available tipo + amount).toInt
        (s.cola tipo)) :=
      suma_nonneg (fun p hp => hpos p ((fitting_prefix_of _ _).subset hp))
    rw [hsame] at hentrega
    have hlt := amount.toInt_lt
    unfold Manager.unidades at hwrap
    omega
  · intro hno
    refine ⟨fun hamount hle => ?_, fun hrefused => ?_⟩
    · have hsum := toInt_add_of_not_desborda hamount
        (hle.trans (Int32.toInt_le_intMax (s.total tipo)))
      have hguard : s.available tipo + amount ≤ s.total tipo :=
        Int32.le_iff_toInt_le.mpr (hsum ▸ hle)
      have hentrega := entrega_releaseResource ⟨hamount, hguard⟩ hpos hids
      rw [hsum] at hentrega
      exact ⟨_, prefijoMaximo_fitting _ hpos, hentrega⟩
    · rw [releaseResource_eq, if_neg]
      rintro ⟨hamount, hguard⟩
      have hguard := Int32.le_iff_toInt_le.mp hguard
      -- the guard sees the sum, or a sum that has wrapped
      rcases le_or_gt (s.unidades tipo amount) Int32.intMax with hfits | hbig
      · rw [toInt_add_of_not_desborda hamount hfits] at hguard
        exact hrefused ⟨hamount, hguard⟩
      · rw [Int32.toInt_add_of_wraps hbig] at hguard
        exact hno ⟨hamount, hbig, hguard⟩

/-- Two requests wait for four units in use. -/
def dosEnCola : Manager :=
  handle 6 [] (.reserve 3 .cpu 2) (handle 5 [] (.reserve 2 .cpu 3)
    (handle 5 [] (.reserve 1 .cpu 4) (managerInit 4 1024 0 [])))

theorem releaseResource_reparte_dosEnCola : dosEnCola.Reparte .cpu 4 :=
  (releaseResource_reparte (by decide) (by decide)).mpr (by decide)

end Release

/-- **The largest amount is given back to a node with nothing out**: the release is
not ignored, and the counter ends below zero. -/
theorem not_reparte_intMax : ¬∀ (s : Manager) (tipo : Resource) (amount : Int32),
    (∀ p ∈ s.cola tipo, 0 < p.amount) → (∀ p ∈ s.cola tipo, 0 ≤ p.jobId) →
      s.Reparte tipo amount := by
  intro h
  have hreparte := h (managerInit 4 1024 0 []) .cpu 2147483647 (by decide) (by decide)
  have hsame := hreparte.ignorado (by decide)
  have hbelow : (releaseResource .cpu 2147483647 (managerInit 4 1024 0 [])).available .cpu
      = -2147483645 := by decide
  rw [hsame] at hbelow
  exact absurd hbelow (by decide)

end Hpc
