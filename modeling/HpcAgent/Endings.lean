import HpcAgent.Hosts
import HpcAgent.Wakeups

/-!
# The two ways of ending a job

`JOB_RELEASE` and `JOB_TIMEOUT` end a job by two separately written loops over its
allocations. Both give back what the job holds here, in the same order, and both
purge the queues of its entries: `JOB_RELEASE` at the first allocation that is not
held here, `JOB_TIMEOUT` after the loop. So the releases that follow that allocation
meet, in one of them, a queue with entries of the job that is ending.

The two leave the same node if these releases serve the same requests of the queue
with and without the entries (`Manager.Sosiego`), and tell the same hosts if the
addresses lead to them (`Manager.Localiza`); and if none of the releases is refused,
only then (`endings_agree`).
-/

namespace Hpc

/-! ## What releases serve -/

namespace Fila

variable {f g : Fila} {amount : Int32} {amounts : List Int32}

/-- What is there to serve from, once the release is in. -/
def recibe (amount : Int32) (f : Fila) : Int32 :=
  if f.Admite amount then f.disponible + amount else f.disponible

/-- The requests a release serves. -/
def sirve (amount : Int32) (f : Fila) : List PendingRequest :=
  if f.Admite amount then fitting (·.amount) (f.disponible + amount) f.cola else []

/-- The requests that releases serve one after the other. -/
def atiende (f : Fila) : List Int32 → List PendingRequest
  | [] => []
  | amount :: amounts => f.sirve amount ++ (f.release amount).atiende amounts

/-- Releases, one after the other. -/
def sueltan (f : Fila) (amounts : List Int32) : Fila := f.tras (amounts.map .release)

@[simp] theorem sueltan_cons (f : Fila) (amount : Int32) (amounts : List Int32) :
    f.sueltan (amount :: amounts) = (f.release amount).sueltan amounts := rfl

/-- **The loop of `release_resource`** takes off what fits. -/
theorem serve_spec (k : ℕ) {f : Fila} (hk : f.linea.waiting.length ≤ k) :
    f.cola = fitting (·.amount) f.disponible f.cola ++ (f.serve k).cola
      ∧ (f.serve k).disponible = leftover (·.amount) f.disponible f.cola
      ∧ (f.serve k).total = f.total := by
  induction k generalizing f with
  | zero =>
    have hnil : f.cola = [] := by
      unfold cola
      rw [List.length_eq_zero_iff.mp (Nat.le_zero.mp hk)]
      rfl
    refine ⟨?_, ?_, rfl⟩
    · show _ = _ ++ f.cola
      rw [hnil]
      rfl
    · rw [hnil]
      rfl
  | succ k ih =>
    rw [serve]
    cases hw : f.linea.waiting with
    | nil =>
      have hnil : f.cola = [] := by
        unfold cola
        rw [hw]
        rfl
      refine ⟨?_, ?_, rfl⟩
      · rw [hnil]
        rfl
      · rw [hnil]
        rfl
    | cons x rest =>
      obtain ⟨n, p⟩ := x
      have hcola : f.cola = p :: rest.map (·.2) := by
        unfold cola
        rw [hw]
        rfl
      dsimp only
      by_cases hfits : p.amount ≤ f.disponible
      · rw [if_pos hfits, hcola, fitting_cons_of_le hfits, leftover, if_pos hfits]
        have hrest : f.linea.advance.waiting = rest := by
          show f.linea.waiting.tail = rest
          rw [hw, List.tail_cons]
        obtain ⟨hserved, hleft, htotal⟩ := ih (f := { f with
            disponible := f.disponible - p.amount
            linea := f.linea.advance
            servidas := f.servidas ++ [⟨n, p, rest.map (·.1)⟩] }) (by
          show f.linea.advance.waiting.length ≤ k
          rw [hrest]
          rw [hw, List.length_cons] at hk
          omega)
        unfold cola at hserved hleft ⊢
        rw [hrest] at hserved hleft
        exact ⟨congrArg _ hserved, hleft, htotal⟩
      · rw [if_neg hfits, hcola, fitting_cons_of_not_le hfits, leftover, if_neg hfits]
        exact ⟨rfl, rfl, rfl⟩

/-- **`release_resource`**, by what it serves. -/
theorem release_spec (f : Fila) (amount : Int32) :
    f.cola = f.sirve amount ++ (f.release amount).cola
      ∧ (f.release amount).disponible
        = (f.sirve amount).foldl (fun d p => d - p.amount) (f.recibe amount)
      ∧ (f.release amount).total = f.total := by
  unfold sirve recibe
  by_cases hadmite : f.Admite amount
  · have hrelease : f.release amount
        = serve f.linea.waiting.length { f with disponible := f.disponible + amount } :=
      if_pos hadmite
    rw [if_pos hadmite, if_pos hadmite, hrelease]
    obtain ⟨hserved, hleft, htotal⟩ := serve_spec f.linea.waiting.length
      (f := { f with disponible := f.disponible + amount }) le_rfl
    exact ⟨hserved, hleft.trans (leftover_eq_foldl _ _), htotal⟩
  · have hrelease : f.release amount = f := if_neg hadmite
    rw [if_neg hadmite, if_neg hadmite, hrelease]
    exact ⟨rfl, rfl, rfl⟩

/-- **What releases serve is taken off the queue.** -/
theorem cola_sueltan (f : Fila) (amounts : List Int32) :
    f.cola = f.atiende amounts ++ (f.sueltan amounts).cola := by
  induction amounts generalizing f with
  | nil => rfl
  | cons amount amounts ih =>
    rw [atiende, sueltan_cons, List.append_assoc, ← ih]
    exact (f.release_spec amount).1

/-- **One resource with entries that another one, otherwise like it, does not have**,
and releases that serve the same requests of both. -/
structure Parejas (b : PendingRequest → Bool) (f g : Fila) (amounts : List Int32) : Prop where
  disponible : g.disponible = f.disponible
  total : g.total = f.total
  cola : g.cola = f.cola.filter (fun p => !b p)
  atiende : g.atiende amounts = f.atiende amounts

namespace Parejas

variable {b : PendingRequest → Bool}

theorem admite_iff (h : Parejas b f g amounts) (amount : Int32) :
    g.Admite amount ↔ f.Admite amount := by
  unfold Admite
  rw [h.disponible, h.total]

/-- **Releases that serve the same in the end serve the same at each step.** -/
theorem sirve_eq (h : Parejas b f g (amount :: amounts)) : g.sirve amount = f.sirve amount := by
  have hf := f.cola_sueltan (amount :: amounts)
  have hg := g.cola_sueltan (amount :: amounts)
  have hfirst : f.sirve amount <+: f.atiende (amount :: amounts) := List.prefix_append _ _
  have hfirst' : g.sirve amount <+: f.atiende (amount :: amounts) :=
    h.atiende ▸ List.prefix_append _ _
  rw [h.atiende] at hg
  unfold sirve at hfirst hfirst' ⊢
  by_cases hadmite : f.Admite amount
  · have hadmite' := (h.admite_iff amount).mpr hadmite
    rw [if_pos hadmite] at hfirst ⊢
    rw [if_pos hadmite', h.disponible] at hfirst' ⊢
    rw [hf] at hfirst ⊢
    rw [hg] at hfirst' ⊢
    exact fitting_append_eq hfirst' hfirst
  · rw [if_neg hadmite, if_neg (fun hadmite' => hadmite ((h.admite_iff amount).mp hadmite'))]

/-- **One release.** -/
theorem release (h : Parejas b f g (amount :: amounts)) :
    Parejas b (f.release amount) (g.release amount) amounts := by
  obtain ⟨hcola, hleft, htotal⟩ := f.release_spec amount
  obtain ⟨hcola', hleft', htotal'⟩ := g.release_spec amount
  have hsame := h.sirve_eq
  have hrecibe : g.recibe amount = f.recibe amount := by
    unfold recibe
    rw [h.disponible]
    exact if_congr (h.admite_iff amount) rfl rfl
  refine ⟨?_, ?_, ?_, ?_⟩
  · rw [hleft', hleft, hsame, hrecibe]
  · rw [htotal', htotal, h.total]
  · -- nothing that was served is one of the entries
    have hnone : (f.sirve amount).filter (fun p => !b p) = f.sirve amount := by
      refine List.filter_eq_self.mpr (fun p hp => ?_)
      have hmem : p ∈ f.cola.filter (fun p => !b p) := by
        rw [← h.cola, hcola', hsame]
        exact List.mem_append_left _ hp
      exact (List.mem_filter.mp hmem).2
    have hboth := h.cola
    rw [hcola, hcola', hsame, List.filter_append, hnone] at hboth
    exact List.append_cancel_left hboth
  · have hboth := h.atiende
    rw [Fila.atiende, Fila.atiende, hsame] at hboth
    exact List.append_cancel_left hboth

/-- **All of them.** -/
theorem sueltan (h : Parejas b f g amounts) :
    Parejas b (f.sueltan amounts) (g.sueltan amounts) [] := by
  induction amounts generalizing f g with
  | nil => exact h
  | cons amount amounts ih => exact ih h.release

end Parejas

/-- **No release is refused**: what is given back fits beside what is free, and
everybody in line asks for something. -/
structure Holgada (amounts : List Int32) (f : Fila) : Prop where
  nonneg : ∀ amount ∈ amounts, 0 ≤ amount
  cabe : f.disponible.toInt + (amounts.map (·.toInt)).sum ≤ f.total.toInt
  cola : ∀ p ∈ f.cola, 0 < p.amount

/-- What the loop leaves free. -/
theorem toInt_leftover {l : List PendingRequest} (hpos : ∀ p ∈ l, 0 < p.amount) (d : Int32) :
    (leftover (·.amount) d l).toInt = d.toInt - suma (fitting (·.amount) d l) := by
  induction l generalizing d with
  | nil => exact (sub_zero _).symm
  | cons p l ih =>
    have ih := ih (fun q hq => hpos q (List.mem_cons_of_mem p hq)) (d - p.amount)
    rw [leftover]
    split
    · next hfits =>
      rw [ih, fitting_cons_of_le hfits, suma_cons,
        Int32.toInt_sub_of_pos_of_le (hpos p List.mem_cons_self) hfits, sub_sub]
    · next hfits => rw [fitting_cons_of_not_le hfits, suma_nil, sub_zero]

namespace Holgada

theorem sum_nonneg {amounts : List Int32} (h : ∀ amount ∈ amounts, 0 ≤ amount) :
    0 ≤ (amounts.map (·.toInt)).sum := by
  refine List.sum_nonneg (fun x hx => ?_)
  obtain ⟨amount, hmem, rfl⟩ := List.mem_map.mp hx
  exact Int32.nonneg_iff.mp (h amount hmem)

/-- **One release**: the units are there, less what was served. -/
theorem disponible_release (h : f.Holgada (amount :: amounts)) :
    (f.release amount).disponible.toInt
      = f.disponible.toInt + amount.toInt - suma (f.sirve amount) := by
  have hamount := h.nonneg amount List.mem_cons_self
  have hrest := sum_nonneg (fun a ha => h.nonneg a (List.mem_cons_of_mem amount ha))
  have hcabe := h.cabe
  rw [List.map_cons, List.sum_cons] at hcabe
  have hbelow := f.disponible.le_toInt
  have habove := f.total.toInt_le_intMax
  have hpos := Int32.nonneg_iff.mp hamount
  have hsum : (f.disponible + amount).toInt = f.disponible.toInt + amount.toInt :=
    Int32.toInt_add_of_fits (by omega) (by omega)
  have hadmite : f.Admite amount := ⟨hamount, Int32.le_iff_toInt_le.mpr (by omega)⟩
  have hrelease : f.release amount
      = serve f.linea.waiting.length { f with disponible := f.disponible + amount } :=
    if_pos hadmite
  obtain ⟨-, hleft, -⟩ := serve_spec f.linea.waiting.length
    (f := { f with disponible := f.disponible + amount }) le_rfl
  unfold sirve
  rw [if_pos hadmite, hrelease, hleft, ← hsum]
  exact toInt_leftover h.cola _

/-- The releases that follow. -/
theorem release (h : f.Holgada (amount :: amounts)) : (f.release amount).Holgada amounts := by
  obtain ⟨hcola, -, htotal⟩ := f.release_spec amount
  have hserved : 0 ≤ suma (f.sirve amount) :=
    suma_nonneg (fun p hp => h.cola p (hcola ▸ List.mem_append_left _ hp))
  have hcabe := h.cabe
  rw [List.map_cons, List.sum_cons] at hcabe
  refine ⟨fun a ha => h.nonneg a (List.mem_cons_of_mem amount ha), ?_,
    fun p hp => h.cola p (hcola ▸ List.mem_append_right _ hp)⟩
  rw [h.disponible_release, htotal]
  omega

/-- **All of them.** -/
theorem disponible_sueltan (h : f.Holgada amounts) :
    (f.sueltan amounts).disponible.toInt
      = f.disponible.toInt + (amounts.map (·.toInt)).sum - suma (f.atiende amounts) := by
  induction amounts generalizing f with
  | nil =>
    show f.disponible.toInt = f.disponible.toInt + 0 - 0
    omega
  | cons amount amounts ih =>
    rw [sueltan_cons, ih h.release, h.disponible_release, atiende, suma_append, List.map_cons,
      List.sum_cons]
    omega

/-- After other releases. -/
theorem sueltan {amounts' : List Int32} (h : f.Holgada (amounts ++ amounts')) :
    (f.sueltan amounts).Holgada amounts' := by
  induction amounts generalizing f with
  | nil => exact h
  | cons amount amounts ih => exact ih h.release

end Holgada

@[simp] theorem cola_delete (b : PendingRequest → Bool) (f : Fila) :
    (f.delete b).cola = f.cola.filter (fun p => !b p) :=
  Line.map_leave _ _

/-- **What is left alike was served alike**: where no release is refused, and the line
ends with as much free and the same requests waiting as without the entries, the same
requests were served. -/
theorem Holgada.atiende_eq (h : f.Holgada amounts) {b : PendingRequest → Bool}
    (hleft : ((f.delete b).sueltan amounts).disponible = (f.sueltan amounts).disponible)
    (hwait : ((f.delete b).sueltan amounts).cola
      = (f.sueltan amounts).cola.filter (fun p => !b p)) :
    (f.delete b).atiende amounts = f.atiende amounts := by
  have hcola := f.cola_sueltan amounts
  have hcola' := (f.delete b).cola_sueltan amounts
  have hdelete : (f.delete b).Holgada amounts :=
    ⟨h.nonneg, h.cabe, fun p hp => h.cola p
      (List.mem_filter.mp ((cola_delete b f) ▸ hp)).1⟩
  -- the others that were served are the same
  have hothers : (f.atiende amounts).filter (fun p => !b p) = (f.delete b).atiende amounts := by
    rw [cola_delete, hwait, hcola, List.filter_append] at hcola'
    exact List.append_cancel_right hcola'
  have hsum := suma_filter_add b (f.atiende amounts)
  have hunits := h.disponible_sueltan
  have hunits' := hdelete.disponible_sueltan
  rw [hleft] at hunits'
  have hsame : f.disponible.toInt = (f.delete b).disponible.toInt := rfl
  -- so nothing went to the entries
  have hzero : suma ((f.atiende amounts).filter b) = 0 := by
    rw [hothers] at hsum
    omega
  have hnone : (f.atiende amounts).filter b = [] := by
    by_contra hne
    obtain ⟨p, l, hl⟩ := List.exists_cons_of_ne_nil hne
    have hpos : ∀ q ∈ (f.atiende amounts).filter b, 0 < q.amount := fun q hq =>
      h.cola q (hcola ▸ List.mem_append_left _ (List.mem_filter.mp hq).1)
    rw [hl] at hzero hpos
    have hhead := Int32.pos_iff.mp (hpos p List.mem_cons_self)
    have htail : 0 ≤ suma l := suma_nonneg (fun q hq => hpos q (List.mem_cons_of_mem p hq))
    rw [suma_cons] at hzero
    omega
  rw [← hothers, List.filter_eq_self]
  intro p hp
  have hb := List.filter_eq_nil_iff.mp hnone p hp
  simpa using hb

end Fila

/-! ## The state by its loops -/

/-- What a job that ends gives back of a resource, in order. -/
def soltadas (t : Resource) (l : List Allocation) : List Int32 :=
  (l.filter (fun a => a.held && a.name == t)).map (·.amount)

theorem soltadas_append (t : Resource) (l m : List Allocation) :
    soltadas t (l ++ m) = soltadas t l ++ soltadas t m := by
  unfold soltadas
  rw [List.filter_append, List.map_append]

theorem flatMap_ops (t : Resource) (l : List Allocation) :
    l.flatMap (Allocation.ops t) = (soltadas t l).map .release := by
  unfold soltadas
  induction l with
  | nil => rfl
  | cons a l ih =>
    rw [List.flatMap_cons, ih, List.filter_cons, Allocation.ops]
    split
    · rfl
    · rfl

/-- **The loop of `release_resource` marks what it serves.** -/
theorem tabla_serveQueue (t : Resource) (n : ℕ) {s : Manager} (hn : (s.cola t).length ≤ n) :
    (serveQueue t n s).tabla = (fitting (·.amount) (s.available t) (s.cola t)).foldl
      (fun tabla p => tablaJobsCambioAlloc tabla p.jobId p.ownerConn t) s.tabla := by
  induction n generalizing s with
  | zero =>
    rw [List.length_eq_zero_iff.mp (Nat.le_zero.mp hn)]
    rfl
  | succ n ih =>
    rw [serveQueue]
    cases hcola : s.cola t with
    | nil => rfl
    | cons top rest =>
      dsimp only
      by_cases hfits : top.amount ≤ s.available t
      · have hrest := cola_dequeueTop s t t hcola
        rw [if_pos rfl] at hrest
        rw [if_pos hfits, fitting_cons_of_le hfits, List.foldl_cons,
          ih (by rw [hrest]; rw [hcola, List.length_cons] at hn; omega), hrest,
          available_dequeueTop, if_pos rfl]
        congr 1
        rw [dequeueTop_eq, tabla_answerTop]
        rfl
      · rw [if_neg hfits, fitting_cons_of_not_le hfits]
        rfl

theorem tabla_releaseResource {f : Fila} {previas : List PendingRequest} {s : Manager}
    {t : Resource} (hf : f.Refleja previas s t) (amount : Int32) :
    (releaseResource t amount s).tabla = (f.sirve amount).foldl
      (fun tabla p => tablaJobsCambioAlloc tabla p.jobId p.ownerConn t) s.tabla := by
  have hiff : f.Admite amount ↔ 0 ≤ amount ∧ s.available t + amount ≤ s.total t := by
    unfold Fila.Admite
    rw [hf.disponible, hf.total]
  rw [releaseResource_eq]
  unfold Fila.sirve
  by_cases hadmite : f.Admite amount
  · rw [if_pos hadmite, if_pos (hiff.mp hadmite), hf.disponible, hf.cola,
      tabla_serveQueue t _ (by rw [cola_giveUnits]), available_giveUnits, if_pos rfl,
      cola_giveUnits]
    rfl
  · rw [if_neg hadmite, if_neg (fun h => hadmite (hiff.mpr h))]
    rfl

/-- Nothing is purged where nothing is to be purged. -/
theorem limpiarColasPorId_eq {jobId : Int32} {s : Manager} (h : s.Purged jobId) :
    limpiarColasPorId jobId s = s := by
  have hcola : ∀ tipo, queueDeleteByJobId (s.recursos tipo).cola jobId
      = (s.recursos tipo).cola := by
    intro tipo
    refine ColaPendingRequest.ext (List.filter_eq_self.mpr (fun p hp => ?_))
    simpa using h tipo p hp
  unfold limpiarColasPorId
  simp only [hcola]

namespace Manager.Purged

variable {v : Manager} {jobId : Int32}

theorem limpiarColasPorId (h : v.Purged jobId) (id : Int32) :
    (limpiarColasPorId id v).Purged jobId :=
  fun t p hp => h t p (List.mem_filter.mp hp).1

theorem jobReleaseAllocation (h : v.Purged jobId) (a : Allocation) :
    (jobReleaseAllocation a v).Purged jobId := by
  have hfirst : Manager.Purged (if a.held then releaseHeld a v
      else Hpc.limpiarColasPorId a.jobId v) jobId := by
    split
    · exact Manager.Purged.releaseResource (s := v.emit _) h a.name a.amount
    · exact h.limpiarColasPorId a.jobId
  unfold Hpc.jobReleaseAllocation
  dsimp only
  split
  · exact hfirst
  · exact hfirst

theorem foldl (h : v.Purged jobId) (l : List Allocation) :
    Manager.Purged (l.foldl (fun s a => Hpc.jobReleaseAllocation a s) v) jobId := by
  induction l generalizing v with
  | nil => exact h
  | cons a l ih => exact ih (h.jobReleaseAllocation a)

end Manager.Purged

/-- An allocation that is held here is released by both loops. -/
theorem jobReleaseAllocation_of_held {a : Allocation} (h : a.held = true) (s : Manager) :
    jobReleaseAllocation a s = releaseHeld a s := by
  unfold jobReleaseAllocation
  dsimp only
  rw [if_pos h, if_neg (Allocation.not_remote_of_held h)]

/-- The others purge the queues. -/
theorem jobReleaseAllocation_of_not_held {a : Allocation} (h : a.held = false) (s : Manager) :
    jobReleaseAllocation a s = jobReleaseAllocation a (limpiarColasPorId a.jobId s) := by
  unfold jobReleaseAllocation
  rw [h, if_neg Bool.false_ne_true, if_neg Bool.false_ne_true,
    limpiarColasPorId_eq (purged_limpiarColasPorId a.jobId s)]

/-- Where the queues are purged, both loops make the same operations. -/
theorem hace_jobReleaseAllocation_of_purged (t : Resource) {a : Allocation} {v : Manager}
    (h : v.Purged a.jobId) : Hace t (a.ops t) v (jobReleaseAllocation a v) := by
  cases hheld : a.held with
  | true =>
    rw [jobReleaseAllocation_of_held hheld, ← freeAllocation_of_held hheld a.jobId]
    exact hace_freeAllocation t a.jobId a v
  | false =>
    unfold jobReleaseAllocation Allocation.ops
    rw [hheld, if_neg Bool.false_ne_true, limpiarColasPorId_eq h, Bool.false_and,
      if_neg Bool.false_ne_true]
    dsimp only
    split
    · exact (Hace.refl t v).sendMessage a.conn _
    · exact .refl t v

theorem hace_foldl_of_purged (t : Resource) {l : List Allocation} {v : Manager} {jobId : Int32}
    (h : v.Purged jobId) (hids : ∀ a ∈ l, a.jobId = jobId) :
    Hace t (l.flatMap (Allocation.ops t)) v (l.foldl (fun s a => jobReleaseAllocation a s) v) := by
  induction l generalizing v with
  | nil => exact .refl t v
  | cons a l ih =>
    obtain rfl := hids a List.mem_cons_self
    exact (hace_jobReleaseAllocation_of_purged t h).trans
      (ih (h.jobReleaseAllocation a) (fun b hb => hids b (List.mem_cons_of_mem a hb)))

/-! ## The two loops side by side -/

/-- **Two states that give back the same allocations**, one with the queues purged of
the job: the job tables are the same, and each resource serves the same requests. -/
structure Paralelo (jobId : Int32) (l : List Allocation) (f g : Resource → Fila)
    (u v : Manager) : Prop where
  tabla : v.tabla = u.tabla
  purged : v.Purged jobId
  izquierda : ∀ t, ∃ previas, (f t).Refleja previas u t
  derecha : ∀ t, ∃ previas, (g t).Refleja previas v t
  parejas : ∀ t, Fila.Parejas (PendingRequest.deId jobId) (f t) (g t) (soltadas t l)

namespace Paralelo

variable {jobId : Int32} {a : Allocation} {l : List Allocation} {f g : Resource → Fila}
  {u v : Manager}

/-- **One round.** -/
theorem round (h : Paralelo jobId (a :: l) f g u v) (hid : a.jobId = jobId) :
    Paralelo jobId l (fun t => (f t).tras (a.ops t)) (fun t => (g t).tras (a.ops t))
      (freeAllocation jobId a u) (jobReleaseAllocation a v) := by
  obtain rfl := hid
  refine ⟨?_, h.purged.jobReleaseAllocation a, fun t => ?_, fun t => ?_, fun t => ?_⟩
  · cases hheld : a.held with
    | true =>
      rw [jobReleaseAllocation_of_held hheld, freeAllocation_of_held hheld]
      obtain ⟨previas, hf⟩ := h.izquierda a.name
      obtain ⟨previas', hg⟩ := h.derecha a.name
      have hf : (f a.name).Refleja previas (u.emit (.giveBack a.name a.request)) a.name :=
        (Hace.refl _ u).emit rfl _ _ hf
      have hg : (g a.name).Refleja previas' (v.emit (.giveBack a.name a.request)) a.name :=
        (Hace.refl _ v).emit rfl _ _ hg
      have hparejas := h.parejas a.name
      unfold soltadas at hparejas
      rw [List.filter_cons_of_pos (by simp [hheld]), List.map_cons] at hparejas
      unfold releaseHeld
      rw [tabla_releaseResource hf, tabla_releaseResource hg, hparejas.sirve_eq,
        Manager.tabla_emit, Manager.tabla_emit, h.tabla]
    | false =>
      unfold jobReleaseAllocation freeAllocation
      rw [hheld, if_neg Bool.false_ne_true, if_neg Bool.false_ne_true,
        limpiarColasPorId_eq h.purged]
      dsimp only
      split
      · split
        · exact h.tabla
        · exact h.tabla
      · exact h.tabla
  · obtain ⟨previas, hf⟩ := h.izquierda t
    exact ⟨previas, hace_freeAllocation t a.jobId a u _ _ hf⟩
  · obtain ⟨previas, hg⟩ := h.derecha t
    exact ⟨previas, hace_jobReleaseAllocation_of_purged t h.purged _ _ hg⟩
  · have hparejas := h.parejas t
    unfold soltadas Allocation.ops at *
    rw [List.filter_cons] at hparejas
    split at hparejas
    · next hheld =>
      rw [if_pos hheld]
      exact hparejas.release
    · next hheld =>
      rw [if_neg hheld]
      exact hparejas

/-- **The loops.** -/
theorem loops (h : Paralelo jobId l f g u v) (hids : ∀ a ∈ l, a.jobId = jobId) :
    Paralelo jobId [] (fun t => (f t).tras (l.flatMap (Allocation.ops t)))
      (fun t => (g t).tras (l.flatMap (Allocation.ops t))) (freeAllocations jobId l u)
      (l.foldl (fun s a => jobReleaseAllocation a s) v) := by
  induction l generalizing f g u v with
  | nil => exact h
  | cons a l ih =>
    simp only [List.flatMap_cons, Fila.tras_append]
    exact ih (h.round (hids a List.mem_cons_self))
      (fun b hb => hids b (List.mem_cons_of_mem a hb))

end Paralelo

/-! ## A job and its endings -/

/-- The allocations that `JOB_RELEASE` walks before it purges the queues. -/
def Job.primeras (j : Job) : List Allocation := j.confirmadas.takeWhile Allocation.held

/-- The allocations from the first one on that is not held here. -/
def Job.demas (j : Job) : List Allocation := j.confirmadas.dropWhile Allocation.held

/-- The resource when the first of these releases are in. -/
def Manager.tras (s : Manager) (j : Job) (t : Resource) : Fila :=
  (s.fila t).sueltan (soltadas t j.primeras)

/-- **The entries of the job make no difference**: the releases from the first
allocation on that is not held here serve the same requests of each queue with the job's
entries and without them. -/
def Manager.Sosiego (s : Manager) (j : Job) : Prop :=
  ∀ t, ((s.tras j t).delete (PendingRequest.deId j.jobId)).atiende (soltadas t j.demas)
    = (s.tras j t).atiende (soltadas t j.demas)

/-- **No release of the job is refused**: what it holds fits beside what is free, and
everybody in the queues asks for something. -/
structure Manager.Holgado (s : Manager) (j : Job) : Prop where
  nonneg : ∀ a ∈ j.confirmadas, a.held = true → 0 ≤ a.amount
  cabe : ∀ t, (s.available t).toInt + units Allocation.held t j.confirmadas
    ≤ (s.total t).toInt
  cola : ∀ t, ∀ p ∈ s.cola t, 0 < p.amount

/-- **The two states agree**: the same units are free, the same requests wait, the jobs
are the same, and the same `RELEASE`s were sent to each host. -/
structure Manager.Coincide (u v : Manager) : Prop where
  available : ∀ t, u.available t = v.available t
  cola : ∀ t, u.cola t = v.cola t
  jobs : u.jobs = v.jobs
  avisos : ∀ host, u.avisos host = v.avisos host

theorem Job.confirmadas_eq (j : Job) : j.confirmadas = j.primeras ++ j.demas :=
  List.takeWhile_append_dropWhile.symm

/-- A list of allocations that are held here. -/
theorem foldl_jobRelease_of_held {l : List Allocation} (h : ∀ a ∈ l, a.held = true)
    (jobId : Int32) (s : Manager) :
    l.foldl (fun s a => jobReleaseAllocation a s) s = freeAllocations jobId l s := by
  induction l generalizing s with
  | nil => rfl
  | cons a l ih =>
    have ha := h a List.mem_cons_self
    show l.foldl _ (jobReleaseAllocation a s) = freeAllocations jobId l (freeAllocation jobId a s)
    rw [jobReleaseAllocation_of_held ha, freeAllocation_of_held ha,
      ih (fun b hb => h b (List.mem_cons_of_mem a hb))]

/-- **The purge at the end is the purge at the beginning**, for a list that begins with
an allocation that is not held here. -/
theorem limpiar_foldl {l : List Allocation} {jobId : Int32}
    (hhead : ∀ a ∈ l.head?, a.held = false) (hids : ∀ a ∈ l, a.jobId = jobId) (s : Manager) :
    limpiarColasPorId jobId (l.foldl (fun s a => jobReleaseAllocation a s) s)
      = l.foldl (fun s a => jobReleaseAllocation a s) (limpiarColasPorId jobId s) := by
  cases l with
  | nil => rfl
  | cons a l =>
    obtain rfl := hids a List.mem_cons_self
    rw [List.foldl_cons, jobReleaseAllocation_of_not_held (hhead a rfl) s]
    exact limpiarColasPorId_eq
      (((purged_limpiarColasPorId a.jobId s).jobReleaseAllocation a).foldl l)

theorem Job.head?_demas (j : Job) : ∀ a ∈ j.demas.head?, a.held = false := by
  intro a ha
  have hnot := List.head?_dropWhile_not Allocation.held j.confirmadas
  unfold Job.demas at ha
  rw [Option.mem_def.mp ha] at hnot
  simpa using hnot

section Endings

variable {s : Manager} {j : Job}

/-- The state when the first releases are in. -/
def Manager.mitad (s : Manager) (j : Job) : Manager :=
  freeAllocations j.jobId j.primeras (s.sinJob j.jobId)

/-- **`JOB_TIMEOUT`** purges after the other allocations. -/
theorem processJobTimeout_eq (hfind : tablaJobsBuscarPorId s.tabla j.jobId = some j) :
    processJobTimeout j.jobId s
      = limpiarColasPorId j.jobId (freeAllocations j.jobId j.demas (s.mitad j)) := by
  unfold processJobTimeout Manager.mitad
  rw [tablaJobsRemove_of_some hfind, j.confirmadas_eq]
  unfold freeAllocations
  rw [List.foldl_append]
  rfl

/-- **`JOB_RELEASE`** purges before them. -/
theorem processJobRelease_eq (hfind : tablaJobsBuscarPorId s.tabla j.jobId = some j)
    (hids : ∀ a ∈ j.confirmadas, a.jobId = j.jobId) :
    processJobRelease j.jobId s = j.demas.foldl (fun s a => jobReleaseAllocation a s)
      (limpiarColasPorId j.jobId (s.mitad j)) := by
  have hheld : ∀ a ∈ j.primeras, a.held = true := fun a ha => List.mem_takeWhile_imp ha
  rw [processJobRelease_of_some hfind]
  rw [j.confirmadas_eq] at hids ⊢
  rw [List.foldl_append, foldl_jobRelease_of_held hheld j.jobId,
    limpiar_foldl j.head?_demas (fun a ha => hids a (List.mem_append_right _ ha))]
  rfl

/-- The resources in the middle. -/
theorem refleja_mitad (s : Manager) (j : Job) (t : Resource) :
    (s.tras j t).Refleja (concesiones t s.log) (s.mitad j) t := by
  have h := hace_freeAllocations t j.jobId j.primeras (s.sinJob j.jobId)
  rw [flatMap_ops] at h
  exact h _ _ ((s.sinJob j.jobId).refleja_fila t)

/-- The resources after `JOB_TIMEOUT`. -/
theorem refleja_processJobTimeout (hfind : tablaJobsBuscarPorId s.tabla j.jobId = some j)
    (t : Resource) :
    (((s.tras j t).sueltan (soltadas t j.demas)).delete (PendingRequest.deId j.jobId)).Refleja
      (concesiones t s.log) (processJobTimeout j.jobId s) t := by
  have h := (hace_freeAllocations t j.jobId j.demas (s.mitad j)).trans
    (hace_limpiarColasPorId t j.jobId _)
  rw [flatMap_ops] at h
  rw [processJobTimeout_eq hfind]
  have hlast := h _ _ (refleja_mitad s j t)
  rw [Fila.tras_append] at hlast
  exact hlast

/-- The resources after `JOB_RELEASE`. -/
theorem refleja_processJobRelease (hfind : tablaJobsBuscarPorId s.tabla j.jobId = some j)
    (hids : ∀ a ∈ j.confirmadas, a.jobId = j.jobId) (t : Resource) :
    (((s.tras j t).delete (PendingRequest.deId j.jobId)).sueltan (soltadas t j.demas)).Refleja
      (concesiones t s.log) (processJobRelease j.jobId s) t := by
  have h := hace_foldl_of_purged t (l := j.demas)
    (purged_limpiarColasPorId j.jobId (s.mitad j)) (fun a ha => hids a
      (j.confirmadas_eq ▸ List.mem_append_right _ ha))
  rw [flatMap_ops] at h
  rw [processJobRelease_eq hfind hids]
  exact h _ _ (hace_limpiarColasPorId t j.jobId (s.mitad j) _ _ (refleja_mitad s j t))

/-- **With the entries and without them**, side by side. -/
theorem paralelo_mitad (h : s.Sosiego j) :
    Paralelo j.jobId j.demas (s.tras j)
      (fun t => (s.tras j t).delete (PendingRequest.deId j.jobId)) (s.mitad j)
      (limpiarColasPorId j.jobId (s.mitad j)) :=
  ⟨rfl, purged_limpiarColasPorId _ _, fun t => ⟨_, refleja_mitad s j t⟩,
    fun t => ⟨_, hace_limpiarColasPorId t j.jobId _ _ _ (refleja_mitad s j t)⟩,
    fun t => ⟨rfl, rfl, Fila.cola_delete _ _, h t⟩⟩

/-- **The resources and the jobs agree** if the entries make no difference. -/
theorem coincide_of_sosiego (hfind : tablaJobsBuscarPorId s.tabla j.jobId = some j)
    (hids : ∀ a ∈ j.confirmadas, a.jobId = j.jobId) (h : s.Sosiego j) :
    (∀ t, (processJobRelease j.jobId s).available t = (processJobTimeout j.jobId s).available t)
      ∧ (∀ t, (processJobRelease j.jobId s).cola t = (processJobTimeout j.jobId s).cola t)
      ∧ (processJobRelease j.jobId s).tabla = (processJobTimeout j.jobId s).tabla := by
  have hpar := paralelo_mitad h
  have hfin := fun t => (hpar.parejas t).sueltan
  refine ⟨fun t => ?_, fun t => ?_, ?_⟩
  · rw [← (refleja_processJobRelease hfind hids t).disponible,
      ← (refleja_processJobTimeout hfind t).disponible]
    exact (hfin t).disponible
  · rw [← (refleja_processJobRelease hfind hids t).cola,
      ← (refleja_processJobTimeout hfind t).cola, Fila.cola_delete]
    exact (hfin t).cola
  · rw [processJobRelease_eq hfind hids, processJobTimeout_eq hfind]
    exact (hpar.loops (fun a ha => hids a (j.confirmadas_eq ▸ List.mem_append_right _ ha))).tabla

/-- **The entries make no difference** if the resources agree and no release is
refused. -/
theorem sosiego_of_coincide (hfind : tablaJobsBuscarPorId s.tabla j.jobId = some j)
    (hids : ∀ a ∈ j.confirmadas, a.jobId = j.jobId) (hholgado : s.Holgado j)
    (havailable : ∀ t,
      (processJobRelease j.jobId s).available t = (processJobTimeout j.jobId s).available t)
    (hcola : ∀ t, (processJobRelease j.jobId s).cola t = (processJobTimeout j.jobId s).cola t) :
    s.Sosiego j := by
  intro t
  have hall : (s.fila t).Holgada (soltadas t j.confirmadas) := by
    refine ⟨fun amount hmem => ?_, ?_, fun p hp => hholgado.cola t p ?_⟩
    · obtain ⟨a, ha, rfl⟩ := List.mem_map.mp hmem
      obtain ⟨ha, hheld⟩ := List.mem_filter.mp ha
      exact hholgado.nonneg a ha (Bool.and_elim_left hheld)
    · have hunits : ((soltadas t j.confirmadas).map (·.toInt)).sum
          = units Allocation.held t j.confirmadas := by
        unfold soltadas units
        rw [List.map_map]
        rfl
      rw [hunits]
      exact hholgado.cabe t
    · have hqueue : (s.fila t).cola = s.cola t := Line.map_ofList _
      exact hqueue ▸ hp
  rw [j.confirmadas_eq, soltadas_append] at hall
  refine hall.sueltan.atiende_eq ?_ ?_
  · have h := havailable t
    rw [← (refleja_processJobRelease hfind hids t).disponible,
      ← (refleja_processJobTimeout hfind t).disponible] at h
    exact h
  · have h := hcola t
    rw [← (refleja_processJobRelease hfind hids t).cola,
      ← (refleja_processJobTimeout hfind t).cola, Fila.cola_delete] at h
    exact h

end Endings

/-! ## What the hosts are told -/

/-- Which host a connection was opened to does not change. -/
theorem avisos_of_sirve {s s' : Manager} (h : s.Sirve s') (host : CString) :
    s'.avisos host = paraHost s.log host (sueltas s'.log) := by
  obtain ⟨es, hlog, hes⟩ := h.log
  have hiff : ∀ c, Event.connecting host c ∈ s'.log ↔ Event.connecting host c ∈ s.log := by
    intro c
    rw [hlog]
    refine ⟨fun hmem => ?_, fun hmem => List.mem_append_left _ hmem⟩
    rcases List.mem_append.mp hmem with hmem | hmem
    · exact hmem
    · exact absurd (hes _ hmem) Bool.false_ne_true
  unfold Manager.avisos paraHost
  simp only [hiff]

section Hosts

variable {s : Manager} {j : Job} (host : CString)

theorem avisos_processJobTimeout (hfind : tablaJobsBuscarPorId s.tabla j.jobId = some j) :
    (processJobTimeout j.jobId s).avisos host = s.avisos host
      + paraHost s.log host (j.confirmadas.filterMap (Allocation.porTabla s.conns j.jobId)) := by
  have hsirve : (s.sinJob j.jobId).Sirve (processJobTimeout j.jobId s) :=
    (Manager.Sirve.tablaJobsRemove j.jobId s).trans (.limpiarColasPorId j.jobId _)
  have hsueltas : sueltas (processJobTimeout j.jobId s).log = sueltas s.log
      ++ j.confirmadas.filterMap (Allocation.porTabla s.conns j.jobId) := by
    unfold processJobTimeout
    rw [log_limpiarColasPorId, tablaJobsRemove_of_some hfind]
    exact sueltas_freeAllocations j.jobId j.confirmadas (s.sinJob j.jobId)
  rw [avisos_of_sirve hsirve, hsueltas, paraHost_append]
  rfl

theorem avisos_processJobRelease (hfind : tablaJobsBuscarPorId s.tabla j.jobId = some j) :
    (processJobRelease j.jobId s).avisos host = s.avisos host
      + paraHost s.log host (j.confirmadas.filterMap Allocation.porConexion) := by
  have hsueltas : sueltas (processJobRelease j.jobId s).log = sueltas s.log
      ++ j.confirmadas.filterMap Allocation.porConexion := by
    rw [processJobRelease_of_some hfind, log_limpiarColasPorId]
    exact sueltas_jobRelease j.confirmadas (s.sinJob j.jobId)
  rw [avisos_of_sirve (Manager.Sirve.processJobRelease j.jobId s), hsueltas, paraHost_append]
  rfl

end Hosts

/-- **The two ways of ending a job agree** if the entries of the job make no difference
and the addresses lead to its hosts; and only then, but that where a release is refused
the entries can be made up for by what is refused. -/
theorem endings_agree {cpu mem gpu : Int32} {ip : CString} {s : Manager}
    (hrun : Reaches Manager.step SinCierres (managerInit cpu mem gpu ip) s) {j : Job}
    (hj : j ∈ s.jobs) (conn : Conn) (red : Network) :
    (s.Sosiego j ∧ s.Localiza j → (handle conn red (.jobRelease j.jobId) s).Coincide
        (handle conn red (.jobTimeout j.jobId) s))
      ∧ ((handle conn red (.jobRelease j.jobId) s).Coincide
        (handle conn red (.jobTimeout j.jobId) s) →
          s.Localiza j ∧ (s.Holgado j → s.Sosiego j)) := by
  obtain ⟨hmem, -⟩ := Buckets.mem_toList.mp hj
  have hfind := (unicos_of_reaches hrun).buscarPorId_eq hmem
  have hfichado := fichado_of_reaches hrun
  have hjob := hfichado.jobs.of_mem_toList hj
  have hhosts : (∀ host, (processJobRelease j.jobId s).avisos host
      = (processJobTimeout j.jobId s).avisos host) ↔ s.Localiza j := by
    rw [← paraHost_eq_iff hfichado hjob]
    refine forall_congr' (fun host => ?_)
    rw [avisos_processJobRelease host hfind, avisos_processJobTimeout host hfind]
    exact ⟨fun h => (add_left_cancel h).symm, fun h => by rw [h]⟩
  constructor
  · rintro ⟨hsosiego, hlocaliza⟩
    obtain ⟨havailable, hcola, htabla⟩ := coincide_of_sosiego hfind hjob.propias hsosiego
    exact ⟨havailable, hcola, congrArg TablaJobs.jobs htabla, hhosts.mpr hlocaliza⟩
  · intro h
    exact ⟨hhosts.mp h.avisos, fun hholgado =>
      sosiego_of_coincide hfind hjob.propias hholgado h.available h.cola⟩

instance (s : Manager) : (call : Call) → Decidable (SinCierres s call)
  | .message .. => inferInstanceAs (Decidable (_ ∧ ∀ c ∈ _, ¬_))
  | .ready _ => .isTrue trivial
  | .failed _ => .isFalse id
  | .disconnect _ => .isFalse id
  | .announce .. => .isTrue trivial
  | .purge .. => .isTrue trivial

/-- A job that holds units of two nodes, and another one that waits. -/
theorem endings_agree_dosNodos :
    ∃ s, Reaches.trace Manager.step (managerInit 4 8 1 ['A'])
        [.announce 0 ['B'] "ANNOUNCE 9000 cpu:4 mem:8 gpu:1".toList,
         .message 1 "JOB_REQUEST 1 @A:cpu:3 @B:cpu:1".toList [some 7], .ready 7,
         .message 7 "GRANTED 1".toList [],
         .message 1 "JOB_REQUEST 2 @A:cpu:3".toList []] = some s
      ∧ ∃ j ∈ s.jobs, j.jobId = 1
        ∧ (handle 1 [] (.jobRelease j.jobId) s).Coincide (handle 1 [] (.jobTimeout j.jobId) s) := by
  let j : Job := ⟨1, 1, [⟨.cpu, 1, .remoteAlloc, ['B'], 1, .granted, 7⟩,
    ⟨.cpu, 3, .localAlloc, ['A'], 1, .granted, 1⟩], []⟩
  have hcheck : (Reaches.checked Manager.step (fun s call => decide (SinCierres s call))
      (managerInit 4 8 1 ['A'])
      [.announce 0 ['B'] "ANNOUNCE 9000 cpu:4 mem:8 gpu:1".toList,
       .message 1 "JOB_REQUEST 1 @A:cpu:3 @B:cpu:1".toList [some 7], .ready 7,
       .message 7 "GRANTED 1".toList [],
       .message 1 "JOB_REQUEST 2 @A:cpu:3".toList []]).any (fun s =>
        decide (j ∈ s.jobs ∧ tablaConnsLookup s.conns ['B'] = some 7
          ∧ ∀ t ∈ [Resource.cpu, .mem, .gpu],
            ((s.tras j t).delete (PendingRequest.deId j.jobId)).atiende (soltadas t j.demas)
              = (s.tras j t).atiende (soltadas t j.demas))) = true := by
    decide +kernel
  obtain ⟨s, htrace, hrun, hs⟩ := Reaches.of_checked (fun _ _ => of_decide_eq_true) hcheck
  obtain ⟨hj, hlookup, hsame⟩ := of_decide_eq_true hs
  have hlocaliza : s.Localiza j := by
    intro a ha hremote
    rcases List.mem_pair.mp ha with rfl | rfl
    · exact ⟨7, hlookup, fun _ => Iff.rfl⟩
    · exact nomatch hremote
  have hsosiego : s.Sosiego j := fun t => hsame t (by cases t <;> decide)
  exact ⟨s, htrace, j, hj, rfl, (endings_agree hrun hj 1 []).1 ⟨hsosiego, hlocaliza⟩⟩

/-- **A job that waits for what it holds**: `JOB_RELEASE` purges its entry and leaves
four units, `JOB_TIMEOUT` serves the entry first, and two of the units are lost. -/
theorem not_coincide_espera :
    ∃ s, Reaches.trace Manager.step (managerInit 4 8 1 ['A'])
        [.message 1 "JOB_REQUEST 1 @A:cpu:4 @A:cpu:2".toList []] = some s
      ∧ Reaches Manager.step SinCierres (managerInit 4 8 1 ['A']) s
      ∧ (handle 1 [] (.jobRelease 1) s).available .cpu = 4
      ∧ (handle 1 [] (.jobTimeout 1) s).available .cpu = 2
      ∧ ∃ j ∈ s.jobs, ¬(handle 1 [] (.jobRelease j.jobId) s).Coincide
        (handle 1 [] (.jobTimeout j.jobId) s) := by
  let j : Job := ⟨1, 1, [⟨.cpu, 2, .localAlloc, ['A'], 1, .queued, 1⟩,
    ⟨.cpu, 4, .localAlloc, ['A'], 1, .granted, 1⟩], []⟩
  have hcheck : (Reaches.checked Manager.step (fun s call => decide (SinCierres s call))
      (managerInit 4 8 1 ['A'])
      [.message 1 "JOB_REQUEST 1 @A:cpu:4 @A:cpu:2".toList []]).any (fun s =>
        decide (j ∈ s.jobs ∧ (handle 1 [] (.jobRelease 1) s).available .cpu = 4
          ∧ (handle 1 [] (.jobTimeout 1) s).available .cpu = 2)) = true := by
    decide +kernel
  obtain ⟨s, htrace, hrun, hs⟩ := Reaches.of_checked (fun _ _ => of_decide_eq_true) hcheck
  obtain ⟨hj, hrelease, htimeout⟩ := of_decide_eq_true hs
  refine ⟨s, htrace, hrun, hrelease, htimeout, j, hj, fun h => ?_⟩
  have hsame := h.available .cpu
  show False
  have hrelease : (handle 1 [] (.jobRelease j.jobId) s).available .cpu = 4 := hrelease
  rw [hrelease] at hsame
  exact absurd (hsame.trans htimeout) (by decide)

end Hpc
