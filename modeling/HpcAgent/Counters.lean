import HpcAgent.Lib.Arithmetic
import HpcAgent.Ledger

/-!
# The counters stay in range

`available_amount` is a machine integer that the handlers add to and subtract
from, under guards computed in the same arithmetic. The invariant is
`EnRango`: every counter is between zero and its total, and no queue or job
has a negative amount. A round of the dequeue loop keeps it outright. What can
break it is an amount from the wire: `parse_reserve` lets a negative one
through, and the guard of `release_resource` adds before it compares, so that
a sum past the largest `int` wraps and passes. `LineaSegura` is the condition
under which neither happens, and `enRango_processMessage` the step lemma; the
run lemma is at the end.
-/

namespace Hpc

open Int32 (intMax)

/-! ## The invariant -/

/-- No local allocation of the job is negative. -/
def Job.NoNeg (j : Job) : Prop :=
  ∀ a ∈ j.confirmadas, a.isLocal = true → 0 ≤ a.amount.toInt

/-- **The counters in range**, with what keeps them there. -/
structure EnRango (s : Manager) : Prop where
  /-- `0 <= available_amount <= total_amount` -/
  range : ∀ t, 0 ≤ (s.available t).toInt ∧ (s.available t).toInt ≤ (s.total t).toInt
  /-- nobody waits for a negative amount -/
  queued : ∀ t, ∀ p ∈ s.cola t, 0 ≤ p.amount.toInt
  /-- no job holds or waits for a negative amount here -/
  jobs : s.tabla.Forall Job.NoNeg

/-- Giving back the allocations, on top of what is free, fits an `int`. -/
def Cabe (s : Manager) (l : List Allocation) : Prop :=
  ∀ t, (s.available t).toInt + units Allocation.held t l ≤ intMax

namespace Job

theorem NoNeg.markGranted {j : Job} (h : j.NoNeg) (conn : Conn) (tipo : Resource) :
    (j.markGranted conn tipo).NoNeg := by
  intro a ha hlocal
  rcases List.mem_of_mem_modifyFirst ha with ha | ⟨b, hb, -, rfl⟩
  · exact h a ha hlocal
  · exact h b hb hlocal

theorem NoNeg.confirmar {j : Job} (h : j.NoNeg) (ip : CString) (jobId : Int32) :
    (jobConfirmar j ip jobId).2.NoNeg := by
  unfold jobConfirmar
  split
  · exact h
  · intro a ha hlocal
    rcases List.mem_cons.mp ha with rfl | ha
    · exact absurd hlocal (by simp [Allocation.isLocal, crearAllocation])
    · exact h a ha hlocal

end Job

namespace EnRango

variable {s : Manager}

/-- The invariant reads the resources and the job table only. -/
theorem of_eq {s' : Manager} (h : EnRango s) (hr : s'.recursos = s.recursos)
    (ht : s'.tabla = s.tabla) : EnRango s' := by
  have ha : ∀ t, s'.available t = s.available t := fun t => by unfold Manager.available; rw [hr]
  have htot : ∀ t, s'.total t = s.total t := fun t => by unfold Manager.total; rw [hr]
  have hc : ∀ t, s'.cola t = s.cola t := fun t => by unfold Manager.cola; rw [hr]
  exact ⟨fun t => by rw [ha, htot]; exact h.range t, fun t => by rw [hc]; exact h.queued t,
    ht ▸ h.jobs⟩

theorem emit (h : EnRango s) (e : Event) : EnRango (s.emit e) := h.of_eq rfl rfl

theorem sendMessage (h : EnRango s) (conn : Conn) (msg : Message) :
    EnRango (sendMessage conn msg s) := h.of_eq rfl rfl

theorem sendJobGranted (h : EnRango s) (jobId : Int32) (conn : Conn) :
    EnRango (sendJobGranted jobId conn s) := h.of_eq rfl rfl

theorem setTabla (h : EnRango s) {t : TablaJobs} (ht : t.Forall Job.NoNeg) :
    EnRango (s.setTabla t) := ⟨h.range, h.queued, ht⟩

theorem limpiarColasPorId (h : EnRango s) (jobId : Int32) :
    EnRango (limpiarColasPorId jobId s) :=
  ⟨h.range, fun t p hp => h.queued t p (List.mem_filter.mp hp).1, h.jobs⟩

/-- The units free fit an `int` with nothing given back. -/
theorem cabe_nil (_h : EnRango s) : Cabe s [] := by
  intro t
  rw [units_nil, add_zero]
  exact Int32.toInt_le_intMax _

/-! ## Reserving and releasing -/

/-- **Taking units keeps the range**, as long as what is left is at most the
total: an amount may be negative, but not by more than what is out. -/
theorem takeUnits (h : EnRango s) {tipo : Resource} {p : PendingRequest}
    (hfits : p.amount ≤ s.available tipo)
    (hout : (s.available tipo).toInt - p.amount.toInt ≤ (s.total tipo).toInt) :
    EnRango (takeUnits tipo p s) := by
  have hfits : p.amount.toInt ≤ (s.available tipo).toInt := Int32.le_iff_toInt_le.mp hfits
  have hsub : (s.available tipo - p.amount).toInt
      = (s.available tipo).toInt - p.amount.toInt :=
    Int32.toInt_sub_of_fits (by omega) (hout.trans (Int32.toInt_le_intMax _))
  refine ⟨fun t => ?_, fun t p' hp' => ?_, h.jobs⟩
  · rw [available_takeUnits, total_takeUnits]
    split
    · next ht => subst ht; rw [hsub]; omega
    · exact h.range t
  · rw [cola_takeUnits] at hp'
    exact h.queued t p' hp'

theorem enqueue (h : EnRango s) {tipo : Resource} {p : PendingRequest}
    (hp : 0 ≤ p.amount.toInt) : EnRango (enqueue tipo p s) := by
  refine ⟨fun t => ?_, fun t q hq => ?_, h.jobs⟩
  · rw [available_enqueue, total_enqueue]
    exact h.range t
  · rw [cola_enqueue] at hq
    split at hq
    · rcases List.mem_append.mp hq with hq | hq
      · exact h.queued tipo q hq
      · rw [List.mem_singleton.mp hq]
        exact hp
    · exact h.queued t q hq

/-- **A round of the loop** keeps the range and frees nothing. -/
theorem dequeueTop (h : EnRango s) {tipo : Resource} {top : PendingRequest}
    {rest : List PendingRequest} (hc : s.cola tipo = top :: rest)
    (hfits : top.amount ≤ s.available tipo) :
    EnRango (dequeueTop tipo top s)
      ∧ ∀ t, ((Hpc.dequeueTop tipo top s).available t).toInt ≤ (s.available t).toInt := by
  have htop : 0 ≤ top.amount.toInt := h.queued tipo top (hc ▸ List.mem_cons_self)
  have hfits : top.amount.toInt ≤ (s.available tipo).toInt := Int32.le_iff_toInt_le.mp hfits
  have hrange := h.range tipo
  have hsub : (s.available tipo - top.amount).toInt
      = (s.available tipo).toInt - top.amount.toInt := by
    have := Int32.toInt_le_intMax (s.available tipo)
    exact Int32.toInt_sub_of_fits (by omega) (by omega)
  rw [dequeueTop_eq]
  refine ⟨⟨fun t => ?_, fun t p hp => ?_, ?_⟩, fun t => ?_⟩
  · rw [available_answerTop, total_answerTop, markTop, Manager.available_setTabla,
      Manager.total_setTabla, available_popTop, total_popTop]
    split
    · next ht => subst ht; rw [hsub]; omega
    · exact h.range t
  · rw [cola_answerTop, markTop, Manager.cola_setTabla, cola_popTop s t tipo hc] at hp
    split at hp
    · exact h.queued tipo p (hc ▸ List.mem_cons_of_mem _ hp)
    · exact h.queued t p hp
  · rw [tabla_answerTop]
    exact TablaJobs.forall_cambioAlloc h.jobs (fun j hj => hj.markGranted _ _)
  · rw [available_answerTop, markTop, Manager.available_setTabla, available_popTop]
    split
    · next ht => subst ht; rw [hsub]; omega
    · exact le_rfl

/-- **A release keeps the range** when the sum its guard computes does not
wrap; it frees at most the amount. -/
theorem releaseResource (h : EnRango s) (tipo : Resource) (amount : Int32)
    (hfits : (s.available tipo).toInt + amount.toInt ≤ intMax) :
    EnRango (releaseResource tipo amount s)
      ∧ ∀ t, ((Hpc.releaseResource tipo amount s).available t).toInt
          ≤ (s.available t).toInt + (if tipo = t then max 0 amount.toInt else 0) := by
  rw [releaseResource_eq]
  split
  · next hguard =>
    obtain ⟨hamount, hle⟩ := hguard
    have hamount : 0 ≤ amount.toInt := Int32.nonneg_iff.mp hamount
    have hrange := h.range tipo
    have hadd : (s.available tipo + amount).toInt
        = (s.available tipo).toInt + amount.toInt :=
      Int32.toInt_add_of_fits (by omega) hfits
    have hle : (s.available tipo).toInt + amount.toInt ≤ (s.total tipo).toInt := by
      rw [← hadd]
      exact Int32.le_iff_toInt_le.mp hle
    have hgive : EnRango (giveUnits tipo amount s) := by
      refine ⟨fun t => ?_, fun t => ?_, h.jobs⟩
      · rw [available_giveUnits, total_giveUnits]
        split
        · next ht => subst ht; rw [hadd]; omega
        · exact h.range t
      · rw [cola_giveUnits]
        exact h.queued t
    have havail : ∀ t, ((giveUnits tipo amount s).available t).toInt
        ≤ (s.available t).toInt + (if tipo = t then max 0 amount.toInt else 0) := by
      intro t
      rw [available_giveUnits]
      split
      · next ht => subst ht; rw [hadd, if_pos rfl]; omega
      · next ht => rw [if_neg (Ne.symm ht)]; omega
    exact serveQueue_invariant
      (P := fun s' => EnRango s' ∧ ∀ t, (s'.available t).toInt
        ≤ (s.available t).toInt + (if tipo = t then max 0 amount.toInt else 0))
      (fun s' top rest hc hle hs' => by
        obtain ⟨hround, hless⟩ := hs'.1.dequeueTop hc hle
        exact ⟨hround, fun t => (hless t).trans (hs'.2 t)⟩)
      _ _ ⟨hgive, havail⟩
  · refine ⟨h, fun t => ?_⟩
    split <;> omega

/-- **Giving back one allocation** of a list whose units fit keeps the range,
and the units of the rest still fit. -/
theorem releaseHeld (h : EnRango s) {a : Allocation} {rest : List Allocation}
    (hheld : a.held = true) (ha : 0 ≤ a.amount.toInt)
    (hrest : ∀ b ∈ rest, b.isLocal = true → 0 ≤ b.amount.toInt)
    (hcabe : Cabe s (a :: rest)) :
    EnRango (releaseHeld a s) ∧ Cabe (Hpc.releaseHeld a s) rest := by
  have hcons := fun t => units_cons_of_sel (t := t) (l := rest) hheld
  have hpos : ∀ t, 0 ≤ units Allocation.held t rest := fun t =>
    units_nonneg (fun b hb hb' => hrest b hb (Allocation.isLocal_of_held hb'))
  have hfits : ((s.emit (.giveBack a.name a.request)).available a.name).toInt
      + a.amount.toInt ≤ intMax := by
    have := hcabe a.name
    rw [hcons, if_pos rfl] at this
    have := hpos a.name
    rw [Manager.available_emit]
    omega
  obtain ⟨hrange, hless⟩ := (h.emit (.giveBack a.name a.request)).releaseResource _ _ hfits
  refine ⟨hrange, fun t => ?_⟩
  have hfree : ((Hpc.releaseHeld a s).available t).toInt
      ≤ (s.available t).toInt + (if a.name = t then max 0 a.amount.toInt else 0) := hless t
  have hsum := hcabe t
  rw [hcons] at hsum
  rw [max_eq_right ha] at hfree
  omega

/-- **Giving back a list of allocations** one by one keeps the range, whatever
else a round does. -/
theorem foldl_allocations {f : Manager → Allocation → Manager}
    (round : ∀ s a rest, EnRango s → (a.isLocal = true → 0 ≤ a.amount.toInt) →
      (∀ b ∈ rest, b.isLocal = true → 0 ≤ b.amount.toInt) → Cabe s (a :: rest) →
      EnRango (f s a) ∧ Cabe (f s a) rest)
    {l : List Allocation} (hl : ∀ a ∈ l, a.isLocal = true → 0 ≤ a.amount.toInt)
    (h : EnRango s) (hcabe : Cabe s l) : EnRango (l.foldl f s) := by
  induction l generalizing s with
  | nil => exact h
  | cons a l ih =>
    have hl' := fun b hb => hl b (List.mem_cons_of_mem a hb)
    obtain ⟨ha, hrest⟩ := round s a l h (hl a List.mem_cons_self) hl' hcabe
    exact ih hl' ha hrest

/-- An allocation that holds nothing here asks for no room. -/
theorem Cabe.tail {a : Allocation} {rest : List Allocation} (hcabe : Cabe s (a :: rest))
    (hheld : a.held = false) : Cabe s rest := by
  intro t
  rw [← units_cons_of_not_sel hheld]
  exact hcabe t

theorem freeAllocation (jobId : Int32) {a : Allocation} {rest : List Allocation}
    (h : EnRango s) (ha : a.isLocal = true → 0 ≤ a.amount.toInt)
    (hrest : ∀ b ∈ rest, b.isLocal = true → 0 ≤ b.amount.toInt)
    (hcabe : Cabe s (a :: rest)) :
    EnRango (freeAllocation jobId a s) ∧ Cabe (Hpc.freeAllocation jobId a s) rest := by
  unfold Hpc.freeAllocation
  split
  · next hheld =>
    exact h.releaseHeld hheld (ha (Allocation.isLocal_of_held hheld)) hrest hcabe
  · next hheld =>
    have htail : Cabe s rest := Cabe.tail hcabe (by simpa using hheld)
    split
    · split
      · exact ⟨h.sendMessage _ _, htail⟩
      · exact ⟨h, htail⟩
    · exact ⟨h, htail⟩

theorem jobReleaseAllocation {a : Allocation} {rest : List Allocation}
    (h : EnRango s) (ha : a.isLocal = true → 0 ≤ a.amount.toInt)
    (hrest : ∀ b ∈ rest, b.isLocal = true → 0 ≤ b.amount.toInt)
    (hcabe : Cabe s (a :: rest)) :
    EnRango (jobReleaseAllocation a s) ∧ Cabe (Hpc.jobReleaseAllocation a s) rest := by
  have hfirst : EnRango (if a.held then Hpc.releaseHeld a s
        else Hpc.limpiarColasPorId a.jobId s)
      ∧ Cabe (if a.held then Hpc.releaseHeld a s
        else Hpc.limpiarColasPorId a.jobId s) rest := by
    split
    · next hheld =>
      exact h.releaseHeld hheld (ha (Allocation.isLocal_of_held hheld)) hrest hcabe
    · next hheld =>
      exact ⟨h.limpiarColasPorId _, Cabe.tail hcabe (by simpa using hheld)⟩
  unfold Hpc.jobReleaseAllocation
  dsimp only
  split
  · exact ⟨hfirst.1.sendMessage _ _, hfirst.2⟩
  · exact hfirst

theorem freeAllocations (jobId : Int32) {l : List Allocation} (h : EnRango s)
    (hl : ∀ a ∈ l, a.isLocal = true → 0 ≤ a.amount.toInt) (hcabe : Cabe s l) :
    EnRango (freeAllocations jobId l s) :=
  foldl_allocations (fun _ _ _ h ha hrest hcabe => h.freeAllocation jobId ha hrest hcabe)
    hl h hcabe

end EnRango

/-! ## The handlers -/

/-- The selected units of the job with that id, if the table has it. -/
def Manager.jobUnits (s : Manager) (sel : Allocation → Bool) (t : Resource)
    (jobId : Int32) : ℤ :=
  (tablaJobsBuscarPorId s.tabla jobId).elim 0 (fun job => units sel t job.confirmadas)

theorem jobUnits_of_some {s : Manager} {sel : Allocation → Bool} {t : Resource}
    {jobId : Int32} {job : Job} (h : tablaJobsBuscarPorId s.tabla jobId = some job) :
    s.jobUnits sel t jobId = units sel t job.confirmadas := by
  unfold Manager.jobUnits
  rw [h, Option.elim_some]

/-- The units of a resource that a line can give back: what a `RELEASE` says,
and what the job the line ends holds here – or waits for, where a `RELEASE`
serves the queue before it ends the job. -/
def Manager.givenBack (s : Manager) (t : Resource) : Message → ℤ
  | .release jobId type amount =>
    (if type = t then max 0 amount.toInt else 0)
      + s.jobUnits (if amount = 0 then Allocation.held else Allocation.isLocal) t jobId
  | .denied jobId | .jobRelease jobId | .jobTimeout jobId =>
    s.jobUnits Allocation.held t jobId
  | _ => 0

/-- **The condition on a line**: a `RESERVE` takes no less than it takes to
fill the resource up, and what the line can give back, on top of what is free,
fits an `int`. -/
structure LineaSegura (s : Manager) (m : Message) : Prop where
  reserve : ∀ jobId type amount, m = .reserve jobId type amount →
    (s.available type).toInt - amount.toInt ≤ (s.total type).toInt
  fits : ∀ t, (s.available t).toInt + s.givenBack t m ≤ intMax

namespace EnRango

variable {s : Manager}

theorem processReserve (h : EnRango s) (conn : Conn) (jobId : Int32) (type : Resource)
    (amount : Int32)
    (hout : (s.available type).toInt - amount.toInt ≤ (s.total type).toInt) :
    EnRango (processReserve conn jobId type amount s) := by
  unfold Hpc.processReserve
  rcases reserveResource_cases type amount jobId conn .originRemote s with
    ⟨hfits, heq⟩ | ⟨-, -, heq⟩ | ⟨hfits, -, heq⟩
  · rw [heq]
    exact (h.takeUnits (p := ⟨jobId, amount, conn, .originRemote⟩) hfits hout).sendMessage _ _
  · rw [heq]
    exact h.sendMessage _ _
  · rw [heq]
    have hfits : ¬amount.toInt ≤ (s.available type).toInt :=
      fun hle => hfits (Int32.le_iff_toInt_le.mpr hle)
    have hrange := h.range type
    exact h.enqueue (p := ⟨jobId, amount, conn, .originRemote⟩) (by dsimp only; omega)

/-- The units of the job with that id fit. -/
theorem tablaJobsRemove (h : EnRango s) (jobId : Int32)
    (hcabe : ∀ t, (s.available t).toInt + s.jobUnits Allocation.held t jobId ≤ intMax) :
    EnRango (tablaJobsRemove jobId s) := by
  cases hfind : tablaJobsBuscarPorId s.tabla jobId with
  | none =>
    rw [tablaJobsRemove_of_none hfind]
    exact h
  | some job =>
    rw [tablaJobsRemove_of_some hfind]
    refine (h.setTabla (TablaJobs.forall_extractById h.jobs jobId)).freeAllocations jobId
      (TablaJobs.forall_buscarPorId h.jobs hfind) (fun t => ?_)
    rw [← jobUnits_of_some hfind]
    exact hcabe t

theorem processJobRelease (h : EnRango s) (jobId : Int32)
    (hcabe : ∀ t, (s.available t).toInt + s.jobUnits Allocation.held t jobId ≤ intMax) :
    EnRango (processJobRelease jobId s) := by
  cases hfind : tablaJobsBuscarPorId s.tabla jobId with
  | none =>
    rw [processJobRelease_of_none hfind]
    exact h
  | some job =>
    rw [processJobRelease_of_some hfind]
    refine (foldl_allocations
      (fun _ _ _ h ha hrest hcabe => h.jobReleaseAllocation ha hrest hcabe)
      (TablaJobs.forall_buscarPorId h.jobs hfind)
      (h.setTabla (TablaJobs.forall_extractById h.jobs jobId)) (fun t => ?_)).limpiarColasPorId _
    rw [← jobUnits_of_some hfind]
    exact hcabe t

/-- The loop of `release_resource` grants what jobs wait for, and does not
change what they ask for. -/
theorem jobUnits_releaseResource (tipo : Resource) (amount : Int32) (t : Resource)
    (jobId : Int32) :
    (Hpc.releaseResource tipo amount s).jobUnits Allocation.isLocal t jobId
      = s.jobUnits Allocation.isLocal t jobId := by
  have hmark : ∀ (conn : Conn) (tipo : Resource) (l : List Allocation),
      units Allocation.isLocal t (l.modifyFirst
          (fun a => a.type == .localAlloc && a.conn == conn && a.name == tipo)
          (fun a => { a with result := .granted }))
        = units Allocation.isLocal t l := by
    intro conn tipo l
    induction l with
    | nil => rfl
    | cons a l ih =>
      rw [List.modifyFirst]
      split
      · rw [units_cons, units_cons]
        rfl
      · rw [units_cons, units_cons, ih]
  rw [releaseResource_eq]
  split
  · refine serveQueue_invariant
      (P := fun s' => s'.jobUnits Allocation.isLocal t jobId
        = s.jobUnits Allocation.isLocal t jobId) ?_ _ _ rfl
    intro s' top rest hc hfits hs'
    rw [← hs', dequeueTop_eq]
    unfold Manager.jobUnits
    rw [tabla_answerTop, markTop, Manager.tabla_setTabla, tabla_popTop,
      TablaJobs.buscarPorId_cambioAlloc]
    split
    · cases tablaJobsBuscarPorId s'.tabla jobId with
      | none => rfl
      | some job => exact hmark _ _ _
    · rfl
  · rfl

theorem jobUnits_mono (h : EnRango s) {sel : Allocation → Bool}
    (himp : ∀ a, sel a = true → a.isLocal = true) (t : Resource) (jobId : Int32) :
    s.jobUnits sel t jobId ≤ s.jobUnits Allocation.isLocal t jobId := by
  cases hfind : tablaJobsBuscarPorId s.tabla jobId with
  | none =>
    unfold Manager.jobUnits
    rw [hfind]
    exact le_rfl
  | some job =>
    rw [jobUnits_of_some hfind, jobUnits_of_some hfind]
    exact units_mono (fun a _ => himp a) (TablaJobs.forall_buscarPorId h.jobs hfind)

theorem processRelease (h : EnRango s) (jobId : Int32) (type : Resource) (amount : Int32)
    (hfits : ∀ t, (s.available t).toInt
      + s.givenBack t (.release jobId type amount) ≤ intMax) :
    EnRango (processRelease jobId type amount s) := by
  have hfits : ∀ t, (s.available t).toInt + ((if type = t then max 0 amount.toInt else 0)
      + s.jobUnits (if amount = 0 then Allocation.held else Allocation.isLocal) t jobId)
        ≤ intMax := hfits
  unfold Hpc.processRelease
  by_cases hzero : amount = 0
  · rw [if_neg (not_not.mpr hzero)]
    refine (h.tablaJobsRemove jobId (fun t => ?_)).limpiarColasPorId _
    have hroom := hfits t
    rw [hzero, if_pos rfl] at hroom
    simpa using hroom
  · rw [if_pos hzero]
    simp only [hzero, if_false] at hfits
    have hunits : ∀ t, 0 ≤ s.jobUnits Allocation.isLocal t jobId := by
      intro t
      cases hfind : tablaJobsBuscarPorId s.tabla jobId with
      | none => unfold Manager.jobUnits; rw [hfind]; exact le_rfl
      | some job =>
        rw [jobUnits_of_some hfind]
        exact units_nonneg (TablaJobs.forall_buscarPorId h.jobs hfind)
    obtain ⟨hrange, hless⟩ :=
      (h.emit (.returned type jobId amount)).releaseResource type amount (by
        have hroom := hfits type
        have hpos := hunits type
        rw [Manager.available_emit]
        rw [if_pos rfl] at hroom
        omega)
    refine (hrange.tablaJobsRemove jobId (fun t => ?_)).limpiarColasPorId _
    have hheld := hrange.jobUnits_mono (fun a => Allocation.isLocal_of_held) t jobId
    have hfree := hless t
    have hroom := hfits t
    rw [jobUnits_releaseResource] at hheld
    rw [Manager.available_emit] at hfree
    have hsame : (s.emit (.returned type jobId amount)).jobUnits Allocation.isLocal t jobId
      = s.jobUnits Allocation.isLocal t jobId := rfl
    linarith

theorem processGranted (h : EnRango s) (conn : Conn) (jobId : Int32) :
    EnRango (processGranted conn jobId s) := by
  unfold Hpc.processGranted
  split
  · exact h
  · split
    · exact ((h.sendMessage _ _).sendMessage _ _).sendMessage _ _
    · next ipRemoto _ _ check _ =>
      have hset : EnRango (s.setTabla (tablaJobsJobConfirmar s.tabla ipRemoto jobId)) :=
        h.setTabla (TablaJobs.forall_jobConfirmar h.jobs
          (fun j hj => hj.confirmar ipRemoto jobId))
      dsimp only
      split
      · exact hset.sendJobGranted _ _
      · exact hset

theorem processDenied (h : EnRango s) (jobId : Int32)
    (hcabe : ∀ t, (s.available t).toInt + s.jobUnits Allocation.held t jobId ≤ intMax) :
    EnRango (processDenied jobId s) := by
  unfold Hpc.processDenied
  split
  · exact h.limpiarColasPorId _
  · exact ((h.tablaJobsRemove jobId hcabe).sendMessage _ _).limpiarColasPorId _

/-- What the loop over the entries keeps: the new job has no negative
allocation, and giving back what it holds fits. -/
theorem requestLoop {requests : List ResourceRequest} (red : Network) {job : Job}
    (h : EnRango s) (hrequests : ∀ r ∈ requests, 0 < r.amount) (hjob : job.NoNeg)
    (hcabe : Cabe s job.confirmadas) :
    EnRango (requestLoop requests red job s).2.2
      ∧ (Hpc.requestLoop requests red job s).2.1.NoNeg
      ∧ Cabe (Hpc.requestLoop requests red job s).2.2
        (Hpc.requestLoop requests red job s).2.1.confirmadas := by
  have hlocal : ∀ (job : Job) (s : Manager), ∀ head ∈ requests, ∀ r, job.NoNeg →
      (job.addLocal head s.ip r).NoNeg := by
    intro job s head hhead r hjob a ha hisLocal
    rcases List.mem_cons.mp ha with rfl | ha
    · exact (Int32.pos_iff.mp (hrequests head hhead)).le
    · exact hjob a ha hisLocal
  have hloop := requestLoop_invariant requests
    (P := fun _ job s => EnRango s ∧ job.NoNeg ∧ Cabe s job.confirmadas)
    (fun done job s head (hhead : head ∈ requests) _ ⟨hs, hjob, hcabe⟩ hfits => by
      have hpos := Int32.pos_iff.mp (hrequests head hhead)
      have hfree := (hs.range head.type).2
      refine ⟨hs.takeUnits (p := head.pending job) hfits
          (by show _ - head.amount.toInt ≤ _; omega),
        hlocal job s head hhead .granted hjob, fun t => ?_⟩
      have hsub : (s.available head.type - head.amount).toInt
          = (s.available head.type).toInt - head.amount.toInt := by
        have hle := Int32.le_iff_toInt_le.mp hfits
        have hmax := Int32.toInt_le_intMax (s.available head.type)
        exact Int32.toInt_sub_of_fits (by omega) (by omega)
      have hroom := hcabe t
      rw [available_takeUnits, Job.addLocal, units_cons_of_sel rfl]
      by_cases ht : t = head.type
      · subst ht
        rw [if_pos rfl, if_pos (by rfl)]
        show (s.available head.type - head.amount).toInt + (head.amount.toInt + _) ≤ _
        omega
      · rw [if_neg ht, if_neg (fun h => ht h.symm)]
        omega)
    (fun done job s head hhead _ ⟨hs, hjob, hcabe⟩ _ _ => by
      refine ⟨hs.enqueue (p := head.pending job)
          (Int32.pos_iff.mp (hrequests head hhead)).le,
        hlocal job s head hhead .queued hjob, fun t => ?_⟩
      rw [available_enqueue, Job.addLocal, units_cons_of_not_sel rfl]
      exact hcabe t)
    (fun done job s head _ remote _ ⟨hs, hjob, hcabe⟩ _ =>
      ⟨hs.sendMessage _ _, hjob, hcabe⟩)
    (fun done job s head _ conn _ ⟨hs, hjob, hcabe⟩ _ => ⟨hs.emit _, hjob, hcabe⟩)
    [] red job s ⟨h, hjob, hcabe⟩
  rcases hloop with ⟨-, hend⟩ | ⟨-, -, hend⟩
  · exact hend
  · exact hend

theorem processJobRequest (h : EnRango s) (conn : Conn) (jobId : Int32)
    {requests : List ResourceRequest} (red : Network)
    (hrequests : ∀ r ∈ requests, 0 < r.amount) :
    EnRango (processJobRequest conn jobId requests red s) := by
  have hnuevo : Job.NoNeg ⟨jobId, conn, [], []⟩ := fun a ha => absurd ha List.not_mem_nil
  obtain ⟨hs, hjob, hcabe⟩ := h.requestLoop red hrequests hnuevo h.cabe_nil
  rcases processJobRequest_cases conn jobId requests red s with
    ⟨job, -, heq⟩ | ⟨-, -, heq⟩ | ⟨-, -, heq⟩
  · rw [heq]
    exact h
  · rw [heq, insertJob]
    have hinsert := (hs.setTabla (hs.jobs.cons hjob)).emit (.inserted
      (Hpc.requestLoop requests red ⟨jobId, conn, [], []⟩ s).2.1 requests)
    split
    · exact hinsert.sendJobGranted _ _
    · exact hinsert
  · rw [heq, rollbackJob]
    exact ((hs.limpiarColasPorId _).freeAllocations _ hjob hcabe).sendMessage _ _

/-- **A message keeps the range.** -/
theorem handle (h : EnRango s) (conn : Conn) (red : Network) {m : Message}
    (hsafe : LineaSegura s m)
    (hrequests : ∀ jobId requests, m = .jobRequest jobId requests →
      ∀ r ∈ requests, 0 < r.amount) : EnRango (handle conn red m s) := by
  cases m with
  | reserve jobId type amount =>
    exact h.processReserve conn jobId type amount (hsafe.reserve jobId type amount rfl)
  | release jobId type amount => exact h.processRelease jobId type amount hsafe.fits
  | granted jobId => exact h.processGranted conn jobId
  | denied jobId => exact h.processDenied jobId hsafe.fits
  | jobRequest jobId requests =>
    exact h.processJobRequest conn jobId red (hrequests jobId requests rfl)
  | jobRelease jobId => exact h.processJobRelease jobId hsafe.fits
  | jobTimeout jobId => exact (h.tablaJobsRemove jobId hsafe.fits).limpiarColasPorId _
  | getNodes => exact h.sendMessage _ _
  | jobStatus jobId => exact h.sendMessage _ _
  | jobGranted jobId => exact h
  | jobDenied jobId => exact h
  | jobStatusIs jobId active => exact h
  | nodes line => exact h
  | garbage => exact h

theorem managerInit {cpu mem gpu : Int32} (ip : CString) (hcpu : 0 ≤ cpu) (hmem : 0 ≤ mem)
    (hgpu : 0 ≤ gpu) : EnRango (managerInit cpu mem gpu ip) := by
  refine ⟨fun t => ?_, fun t p hp => ?_, Buckets.forall_empty⟩
  · cases t
    · exact ⟨Int32.nonneg_iff.mp hcpu, le_rfl⟩
    · exact ⟨Int32.nonneg_iff.mp hmem, le_rfl⟩
    · exact ⟨Int32.nonneg_iff.mp hgpu, le_rfl⟩
  · cases t <;> exact absurd hp List.not_mem_nil

end EnRango

/-! ## Runs of lines -/

/-- The next call hands over a line about a job with a non-negative id. -/
def Linea (_s : Manager) : Call → Prop
  | .message _ msg _ => ∀ m, parseMessage msg = some m → ∀ j ∈ m.jobId?, 0 ≤ j
  | _ => False

/-- The next call hands over a line that is safe in this state. -/
def LineaOk (s : Manager) : Call → Prop
  | .message _ msg _ => ∀ m, parseMessage msg = some m → LineaSegura s m
  | _ => False

theorem Linea.of_parse {s : Manager} {conn : Conn} {msg : CString} {red : Network}
    {m : Message} (hparse : parseMessage msg = some m) (hjob : ∀ j ∈ m.jobId?, 0 ≤ j) :
    Linea s (.message conn msg red) := by
  intro m' hm'
  obtain rfl := Option.some.inj (hparse.symm.trans hm')
  exact hjob

theorem LineaOk.of_parse {s : Manager} {conn : Conn} {msg : CString} {red : Network}
    {m : Message} (hparse : parseMessage msg = some m) (hsafe : LineaSegura s m) :
    LineaOk s (.message conn msg red) := by
  intro m' hm'
  obtain rfl := Option.some.inj (hparse.symm.trans hm')
  exact hsafe

/-- **The counters stay in range** in every run whose lines are safe: from
non-negative totals, no matter which connections the lines arrive on. -/
theorem available_in_range {cpu mem gpu : Int32} (ip : CString) (hcpu : 0 ≤ cpu)
    (hmem : 0 ≤ mem) (hgpu : 0 ≤ gpu) {s : Manager}
    (hrun : Reaches Manager.step LineaOk (managerInit cpu mem gpu ip) s) (t : Resource) :
    0 ≤ s.available t ∧ s.available t ≤ s.total t := by
  have hinv : EnRango s := by
    refine hrun.invariant (EnRango.managerInit ip hcpu hmem hgpu) ?_
    rintro u (⟨conn, msg, red⟩ | _ | _ | _ | _ | _) v hu hok hstep
    · obtain rfl := Option.some.inj hstep
      show EnRango (processMessage conn msg red u)
      unfold processMessage
      cases hparse : parseMessage msg with
      | none => exact hu
      | some m =>
        have hsafe := hok m hparse
        refine (hu.emit (.rx conn m)).handle conn red ⟨hsafe.reserve, hsafe.fits⟩ ?_
        rintro jobId requests rfl
        exact requests_pos hparse
    all_goals exact absurd hok id
  exact ⟨Int32.nonneg_iff.mpr (hinv.range t).1, Int32.le_iff_toInt_le.mpr (hinv.range t).2⟩

/-- A `RESERVE` and the `RELEASE` of the same units are safe. -/
theorem available_in_range_reserve_release :
    ∃ s, Reaches.trace Manager.step (managerInit 4 8 1 [])
        [.message 7 "RESERVE 1 cpu 3".toList [], .message 7 "RELEASE 1 cpu 3".toList []]
          = some s
      ∧ 0 ≤ s.available .cpu ∧ s.available .cpu ≤ s.total .cpu := by
  have hreserve : LineaOk (managerInit 4 8 1 [])
      (.message 7 "RESERVE 1 cpu 3".toList []) := by
    refine LineaOk.of_parse (m := .reserve 1 .cpu 3) (by decide +kernel)
      ⟨?_, fun t => by cases t <;> decide +kernel⟩
    rintro jobId type amount ⟨rfl, rfl, rfl⟩
    decide +kernel
  have hrelease : LineaOk
      (processMessage 7 "RESERVE 1 cpu 3".toList [] (managerInit 4 8 1 []))
      (.message 7 "RELEASE 1 cpu 3".toList []) :=
    LineaOk.of_parse (m := .release 1 .cpu 3) (by decide +kernel)
      ⟨(fun _ _ _ h => nomatch h), fun t => by cases t <;> decide +kernel⟩
  have hrun := ((@Reaches.refl _ _ Manager.step LineaOk (managerInit 4 8 1 [])).tail
    hreserve rfl).tail hrelease rfl
  exact ⟨_, rfl, available_in_range [] (by decide) (by decide) (by decide) hrun .cpu⟩

/-- **A negative `RESERVE` leaves the range**: of four units, nine are free
after `RESERVE 1 cpu -5`. And so does a `RELEASE` that wraps: after
`RELEASE 1 cpu 2147483647` fewer than none are. -/
theorem reserve_negative_not_in_range :
    (∃ s, Reaches Manager.step Linea (managerInit 4 8 1 []) s
        ∧ Reaches.trace Manager.step (managerInit 4 8 1 [])
          [.message 7 "RESERVE 1 cpu -5".toList []] = some s
        ∧ s.available .cpu = 9 ∧ ¬s.available .cpu ≤ s.total .cpu)
      ∧ ∃ s, Reaches Manager.step Linea (managerInit 4 8 1 []) s
        ∧ Reaches.trace Manager.step (managerInit 4 8 1 [])
          [.message 7 "RELEASE 1 cpu 2147483647".toList []] = some s
        ∧ ¬0 ≤ s.available .cpu := by
  have hreserve : Linea (managerInit 4 8 1 []) (.message 7 "RESERVE 1 cpu -5".toList []) :=
    Linea.of_parse (m := .reserve 1 .cpu (-5)) (by decide +kernel)
      (fun j hj => Option.some.inj hj ▸ by decide)
  have hrelease : Linea (managerInit 4 8 1 [])
      (.message 7 "RELEASE 1 cpu 2147483647".toList []) :=
    Linea.of_parse (m := .release 1 .cpu 2147483647) (by decide +kernel)
      (fun j hj => Option.some.inj hj ▸ by decide)
  exact ⟨⟨_, (Reaches.refl _).tail hreserve rfl, rfl, by decide +kernel, by decide +kernel⟩,
    ⟨_, (Reaches.refl _).tail hrelease rfl, rfl, by decide +kernel⟩⟩

end Hpc
