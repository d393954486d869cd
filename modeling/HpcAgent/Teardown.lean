import HpcAgent.Disconnection
import HpcAgent.Entries
import HpcAgent.Serving

/-!
# Jobs taken apart one after the other

A lost connection takes its jobs out of the table all at once, and then frees them
one after the other: the entries of a job are purged right before its units are
given back. So the units of the first may go to an entry of a later one, which is in
no table any more and whose entries are not purged yet. Nobody will give these units
back.

`cuenta` adds up what is known of a resource. Serving the queue loses exactly what
goes to entries of no job of the table (`cuenta_serveQueue`), and freeing a job adds
what it held (`freeAllocations_rinde`). So the units add up after the teardown exactly
if none of them goes to an entry of a job yet to be freed (`SinPerdida`).
-/

namespace Hpc

/-! ## What is known of a resource -/

/-- What is free of a resource, what the jobs of the table hold of it, and what other
nodes were granted and have not given back. -/
def Manager.cuenta (s : Manager) (t : Resource) : ℤ :=
  (s.available t).toInt + s.heldUnits t + suma (vigentesRemotas t s.log)

/-- A local entry of no job of the table. -/
def Manager.ajena (s : Manager) (p : PendingRequest) : Bool :=
  p.origen == .originLocal && !(s.jobs.any (fun j => j.jobId == p.jobId))

theorem Manager.ajena_iff {s : Manager} {p : PendingRequest} :
    s.ajena p = true ↔ p.origen = .originLocal ∧ ∀ j ∈ s.jobs, j.jobId ≠ p.jobId := by
  unfold ajena
  rw [Bool.and_eq_true, beq_iff_eq, Bool.not_eq_true', List.any_eq_false]
  refine and_congr_right (fun _ => forall₂_congr (fun j _ => ?_))
  rw [beq_iff_eq]

/-- Which entries are of no job is a matter of the ids of the table. -/
theorem Manager.ajena_of_map_eq {s s' : Manager}
    (h : s'.jobs.map (·.jobId) = s.jobs.map (·.jobId)) : s'.ajena = s.ajena := by
  funext p
  have hany : ∀ l : List Job, l.any (fun j => j.jobId == p.jobId)
      = (l.map (·.jobId)).any (fun i => i == p.jobId) := fun l => by rw [List.any_map]; rfl
  unfold ajena
  rw [hany, hany, h]

theorem vigentesRemotas_of_neutral (t : Resource) {log : List Event} {e : Event}
    (he : e.neutral = true) : vigentesRemotas t (log ++ [e]) = vigentesRemotas t log := by
  unfold vigentesRemotas
  rw [vigentes_append_of_neutral (fun e' he' => List.mem_singleton.mp he' ▸ he)]

/-- Giving back units of a local job leaves the grants to other nodes. -/
theorem vigentesRemotas_giveBack (t tipo : Resource) {log : List Event} {p : PendingRequest}
    (hlocal : p.origen = .originLocal) :
    vigentesRemotas t (log ++ [.giveBack tipo p]) = vigentesRemotas t log := by
  have herase : ∀ l : List PendingRequest, (l.erase p).filter (fun q => q.origen == .originRemote)
      = l.filter (fun q => q.origen == .originRemote) := by
    intro l
    induction l with
    | nil => rfl
    | cons q l ih =>
      rw [List.erase_cons]
      split
      · next hq => rw [eq_of_beq hq, List.filter_cons_of_neg (by simp [hlocal])]
      · rw [List.filter_cons, List.filter_cons, ih]
  unfold vigentesRemotas
  rw [vigentes_concat]
  show List.filter _ (if tipo = t then _ else _) = _
  split
  · exact herase _
  · rfl

/-! ## A round of the loop -/

/-- The units the jobs hold, where one of them is changed. -/
theorem heldUnits_modify {t : Resource} {l : List Job} {job : Job} {jobId : Int32} (f : Job → Job)
    (hfind : l.find? (fun j => j.jobId == jobId) = some job) :
    ((l.modifyFirst (fun j => j.jobId == jobId) f).map
        (fun j => units Allocation.held t j.confirmadas)).sum
      = (l.map (fun j => units Allocation.held t j.confirmadas)).sum
        + (units Allocation.held t (f job).confirmadas
          - units Allocation.held t job.confirmadas) := by
  obtain ⟨A, B, rfl, -, -, -, hmodify⟩ := List.find?_split hfind
  rw [hmodify, List.map_append, List.map_append, List.map_cons, List.map_cons,
    List.sum_append, List.sum_append, List.sum_cons, List.sum_cons]
  omega

namespace EnRegla

variable {Loc : Int32 → Prop} {s : Manager} {w : List Obra} {t : Resource}
  {top : PendingRequest} {rest : List PendingRequest}

/-- **The mark of a round** lets the job of the entry hold its units, if it is in the
table. -/
theorem heldUnits_dequeueTop (h : EnRegla Loc (s, w)) (hc : s.cola t = top :: rest)
    (t' : Resource) :
    (Hpc.dequeueTop t top s).heldUnits t' = s.heldUnits t'
      + if t' = t ∧ top.origen = .originLocal ∧ s.ajena top = false then top.amount.toInt
        else 0 := by
  have htop : top ∈ s.cola t := hc ▸ List.mem_cons_self
  obtain ⟨hnonneg, -⟩ := h.queue t top htop
  unfold Manager.heldUnits
  rw [jobs_dequeueTop s t top hnonneg]
  cases hfind : s.jobs.find? (fun j => j.jobId == top.jobId) with
  | none =>
    have hnone : ∀ j ∈ s.jobs, (j.jobId == top.jobId) = false := fun j hj => by
      simpa using List.find?_eq_none.mp hfind j hj
    rw [List.modifyFirst_of_forall_not hnone, if_neg, add_zero]
    rintro ⟨-, hlocal, hajena⟩
    have hany : s.jobs.any (fun j => j.jobId == top.jobId) = false :=
      List.any_eq_false.mpr (fun j hj => by rw [hnone j hj]; exact Bool.false_ne_true)
    unfold Manager.ajena at hajena
    rw [hlocal, hany] at hajena
    exact absurd hajena (by decide)
  | some job =>
    have hid : job.jobId = top.jobId := eq_of_beq
      (List.find?_some (p := fun j : Job => j.jobId == top.jobId) hfind)
    have hjob : job ∈ s.jobs := List.mem_of_find?_eq_some hfind
    obtain ⟨hloc, hregular, hcubre⟩ := h.jobs job hjob
    -- an id of this node, so the entry is the one of the job
    have hlocal : top.origen = .originLocal :=
      Origin.eq_originLocal (fun ho => h.remote t top htop ho (hid ▸ hloc))
    have hajena : s.ajena top = false := by
      rw [← Bool.not_eq_true, Manager.ajena_iff]
      exact fun hnone => hnone.2 job hjob hid
    obtain ⟨-, hwait⟩ := hcubre.entry hregular htop (ofJob_iff.mpr ⟨hlocal, hid.symm⟩)
    obtain ⟨-, hconn, hheld, -, hheld', hother⟩ := hregular.mark hwait
    rw [heldUnits_modify _ hfind, ← suma_entries, ← suma_entries, hconn]
    by_cases ht : t' = t
    · subst ht
      rw [if_pos ⟨rfl, hlocal, hajena⟩, hheld, hheld', suma_cons, suma_nil]
      omega
    · rw [if_neg (fun hcond => ht hcond.1), hother t' ht, sub_self]

/-- **A round of the loop** loses the units that go to an entry of no job. -/
theorem cuenta_dequeueTop (h : EnRegla Loc (s, w)) (hc : s.cola t = top :: rest)
    (hfits : top.amount ≤ s.available t) (t' : Resource) :
    (Hpc.dequeueTop t top s).cuenta t'
      = s.cuenta t' - if t' = t ∧ s.ajena top = true then top.amount.toInt else 0 := by
  obtain ⟨-, hpos⟩ := h.queue t top (hc ▸ List.mem_cons_self)
  unfold Manager.cuenta vigentesRemotas
  rw [h.heldUnits_dequeueTop hc t', available_dequeueTop, vigentes_dequeueTop]
  by_cases ht : t' = t
  · subst ht
    rw [if_pos rfl, if_pos rfl, Int32.toInt_sub_of_pos_of_le hpos hfits]
    cases ho : top.origen with
    | originRemote =>
      have hajena : s.ajena top = false := by simp [Manager.ajena, ho]
      rw [if_neg (by simp), if_neg (by simp [hajena]),
        List.filter_cons_of_pos (by simp [ho]), suma_cons]
      omega
    | originLocal =>
      rw [List.filter_cons_of_neg (by simp [ho])]
      cases hajena : s.ajena top
      · rw [if_pos ⟨rfl, rfl, rfl⟩, if_neg (by simp)]
        omega
      · rw [if_neg (by simp), if_pos ⟨rfl, rfl⟩]
        omega
  · rw [if_neg ht, if_neg (Ne.symm ht), if_neg (fun hcond => ht hcond.1),
      if_neg (fun hcond => ht hcond.1), add_zero, sub_zero]

end EnRegla

/-! ## Giving back -/

/-- **What giving back `unidades` of a resource does to it**: the entries `servidas`
leave its queue, and what goes to those of no job is lost. -/
structure Manager.Rinde (t : Resource) (unidades : ℤ) (servidas : List PendingRequest)
    (s s' : Manager) : Prop where
  cola : s.cola t = servidas ++ s'.cola t
  available : (s'.available t).toInt = (s.available t).toInt + unidades - suma servidas
  cuenta : s'.cuenta t = s.cuenta t + unidades - suma (servidas.filter s.ajena)
  total : s'.total t = s.total t

namespace Manager.Rinde

variable {t : Resource} {u u' : ℤ} {l l' : List PendingRequest} {s s₁ s' : Manager}

theorem refl (t : Resource) (s : Manager) : Rinde t 0 [] s s :=
  ⟨rfl, by simp, by simp, rfl⟩

/-- Given back once, and then more. -/
theorem trans (h : Rinde t u l s s₁) (hids : s₁.jobs.map (·.jobId) = s.jobs.map (·.jobId))
    (h' : Rinde t u' l' s₁ s') : Rinde t (u + u') (l ++ l') s s' := by
  refine ⟨?_, ?_, ?_, h'.total.trans h.total⟩
  · rw [h.cola, h'.cola, List.append_assoc]
  · rw [h'.available, h.available, suma_append]
    omega
  · rw [h'.cuenta, h.cuenta, ajena_of_map_eq hids, List.filter_append, suma_append]
    omega

end Manager.Rinde

namespace EnRegla

variable {Loc : Int32 → Prop} {s : Manager} {w : List Obra} {t : Resource}

/-- A round of the loop. -/
theorem rinde_dequeueTop {top : PendingRequest} {rest : List PendingRequest}
    (h : EnRegla Loc (s, w)) (hc : s.cola t = top :: rest) (hfits : top.amount ≤ s.available t)
    (t' : Resource) :
    Manager.Rinde t' 0 (if t' = t then [top] else []) s (Hpc.dequeueTop t top s) := by
  obtain ⟨-, hpos⟩ := h.queue t top (hc ▸ List.mem_cons_self)
  have hcuenta := h.cuenta_dequeueTop hc hfits t'
  by_cases ht : t' = t
  · subst ht
    rw [if_pos rfl]
    refine ⟨?_, ?_, ?_, total_dequeueTop s t' t' top⟩
    · rw [cola_dequeueTop s t' t' hc, if_pos rfl, hc]
      rfl
    · rw [available_dequeueTop, if_pos rfl, Int32.toInt_sub_of_pos_of_le hpos hfits]
      simp
    · rw [hcuenta, List.filter_cons]
      cases s.ajena top <;> simp
  · rw [if_neg ht]
    refine ⟨?_, ?_, ?_, total_dequeueTop s t t' top⟩
    · rw [cola_dequeueTop s t t' hc, if_neg ht]
      rfl
    · rw [available_dequeueTop, if_neg ht]
      simp
    · rw [hcuenta, if_neg (fun hcond => ht hcond.1)]
      simp

/-- **The loop of `release_resource`** serves what fits. -/
theorem rinde_serveQueue (n : ℕ) (h : EnRegla Loc (s, .sirviendo t :: w))
    (hn : (s.cola t).length ≤ n) :
    (serveQueue t n s).jobs.map (·.jobId) = s.jobs.map (·.jobId)
      ∧ ∀ t', Manager.Rinde t' 0
        (if t' = t then fitting costo (s.available t).toInt (s.cola t) else [])
        s (serveQueue t n s) := by
  induction n generalizing s with
  | zero =>
    have hnil : s.cola t = [] := List.length_eq_zero_iff.mp (Nat.le_zero.mp hn)
    rw [hnil]
    refine ⟨rfl, fun t' => ?_⟩
    rw [fitting_nil, ite_self]
    exact .refl t' s
  | succ n ih =>
    rw [serveQueue]
    cases hc : s.cola t with
    | nil =>
      refine ⟨rfl, fun t' => ?_⟩
      rw [fitting_nil, ite_self]
      exact .refl t' s
    | cons top rest =>
      dsimp only
      by_cases hfits : top.amount ≤ s.available t
      · have hle : costo top ≤ (s.available t).toInt := Int32.le_iff_toInt_le.mp hfits
        have hround := h.rinde_dequeueTop hc hfits
        have hids := ids_dequeueTop s t top (h.queue t top (hc ▸ List.mem_cons_self)).1
        have hcola : (Hpc.dequeueTop t top s).cola t = rest := by
          rw [cola_dequeueTop s t t hc, if_pos rfl]
        have hfree : ((Hpc.dequeueTop t top s).available t).toInt
            = (s.available t).toInt - costo top := by
          have hone := (hround t).available
          rw [if_pos rfl, suma_cons, suma_nil] at hone
          show _ = (s.available t).toInt - top.amount.toInt
          omega
        obtain ⟨hrestids, hrest⟩ := ih (h.dequeueTop hc)
          (by rw [hcola]; rw [hc, List.length_cons] at hn; omega)
        rw [if_pos hfits, fitting_cons_of_le hle]
        refine ⟨hrestids.trans hids, fun t' => ?_⟩
        have hboth := (hround t').trans hids (hrest t')
        rw [hcola, hfree] at hboth
        by_cases ht : t' = t
        · rw [if_pos ht, if_pos ht] at hboth
          rw [if_pos ht]
          exact hboth
        · rw [if_neg ht, if_neg ht] at hboth
          rw [if_neg ht]
          exact hboth
      · have hle : ¬costo top ≤ (s.available t).toInt :=
          fun hle => hfits (Int32.le_iff_toInt_le.mpr hle)
        rw [if_neg hfits, fitting_cons_of_not_le hle]
        refine ⟨rfl, fun t' => ?_⟩
        rw [ite_self]
        exact .refl t' s

/-! ## A job taken apart -/

/-- What a sequence of small steps preserves. -/
theorem pasos {c d : Manager × List Obra} (h : EnRegla Loc c)
    (hpasos : Pasos (Apartados Loc).positiva c d) : EnRegla Loc d := by
  induction hpasos with
  | refl => exact h
  | tail _ hlast ih => exact ih.paso hlast

/-- What is free is no more than what is known. -/
theorem available_le_cuenta (h : EnRegla Loc (s, w)) (t : Resource) :
    (s.available t).toInt ≤ s.cuenta t := by
  have hheld : 0 ≤ s.heldUnits t := by
    refine List.sum_nonneg (fun v hv => ?_)
    obtain ⟨j, hj, rfl⟩ := List.mem_map.mp hv
    refine units_nonneg (fun a ha hsel => ?_)
    obtain ⟨-, hpos, -⟩ := (h.jobs j hj).2.1.own a ha (Allocation.isLocal_of_held hsel)
    exact (Int32.pos_iff.mp hpos).le
  have hremote : 0 ≤ suma (vigentesRemotas t s.log) :=
    suma_nonneg (fun p hp => h.ledger t p (List.mem_filter.mp hp).1)
  unfold Manager.cuenta
  omega

/-- **Units of this node given back**: they are accepted, as long as they are not
known already. -/
theorem rinde_releaseHeld {job : Job} {a : Allocation} {rest : List Allocation}
    (h : EnRegla Loc (s, .muerta job :: w)) (hjob : job.confirmadas = a :: rest)
    (hheld : a.held = true) (hpos : 0 < a.amount)
    (hroom : s.cuenta a.name + a.amount.toInt ≤ (s.total a.name).toInt) :
    (releaseHeld a s).jobs.map (·.jobId) = s.jobs.map (·.jobId)
      ∧ ∀ t', Manager.Rinde t' (if t' = a.name then a.amount.toInt else 0)
        (if t' = a.name then fitting costo ((s.available a.name).toInt + a.amount.toInt)
          (s.cola a.name) else []) s (releaseHeld a s) := by
  have hfree := h.available_le_cuenta a.name
  have hout : (s.available a.name).toInt + ((s.total a.name).toInt - (s.available a.name).toInt)
      = (s.total a.name).toInt := by omega
  obtain ⟨hsum, hnonneg, hle⟩ := toInt_add_of_out hpos (by omega) hout
  have haccepts : s.accepts a.name a.amount := ⟨hnonneg, hle⟩
  have hgiven : EnRegla Loc (giveUnits a.name a.amount (s.emit (.giveBack a.name a.request)),
      .sirviendo a.name :: .muerta { job with confirmadas := rest } :: w) :=
    h.paso (.soltar job a rest hjob hheld haccepts)
  have hgive : ∀ t', Manager.Rinde t' (if t' = a.name then a.amount.toInt else 0) [] s
      (giveUnits a.name a.amount (s.emit (.giveBack a.name a.request))) := by
    intro t'
    have havailable : ((giveUnits a.name a.amount
        (s.emit (.giveBack a.name a.request))).available t').toInt
          = (s.available t').toInt + (if t' = a.name then a.amount.toInt else 0) := by
      rw [available_giveUnits]
      by_cases ht : t' = a.name
      · rw [if_pos ht, if_pos ht, ht]
        exact hsum
      · rw [if_neg ht, if_neg ht, add_zero]
        rfl
    refine ⟨?_, ?_, ?_, total_giveUnits _ t' a.name a.amount⟩
    · rw [cola_giveUnits]
      rfl
    · rw [havailable, suma_nil, sub_zero]
    · unfold Manager.cuenta
      rw [havailable, log_giveUnits, Manager.log_emit,
        vigentesRemotas_giveBack t' a.name (p := a.request) rfl, List.filter_nil, suma_nil]
      show _ + s.heldUnits t' + _ = _
      omega
  obtain ⟨hids, hserved⟩ := hgiven.rinde_serveQueue (s.cola a.name).length
    (by rw [cola_giveUnits]; exact le_rfl)
  have heq : releaseHeld a s = serveQueue a.name (s.cola a.name).length
      (giveUnits a.name a.amount (s.emit (.giveBack a.name a.request))) := by
    unfold releaseHeld
    rw [releaseResource_eq]
    exact if_pos haccepts
  rw [heq]
  refine ⟨hids, fun t' => ?_⟩
  have hboth := (hgive t').trans rfl (hserved t')
  rw [available_giveUnits, if_pos rfl, cola_giveUnits, add_zero, List.nil_append] at hboth
  have hsum' : ((s.emit (.giveBack a.name a.request)).available a.name + a.amount).toInt
      = (s.available a.name).toInt + a.amount.toInt := hsum
  rw [hsum'] at hboth
  exact hboth

/-- What goes to entries of no job is not gained. -/
theorem cuenta_le (h : EnRegla Loc (s, w)) {u : ℤ} {l : List PendingRequest} {s' : Manager}
    (hr : Manager.Rinde t u l s s') : s'.cuenta t ≤ s.cuenta t + u := by
  have hlost : 0 ≤ suma (l.filter s.ajena) := by
    refine suma_nonneg (fun p hp => (h.queue t p ?_).2)
    show p ∈ s.cola t
    rw [hr.cola]
    exact List.mem_append_left _ (List.mem_filter.mp hp).1
  rw [hr.cuenta]
  omega

end EnRegla

/-- The entries served when a job gives back what it holds of a resource, if it holds
any. -/
def Job.sirve (t : Resource) (libre : ℤ) (cola : List PendingRequest) (job : Job) :
    List PendingRequest :=
  if job.entries Allocation.held t = [] then []
  else fitting costo (libre + units Allocation.held t job.confirmadas) cola

/-- An allocation that holds nothing here is freed with a line at most. -/
theorem rinde_freeAllocation_of_not_held {a : Allocation} (h : a.held = false)
    (jobId : Int32) (s : Manager) :
    (freeAllocation jobId a s).jobs.map (·.jobId) = s.jobs.map (·.jobId)
      ∧ ∀ t, Manager.Rinde t 0 [] s (freeAllocation jobId a s) := by
  unfold freeAllocation
  rw [if_neg (by simp [h])]
  split
  · split
    · next remote _ =>
      refine ⟨rfl, fun t => ⟨rfl, by simp, ?_, rfl⟩⟩
      unfold Manager.cuenta
      rw [log_sendMessage, vigentesRemotas_of_neutral t rfl]
      show _ + s.heldUnits t + _ = _
      simp
    · exact ⟨rfl, fun t => .refl t s⟩
  · exact ⟨rfl, fun t => .refl t s⟩

namespace EnRegla

variable {Loc : Int32 → Prop} {s : Manager} {w : List Obra} {t : Resource}

/-- **The allocations of a job freed**, one after the other: at a resource it holds,
what fits is served. -/
theorem rinde_freeAllocations {job : Job} {l : List Allocation}
    (h : EnRegla Loc (s, .muerta { job with confirmadas := l } :: w))
    (hregular : Job.Regular { job with confirmadas := l })
    (hroom : ∀ t, s.cuenta t + units Allocation.held t l ≤ (s.total t).toInt) :
    (freeAllocations job.jobId l s).jobs.map (·.jobId) = s.jobs.map (·.jobId)
      ∧ ∀ t, Manager.Rinde t (units Allocation.held t l)
        (Job.sirve t (s.available t).toInt (s.cola t) { job with confirmadas := l })
        s (freeAllocations job.jobId l s) := by
  induction l generalizing s with
  | nil => exact ⟨rfl, fun t => .refl t s⟩
  | cons a l ih =>
    have htail := hregular.tail (j := { job with confirmadas := a :: l }) rfl
    have hnext : EnRegla Loc (freeAllocation job.jobId a s,
        .muerta { job with confirmadas := l } :: w) := h.pasos (Pasos.freeAllocation rfl)
    have hfirst : (freeAllocation job.jobId a s).jobs.map (·.jobId) = s.jobs.map (·.jobId)
        ∧ ∀ t, Manager.Rinde t (if a.held ∧ a.name = t then a.amount.toInt else 0)
          (if a.held ∧ a.name = t then fitting costo ((s.available t).toInt + a.amount.toInt)
            (s.cola t) else []) s (freeAllocation job.jobId a s) := by
      cases hheld : a.held
      · simpa using rinde_freeAllocation_of_not_held hheld job.jobId s
      · have hlocal := Allocation.isLocal_of_held hheld
        have hpos := (hregular.own a List.mem_cons_self hlocal).2.1
        have hrest : 0 ≤ units Allocation.held a.name l := units_nonneg (fun b hb hsel =>
          (Int32.pos_iff.mp (htail.own b hb (Allocation.isLocal_of_held hsel)).2.1).le)
        have hroom' := hroom a.name
        rw [units_cons_of_sel hheld, if_pos rfl] at hroom'
        rw [freeAllocation_of_held hheld]
        obtain ⟨hids, hserved⟩ := h.rinde_releaseHeld rfl hheld hpos (by omega)
        refine ⟨hids, fun t => ?_⟩
        have hserved := hserved t
        by_cases ht : a.name = t
        · subst ht
          rw [if_pos rfl, if_pos rfl] at hserved
          rw [if_pos ⟨rfl, rfl⟩, if_pos ⟨rfl, rfl⟩]
          exact hserved
        · rw [if_neg (Ne.symm ht), if_neg (Ne.symm ht)] at hserved
          rw [if_neg (fun hcond => ht hcond.2), if_neg (fun hcond => ht hcond.2)]
          exact hserved
    obtain ⟨hids, hone⟩ := hfirst
    obtain ⟨hrestids, hrest⟩ := ih hnext htail (fun t => by
      have hle := h.cuenta_le (hone t)
      have hroom' := hroom t
      rw [units_cons] at hroom'
      rw [(hone t).total]
      omega)
    refine ⟨hrestids.trans hids, fun t => ?_⟩
    have hboth := (hone t).trans hids (hrest t)
    have hentries := @entries_cons Allocation.held t job a l
    unfold Job.sirve at hboth ⊢
    by_cases ht : a.held = true ∧ a.name = t
    · -- the only allocation of the job that holds units of it
      have hnone : Job.entries Allocation.held t { job with confirmadas := l } = [] :=
        entries_of_not_mem (fun _ => Allocation.isLocal_of_held)
          (ht.2 ▸ hregular.not_mem_tail rfl (Allocation.isLocal_of_held ht.1))
      have hzero : units Allocation.held t l = 0 := by
        rw [← suma_entries Allocation.held t { job with confirmadas := l }, hnone, suma_nil]
      rw [if_pos ht, if_pos ht, if_pos hnone, List.append_nil] at hboth
      rw [if_pos (by simp [ht.1, ht.2])] at hentries
      rw [hentries, if_neg (List.cons_ne_nil _ _), units_cons, if_pos ht, hzero, add_zero]
      rw [hzero, add_zero] at hboth
      exact hboth
    · rw [if_neg ht] at hboth
      have hstep := hone t
      rw [if_neg ht, if_neg ht] at hstep
      have hcola : (freeAllocation job.jobId a s).cola t = s.cola t := hstep.cola.symm
      have hfree : ((freeAllocation job.jobId a s).available t).toInt = (s.available t).toInt := by
        have hfree := hstep.available
        rwa [suma_nil, add_zero, sub_zero] at hfree
      rw [if_neg ht, List.nil_append, hcola, hfree] at hboth
      rw [if_neg (by simpa using ht)] at hentries
      rw [hentries, units_cons, if_neg ht, zero_add]
      rw [zero_add] at hboth
      exact hboth

end EnRegla

/-! ## The jobs one after the other -/

/-- The units of a resource the jobs in hand hold. -/
def retenidas (t : Resource) (lista : List Job) : ℤ :=
  (lista.map (fun j => units Allocation.held t j.confirmadas)).sum

theorem retenidas_cons (t : Resource) (job : Job) (lista : List Job) :
    retenidas t (job :: lista) = units Allocation.held t job.confirmadas + retenidas t lista :=
  List.sum_cons

/-- **Nothing goes to a job that is yet to be freed**: what is served when a job of the
list gives back its units of the resource has no entry of the jobs after it. The
budget is what was free and what the jobs so far held, the queue has no entries of
theirs. -/
def SinPerdida (t : Resource) : ℤ → List PendingRequest → List Job → Prop
  | _, _, [] => True
  | libre, cola, job :: lista =>
    (∀ p ∈ job.sirve t libre (cola.filter (fun p => !(p.jobId == job.jobId))),
        ∀ j ∈ lista, p.jobId ≠ j.jobId)
      ∧ SinPerdida t (libre + units Allocation.held t job.confirmadas)
        (cola.filter (fun p => !(p.jobId == job.jobId))) lista

/-- Jobs being taken apart, none of which is in the table. -/
structure Desarme (Loc : Int32 → Prop) (s : Manager) (lista : List Job) : Prop where
  regla : EnRegla Loc (s, lista.map .muerta ++ [.llamada])
  loc : ∀ j ∈ lista, Loc j.jobId
  regular : ∀ j ∈ lista, j.Regular
  aparte : ∀ j ∈ lista, ∀ i ∈ s.jobs, i.jobId ≠ j.jobId

namespace Desarme

variable {Loc : Int32 → Prop} {s : Manager} {job : Job} {lista : List Job} {t : Resource}

/-- The state after the purge of the first job and the release of its units. -/
def siguiente (job : Job) (s : Manager) : Manager :=
  freeAllocations job.jobId job.confirmadas (limpiarColasPorId job.jobId s)

/-- **An entry is of no job of the table** exactly if it is of a job yet to be
freed. -/
theorem ajena_iff (h : Desarme Loc s (job :: lista)) {p : PendingRequest}
    (hp : p ∈ (limpiarColasPorId job.jobId s).cola t) :
    s.ajena p = true ↔ ∃ j ∈ lista, p.jobId = j.jobId := by
  obtain ⟨hp, hne⟩ := List.mem_filter.mp hp
  rw [Manager.ajena_iff]
  constructor
  · rintro ⟨hlocal, hnone⟩
    rcases h.regla.owned t p hp hlocal with ⟨j, hj, hid⟩ | ⟨o, ho, j, hjob, hid⟩
    · exact absurd hid (hnone j hj)
    · rcases List.mem_append.mp ho with ho | ho
      · obtain ⟨i, hi, rfl⟩ := List.mem_map.mp ho
        obtain rfl := Option.some.inj hjob
        rcases List.mem_cons.mp hi with rfl | hi
        · exact absurd (beq_iff_eq.mpr hid.symm) (by simpa using hne)
        · exact ⟨i, hi, hid.symm⟩
      · rw [List.mem_singleton.mp ho] at hjob
        exact nomatch hjob
  · rintro ⟨j, hj, hid⟩
    have hj : j ∈ job :: lista := List.mem_cons_of_mem job hj
    refine ⟨?_, fun i hi => ?_⟩
    · exact Origin.eq_originLocal (fun ho => h.regla.remote t p hp ho (hid ▸ h.loc j hj))
    · rw [hid]
      exact h.aparte j hj i hi

theorem units_nonneg (h : Desarme Loc s (job :: lista)) (t : Resource) :
    0 ≤ units Allocation.held t job.confirmadas :=
  Hpc.units_nonneg (fun a ha hsel => (Int32.pos_iff.mp ((h.regular job
    List.mem_cons_self).own a ha (Allocation.isLocal_of_held hsel)).2.1).le)

/-- The purge of the first job. -/
theorem purga (h : Desarme Loc s (job :: lista)) :
    EnRegla Loc (limpiarColasPorId job.jobId s,
      .muerta job :: (lista.map .muerta ++ [.llamada])) :=
  h.regla.paso (.purgeId job.jobId (.muerta ..))

/-- **One job freed.** -/
theorem rinde (h : Desarme Loc s (job :: lista))
    (hroom : ∀ t, s.cuenta t + retenidas t (job :: lista) ≤ (s.total t).toInt) :
    Desarme Loc (siguiente job s) lista
      ∧ ∀ t, Manager.Rinde t (units Allocation.held t job.confirmadas)
        (job.sirve t (s.available t).toInt ((limpiarColasPorId job.jobId s).cola t))
        (limpiarColasPorId job.jobId s) (siguiente job s) := by
  have hrest : ∀ t, 0 ≤ retenidas t lista := by
    refine fun t => List.sum_nonneg (fun v hv => ?_)
    obtain ⟨j, hj, rfl⟩ := List.mem_map.mp hv
    exact Hpc.units_nonneg (fun a ha hsel => (Int32.pos_iff.mp ((h.regular j
      (List.mem_cons_of_mem job hj)).own a ha (Allocation.isLocal_of_held hsel)).2.1).le)
  obtain ⟨hids, hserved⟩ := h.purga.rinde_freeAllocations
    (h.regular job List.mem_cons_self) (fun t => by
      have hroom := hroom t
      have hrest := hrest t
      rw [retenidas_cons] at hroom
      show s.cuenta t + _ ≤ (s.total t).toInt
      omega)
  refine ⟨⟨h.regla.pasos (Pasos.freeJob job s), fun j hj => h.loc j (List.mem_cons_of_mem _ hj),
    fun j hj => h.regular j (List.mem_cons_of_mem _ hj), fun j hj i hi => ?_⟩, hserved⟩
  have hmem := List.mem_map_of_mem (f := (·.jobId)) hi
  have hids : (siguiente job s).jobs.map (·.jobId) = s.jobs.map (·.jobId) := hids
  rw [hids] at hmem
  obtain ⟨i', hi', hid⟩ := List.mem_map.mp hmem
  rw [← hid]
  exact h.aparte j (List.mem_cons_of_mem _ hj) i' hi'

/-- Freeing one job adds no more than it holds. -/
theorem cabe (h : Desarme Loc s (job :: lista))
    (hroom : ∀ t, s.cuenta t + retenidas t (job :: lista) ≤ (s.total t).toInt) (t : Resource) :
    (siguiente job s).cuenta t + retenidas t lista ≤ s.cuenta t + retenidas t (job :: lista)
      ∧ (siguiente job s).total t = s.total t := by
  obtain ⟨-, hserved⟩ := h.rinde hroom
  have hle : (siguiente job s).cuenta t ≤ s.cuenta t + _ := h.purga.cuenta_le (hserved t)
  refine ⟨?_, (hserved t).total⟩
  rw [retenidas_cons]
  omega

/-- **Freeing jobs never adds more than they hold.** -/
theorem cuenta_freeJobs_le (h : Desarme Loc s lista)
    (hroom : ∀ t, s.cuenta t + retenidas t lista ≤ (s.total t).toInt) (t : Resource) :
    (freeJobs lista s).cuenta t ≤ s.cuenta t + retenidas t lista
      ∧ (freeJobs lista s).total t = s.total t := by
  induction lista generalizing s with
  | nil => exact ⟨(add_zero (s.cuenta t)).symm.le, rfl⟩
  | cons job lista ih =>
    obtain ⟨hle, htotal⟩ := h.cabe hroom t
    obtain ⟨hlast, hlasttotal⟩ := ih (h.rinde hroom).1 (fun t => by
      obtain ⟨hle, htotal⟩ := h.cabe hroom t
      rw [htotal]
      exact hle.trans (hroom t))
    exact ⟨hlast.trans hle, hlasttotal.trans htotal⟩

/-- What is served for a job, after the entries `antes` were served for the jobs before
it. -/
theorem sirve_append {antes : List PendingRequest} {libre : ℤ}
    (hantes : fitting costo (libre + suma antes) antes = antes)
    (hunits : 0 ≤ units Allocation.held t job.confirmadas) (cola : List PendingRequest) :
    job.sirve t (libre + suma antes) (antes ++ cola)
      = if job.entries Allocation.held t = [] then [] else antes ++ job.sirve t libre cola := by
  unfold Job.sirve
  split
  · rfl
  · have hwhole := fitting_eq_of_le hantes (le_add_of_nonneg_right hunits)
    rw [fitting_append_of_eq hwhole]
    refine congrArg (fun d => antes ++ fitting costo d cola) ?_
    show _ - suma antes = _
    omega

/-- What is served for a job is served whole, after the entries served before. -/
theorem fitting_append_sirve {antes : List PendingRequest} {libre : ℤ}
    (hantes : fitting costo (libre + suma antes) antes = antes)
    (hunits : 0 ≤ units Allocation.held t job.confirmadas) (cola : List PendingRequest) :
    fitting costo (libre + suma antes + units Allocation.held t job.confirmadas)
      (antes ++ job.sirve t libre cola) = antes ++ job.sirve t libre cola := by
  have hwhole := fitting_eq_of_le hantes (le_add_of_nonneg_right hunits)
  rw [fitting_append_of_eq hwhole]
  refine congrArg (antes ++ ·) ?_
  unfold Job.sirve
  split
  · rfl
  · have hleft : libre + suma antes + units Allocation.held t job.confirmadas
        - (antes.map costo).sum = libre + units Allocation.held t job.confirmadas := by
      show _ - suma antes = _
      omega
    rw [hleft]
    exact fitting_fitting _ _

/-- **The units add up after the teardown exactly if none goes to a job yet to be
freed.** The entries `antes` were served for the jobs freed before. -/
theorem cuenta_freeJobs_iff (h : Desarme Loc s lista)
    (hroom : ∀ t, s.cuenta t + retenidas t lista ≤ (s.total t).toInt)
    (hfull : s.cuenta t + retenidas t lista = (s.total t).toInt) {antes : List PendingRequest}
    (hantes : fitting costo ((s.available t).toInt + suma antes) antes = antes)
    (hfuera : ∀ p ∈ antes, ∀ j ∈ lista, p.jobId ≠ j.jobId) :
    (freeJobs lista s).cuenta t = (s.total t).toInt
      ↔ SinPerdida t ((s.available t).toInt + suma antes) (antes ++ s.cola t) lista := by
  induction lista generalizing s antes with
  | nil => exact iff_of_true ((add_zero _).symm.trans hfull) trivial
  | cons job lista ih =>
    obtain ⟨hnext, hserved⟩ := h.rinde hroom
    have hround := hserved t
    have hroom' : ∀ t, (siguiente job s).cuenta t + retenidas t lista
        ≤ ((siguiente job s).total t).toInt := fun t => by
      obtain ⟨hle, htotal⟩ := h.cabe hroom t
      rw [htotal]
      exact hle.trans (hroom t)
    have hcola : (antes ++ s.cola t).filter (fun p => !(p.jobId == job.jobId))
        = antes ++ (limpiarColasPorId job.jobId s).cola t := by
      rw [List.filter_append, List.filter_eq_self.mpr (fun p hp => ?_)]
      · rfl
      · simpa using hfuera p hp job List.mem_cons_self
    have hsirve := sirve_append hantes (h.units_nonneg t)
      ((limpiarColasPorId job.jobId s).cola t)
    have hwhole := fitting_append_sirve hantes (h.units_nonneg t)
      ((limpiarColasPorId job.jobId s).cola t)
    have hnil : job.entries Allocation.held t = [] → job.sirve t (s.available t).toInt
        ((limpiarColasPorId job.jobId s).cola t) = [] := fun hnil => if_pos hnil
    generalize job.sirve t (s.available t).toInt ((limpiarColasPorId job.jobId s).cola t)
      = servidas at hround hsirve hwhole hnil
    have hservidas : ∀ p ∈ servidas, p ∈ (limpiarColasPorId job.jobId s).cola t :=
      fun p hp => hround.cola ▸ List.mem_append_left _ hp
    have hcuenta : (siguiente job s).cuenta t
        = s.cuenta t + units Allocation.held t job.confirmadas
          - suma (servidas.filter s.ajena) := hround.cuenta
    have htotal : (siguiente job s).total t = s.total t := hround.total
    rw [retenidas_cons] at hfull
    rw [SinPerdida, hcola, hsirve]
    by_cases hnone : ∀ p ∈ servidas, ∀ j ∈ lista, p.jobId ≠ j.jobId
    · -- nothing is lost so far
      have hlost : servidas.filter s.ajena = [] := List.filter_eq_nil_iff.mpr (fun p hp hajena => by
        obtain ⟨j, hj, hid⟩ := (h.ajena_iff (hservidas p hp)).mp hajena
        exact hnone p hp j hj hid)
      rw [hlost, suma_nil, sub_zero] at hcuenta
      have hbudget : ((siguiente job s).available t).toInt + suma (antes ++ servidas)
          = (s.available t).toInt + suma antes + units Allocation.held t job.confirmadas := by
        have havailable : ((siguiente job s).available t).toInt
            = (s.available t).toInt + units Allocation.held t job.confirmadas - suma servidas :=
          hround.available
        rw [havailable, suma_append]
        omega
      have hfuera' : ∀ p ∈ antes ++ servidas, ∀ j ∈ lista, p.jobId ≠ j.jobId := by
        intro p hp j hj
        rcases List.mem_append.mp hp with hp | hp
        · exact hfuera p hp j (List.mem_cons_of_mem _ hj)
        · exact hnone p hp j hj
      rw [← hbudget] at hwhole
      have hrest := ih hnext hroom' (by rw [htotal]; omega) hwhole hfuera'
      rw [hbudget, List.append_assoc, ← hround.cola, htotal] at hrest
      refine hrest.trans (and_iff_right (fun p hp => ?_)).symm
      split at hp
      · exact absurd hp List.not_mem_nil
      · exact hfuera' p hp
    · obtain ⟨p, hp, j, hj, hid⟩ : ∃ p ∈ servidas, ∃ j ∈ lista, p.jobId = j.jobId := by
        simpa using hnone
      have hholds : job.entries Allocation.held t ≠ [] := by
        intro hempty
        rw [hnil hempty] at hp
        exact absurd hp List.not_mem_nil
      refine iff_of_false (fun hfinal => ?_) (fun hno => ?_)
      · have hlost : p ∈ servidas.filter s.ajena := List.mem_filter.mpr
          ⟨hp, (h.ajena_iff (hservidas p hp)).mpr ⟨j, hj, hid⟩⟩
        have hpos : ∀ q ∈ servidas.filter s.ajena, 0 < q.amount := fun q hq =>
          (h.purga.queue t q (hservidas q (List.mem_filter.mp hq).1)).2
        have hamount := le_suma hpos hlost
        have hp := Int32.pos_iff.mp (hpos p hlost)
        have hle := (hnext.cuenta_freeJobs_le hroom' t).1
        have hfinal : (freeJobs lista (siguiente job s)).cuenta t = (s.total t).toInt := hfinal
        omega
      · refine hno.1 p ?_ j hj hid
        rw [if_neg hholds]
        exact List.mem_append_right _ hp

end Desarme

/-! ## A lost connection -/

/-- **The jobs of a lost connection**, taken out of the table. -/
theorem Desarme.of_lose {Loc : Int32 → Prop} {s : Manager} (h : EnRegla Loc (s, []))
    (conn : Conn) :
    Desarme Loc (s.setTabla (tablaJobsExtractByRemoteConn s.tabla conn).2)
      (tablaJobsExtractByRemoteConn s.tabla conn).1 := by
  have hout : ∀ j ∈ (tablaJobsExtractByRemoteConn s.tabla conn).1,
      ∃ i ∈ s.jobs, j = i.dropRemote conn ∧ (i.dropRemote conn).affected conn = true := by
    intro j hj
    rw [TablaJobs.extractByRemoteConn_fst, List.mem_reverse] at hj
    obtain ⟨hj, haffected⟩ := List.mem_filter.mp hj
    obtain ⟨i, hi, rfl⟩ := List.mem_map.mp hj
    exact ⟨i, hi, rfl, haffected⟩
  refine ⟨h.lose conn, fun j hj => ?_, fun j hj => ?_, fun j hj k hk hid => ?_⟩
  · obtain ⟨i, hi, rfl, -⟩ := hout j hj
    exact (h.jobs i hi).1
  · obtain ⟨i, hi, rfl, -⟩ := hout j hj
    exact (h.jobs i hi).2.1.dropRemote conn
  · obtain ⟨i, hi, rfl, haffected⟩ := hout j hj
    rw [Manager.jobs_setTabla, TablaJobs.jobs_extractByRemoteConn] at hk
    obtain ⟨hk, hstays⟩ := List.mem_filter.mp hk
    obtain ⟨i', hi', rfl⟩ := List.mem_map.mp hk
    -- two jobs of one id are one job
    have hsame : i' = i := List.inj_on_of_nodup_map h.distinct.nodup hi' hi hid
    rw [hsame, haffected] at hstays
    exact absurd hstays Bool.false_ne_true

/-- **The units add up after the jobs of a connection were taken apart** exactly if none
went to a job yet to be freed. -/
theorem cuenta_dropJobs_iff {Loc : Int32 → Prop} {s : Manager} (h : EnRegla Loc (s, []))
    (hfull : ∀ t, s.cuenta t = (s.total t).toInt) (conn : Conn) (t : Resource) :
    (dropJobs conn s).cuenta t = ((dropJobs conn s).total t).toInt
      ↔ SinPerdida t (s.available t).toInt (s.cola t)
        (tablaJobsExtractByRemoteConn s.tabla conn).1 := by
  have hdesarme := Desarme.of_lose h conn
  have hfull' : ∀ t, (s.setTabla (tablaJobsExtractByRemoteConn s.tabla conn).2).cuenta t
      + retenidas t (tablaJobsExtractByRemoteConn s.tabla conn).1 = (s.total t).toInt := by
    intro t
    have hfull := hfull t
    have hheld := heldUnits_extract_add s conn t
    unfold Manager.cuenta at hfull ⊢
    unfold retenidas
    rw [Manager.available_setTabla, Manager.log_setTabla]
    omega
  have hnada : fitting costo ((s.available t).toInt + suma []) [] = [] := rfl
  have hiff := hdesarme.cuenta_freeJobs_iff (fun t => (hfull' t).le) (hfull' t) hnada
    (fun p hp => absurd hp List.not_mem_nil)
  have htotal := (hdesarme.cuenta_freeJobs_le (fun t => (hfull' t).le) t).2
  rw [suma_nil, add_zero, List.nil_append] at hiff
  unfold dropJobs
  rw [htotal]
  exact hiff

/-- **Tearing down the jobs of a connection loses no units exactly if none goes to a job
yet to be freed.** In a state of a run in which the units of every resource add up they
do after `process_disconnect` exactly under `SinPerdida` for the queues without the
entries of the connection, and after `process_connection_failed` exactly under
`SinPerdida` for the queues as they are. -/
theorem teardown_keeps_units (Loc : Int32 → Prop) {cpu mem gpu : Int32} {ip : CString}
    {s : Manager}
    (hrun : Reaches Manager.step (Apartados Loc).allows (managerInit cpu mem gpu ip) s)
    (hfull : ∀ t, s.cuenta t = (s.total t).toInt) (conn : Conn) :
    ((∀ t, (processDisconnect conn s).cuenta t = ((processDisconnect conn s).total t).toInt)
        ↔ ∀ t, SinPerdida t (s.available t).toInt
          ((s.cola t).filter (fun p => !(p.ownerConn == conn)))
          (tablaJobsExtractByRemoteConn s.tabla conn).1)
      ∧ ((∀ t, (processConnectionFailed conn s).cuenta t
          = ((processConnectionFailed conn s).total t).toInt)
        ↔ ∀ t, SinPerdida t (s.available t).toInt (s.cola t)
          (tablaJobsExtractByRemoteConn s.tabla conn).1) := by
  have h := EnRegla.of_reaches hrun
  have hpurged : EnRegla Loc (limpiarColasPorConn conn s, []) := h.paso (.purgeConn conn trivial)
  exact ⟨forall_congr' (fun t => cuenta_dropJobs_iff hpurged hfull conn t),
    forall_congr' (fun t => cuenta_dropJobs_iff h hfull conn t)⟩

instance decidableSinPerdida (t : Resource) :
    (lista : List Job) → (libre : ℤ) → (cola : List PendingRequest) →
      Decidable (SinPerdida t libre cola lista)
  | [], _, _ => .isTrue trivial
  | job :: lista, libre, cola =>
    have := decidableSinPerdida t lista (libre + units Allocation.held t job.confirmadas)
      (cola.filter (fun p => !(p.jobId == job.jobId)))
    inferInstanceAs (Decidable ((∀ p ∈ job.sirve t _ _, ∀ j ∈ lista, p.jobId ≠ j.jobId) ∧ _))

/-- The guard of `Apartados` as a test. -/
def Apartados.test (loc : Int32 → Bool) (_s : Manager) : Call → Bool
  | .message _ msg _ => (parseMessage msg).all (fun m =>
      m.jobId?.all (fun i => decide (0 ≤ i)) && match m with
        | .jobRequest jobId requests =>
          loc jobId && decide ((requests.map (fun r => (r.ip, r.type))).Nodup)
        | .reserve jobId _ amount => !loc jobId && decide (0 < amount)
        | _ => true)
  | _ => true

theorem Apartados.of_test {loc : Int32 → Bool} {s : Manager} {call : Call}
    (h : Apartados.test loc s call = true) : (Apartados fun i => loc i = true).allows s call := by
  cases call with
  | message conn msg red =>
    intro m hm
    simp only [test, hm, Option.all_some, Bool.and_eq_true] at h
    obtain ⟨hpos, hkind⟩ := h
    refine ⟨fun i hi => ?_, fun i requests heq => ?_, fun i t a heq => ?_⟩
    · rw [Option.mem_def.mp hi] at hpos
      simpa using hpos
    · subst heq
      simpa using hkind
    · subst heq
      simpa using hkind
  | _ => exact trivial

/-- The job that waits does not use the peer that is lost, and gets its units. -/
theorem teardown_keeps_units_otro :
    ∃ s, Reaches.trace Manager.step (managerInit 4 8 1 ['A'])
        [.announce 0 ['B'] "ANNOUNCE 9000 cpu:4 mem:8 gpu:1".toList,
         .message 1 "JOB_REQUEST 2 @A:cpu:4 @B:cpu:1".toList [some 9], .ready 9,
         .message 1 "JOB_REQUEST 1 @A:cpu:2".toList []] = some s
      ∧ (∀ t, (processDisconnect 9 s).cuenta t = ((processDisconnect 9 s).total t).toInt)
      ∧ (processDisconnect 9 s).cola .cpu = [] := by
  have hcheck : (Reaches.checked Manager.step (Apartados.test fun _ => true)
      (managerInit 4 8 1 ['A'])
      [.announce 0 ['B'] "ANNOUNCE 9000 cpu:4 mem:8 gpu:1".toList,
       .message 1 "JOB_REQUEST 2 @A:cpu:4 @B:cpu:1".toList [some 9], .ready 9,
       .message 1 "JOB_REQUEST 1 @A:cpu:2".toList []]).any (fun s => decide (
        (∀ t ∈ [Resource.cpu, .mem, .gpu], s.cuenta t = (s.total t).toInt
          ∧ SinPerdida t (s.available t).toInt
            ((s.cola t).filter (fun p => !(p.ownerConn == 9)))
            (tablaJobsExtractByRemoteConn s.tabla 9).1)
        ∧ (processDisconnect 9 s).cola .cpu = [])) = true := by
    decide +kernel
  obtain ⟨s, htrace, hrun, hs⟩ := Reaches.of_checked (fun _ _ => Apartados.of_test) hcheck
  obtain ⟨hall, hcola⟩ := of_decide_eq_true hs
  have hall : ∀ t, s.cuenta t = (s.total t).toInt ∧ SinPerdida t (s.available t).toInt
      ((s.cola t).filter (fun p => !(p.ownerConn == 9)))
      (tablaJobsExtractByRemoteConn s.tabla 9).1 := fun t => hall t (by cases t <;> decide)
  exact ⟨s, htrace, (teardown_keeps_units (fun _ => true = true) hrun (fun t => (hall t).1)
    9).1.mpr (fun t => (hall t).2), hcola⟩

/-- **Two jobs use the peer that is lost**, one holds four units and the other waits for
two of them: it gets them while it is taken apart, and they are free no more and
nobody's. -/
theorem teardown_loses_units :
    ∃ s, Reaches.trace Manager.step (managerInit 4 8 1 ['A'])
        [.announce 0 ['B'] "ANNOUNCE 9000 cpu:4 mem:8 gpu:1".toList,
         .message 1 "JOB_REQUEST 2 @A:cpu:4 @B:cpu:1".toList [some 9], .ready 9,
         .message 1 "JOB_REQUEST 1 @A:cpu:2 @B:cpu:1".toList []] = some s
      ∧ Reaches Manager.step (Apartados fun _ => true = true).allows (managerInit 4 8 1 ['A']) s
      ∧ (∀ t, s.cuenta t = (s.total t).toInt)
      ∧ (∀ t, vigentesDe (fun c => c == 9) t s.log = [])
      ∧ (processDisconnect 9 s).jobs = [] ∧ (processDisconnect 9 s).available .cpu = 2
      ∧ ¬(∀ t, (processDisconnect 9 s).cuenta t = ((processDisconnect 9 s).total t).toInt)
      ∧ ¬(∀ t, (processConnectionFailed 9 s).cuenta t
        = ((processConnectionFailed 9 s).total t).toInt) := by
  have hcheck : (Reaches.checked Manager.step (Apartados.test fun _ => true)
      (managerInit 4 8 1 ['A'])
      [.announce 0 ['B'] "ANNOUNCE 9000 cpu:4 mem:8 gpu:1".toList,
       .message 1 "JOB_REQUEST 2 @A:cpu:4 @B:cpu:1".toList [some 9], .ready 9,
       .message 1 "JOB_REQUEST 1 @A:cpu:2 @B:cpu:1".toList []]).any (fun s => decide (
        (∀ t ∈ [Resource.cpu, .mem, .gpu], s.cuenta t = (s.total t).toInt
          ∧ vigentesDe (fun c => c == 9) t s.log = [])
        ∧ (processDisconnect 9 s).jobs = [] ∧ (processDisconnect 9 s).available .cpu = 2
        ∧ (processDisconnect 9 s).cuenta .cpu ≠ ((processDisconnect 9 s).total .cpu).toInt
        ∧ (processConnectionFailed 9 s).cuenta .cpu
          ≠ ((processConnectionFailed 9 s).total .cpu).toInt)) = true := by
    decide +kernel
  obtain ⟨s, htrace, hrun, hs⟩ := Reaches.of_checked (fun _ _ => Apartados.of_test) hcheck
  obtain ⟨hall, hjobs, hfree, hdisconnect, hfailed⟩ := of_decide_eq_true hs
  refine ⟨s, htrace, hrun, fun t => (hall t (by cases t <;> decide)).1,
    fun t => (hall t (by cases t <;> decide)).2, hjobs, hfree, fun h => hdisconnect (h .cpu),
    fun h => hfailed (h .cpu)⟩

end Hpc
