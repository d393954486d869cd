import HpcAgent.Completion
import HpcAgent.Lib.Arithmetic

/-!
# Conservation of units at one node

What is free of a resource, what the local jobs hold of it and what other
nodes were granted and have not given back add up to the total. The ledger
(`vigentes`) says which grants are out, whoever they were made to; that free
units and ledger add up to the total is a matter of arithmetic, as long as
only what is out comes back. That the local part of the ledger is what the jobs
of the table hold is the invariant `Manager.Backs`, which has to say the same of
the queues: a local entry of a queue is the request behind an allocation that
waits, one for one.

The two together are `Cuadra`. Its proof has one case per small step; a job in
hand is accounted for as `Construye` while it is being built and as `Desmonta`
while it is being taken apart, where its entries may still be in the queues, but
not in that of a resource it gives back.
-/

namespace Hpc

open TablaJobs (Distinct)

/-! ## What a job has asked this node for -/

/-- The resources a job has asked this node for. -/
def Job.localTypes (j : Job) : List Resource :=
  (j.confirmadas.filter Allocation.isLocal).map (·.name)

/-- **A job as `JOB_REQUEST` builds it**: its allocations carry its id, the local
ones its connection and a positive amount, and no two of them are of one
resource. -/
structure Job.Regular (j : Job) : Prop where
  ids : ∀ a ∈ j.confirmadas, a.jobId = j.jobId
  own : ∀ a ∈ j.confirmadas, a.isLocal = true →
    a.conn = j.conn ∧ 0 < a.amount ∧ a.result ≠ .denied
  types : j.localTypes.Nodup

section Entries

variable {sel : Allocation → Bool} {t : Resource} {j : Job}

theorem entries_cons (a : Allocation) (l : List Allocation) :
    Job.entries sel t { j with confirmadas := a :: l }
      = if sel a && a.name == t then a.request :: Job.entries sel t { j with confirmadas := l }
        else Job.entries sel t { j with confirmadas := l } := by
  unfold Job.entries
  dsimp only
  rw [List.filter_cons]
  split <;> rfl

/-- A resource not asked for has no entries. -/
theorem entries_of_not_mem (hsel : ∀ a, sel a = true → a.isLocal = true)
    (ht : t ∉ j.localTypes) : j.entries sel t = [] := by
  unfold Job.entries
  rw [List.map_eq_nil_iff, List.filter_eq_nil_iff]
  intro a ha h
  obtain ⟨hsel', hname⟩ := Bool.and_eq_true_iff.mp h
  exact ht (List.mem_map.mpr ⟨a, List.mem_filter.mpr ⟨ha, hsel a hsel'⟩, eq_of_beq hname⟩)

theorem entries_addLocal (job : Job) (head : ResourceRequest) (ip : CString) (r : Result) :
    (job.addLocal head ip r).entries sel t
      = if sel (crearAllocation head.type head.amount .localAlloc ip job.jobId r job.conn)
          && head.type == t then head.pending job :: job.entries sel t
        else job.entries sel t :=
  entries_cons (j := job) _ _

theorem entries_confirmar (hsel : ∀ a, sel a = true → a.isLocal = true) (ip : CString)
    (jobId : Int32) : (jobConfirmar j ip jobId).2.entries sel t = j.entries sel t := by
  unfold jobConfirmar
  split
  · rfl
  · next sal _ =>
    have hnot : sel (crearAllocation sal.tipo sal.amount .remoteAlloc sal.ip jobId .granted
        sal.conn) = false := by
      rw [← Bool.not_eq_true]
      intro h
      exact absurd (hsel _ h) (by simp [Allocation.isLocal, crearAllocation])
    unfold Job.entries
    dsimp only
    rw [List.filter_cons_of_neg (by simp [hnot])]

theorem localTypes_confirmar (ip : CString) (jobId : Int32) :
    (jobConfirmar j ip jobId).2.localTypes = j.localTypes := by
  unfold jobConfirmar
  split
  · rfl
  · unfold Job.localTypes
    dsimp only
    rw [List.filter_cons_of_neg (by simp [Allocation.isLocal, crearAllocation])]

theorem localTypes_markGranted (conn : Conn) (tipo : Resource) :
    (j.markGranted conn tipo).localTypes = j.localTypes := by
  unfold Job.localTypes Job.markGranted
  dsimp only
  induction j.confirmadas with
  | nil => rfl
  | cons a l ih =>
    rw [List.modifyFirst]
    split
    · rw [List.filter_cons, List.filter_cons]
      show List.map _ (if a.isLocal = true then _ else _) = _
      split <;> rfl
    · rw [List.filter_cons, List.filter_cons]
      split
      · rw [List.map_cons, List.map_cons, ih]
      · exact ih

namespace Job.Regular

theorem markGranted (h : j.Regular) (conn : Conn) (tipo : Resource) :
    (j.markGranted conn tipo).Regular := by
  refine ⟨fun a ha => ?_, fun a ha hlocal => ?_, ?_⟩
  · rcases List.mem_of_mem_modifyFirst ha with ha | ⟨b, hb, -, rfl⟩
    · exact h.ids a ha
    · exact h.ids b hb
  · rcases List.mem_of_mem_modifyFirst ha with ha | ⟨b, hb, -, rfl⟩
    · exact h.own a ha hlocal
    · obtain ⟨hconn, hpos, -⟩ := h.own b hb hlocal
      exact ⟨hconn, hpos, Result.noConfusion⟩
  · rw [localTypes_markGranted]
    exact h.types

theorem confirmar (h : j.Regular) (ip : CString) :
    (jobConfirmar j ip j.jobId).2.Regular := by
  have htypes : (jobConfirmar j ip j.jobId).2.localTypes.Nodup := by
    rw [localTypes_confirmar]
    exact h.types
  unfold jobConfirmar at htypes ⊢
  split at htypes
  · exact h
  · refine ⟨fun a ha => ?_, fun a ha hlocal => ?_, htypes⟩
    · rcases List.mem_cons.mp ha with rfl | ha
      · rfl
      · exact h.ids a ha
    · rcases List.mem_cons.mp ha with rfl | ha
      · exact absurd hlocal (by simp [Allocation.isLocal, crearAllocation])
      · exact h.own a ha hlocal

/-- Freeing an allocation leaves a job of which the same holds. -/
theorem tail {a : Allocation} {rest : List Allocation} (h : j.Regular)
    (hj : j.confirmadas = a :: rest) : Job.Regular { j with confirmadas := rest } := by
  have hsub : rest.Sublist j.confirmadas := hj ▸ List.sublist_cons_self a rest
  exact ⟨fun b hb => h.ids b (hsub.subset hb), fun b hb => h.own b (hsub.subset hb),
    h.types.sublist ((hsub.filter _).map _)⟩

/-- The allocation freed was the only one of its resource. -/
theorem not_mem_tail {a : Allocation} {rest : List Allocation} (h : j.Regular)
    (hj : j.confirmadas = a :: rest) (hlocal : a.isLocal = true) :
    a.name ∉ Job.localTypes { j with confirmadas := rest } := by
  have hnd := h.types
  unfold Job.localTypes at hnd
  rw [hj, List.filter_cons_of_pos hlocal, List.map_cons, List.nodup_cons] at hnd
  exact hnd.1

theorem addLocal {job : Job} (h : job.Regular) {head : ResourceRequest} (ip : CString)
    {r : Result} (hr : r ≠ .denied) (hpos : 0 < head.amount)
    (hnew : head.type ∉ job.localTypes) : (job.addLocal head ip r).Regular := by
  refine ⟨fun a ha => ?_, fun a ha hlocal => ?_, ?_⟩
  · rcases List.mem_cons.mp ha with rfl | ha
    · rfl
    · exact h.ids a ha
  · rcases List.mem_cons.mp ha with rfl | ha
    · exact ⟨rfl, hpos, hr⟩
    · exact h.own a ha hlocal
  · exact List.nodup_cons.mpr ⟨hnew, h.types⟩

/-- A local allocation is the only one of its resource. -/
theorem split (h : j.Regular) {a : Allocation} (ha : a ∈ j.confirmadas)
    (hlocal : a.isLocal = true) :
    ∃ A B, j.confirmadas = A ++ a :: B
      ∧ ∀ b ∈ A ++ B, b.isLocal = true → b.name ≠ a.name := by
  obtain ⟨A, B, hsplit⟩ := List.append_of_mem ha
  have hnd := h.types
  unfold Job.localTypes at hnd
  rw [hsplit, List.filter_append, List.filter_cons_of_pos hlocal, List.map_append,
    List.map_cons, List.nodup_middle, List.nodup_cons, ← List.map_append,
    ← List.filter_append] at hnd
  refine ⟨A, B, hsplit, fun b hb hb' heq => hnd.1 ?_⟩
  exact heq ▸ List.mem_map_of_mem (List.mem_filter.mpr ⟨hb, hb'⟩)

/-- The entries of a resource, where one allocation is its only one. -/
theorem entries_of_split {A B : List Allocation} {a : Allocation}
    (hsplit : j.confirmadas = A ++ a :: B)
    (hother : ∀ b ∈ A ++ B, b.isLocal = true → b.name ≠ a.name)
    (hsel : ∀ b, sel b = true → b.isLocal = true) :
    j.entries sel a.name = if sel a then [a.request] else [] := by
  have hnone : ∀ b ∈ A ++ B, (sel b && b.name == a.name) = false := by
    intro b hb
    rw [← Bool.not_eq_true]
    intro h
    obtain ⟨hs, hn⟩ := Bool.and_eq_true_iff.mp h
    exact hother b hb (hsel b hs) (eq_of_beq hn)
  have hA : A.filter (fun b => sel b && b.name == a.name) = [] :=
    List.filter_eq_nil_iff.mpr (fun b hb => by simp [hnone b (List.mem_append_left B hb)])
  have hB : B.filter (fun b => sel b && b.name == a.name) = [] :=
    List.filter_eq_nil_iff.mpr (fun b hb => by simp [hnone b (List.mem_append_right A hb)])
  unfold Job.entries
  rw [hsplit, List.filter_append, hA, List.nil_append, List.filter_cons, hB]
  cases sel a <;> simp

/-- **The allocation that waits for a resource**: it is the only one of the job
there, and the mark of a dequeue finds it. -/
theorem mark (h : j.Regular) {p : PendingRequest} {l : List PendingRequest}
    (hwait : j.entries Allocation.waiting t = p :: l) :
    l = [] ∧ p.ownerConn = j.conn
      ∧ j.entries Allocation.held t = []
      ∧ (j.markGranted j.conn t).entries Allocation.waiting t = []
      ∧ (j.markGranted j.conn t).entries Allocation.held t = [p]
      ∧ ∀ t', t' ≠ t → ∀ sel, (j.markGranted j.conn t).entries sel t' = j.entries sel t' := by
  have hp : p ∈ j.entries Allocation.waiting t := hwait ▸ List.mem_cons_self
  obtain ⟨a, hmem, rfl⟩ := List.mem_map.mp hp
  obtain ⟨ha, hsel⟩ := List.mem_filter.mp hmem
  obtain ⟨hwaiting, hname⟩ := Bool.and_eq_true_iff.mp hsel
  obtain rfl := eq_of_beq hname
  have hlocal := Allocation.isLocal_of_waiting hwaiting
  obtain ⟨hconn, -, -⟩ := h.own a ha hlocal
  obtain ⟨A, B, hsplit, hother⟩ := h.split ha hlocal
  have hqueued : a.result = .queued := eq_of_beq (Bool.and_elim_right hwaiting)
  have hheld : a.held = false := by simp [Allocation.held, hqueued]
  have hmark : (j.markGranted j.conn a.name).confirmadas
      = A ++ { a with result := .granted } :: B := by
    unfold Job.markGranted
    dsimp only
    rw [hsplit, List.modifyFirst_append_right (fun b hb => ?_), List.modifyFirst, if_pos ?_]
    · unfold Allocation.isLocal at hlocal
      simp [hlocal, hconn]
    · rw [← Bool.not_eq_true]
      intro hb'
      simp only [Bool.and_eq_true] at hb'
      exact hother b (List.mem_append_left B hb) hb'.1.1 (eq_of_beq hb'.2)
  have hwaits := entries_of_split hsplit hother (fun _ => Allocation.isLocal_of_waiting)
  have hholds := entries_of_split hsplit hother (fun _ => Allocation.isLocal_of_held)
  have hwaits' := entries_of_split (a := { a with result := .granted }) hmark hother
    (fun _ => Allocation.isLocal_of_waiting)
  have hholds' := entries_of_split (a := { a with result := .granted }) hmark hother
    (fun _ => Allocation.isLocal_of_held)
  rw [hwaiting, if_pos rfl] at hwaits
  rw [hheld, if_neg Bool.false_ne_true] at hholds
  rw [if_neg (by simp [Allocation.waiting])] at hwaits'
  rw [if_pos (by unfold Allocation.isLocal at hlocal; simp [Allocation.held, hlocal])] at hholds'
  obtain ⟨-, rfl⟩ := List.cons.inj (hwait.symm.trans hwaits)
  refine ⟨rfl, hconn, hholds, hwaits', hholds', fun t' ht' sel => ?_⟩
  have hne : ∀ r, (sel { a with result := r } && a.name == t') = false := by
    intro r
    rw [beq_false_of_ne (Ne.symm ht'), Bool.and_false]
  unfold Job.entries
  rw [hmark, hsplit, List.filter_append, List.filter_append,
    List.filter_cons_of_neg (by rw [hne]; exact Bool.false_ne_true),
    List.filter_cons_of_neg (by rw [hne a.result]; exact Bool.false_ne_true)]

end Job.Regular

end Entries

/-! ## The resources a `JOB_REQUEST` asks this node for -/

/-- The first of the local entries still to be placed is of a new resource. -/
theorem types_addLocal {job : Job} {head : ResourceRequest} {next : List ResourceRequest}
    {ip : CString} (h : (job.localTypes
      ++ ((head :: next).filter (fun r => r.ip == ip)).map (·.type)).Nodup) (hip : head.ip = ip) :
    head.type ∉ job.localTypes
      ∧ (head.type :: job.localTypes
        ++ (next.filter (fun r => r.ip == ip)).map (·.type)).Nodup := by
  rw [List.filter_cons_of_pos (by simpa using hip), List.map_cons, List.nodup_middle] at h
  exact ⟨fun hmem => (List.nodup_cons.mp h).1 (List.mem_append_left _ hmem), h⟩

/-- Requests that name no place and resource twice name no resource of this node
twice. -/
theorem nodup_types {requests : List ResourceRequest}
    (h : (requests.map (fun r => (r.ip, r.type))).Nodup) (ip : CString) :
    ((requests.filter (fun r => r.ip == ip)).map (·.type)).Nodup := by
  refine List.nodup_map_iff_inj_on ?_ |>.mpr ?_
  · exact (List.Nodup.of_map _ h).filter _
  · intro r hr r' hr' htype
    obtain ⟨hr, hip⟩ := List.mem_filter.mp hr
    obtain ⟨hr', hip'⟩ := List.mem_filter.mp hr'
    exact List.inj_on_of_nodup_map h hr hr'
      (Prod.ext ((eq_of_beq hip).trans (eq_of_beq hip').symm) htype)

/-! ## The invariant -/

/-- **The queues and the ledger back a job**: its entries in a queue are the
requests behind its allocations that wait there, its grants that are out the
requests behind those it holds. -/
structure Manager.Backs (s : Manager) (j : Job) : Prop where
  queued : ∀ t, (s.cola t).filter (PendingRequest.ofJob j.jobId)
    = j.entries Allocation.waiting t
  held : ∀ t, (vigentes t s.log).filter (PendingRequest.ofJob j.jobId)
    = j.entries Allocation.held t

/-- A job being built from its requests, those of `next` still to be placed. -/
structure Construye (Loc : Int32 → Prop) (s : Manager) (next : List ResourceRequest)
    (job : Job) : Prop where
  nonneg : 0 ≤ job.jobId
  loc : Loc job.jobId
  fresh : ∀ j ∈ s.jobs, j.jobId ≠ job.jobId
  regular : job.Regular
  backs : s.Backs job
  positive : ∀ r ∈ next, 0 < r.amount
  types : (job.localTypes ++ (next.filter (fun r => r.ip == s.ip)).map (·.type)).Nodup

/-- A job being taken apart: the queue of a resource it still holds has no entry
of it. -/
structure Desmonta (s : Manager) (job : Job) : Prop where
  fresh : ∀ j ∈ s.jobs, j.jobId ≠ job.jobId
  regular : job.Regular
  held : ∀ t, (vigentes t s.log).filter (PendingRequest.ofJob job.jobId)
    = job.entries Allocation.held t
  queued : ∀ t, job.entries Allocation.held t ≠ [] →
    (s.cola t).filter (PendingRequest.ofJob job.jobId) = []

/-- The jobs in hand are accounted for. -/
def EnOrden (Loc : Int32 → Prop) (s : Manager) : List Obra → Prop
  | [] | [.llamada] | [.sirviendo _, .llamada] => True
  | [.nueva _ next job] => Construye Loc s next job
  | [.muerta job, .llamada] => Desmonta s job
  | [.sirviendo t, .muerta job, .llamada] =>
    Desmonta s job ∧ (s.cola t).filter (PendingRequest.ofJob job.jobId) = []
  | _ => False

/-- An entry of a queue or of the ledger: a local one is of a job of the table or
in hand. -/
structure Conocida (Loc : Int32 → Prop) (c : Manager × List Obra) (p : PendingRequest) :
    Prop where
  nonneg : 0 ≤ p.jobId
  positive : 0 < p.amount
  remote : p.origen = .originRemote → ¬Loc p.jobId
  owned : p.origen = .originLocal → (∃ j ∈ c.1.jobs, j.jobId = p.jobId) ∨ EnMano c.2 p.jobId

/-- **The invariant.** `Loc` are the ids of the jobs of this node's planners. -/
structure Cuadra (Loc : Int32 → Prop) (c : Manager × List Obra) : Prop where
  distinct : Distinct c.1.jobs
  jobs : ∀ j ∈ c.1.jobs, Loc j.jobId ∧ j.Regular ∧ c.1.Backs j
  queue : ∀ t, ∀ p ∈ c.1.cola t, Conocida Loc c p
  ledger : ∀ t, ∀ p ∈ vigentes t c.1.log, Conocida Loc c p
  balance : ∀ t, (c.1.available t).toInt + suma (vigentes t c.1.log) = (c.1.total t).toInt
  mano : EnOrden Loc c.1 c.2

section Frame

variable {Loc : Int32 → Prop} {s s' : Manager} {w w' : List Obra} {j job : Job}

/-- What backs a job is read off its own entries. -/
theorem Manager.Backs.of_eq (h : s.Backs j)
    (hc : ∀ t, (s'.cola t).filter (PendingRequest.ofJob j.jobId)
      = (s.cola t).filter (PendingRequest.ofJob j.jobId))
    (hv : ∀ t, (vigentes t s'.log).filter (PendingRequest.ofJob j.jobId)
      = (vigentes t s.log).filter (PendingRequest.ofJob j.jobId)) : s'.Backs j :=
  ⟨fun t => (hc t).trans (h.queued t), fun t => (hv t).trans (h.held t)⟩

theorem Conocida.of_owned {c c' : Manager × List Obra} {p : PendingRequest}
    (h : Conocida Loc c p)
    (howned : (∃ j ∈ c.1.jobs, j.jobId = p.jobId) ∨ EnMano c.2 p.jobId →
      (∃ j ∈ c'.1.jobs, j.jobId = p.jobId) ∨ EnMano c'.2 p.jobId) : Conocida Loc c' p :=
  ⟨h.nonneg, h.positive, h.remote, fun hlocal => howned (h.owned hlocal)⟩

/-- A remote entry needs no owner. -/
theorem Conocida.of_remote {c : Manager × List Obra} {p : PendingRequest}
    (hnonneg : 0 ≤ p.jobId) (hpos : 0 < p.amount) (hremote : p.origen = .originRemote)
    (hloc : ¬Loc p.jobId) : Conocida Loc c p :=
  ⟨hnonneg, hpos, fun _ => hloc, fun hlocal => by rw [hremote] at hlocal; cases hlocal⟩

theorem Desmonta.of_eq (h : Desmonta s job) (hj : ∀ j ∈ s'.jobs, ∃ i ∈ s.jobs, j.jobId = i.jobId)
    (hc : ∀ t, (s'.cola t).Sublist (s.cola t))
    (hv : ∀ t, (vigentes t s'.log).filter (PendingRequest.ofJob job.jobId)
      = (vigentes t s.log).filter (PendingRequest.ofJob job.jobId)) : Desmonta s' job where
  fresh := fun j hj' hid => by
    obtain ⟨i, hi, heq⟩ := hj j hj'
    exact h.fresh i hi (heq.symm.trans hid)
  regular := h.regular
  held := fun t => (hv t).trans (h.held t)
  queued := fun t ht => by
    have hnil := h.queued t ht
    have hsub := (hc t).filter (PendingRequest.ofJob job.jobId)
    rw [hnil] at hsub
    exact List.sublist_nil.mp hsub

/-- What the jobs in hand rest on. -/
theorem EnOrden.of_eq (h : EnOrden Loc s w) (hs : s'.jobs = s.jobs)
    (hc : ∀ t, s'.cola t = s.cola t) (hv : ∀ t, vigentes t s'.log = vigentes t s.log)
    (hip : s'.ip = s.ip) : EnOrden Loc s' w := by
  have hdesmonta : ∀ job, Desmonta s job → Desmonta s' job := fun job h =>
    h.of_eq (fun j hj => ⟨j, hs ▸ hj, rfl⟩) (fun t => by rw [hc]) (fun t => by rw [hv])
  unfold EnOrden at h
  split at h
  · trivial
  · trivial
  · trivial
  · exact ⟨h.nonneg, h.loc, fun j hj => h.fresh j (hs ▸ hj), h.regular,
      h.backs.of_eq (fun t => by rw [hc]) (fun t => by rw [hv]), h.positive, hip ▸ h.types⟩
  · exact hdesmonta _ h
  · exact ⟨hdesmonta _ h.1, by rw [hc]; exact h.2⟩
  · exact h.elim

/-- A job taken apart is the only one in hand. -/
theorem EnOrden.of_muerta_mem (h : EnOrden Loc s w) (hmem : .muerta job ∈ w) :
    Desmonta s job ∧ (w = [.muerta job, .llamada] ∨ ∃ t, w = [.sirviendo t, .muerta job, .llamada]
      ∧ (s.cola t).filter (PendingRequest.ofJob job.jobId) = []) := by
  unfold EnOrden at h
  split at h <;> simp_all

end Frame

/-! ## Units taken and given back -/

/-- **Units that are out come back**: `release_resource` accepts them, and the
sum does not wrap. -/
theorem toInt_add_of_out {free total amount : Int32} {out : ℤ} (hpos : 0 < amount)
    (hout : amount.toInt ≤ out) (hbalance : free.toInt + out = total.toInt) :
    (free + amount).toInt = free.toInt + amount.toInt ∧ 0 ≤ amount ∧ free + amount ≤ total := by
  have hpos := Int32.pos_iff.mp hpos
  have hmax : total.toInt ≤ Int32.intMax := Int32.toInt_le_intMax total
  have hmin := Int32.le_toInt free
  have hsum : (free + amount).toInt = free.toInt + amount.toInt :=
    Int32.toInt_add_of_fits (by omega) (by omega)
  refine ⟨hsum, Int32.le_iff_toInt_le.mpr hpos.le, Int32.le_iff_toInt_le.mpr ?_⟩
  rw [hsum]
  omega

theorem suma_erase {l : List PendingRequest} {p : PendingRequest} (hp : p ∈ l) :
    suma (l.erase p) = suma l - p.amount.toInt := List.sum_map_erase' _ hp

/-- One of the grants that are out is at most all of them. -/
theorem le_suma {l : List PendingRequest} (h : ∀ p ∈ l, 0 < p.amount) {p : PendingRequest}
    (hp : p ∈ l) : p.amount.toInt ≤ suma l := by
  have hrest := suma_nonneg (l := l.erase p) (fun q hq => h q (List.mem_of_mem_erase hq))
  rw [suma_erase hp] at hrest
  omega

theorem vigentes_answerTop (t : Resource) (p : PendingRequest) (s : Manager) :
    vigentes t (answerTop p s).log = vigentes t s.log := by
  unfold answerTop
  repeat' split
  · rw [log_sendMessage]
    exact vigentes_concat _ _ _
  · rw [log_sendJobGranted, vigentes_concat, vigentes_concat]
    rfl
  · rfl

theorem vigentes_dequeueTop (t tipo : Resource) (p : PendingRequest) (s : Manager) :
    vigentes t (dequeueTop tipo p s).log
      = if tipo = t then p :: vigentes t s.log else vigentes t s.log := by
  rw [dequeueTop_eq, vigentes_answerTop, markTop, Manager.log_setTabla, log_popTop,
    vigentes_concat]
  rfl

theorem Event.neutral_of_told {conn : Conn} {j : Job} {e : Event} (he : e ∈ j.told conn) :
    e.neutral = true := by
  unfold Job.told at he
  split at he
  · rcases List.mem_cons.mp he with rfl | he
    · rfl
    · rw [List.mem_singleton.mp he]
      rfl
  · exact absurd he List.not_mem_nil

/-- A `GRANTED` puts no grant of this node out. -/
theorem vigentes_processGranted (s : Manager) (conn : Conn) {jobId : Int32} (hpos : 0 ≤ jobId)
    (t : Resource) : vigentes t (processGranted conn jobId s).log = vigentes t s.log := by
  rcases processGranted_cases s conn hpos with
    ⟨-, heq⟩ | ⟨ip, -, -, heq⟩ | ⟨ip, -, job, -, -, -, -, -, -, hlog⟩
  · rw [heq]
  · rw [heq, log_sendMessage, log_sendMessage, log_sendMessage, vigentes_concat,
      vigentes_concat, vigentes_concat]
    rfl
  · rw [hlog]
    refine vigentes_append_of_neutral (fun e he => ?_) t s.log
    split at he
    · exact Event.neutral_of_told he
    · exact absurd he List.not_mem_nil

/-- Nor does the end of a `JOB_REQUEST`. -/
theorem vigentes_insertJob {s : Manager} {job : Job} (requests : List ResourceRequest)
    (hd : Distinct s.jobs) (hpos : 0 ≤ job.jobId) (hfresh : ∀ j ∈ s.jobs, j.jobId ≠ job.jobId)
    (t : Resource) : vigentes t (insertJob job requests s).log = vigentes t s.log := by
  rw [log_insertJob requests hd hpos hfresh, List.append_assoc]
  refine vigentes_append_of_neutral (fun e he => ?_) t s.log
  rcases List.mem_cons.mp he with rfl | he
  · rfl
  · exact Event.neutral_of_told he

namespace Cuadra

variable {Loc : Int32 → Prop} {s s' : Manager} {w w' : List Obra} {t : Resource}

/-- A step that leaves the resources, the table and the ledger alone. -/
theorem frame (h : Cuadra Loc (s, w)) (havailable : ∀ t, s'.available t = s.available t)
    (htotal : ∀ t, s'.total t = s.total t) (hcola : ∀ t, s'.cola t = s.cola t)
    (hjobs : s'.jobs = s.jobs) (hlog : ∀ t, vigentes t s'.log = vigentes t s.log)
    (hmano : ∀ i, EnMano w i → EnMano w' i) (hw : EnOrden Loc s' w') :
    Cuadra Loc (s', w') := by
  have howned : ∀ p, Conocida Loc (s, w) p → Conocida Loc (s', w') p := by
    refine fun p hp => hp.of_owned (fun h => h.imp ?_ (hmano _))
    rintro ⟨j, hj, hid⟩
    exact ⟨j, hjobs.symm ▸ hj, hid⟩
  refine ⟨hjobs.symm ▸ h.distinct, fun j hj => ?_, fun t p hp => ?_, fun t p hp => ?_,
    fun t => ?_, hw⟩
  · obtain ⟨hloc, hregular, hbacks⟩ := h.jobs j (hjobs ▸ hj)
    exact ⟨hloc, hregular, hbacks.of_eq (fun t => by rw [hcola]) (fun t => by rw [hlog])⟩
  · exact howned p (h.queue t p (hcola t ▸ hp))
  · exact howned p (h.ledger t p (hlog t ▸ hp))
  · show (s'.available t).toInt + suma (vigentes t s'.log) = (s'.total t).toInt
    rw [havailable, hlog, htotal]
    exact h.balance t

/-- No grant that is out is empty or negative. -/
theorem positive (h : Cuadra Loc (s, w)) (t : Resource) : ∀ p ∈ vigentes t s.log, 0 < p.amount :=
  fun p hp => (h.ledger t p hp).positive

/-- A round leaves the entries and the grants of the other jobs. -/
theorem filter_dequeueTop {top : PendingRequest} {rest : List PendingRequest}
    (hc : s.cola t = top :: rest) {i : Int32} (hi : top.ofJob i = false) (t' : Resource) :
    ((dequeueTop t top s).cola t').filter (PendingRequest.ofJob i)
        = (s.cola t').filter (PendingRequest.ofJob i)
      ∧ (vigentes t' (dequeueTop t top s).log).filter (PendingRequest.ofJob i)
        = (vigentes t' s.log).filter (PendingRequest.ofJob i) := by
  rw [cola_dequeueTop s t t' hc, vigentes_dequeueTop]
  by_cases ht : t' = t
  · subst ht
    rw [if_pos rfl, if_pos rfl, hc, List.filter_cons_of_neg (by simp [hi]),
      List.filter_cons_of_neg (by simp [hi])]
    exact ⟨rfl, rfl⟩
  · rw [if_neg ht, if_neg (Ne.symm ht)]
    exact ⟨rfl, rfl⟩

/-- **A round on an entry of a job** takes it to the grants, and the mark follows. -/
theorem backs_dequeueTop {top : PendingRequest} {rest : List PendingRequest}
    (hc : s.cola t = top :: rest) {j : Job} (hregular : j.Regular) (hbacks : s.Backs j)
    (hof : top.ofJob j.jobId = true) :
    (dequeueTop t top s).Backs (j.markGranted top.ownerConn t) := by
  have hqueued := hbacks.queued t
  rw [hc, List.filter_cons_of_pos hof] at hqueued
  obtain ⟨hnil, hconn, hheld, hwaits', hheld', hrest⟩ := hregular.mark hqueued.symm
  rw [hconn]
  refine ⟨fun t' => ?_, fun t' => ?_⟩
  · show ((dequeueTop t top s).cola t').filter (PendingRequest.ofJob j.jobId) = _
    rw [cola_dequeueTop s t t' hc]
    by_cases ht : t' = t
    · rw [if_pos ht, ht, hwaits']
      exact hnil
    · rw [if_neg ht, hrest t' ht]
      exact hbacks.queued t'
  · show (vigentes t' (dequeueTop t top s).log).filter (PendingRequest.ofJob j.jobId) = _
    rw [vigentes_dequeueTop]
    by_cases ht : t' = t
    · subst ht
      rw [if_pos rfl, List.filter_cons_of_pos hof, hbacks.held t', hheld, hheld']
    · rw [if_neg (Ne.symm ht), hrest t' ht]
      exact hbacks.held t'

/-- **A round of the dequeue loop.** -/
theorem dequeueTop (h : Cuadra Loc (s, .sirviendo t :: w)) {top : PendingRequest}
    {rest : List PendingRequest} (hc : s.cola t = top :: rest)
    (hfits : top.amount ≤ s.available t) :
    Cuadra Loc (dequeueTop t top s, .sirviendo t :: w) := by
  have htop : top ∈ s.cola t := hc ▸ List.mem_cons_self
  obtain ⟨hpos, hamount, hremote, howned⟩ := h.queue t top htop
  have hids := ids_dequeueTop s t top hpos
  have hvig : ∀ t', vigentes t' (Hpc.dequeueTop t top s).log
      = if t = t' then top :: vigentes t' s.log else vigentes t' s.log :=
    fun t' => vigentes_dequeueTop t' t top s
  -- a job in hand has no entry in the queue that is served
  have hmano : w = [.llamada] ∨ ∃ job, w = [.muerta job, .llamada] ∧ Desmonta s job
      ∧ top.ofJob job.jobId = false := by
    have hw := h.mano
    dsimp only at hw
    unfold EnOrden at hw
    split at hw <;> simp_all
  have hconocida : ∀ p, Conocida Loc (s, .sirviendo t :: w) p →
      Conocida Loc (Hpc.dequeueTop t top s, .sirviendo t :: w) p := by
    refine fun p hp => hp.of_owned (fun h => h.imp_left ?_)
    rintro ⟨j, hj, hid⟩
    have hmem : p.jobId ∈ s.jobs.map (·.jobId) := List.mem_map.mpr ⟨j, hj, hid⟩
    rw [← hids] at hmem
    exact List.mem_map.mp hmem
  refine ⟨h.distinct.of_map_eq hids, fun j hj => ?_, fun t' p hp => ?_, fun t' p hp => ?_,
    fun t' => ?_, ?_⟩
  · rcases mem_jobs_dequeueTop s t top h.distinct hpos hj with ⟨hj, hne⟩ | ⟨i, hi, hid, rfl⟩
    · obtain ⟨hloc, hregular, hbacks⟩ := h.jobs j hj
      have hother := filter_dequeueTop hc (ofJob_of_ne (Ne.symm hne))
      exact ⟨hloc, hregular, hbacks.of_eq (fun t' => (hother t').1) (fun t' => (hother t').2)⟩
    · -- the entry is the one behind the allocation of its job that waits there
      obtain ⟨hloc, hregular, hbacks⟩ := h.jobs i hi
      have hlocal := Origin.eq_originLocal (fun ho => hremote ho (hid ▸ hloc))
      exact ⟨hloc, hregular.markGranted _ _,
        backs_dequeueTop hc hregular hbacks (ofJob_iff.mpr ⟨hlocal, hid.symm⟩)⟩
  · have hp : p ∈ (Hpc.dequeueTop t top s).cola t' := hp
    exact hconocida p (h.queue t' p ((cola_dequeueTop_sublist s t t' hc).subset hp))
  · have hp : p ∈ vigentes t' (Hpc.dequeueTop t top s).log := hp
    rw [hvig] at hp
    split at hp
    · rcases List.mem_cons.mp hp with rfl | hp
      · exact hconocida p (h.queue t p htop)
      · exact hconocida p (h.ledger t' p hp)
    · exact hconocida p (h.ledger t' p hp)
  · show ((Hpc.dequeueTop t top s).available t').toInt
      + suma (vigentes t' (Hpc.dequeueTop t top s).log)
      = ((Hpc.dequeueTop t top s).total t').toInt
    have hbalance : (s.available t').toInt + suma (vigentes t' s.log) = (s.total t').toInt :=
      h.balance t'
    rw [available_dequeueTop, hvig, total_dequeueTop]
    by_cases ht : t' = t
    · subst ht
      rw [if_pos rfl, if_pos rfl, Int32.toInt_sub_of_pos_of_le hamount hfits, suma_cons]
      omega
    · rw [if_neg ht, if_neg (Ne.symm ht)]
      exact hbalance
  · rcases hmano with rfl | ⟨job, rfl, hdesmonta, hof⟩
    · exact trivial
    · have hempty : (s.cola t).filter (PendingRequest.ofJob job.jobId) = [] := h.mano.2
      refine ⟨hdesmonta.of_eq (fun j hj => ?_) (fun t' => cola_dequeueTop_sublist s t t' hc)
        (fun t' => (filter_dequeueTop hc hof t').2), (filter_dequeueTop hc hof t).1.trans hempty⟩
      have hmem := List.mem_map_of_mem (f := (·.jobId)) hj
      rw [hids] at hmem
      obtain ⟨i, hi, hid⟩ := List.mem_map.mp hmem
      exact ⟨i, hi, hid.symm⟩

theorem vigentes_takeUnits (t t' : Resource) (p : PendingRequest) (s : Manager) :
    vigentes t' (takeUnits t p s).log
      = if t = t' then p :: vigentes t' s.log else vigentes t' s.log := by
  rw [log_takeUnits, vigentes_concat]
  rfl

/-- **A grant** to a job that is not in the table. -/
theorem takeUnits (h : Cuadra Loc (s, w)) {p : PendingRequest} (hfits : p.amount ≤ s.available t)
    (hp : Conocida Loc (s, w') p) (hnot : ∀ j ∈ s.jobs, p.jobId ≠ j.jobId)
    (hmano : ∀ i, EnMano w i → EnMano w' i) (hw : EnOrden Loc (takeUnits t p s) w') :
    Cuadra Loc (takeUnits t p s, w') := by
  have hconocida : ∀ q, Conocida Loc (s, w) q → Conocida Loc (Hpc.takeUnits t p s, w') q :=
    fun q hq => hq.of_owned (fun h => h.imp_right (hmano _))
  refine ⟨h.distinct, fun j hj => ?_, fun t' q hq => ?_, fun t' q hq => ?_, fun t' => ?_, hw⟩
  · obtain ⟨hloc, hregular, hbacks⟩ := h.jobs j hj
    refine ⟨hloc, hregular, hbacks.of_eq (fun t' => by rw [cola_takeUnits]) (fun t' => ?_)⟩
    rw [vigentes_takeUnits]
    split
    · rw [List.filter_cons_of_neg (by simp [ofJob_of_ne (hnot j hj)])]
    · rfl
  · rw [cola_takeUnits] at hq
    exact hconocida q (h.queue t' q hq)
  · have hq : q ∈ vigentes t' (Hpc.takeUnits t p s).log := hq
    rw [vigentes_takeUnits] at hq
    split at hq
    · rcases List.mem_cons.mp hq with rfl | hq
      · exact hp.of_owned id
      · exact hconocida q (h.ledger t' q hq)
    · exact hconocida q (h.ledger t' q hq)
  · show ((Hpc.takeUnits t p s).available t').toInt + suma (vigentes t' (Hpc.takeUnits t p s).log)
      = ((Hpc.takeUnits t p s).total t').toInt
    have hbalance : (s.available t').toInt + suma (vigentes t' s.log) = (s.total t').toInt :=
      h.balance t'
    rw [available_takeUnits, vigentes_takeUnits, total_takeUnits]
    by_cases ht : t' = t
    · subst ht
      rw [if_pos rfl, if_pos rfl, Int32.toInt_sub_of_pos_of_le hp.positive hfits, suma_cons]
      omega
    · rw [if_neg ht, if_neg (Ne.symm ht)]
      exact hbalance

/-- **A new entry**, of a job that is not in the table. -/
theorem enqueue (h : Cuadra Loc (s, w)) {p : PendingRequest} (hp : Conocida Loc (s, w') p)
    (hnot : ∀ j ∈ s.jobs, p.jobId ≠ j.jobId) (hmano : ∀ i, EnMano w i → EnMano w' i)
    (hw : EnOrden Loc (enqueue t p s) w') : Cuadra Loc (enqueue t p s, w') := by
  have hconocida : ∀ q, Conocida Loc (s, w) q → Conocida Loc (Hpc.enqueue t p s, w') q :=
    fun q hq => hq.of_owned (fun h => h.imp_right (hmano _))
  refine ⟨h.distinct, fun j hj => ?_, fun t' q hq => ?_, fun t' q hq => ?_, fun t' => ?_, hw⟩
  · obtain ⟨hloc, hregular, hbacks⟩ := h.jobs j hj
    refine ⟨hloc, hregular, hbacks.of_eq (fun t' => ?_) (fun _ => rfl)⟩
    rw [cola_enqueue]
    split
    · next ht =>
      rw [ht, List.filter_append, List.filter_cons_of_neg (by simp [ofJob_of_ne (hnot j hj)]),
        List.filter_nil, List.append_nil]
    · rfl
  · rw [cola_enqueue] at hq
    split at hq
    · rcases List.mem_append.mp hq with hq | hq
      · exact hconocida q (h.queue t q hq)
      · rw [List.mem_singleton.mp hq]
        exact hp.of_owned id
    · exact hconocida q (h.queue t' q hq)
  · exact hconocida q (h.ledger t' q hq)
  · show ((Hpc.enqueue t p s).available t').toInt + suma (vigentes t' (Hpc.enqueue t p s).log)
      = ((Hpc.enqueue t p s).total t').toInt
    rw [available_enqueue, total_enqueue]
    exact h.balance t'

/-- **Units come back** for a grant that is out: what is left of the ledger is
`rest`. -/
theorem giveUnits (h : Cuadra Loc (s, w)) {e : Event} {amount : Int32}
    {rest : List PendingRequest} (hpos : 0 < amount)
    (hstep : vigentesStep t (vigentes t s.log) e = rest)
    (hother : ∀ t', t' ≠ t → vigentesStep t' (vigentes t' s.log) e = vigentes t' s.log)
    (hsub : ∀ p ∈ rest, p ∈ vigentes t s.log)
    (hsuma : suma rest = suma (vigentes t s.log) - amount.toInt)
    (hfilter : ∀ j ∈ s.jobs, rest.filter (PendingRequest.ofJob j.jobId)
      = (vigentes t s.log).filter (PendingRequest.ofJob j.jobId))
    (hmano : ∀ i, EnMano w i → EnMano w' i)
    (hw : EnOrden Loc (giveUnits t amount (s.emit e)) w') :
    s.accepts t amount ∧ Cuadra Loc (giveUnits t amount (s.emit e), w') := by
  have hvig : ∀ t', vigentes t' (Hpc.giveUnits t amount (s.emit e)).log
      = if t' = t then rest else vigentes t' s.log := by
    intro t'
    rw [log_giveUnits, Manager.log_emit, vigentes_concat]
    split
    · next ht => rw [ht, hstep]
    · next ht => exact hother t' ht
  have hconocida : ∀ q, Conocida Loc (s, w) q →
      Conocida Loc (Hpc.giveUnits t amount (s.emit e), w') q :=
    fun q hq => hq.of_owned (fun h => h.imp_right (hmano _))
  have hrest : 0 ≤ suma rest := suma_nonneg (fun p hp => h.positive t p (hsub p hp))
  have hbalance : (s.available t).toInt + suma (vigentes t s.log) = (s.total t).toInt :=
    h.balance t
  obtain ⟨hsum, haccepts⟩ := toInt_add_of_out hpos (by omega) hbalance
  refine ⟨haccepts, h.distinct, fun j hj => ?_, fun t' q hq => ?_, fun t' q hq => ?_,
    fun t' => ?_, hw⟩
  · obtain ⟨hloc, hregular, hbacks⟩ := h.jobs j hj
    refine ⟨hloc, hregular, hbacks.of_eq (fun t' => by rw [cola_giveUnits]; rfl) (fun t' => ?_)⟩
    rw [hvig]
    split
    · next ht => rw [ht, hfilter j hj]
    · rfl
  · rw [cola_giveUnits] at hq
    exact hconocida q (h.queue t' q hq)
  · have hq : q ∈ vigentes t' (Hpc.giveUnits t amount (s.emit e)).log := hq
    rw [hvig] at hq
    split at hq
    · next ht => exact hconocida q (h.ledger t q (hsub q hq))
    · exact hconocida q (h.ledger t' q hq)
  · show ((Hpc.giveUnits t amount (s.emit e)).available t').toInt
      + suma (vigentes t' (Hpc.giveUnits t amount (s.emit e)).log)
      = ((Hpc.giveUnits t amount (s.emit e)).total t').toInt
    rw [available_giveUnits, hvig, total_giveUnits]
    by_cases ht : t' = t
    · subst ht
      rw [if_pos rfl, if_pos rfl]
      show (s.available t' + amount).toInt + suma rest = (s.total t').toInt
      rw [hsum]
      omega
    · rw [if_neg ht, if_neg ht]
      exact h.balance t'

/-- **The loop over the queues is left alone by a purge** of a job that is not in
the table. -/
theorem limpiarColasPorId (h : Cuadra Loc (s, w)) {jobId : Int32}
    (hnot : ∀ j ∈ s.jobs, j.jobId ≠ jobId) (hw : EnOrden Loc (limpiarColasPorId jobId s) w) :
    Cuadra Loc (limpiarColasPorId jobId s, w) := by
  refine ⟨h.distinct, fun j hj => ?_,
    fun t p hp => (h.queue t p (List.mem_filter.mp hp).1).of_owned id,
    fun t p hp => (h.ledger t p hp).of_owned id, h.balance, hw⟩
  obtain ⟨hloc, hregular, hbacks⟩ := h.jobs j hj
  refine ⟨hloc, hregular, hbacks.of_eq (fun t => ?_) (fun _ => rfl)⟩
  rw [cola_limpiarColasPorId, List.filter_filter]
  refine List.filter_congr (fun p _ => ?_)
  cases hof : p.ofJob j.jobId
  · rfl
  · have hne : p.jobId ≠ jobId := (ofJob_iff.mp hof).2 ▸ hnot j hj
    rw [beq_false_of_ne hne]
    rfl

end Cuadra

/-! ## The small steps -/

/-- What arrives, at one node whose planners' jobs have the ids `Loc`: a
`JOB_REQUEST` is of one of these ids and names no place and resource twice, a
`RESERVE` is of another id and asks for something, and a `RELEASE` that gives
back something gives back a grant that is out. -/
def Honesto (Loc : Int32 → Prop) (s : Manager) : Message → Prop
  | .jobRequest jobId requests => Loc jobId ∧ (requests.map (fun r => (r.ip, r.type))).Nodup
  | .reserve jobId _ amount => ¬Loc jobId ∧ 0 < amount
  | .release jobId type amount => amount ≠ 0 → ∃ p ∈ vigentes type s.log, p.fits jobId amount
  | _ => True

/-- Honest calls, and no connection lost. -/
def Honestas (Loc : Int32 → Prop) : Guardia where
  message s _ m := (∀ i ∈ m.jobId?, 0 ≤ i) ∧ Honesto Loc s m
  carries h := h.1
  lost _ _ := False
  ready _ _ := True

namespace Cuadra

variable {Loc : Int32 → Prop} {s s' : Manager} {w w' : List Obra} {t : Resource}

/-- `RESERVE`. -/
theorem processReserve (h : Cuadra Loc (s, [])) (conn : Conn) {jobId : Int32}
    (hnonneg : 0 ≤ jobId) (type : Resource) {amount : Int32} (hloc : ¬Loc jobId)
    (hpos : 0 < amount) : Cuadra Loc (processReserve conn jobId type amount s, []) := by
  have hnot : ∀ j ∈ s.jobs, jobId ≠ j.jobId := fun j hj hid => hloc (hid ▸ (h.jobs j hj).1)
  have hp : Conocida Loc (s, []) ⟨jobId, amount, conn, .originRemote⟩ :=
    .of_remote hnonneg hpos rfl hloc
  rcases processReserve_cases conn jobId type amount s with
    ⟨hfits, heq⟩ | ⟨-, -, heq⟩ | ⟨-, -, heq⟩
  · rw [heq]
    exact (h.takeUnits hfits hp hnot (fun _ => id) trivial).frame (fun _ => rfl) (fun _ => rfl)
      (fun _ => rfl) rfl (fun _ => vigentes_concat _ _ _) (fun _ => id) trivial
  · rw [heq]
    exact h.frame (fun _ => rfl) (fun _ => rfl) (fun _ => rfl) rfl
      (fun _ => vigentes_concat _ _ _) (fun _ => id) trivial
  · rw [heq]
    exact h.enqueue hp hnot (fun _ => id) trivial

/-- The units of a `RELEASE` come back. -/
theorem returned (h : Cuadra Loc (s, [])) {jobId amount : Int32}
    (hout : ∃ p ∈ vigentes t s.log, p.fits jobId amount) :
    s.accepts t amount
      ∧ Cuadra Loc (Hpc.giveUnits t amount (s.emit (.returned t jobId amount)),
        [.sirviendo t, .llamada]) := by
  obtain ⟨q, hq, hfits⟩ := hout
  obtain ⟨p, hfind⟩ := Option.isSome_iff_exists.mp
    (List.find?_isSome.mpr ⟨q, hq, hfits⟩ : ((vigentes t s.log).find? _).isSome = true)
  have hp := List.find?_some (p := PendingRequest.fits jobId amount) hfind
  have hamount : p.amount = amount := eq_of_beq (Bool.and_elim_right hp)
  subst hamount
  refine h.giveUnits (h.positive t p (List.mem_of_find?_eq_some hfind)) (if_pos rfl)
    (fun t' ht => if_neg (Ne.symm ht)) (fun p hp => List.mem_of_mem_eraseP hp)
    (List.sum_map_eraseP _ hfind) (fun j _ => ?_) (fun i hi => ?_) trivial
  · refine List.filter_eraseP_of_disjoint (fun a ha => ?_) _
    have hremote : a.origen = .originRemote :=
      eq_of_beq (Bool.and_elim_left (Bool.and_elim_left ha))
    exact ofJob_of_remote hremote j.jobId
  · rw [enMano_nil] at hi
    exact hi.elim

/-- What freeing an allocation leaves of the entries of a job. -/
theorem entries_tail {job : Job} {a : Allocation} {rest : List Allocation}
    (hjob : job.confirmadas = a :: rest) (sel : Allocation → Bool) (t : Resource) :
    job.entries sel t = if sel a && a.name == t then
        a.request :: Job.entries sel t { job with confirmadas := rest }
      else Job.entries sel t { job with confirmadas := rest } := by
  rw [← entries_cons, ← hjob]

/-- An allocation that holds nothing here is freed. -/
theorem desmonta_tail {job : Job} (h : Desmonta s job) {a : Allocation} {rest : List Allocation}
    (hjob : job.confirmadas = a :: rest) (hheld : a.held = false) :
    Desmonta s { job with confirmadas := rest } := by
  have hentries : ∀ t, job.entries Allocation.held t
      = Job.entries Allocation.held t { job with confirmadas := rest } := by
    intro t
    rw [entries_tail hjob, hheld, Bool.false_and, if_neg Bool.false_ne_true]
  exact ⟨h.fresh, h.regular.tail hjob, fun t => (h.held t).trans (hentries t),
    fun t ht => h.queued t (hentries t ▸ ht)⟩

/-- **The units an allocation holds come back.** -/
theorem soltar {job : Job} (h : Cuadra Loc (s, [.muerta job, .llamada])) {a : Allocation}
    {rest : List Allocation} (hjob : job.confirmadas = a :: rest) (hheld : a.held = true) :
    s.accepts a.name a.amount
      ∧ Cuadra Loc (Hpc.giveUnits a.name a.amount (s.emit (.giveBack a.name a.request)),
        [.sirviendo a.name, .muerta { job with confirmadas := rest }, .llamada]) := by
  have hdesmonta : Desmonta s job := h.mano
  have hlocal := Allocation.isLocal_of_held hheld
  have ha : a ∈ job.confirmadas := hjob ▸ List.mem_cons_self
  have hid : a.jobId = job.jobId := hdesmonta.regular.ids a ha
  have hnil : Job.entries Allocation.held a.name { job with confirmadas := rest } = [] :=
    entries_of_not_mem (fun _ => Allocation.isLocal_of_held)
      (hdesmonta.regular.not_mem_tail hjob hlocal)
  have hone : job.entries Allocation.held a.name = [a.request] := by
    rw [entries_tail hjob, hheld, Bool.true_and, if_pos (beq_self_eq_true _), hnil]
  have hother : ∀ t, t ≠ a.name → job.entries Allocation.held t
      = Job.entries Allocation.held t { job with confirmadas := rest } := by
    intro t ht
    rw [entries_tail hjob, beq_false_of_ne (Ne.symm ht), Bool.and_false,
      if_neg Bool.false_ne_true]
  have hfilter := hdesmonta.held a.name
  rw [hone] at hfilter
  have hmem : a.request ∈ vigentes a.name s.log :=
    (List.mem_filter.mp (hfilter.symm ▸ List.mem_singleton.mpr rfl :
      a.request ∈ (vigentes a.name s.log).filter _)).1
  have hvig : ∀ t, vigentes t (Hpc.giveUnits a.name a.amount
      (s.emit (.giveBack a.name a.request))).log
      = if t = a.name then (vigentes t s.log).erase a.request else vigentes t s.log := by
    intro t
    rw [log_giveUnits, Manager.log_emit, vigentes_concat]
    exact if_congr eq_comm rfl rfl
  refine h.giveUnits (hdesmonta.regular.own a ha hlocal).2.1 (if_pos rfl)
    (fun t' ht => if_neg (Ne.symm ht)) (fun p hp => List.mem_of_mem_erase hp) (suma_erase hmem)
    (fun j hj => List.filter_erase_of_not (ofJob_of_ne ?_) _) (fun i hi => ?_) ⟨?_, ?_⟩
  · exact fun heq => hdesmonta.fresh j hj (heq.symm.trans hid)
  · rw [enMano_sirviendo, enMano_muerta]
    exact hi
  · refine ⟨hdesmonta.fresh, hdesmonta.regular.tail hjob, fun t => ?_, fun t ht => ?_⟩
    · rw [hvig]
      by_cases ht : t = a.name
      · rw [if_pos ht, ht, ← List.erase_filter, hfilter, hnil]
        exact List.erase_cons_head ..
      · rw [if_neg ht, ← hother t ht]
        exact hdesmonta.held t
    · rw [cola_giveUnits]
      have hne : t ≠ a.name := fun heq => ht (heq ▸ hnil)
      exact hdesmonta.queued t (hother t hne ▸ ht)
  · rw [cola_giveUnits]
    exact hdesmonta.queued a.name (by rw [hone]; exact List.cons_ne_nil _ _)

/-- **A job is taken out of the table.** -/
theorem extract (h : Cuadra Loc (s, [.llamada])) {job : Job} (hpos : 0 ≤ job.jobId)
    (hfind : tablaJobsBuscarPorId s.tabla job.jobId = some job) :
    Cuadra Loc (s.setTabla (tablaJobsExtractById s.tabla job.jobId).2,
      [.muerta job, .llamada]) := by
  have hjobs := TablaJobs.jobs_extractById s.tabla hpos
  have hjob : job ∈ s.jobs := by
    rw [TablaJobs.buscarPorId_eq _ hpos] at hfind
    exact List.mem_of_find?_eq_some hfind
  have hmem : ∀ j ∈ TablaJobs.jobs (tablaJobsExtractById s.tabla job.jobId).2,
      j ∈ s.jobs ∧ j.jobId ≠ job.jobId := fun j hj => h.distinct.mem_eraseP (hjobs ▸ hj)
  have hconocida : ∀ p, Conocida Loc (s, [.llamada]) p → Conocida Loc
      (s.setTabla (tablaJobsExtractById s.tabla job.jobId).2, [.muerta job, .llamada]) p := by
    refine fun p hp => hp.of_owned (fun h => ?_)
    rw [enMano_llamada, enMano_nil, or_false] at h
    obtain ⟨j, hj, hid⟩ := h
    by_cases heq : j.jobId = job.jobId
    · exact Or.inr ((enMano_of_job rfl _ _).mpr (Or.inl (heq.symm.trans hid)))
    · refine Or.inl ⟨j, ?_, hid⟩
      rw [Manager.jobs_setTabla, hjobs]
      exact (List.mem_eraseP_of_neg (by simpa using heq)).mpr hj
  obtain ⟨-, hregular, hbacks⟩ := h.jobs job hjob
  refine ⟨?_, fun j hj => ?_, fun t p hp => hconocida p (h.queue t p hp),
    fun t p hp => hconocida p (h.ledger t p hp), h.balance, fun j hj => (hmem j hj).2, hregular,
    hbacks.held, fun t ht => ?_⟩
  · rw [Manager.jobs_setTabla, hjobs]
    exact h.distinct.sublist List.eraseP_sublist
  · obtain ⟨hloc, hregular, hbacks⟩ := h.jobs j (hmem j hj).1
    exact ⟨hloc, hregular, hbacks.of_eq (fun _ => rfl) (fun _ => rfl)⟩
  · -- the allocation held is the only one of its resource, so none waits there
    refine (hbacks.queued t).trans ?_
    cases hwait : job.entries Allocation.waiting t with
    | nil => rfl
    | cons p l => exact absurd (hregular.mark hwait).2.2.1 ht

/-- **The new job joins the table.** -/
theorem insertJob {requests : List ResourceRequest} {job : Job}
    (h : Cuadra Loc (s, [.nueva requests [] job])) :
    Cuadra Loc (insertJob job requests s, []) := by
  have hnew : Construye Loc s [] job := h.mano
  have hperm := jobs_insertJob_perm (s := s) requests hnew.nonneg
  have hvig : ∀ t, vigentes t (Hpc.insertJob job requests s).log = vigentes t s.log :=
    vigentes_insertJob requests h.distinct hnew.nonneg hnew.fresh
  have hcola : ∀ t, (Hpc.insertJob job requests s).cola t = s.cola t :=
    fun t => cola_insertJob s t job requests
  have hconocida : ∀ p, Conocida Loc (s, [.nueva requests [] job]) p →
      Conocida Loc (Hpc.insertJob job requests s, []) p := by
    refine fun p hp => hp.of_owned (fun h => Or.inl ?_)
    rcases h with ⟨j, hj, hid⟩ | h
    · exact ⟨j, hperm.mem_iff.mpr (List.mem_cons_of_mem _ hj), hid⟩
    · rcases (enMano_of_job rfl _ _).mp h with hid | h
      · exact ⟨job, hperm.mem_iff.mpr List.mem_cons_self, hid⟩
      · rw [enMano_nil] at h
        exact h.elim
  refine ⟨(h.distinct.cons hnew.nonneg hnew.fresh).perm hperm, fun j hj => ?_, fun t p hp => ?_,
    fun t p hp => ?_, fun t => ?_, trivial⟩
  · have hback : ∀ i, s.Backs i → (Hpc.insertJob job requests s).Backs i :=
      fun i hi => hi.of_eq (fun t => by rw [hcola]) (fun t => by rw [hvig])
    rcases List.mem_cons.mp (hperm.mem_iff.mp hj) with rfl | hj
    · exact ⟨hnew.loc, hnew.regular, hback _ hnew.backs⟩
    · obtain ⟨hloc, hregular, hbacks⟩ := h.jobs j hj
      exact ⟨hloc, hregular, hback _ hbacks⟩
  · exact hconocida p (h.queue t p (hcola t ▸ hp))
  · exact hconocida p (h.ledger t p (hvig t ▸ hp))
  · show ((Hpc.insertJob job requests s).available t).toInt
      + suma (vigentes t (Hpc.insertJob job requests s).log)
      = ((Hpc.insertJob job requests s).total t).toInt
    rw [available_insertJob, hvig, total_insertJob]
    exact h.balance t

/-- **`GRANTED`** changes no local allocation. -/
theorem processGranted (h : Cuadra Loc (s, [])) (conn : Conn) {jobId : Int32}
    (hpos : 0 ≤ jobId) : Cuadra Loc (processGranted conn jobId s, []) := by
  rcases processGranted_cases s conn hpos with
    ⟨-, heq⟩ | ⟨ip, -, -, heq⟩ | ⟨ip, -, job, hjob, hid, hrec, -, -, hjobs, -⟩
  · rw [heq]
    exact h
  · have hvig := vigentes_processGranted s conn hpos
    rw [heq] at hvig ⊢
    exact h.frame (fun _ => rfl) (fun _ => rfl) (fun _ => rfl) rfl hvig (fun _ => id) trivial
  · subst hid
    have hcola : ∀ t, (Hpc.processGranted conn job.jobId s).cola t = s.cola t := by
      intro t
      unfold Manager.cola
      rw [hrec]
    have hvig : ∀ t, vigentes t (Hpc.processGranted conn job.jobId s).log
        = vigentes t s.log := vigentes_processGranted s conn hpos
    have hids : (Hpc.processGranted conn job.jobId s).jobs.map (·.jobId)
        = s.jobs.map (·.jobId) := by
      rw [hjobs]
      exact List.map_modifyFirst_of_eq _ (fun j _ => jobId_jobConfirmar j ip job.jobId) _
    have hconocida : ∀ p, Conocida Loc (s, []) p →
        Conocida Loc (Hpc.processGranted conn job.jobId s, []) p := by
      refine fun p hp => hp.of_owned (fun h => h.imp_left ?_)
      rintro ⟨j, hj, hid⟩
      have hmem : p.jobId ∈ s.jobs.map (·.jobId) := List.mem_map.mpr ⟨j, hj, hid⟩
      rw [← hids] at hmem
      exact List.mem_map.mp hmem
    refine ⟨h.distinct.of_map_eq hids, fun j hj => ?_, fun t p hp => ?_, fun t p hp => ?_,
      fun t => ?_, trivial⟩
    · have hback : ∀ i, s.Backs i → (Hpc.processGranted conn job.jobId s).Backs i :=
        fun i hi => hi.of_eq (fun t => by rw [hcola]) (fun t => by rw [hvig])
      have hj : j ∈ (Hpc.processGranted conn job.jobId s).jobs := hj
      rw [hjobs] at hj
      rcases h.distinct.mem_modifyFirst (fun j => jobId_jobConfirmar j ip job.jobId) hj with
        ⟨hj, -⟩ | ⟨i, hi, hid, rfl⟩
      · obtain ⟨hloc, hregular, hbacks⟩ := h.jobs j hj
        exact ⟨hloc, hregular, hback j hbacks⟩
      · obtain ⟨hloc, hregular, hbacks⟩ := h.jobs i hi
        refine ⟨(jobId_jobConfirmar i ip job.jobId).symm ▸ hloc, hid ▸ hregular.confirmar ip,
          fun t => ?_, fun t => ?_⟩
        · rw [jobId_jobConfirmar, entries_confirmar (fun _ => Allocation.isLocal_of_waiting)]
          exact (hback i hbacks).queued t
        · rw [jobId_jobConfirmar, entries_confirmar (fun _ => Allocation.isLocal_of_held)]
          exact (hback i hbacks).held t
    · exact hconocida p (h.queue t p (hcola t ▸ hp))
    · exact hconocida p (h.ledger t p (hvig t ▸ hp))
    · have hbalance : (s.available t).toInt + suma (vigentes t s.log) = (s.total t).toInt :=
        h.balance t
      show (((Hpc.processGranted conn job.jobId s).recursos t).availableAmount).toInt
        + suma (vigentes t (Hpc.processGranted conn job.jobId s).log)
        = (((Hpc.processGranted conn job.jobId s).recursos t).totalAmount).toInt
      rw [hrec, hvig]
      exact hbalance

/-! ### A job being built -/

section Building

variable {requests next : List ResourceRequest} {head : ResourceRequest} {job : Job}

theorem construye (h : Cuadra Loc (s, [.nueva requests next job])) : Construye Loc s next job :=
  h.mano

/-- An entry of a job being built is known. -/
theorem conocida_pending (h : Construye Loc s (head :: next) job) {job' : Job}
    (hid : job'.jobId = job.jobId) :
    Conocida Loc (s, [.nueva requests next job']) (head.pending job) where
  nonneg := h.nonneg
  positive := h.positive head List.mem_cons_self
  remote := fun hr => nomatch hr
  owned := fun _ => Or.inr ((enMano_of_job rfl _ _).mpr (Or.inl hid))

theorem enMano_nueva {job' : Job} (hid : job'.jobId = job.jobId) (i : Int32)
    (h : EnMano [.nueva requests (head :: next) job] i) :
    EnMano [.nueva requests next job'] i := by
  rw [enMano_of_job rfl] at h ⊢
  rwa [hid]

/-- The place of an entry that asks nothing of this node. -/
theorem construye_addRemote (h : Construye Loc s (head :: next) job) (hip : head.ip ≠ s.ip)
    (s' : Manager) (hs : s'.jobs = s.jobs) (hc : ∀ t, s'.cola t = s.cola t)
    (hv : ∀ t, vigentes t s'.log = vigentes t s.log) (hs' : s'.ip = s.ip) (conn : Conn)
    (msg : Option Message) : Construye Loc s' next (job.addRemote head conn msg) where
  nonneg := h.nonneg
  loc := h.loc
  fresh := fun j hj => h.fresh j (hs ▸ hj)
  regular := ⟨h.regular.ids, h.regular.own, h.regular.types⟩
  backs := by
    have hbacks : s'.Backs job := h.backs.of_eq (fun t => by rw [hc]) (fun t => by rw [hv])
    exact ⟨hbacks.queued, hbacks.held⟩
  positive := fun r hr => h.positive r (List.mem_cons_of_mem _ hr)
  types := by
    have hnd := h.types
    rw [List.filter_cons_of_neg (by simpa using hip)] at hnd
    rw [hs']
    exact hnd

/-- A local entry that is granted. -/
theorem localGranted (h : Cuadra Loc (s, [.nueva requests (head :: next) job]))
    (hip : head.ip = s.ip) (hfits : head.amount ≤ s.available head.type) :
    Cuadra Loc (Hpc.takeUnits head.type (head.pending job) s,
      [.nueva requests next (job.addLocal head s.ip .granted)]) := by
  have hnew := h.construye
  obtain ⟨hfresh, htypes⟩ := types_addLocal hnew.types hip
  have hpos := hnew.positive head List.mem_cons_self
  refine h.takeUnits hfits (conocida_pending hnew rfl) (fun j hj => Ne.symm (hnew.fresh j hj))
    (enMano_nueva rfl) ⟨hnew.nonneg, hnew.loc, hnew.fresh,
      hnew.regular.addLocal s.ip Result.noConfusion hpos hfresh, ⟨fun t => ?_, fun t => ?_⟩,
      fun r hr => hnew.positive r (List.mem_cons_of_mem _ hr), htypes⟩
  · rw [cola_takeUnits, entries_addLocal]
    exact hnew.backs.queued t
  · rw [vigentes_takeUnits, entries_addLocal]
    by_cases ht : head.type = t
    · have hof : (head.pending job).ofJob (job.addLocal head s.ip .granted).jobId = true :=
        ofJob_iff.mpr ⟨rfl, rfl⟩
      rw [if_pos ht, if_pos (by simp [ht, Allocation.held, crearAllocation]),
        List.filter_cons_of_pos hof]
      exact congrArg _ (hnew.backs.held t)
    · rw [if_neg ht, if_neg (by simp [ht])]
      exact hnew.backs.held t

/-- A local entry that is queued. -/
theorem localQueued (h : Cuadra Loc (s, [.nueva requests (head :: next) job]))
    (hip : head.ip = s.ip) :
    Cuadra Loc (Hpc.enqueue head.type (head.pending job) s,
      [.nueva requests next (job.addLocal head s.ip .queued)]) := by
  have hnew := h.construye
  obtain ⟨hfresh, htypes⟩ := types_addLocal hnew.types hip
  have hpos := hnew.positive head List.mem_cons_self
  refine h.enqueue (conocida_pending hnew rfl) (fun j hj => Ne.symm (hnew.fresh j hj))
    (enMano_nueva rfl) ⟨hnew.nonneg, hnew.loc, hnew.fresh,
      hnew.regular.addLocal s.ip Result.noConfusion hpos hfresh, ⟨fun t => ?_, fun t => ?_⟩,
      fun r hr => hnew.positive r (List.mem_cons_of_mem _ hr), htypes⟩
  · rw [cola_enqueue, entries_addLocal]
    by_cases ht : t = head.type
    · have hnil : job.entries Allocation.waiting t = [] :=
        entries_of_not_mem (fun _ => Allocation.isLocal_of_waiting) (ht ▸ hfresh)
      have hold : (s.cola head.type).filter
          (PendingRequest.ofJob (job.addLocal head s.ip .queued).jobId) = [] :=
        ht ▸ (hnew.backs.queued t).trans hnil
      have hof : (head.pending job).ofJob (job.addLocal head s.ip .queued).jobId = true :=
        ofJob_iff.mpr ⟨rfl, rfl⟩
      rw [if_pos ht, if_pos (by simp [ht, Allocation.waiting, crearAllocation]), hnil,
        List.filter_append, hold, List.nil_append, List.filter_cons_of_pos hof, List.filter_nil]
    · rw [if_neg ht, if_neg (by simp [Ne.symm ht])]
      exact hnew.backs.queued t
  · rw [entries_addLocal]
    exact hnew.backs.held t

end Building

/-- **A new job.** Nothing of it is in the queues or the ledger. -/
theorem nuevo (h : Cuadra Loc (s, [])) (conn : Conn) {jobId : Int32} (hloc : Loc jobId)
    {requests : List ResourceRequest} (hnd : (requests.map (fun r => (r.ip, r.type))).Nodup)
    (hnonneg : 0 ≤ jobId) (hpos : ∀ r ∈ requests, 0 < r.amount)
    (hnew : tablaJobsBuscarPorId s.tabla jobId = none) :
    Cuadra Loc (s.emit (.rx conn (.jobRequest jobId requests)),
      [.nueva requests requests ⟨jobId, conn, [], []⟩]) := by
  have hfresh : ∀ j ∈ s.jobs, j.jobId ≠ jobId := by
    intro j hj hid
    rw [TablaJobs.buscarPorId_eq _ hnonneg, List.find?_eq_none] at hnew
    exact hnew j hj (beq_iff_eq.mpr hid)
  have hnone : ∀ p, Conocida Loc (s, []) p → p.ofJob jobId = false := by
    intro p hp
    rw [← Bool.not_eq_true]
    intro hof
    obtain ⟨hlocal, hid⟩ := ofJob_iff.mp hof
    rcases hp.owned hlocal with ⟨j, hj, hjp⟩ | hmano
    · exact hfresh j hj (hjp.trans hid)
    · rw [enMano_nil] at hmano
      exact hmano
  refine h.frame (fun _ => rfl) (fun _ => rfl) (fun _ => rfl) rfl
    (fun _ => vigentes_concat _ _ _) (fun i hi => by simp at hi) ⟨hnonneg, hloc, hfresh,
      ⟨fun a ha => absurd ha List.not_mem_nil, fun a ha => absurd ha List.not_mem_nil,
        List.nodup_nil⟩, ⟨fun t => ?_, fun t => ?_⟩, hpos, ?_⟩
  · exact List.filter_eq_nil_iff.mpr (fun p hp => by simp [hnone p (h.queue t p hp)])
  · rw [Manager.log_emit, vigentes_concat]
    exact List.filter_eq_nil_iff.mpr (fun p hp => by simp [hnone p (h.ledger t p hp)])
  · exact nodup_types hnd s.ip

/-- **The last of a job taken apart.** -/
theorem descartar {job : Job} (h : Cuadra Loc (s, [.muerta job, .llamada]))
    (hjob : job.confirmadas = []) (hpurged : s.Purged job.jobId) :
    Cuadra Loc (s, [.llamada]) := by
  have hdesmonta : Desmonta s job := h.mano
  have hconocida : ∀ p, Conocida Loc (s, [.muerta job, .llamada]) p →
      (p.origen = .originLocal → p.jobId ≠ job.jobId) → Conocida Loc (s, [.llamada]) p := by
    refine fun p hp hne => ⟨hp.nonneg, hp.positive, hp.remote, fun hlocal => ?_⟩
    refine (hp.owned hlocal).imp_right (fun hmano => ?_)
    exact ((enMano_of_job rfl _ _).mp hmano).resolve_left (Ne.symm (hne hlocal))
  refine ⟨h.distinct, h.jobs, fun t p hp => ?_, fun t p hp => ?_, h.balance, trivial⟩
  · exact hconocida p (h.queue t p hp) (fun _ => hpurged t p hp)
  · refine hconocida p (h.ledger t p hp) (fun hlocal hid => ?_)
    have hnil : (vigentes t s.log).filter (PendingRequest.ofJob job.jobId) = [] := by
      rw [hdesmonta.held]
      unfold Job.entries
      rw [hjob]
      rfl
    exact absurd (List.filter_eq_nil_iff.mp hnil p hp) (by simp [ofJob_iff.mpr ⟨hlocal, hid⟩])

/-- **A purge** of the entries of a job that is not in the table. -/
theorem purge (h : Cuadra Loc (s, w)) {jobId : Int32} (hid : Ausente s w jobId) :
    Cuadra Loc (Hpc.limpiarColasPorId jobId s, w) := by
  have hsub : ∀ t, ((Hpc.limpiarColasPorId jobId s).cola t).Sublist (s.cola t) :=
    fun _ => List.filter_sublist
  rcases hid with ⟨rfl, hnone⟩ | ⟨job, hmem, hid⟩
  · refine h.limpiarColasPorId (fun j hj hjid => ?_) trivial
    subst hjid
    rw [TablaJobs.buscarPorId_eq _ (h.distinct.nonneg j hj), List.find?_eq_none] at hnone
    exact hnone j hj (beq_self_eq_true _)
  · obtain ⟨hdesmonta, hw⟩ := EnOrden.of_muerta_mem h.mano hmem
    have hjobId : jobId = job.jobId := by
      rcases hid with rfl | ⟨a, ha, rfl⟩
      · rfl
      · exact hdesmonta.regular.ids a ha
    subst hjobId
    have hafter : Desmonta (Hpc.limpiarColasPorId job.jobId s) job :=
      hdesmonta.of_eq (fun j hj => ⟨j, hj, rfl⟩) hsub (fun _ => rfl)
    refine h.limpiarColasPorId hdesmonta.fresh ?_
    rcases hw with rfl | ⟨t, rfl, hempty⟩
    · exact hafter
    · refine ⟨hafter, List.sublist_nil.mp ?_⟩
      exact hempty ▸ (hsub t).filter _

/-- The work left when a job is taken apart. -/
theorem muerta_inv {job : Job} (h : Cuadra Loc (s, .muerta job :: w)) :
    w = [.llamada] ∧ Desmonta s job := by
  have hw := h.mano
  dsimp only at hw
  unfold EnOrden at hw
  split at hw <;> simp_all

/-- **Every small step keeps the invariant.** -/
theorem paso {c d : Manager × List Obra} (h : Cuadra Loc c)
    (hpaso : Paso (Honestas Loc).positiva c d) : Cuadra Loc d := by
  cases hpaso with
  | mensaje conn m hG hm =>
    exact h.frame (fun _ => rfl) (fun _ => rfl) (fun _ => rfl) rfl
      (fun _ => vigentes_concat _ _ _) (fun i hi => by simp at hi) trivial
  | cerrar =>
    exact h.frame (fun _ => rfl) (fun _ => rfl) (fun _ => rfl) rfl (fun _ => rfl)
      (fun i hi => by simp at hi) trivial
  | @reserve s conn jobId type amount hG =>
    obtain ⟨⟨hnonneg, hloc, hpos⟩, -⟩ := hG
    have hrx : Cuadra Loc (s.emit (.rx conn (.reserve jobId type amount)), []) :=
      h.frame (fun _ => rfl) (fun _ => rfl) (fun _ => rfl) rfl
        (fun _ => vigentes_concat _ _ _) (fun _ => id) trivial
    exact hrx.processReserve conn (hnonneg _ rfl) type hloc hpos
  | @returned s conn jobId type amount hG hne haccepts =>
    obtain ⟨⟨-, hout⟩, -⟩ := hG
    have hrx : Cuadra Loc (s.emit (.rx conn (.release jobId type amount)), []) :=
      h.frame (fun _ => rfl) (fun _ => rfl) (fun _ => rfl) rfl
        (fun _ => vigentes_concat _ _ _) (fun _ => id) trivial
    refine (hrx.returned ?_).2
    rw [Manager.log_emit, vigentes_concat]
    exact hout hne
  | @refused s conn jobId type amount hG hne haccepts =>
    obtain ⟨⟨-, hout⟩, -⟩ := hG
    have hrx : Cuadra Loc (s.emit (.rx conn (.release jobId type amount)), []) :=
      h.frame (fun _ => rfl) (fun _ => rfl) (fun _ => rfl) rfl
        (fun _ => vigentes_concat _ _ _) (fun _ => id) trivial
    have hout' : ∃ p ∈ vigentes type (s.emit (.rx conn (.release jobId type amount))).log,
        p.fits jobId amount := by
      rw [Manager.log_emit, vigentes_concat]
      exact hout hne
    exact absurd (hrx.returned hout').1 haccepts
  | @granted s conn jobId hG =>
    have hrx : Cuadra Loc (s.emit (.rx conn (.granted jobId)), []) :=
      h.frame (fun _ => rfl) (fun _ => rfl) (fun _ => rfl) rfl
        (fun _ => vigentes_concat _ _ _) (fun _ => id) trivial
    exact hrx.processGranted conn (hG.1.1 _ rfl)
  | dequeue tipo top rest hc hfits => exact h.dequeueTop hc hfits
  | @parar s w tipo hstop =>
    refine h.frame (fun _ => rfl) (fun _ => rfl) (fun _ => rfl) rfl (fun _ => rfl)
      (fun i hi => by simpa using hi) ?_
    have hw := h.mano
    dsimp only at hw
    unfold EnOrden at hw
    split at hw <;> simp_all [EnOrden]
  | @purgeId s w jobId hid => exact h.purge hid
  | purgeConn conn hG => exact hG.elim
  | @extract s jobId job hpos hfind =>
    have hid : job.jobId = jobId := eq_of_beq
      (List.find?_some (p := fun j : Job => j.jobId == jobId) hfind)
    subst hid
    exact h.extract hpos hfind
  | lose conn hG => exact hG.elim
  | @soltar s w job a rest hjob hheld haccepts =>
    obtain ⟨rfl, -⟩ := h.muerta_inv
    exact (h.soltar hjob hheld).2
  | @perder s w job a rest hjob hheld haccepts =>
    obtain ⟨rfl, -⟩ := h.muerta_inv
    exact absurd (h.soltar hjob hheld).1 haccepts
  | @avisar s w job a rest jobId conn hjob hremote hid hconn =>
    obtain ⟨rfl, hdesmonta⟩ := h.muerta_inv
    have hheld : a.held = false := by simp [Allocation.held, hremote]
    refine h.frame (fun _ => rfl) (fun _ => rfl) (fun _ => rfl) rfl
      (fun _ => vigentes_concat _ _ _) (fun i hi => by rw [enMano_muerta]; exact hi) ?_
    exact (desmonta_tail hdesmonta hjob hheld).of_eq (fun j hj => ⟨j, hj, rfl⟩)
      (fun _ => List.Sublist.refl _) (fun t => congrArg _ (vigentes_concat _ _ _))
  | @olvidar s w job a rest hjob hheld hremote =>
    obtain ⟨rfl, hdesmonta⟩ := h.muerta_inv
    exact h.frame (fun _ => rfl) (fun _ => rfl) (fun _ => rfl) rfl (fun _ => rfl)
      (fun i hi => by rw [enMano_muerta]; exact hi) (desmonta_tail hdesmonta hjob hheld)
  | @descartar s w job hjob hpurged =>
    obtain ⟨rfl, hdesmonta⟩ := h.muerta_inv
    exact h.descartar hjob hpurged
  | @nuevo s conn jobId requests hG hnew =>
    exact h.nuevo conn hG.1.2.1 hG.1.2.2 (hG.1.1 _ rfl) (hG.2 _ _ rfl) hnew
  | localGranted requests next head job hip hfits => exact h.localGranted hip hfits
  | localQueued requests next head job hip hfits htotal => exact h.localQueued hip
  | @remoteSent s requests next head job remote hip hlookup =>
    have hnew : Construye Loc (sendMessage remote (head.reserve job.jobId) s) next
        (job.addRemote head remote none) := construye_addRemote h.construye hip
      (sendMessage remote (head.reserve job.jobId) s) rfl (fun _ => rfl)
      (fun _ => vigentes_concat _ _ _) rfl remote none
    exact h.frame (fun _ => rfl) (fun _ => rfl) (fun _ => rfl) rfl
      (fun _ => vigentes_concat _ _ _) (enMano_nueva rfl) hnew
  | @remoteConnecting s requests next head job conn hip hlookup =>
    have hnew : Construye Loc (s.emit (.connecting head.ip conn)) next
        (job.addRemote head conn (some (head.reserve job.jobId))) :=
      construye_addRemote h.construye hip (s.emit (.connecting head.ip conn)) rfl
        (fun _ => rfl) (fun _ => vigentes_concat _ _ _) rfl conn _
    exact h.frame (fun _ => rfl) (fun _ => rfl) (fun _ => rfl) rfl
      (fun _ => vigentes_concat _ _ _) (enMano_nueva rfl) hnew
  | insertar requests job => exact h.insertJob
  | @abandonar s requests next job =>
    have hnew := h.construye
    refine h.frame (fun _ => rfl) (fun _ => rfl) (fun _ => rfl) rfl (fun _ => rfl)
      (fun i hi => ?_) ⟨hnew.fresh, hnew.regular, hnew.backs.held, fun t ht => ?_⟩
    · rw [enMano_of_job rfl] at hi ⊢
      rwa [enMano_llamada]
    · refine (hnew.backs.queued t).trans ?_
      cases hwait : job.entries Allocation.waiting t with
      | nil => rfl
      | cons p l => exact absurd (hnew.regular.mark hwait).2.2.1 ht
  | @decir s w conn m hm =>
    exact h.frame (fun _ => rfl) (fun _ => rfl) (fun _ => rfl) rfl
      (fun _ => vigentes_concat _ _ _) (fun _ => id)
      (EnOrden.of_eq h.mano rfl (fun _ => rfl) (fun _ => vigentes_concat _ _ _) rfl)
  | @listo s conn hG =>
    obtain ⟨conns, heq⟩ := processConnectionReady_eq s conn
    rw [heq]
    refine h.frame (fun _ => rfl) (fun _ => rfl) (fun _ => rfl) rfl (fun t => ?_) (fun _ => id)
      trivial
    refine vigentes_append_of_neutral (fun e he => ?_) t s.log
    obtain ⟨req, -, rfl⟩ := List.mem_map.mp he
    rfl
  | conexiones conn hG => exact hG.elim (fun _ h => h.elim)
  | nodos nodos =>
    exact h.frame (fun _ => rfl) (fun _ => rfl) (fun _ => rfl) rfl (fun _ => rfl)
      (fun _ => id) trivial

end Cuadra

/-! ## Conservation -/

theorem Cuadra.managerInit (Loc : Int32 → Prop) (cpu mem gpu : Int32) (ip : CString) :
    Cuadra Loc (managerInit cpu mem gpu ip, []) := by
  have hcola : ∀ t, (Hpc.managerInit cpu mem gpu ip).cola t = [] := fun t => by cases t <;> rfl
  have hjobs : (Hpc.managerInit cpu mem gpu ip).jobs = [] := TablaJobs.jobs_init
  refine ⟨?_, fun j hj => ?_, fun t p hp => ?_, fun t p hp => absurd hp List.not_mem_nil,
    fun t => ?_, trivial⟩
  · rw [hjobs]
    exact Distinct.nil
  · rw [hjobs] at hj
    exact absurd hj List.not_mem_nil
  · rw [hcola] at hp
    exact absurd hp List.not_mem_nil
  · cases t <;> exact add_zero _

/-- **The invariant holds along every honest run.** -/
theorem cuadra_of_reaches {Loc : Int32 → Prop} {cpu mem gpu : Int32} {ip : CString}
    {s : Manager}
    (hrun : Reaches Manager.step (Honestas Loc).allows (managerInit cpu mem gpu ip) s) :
    Cuadra Loc (s, []) :=
  pasos_of_reaches (hrun.mono (fun _ _ => Guardia.allows_positiva))
    (Cuadra.managerInit Loc cpu mem gpu ip) (fun _ _ h hpaso => h.paso hpaso)

/-- The grants to other nodes that are out. -/
def vigentesRemotas (t : Resource) (log : List Event) : List PendingRequest :=
  (vigentes t log).filter (fun p => p.origen == .originRemote)

/-- **The local part of the ledger is what the jobs of the table hold.** -/
theorem Cuadra.suma_local {Loc : Int32 → Prop} {s : Manager} (h : Cuadra Loc (s, []))
    (t : Resource) :
    suma ((vigentes t s.log).filter (fun p => p.origen == .originLocal)) = s.heldUnits t := by
  have hmem : ∀ p ∈ (vigentes t s.log).filter (fun p => p.origen == .originLocal),
      p.jobId ∈ s.jobs.map (·.jobId) := by
    intro p hp
    obtain ⟨hp, hlocal⟩ := List.mem_filter.mp hp
    rcases (h.ledger t p hp).owned (eq_of_beq hlocal) with ⟨j, hj, hid⟩ | hmano
    · exact List.mem_map.mpr ⟨j, hj, hid⟩
    · rw [enMano_nil] at hmano
      exact hmano.elim
  unfold suma
  rw [List.sum_map_filter_key (·.jobId) _ h.distinct.nodup hmem, List.map_map]
  refine congrArg List.sum (List.map_congr_left (fun j hj => ?_))
  have hfilter : ((vigentes t s.log).filter (fun p => p.origen == .originLocal)).filter
      (fun p => p.jobId == j.jobId) = j.entries Allocation.held t := by
    rw [List.filter_filter, ← (h.jobs j hj).2.2.held t]
    exact List.filter_congr (fun p _ => Bool.and_comm _ _)
  show (List.map _ (List.filter _ _)).sum = _
  rw [hfilter]
  exact suma_entries ..

/-- **Conservation of units.** In every state of every honest run, what is free
of a resource, what the local jobs hold and what other nodes were granted and
have not given back add up to the total. -/
theorem units_conserved (Loc : Int32 → Prop) {cpu mem gpu : Int32} {ip : CString} {s : Manager}
    (hrun : Reaches Manager.step (Honestas Loc).allows (managerInit cpu mem gpu ip) s)
    (t : Resource) :
    (s.available t).toInt + s.heldUnits t + suma (vigentesRemotas t s.log)
      = (s.total t).toInt := by
  have h := cuadra_of_reaches hrun
  have hbalance : (s.available t).toInt + suma (vigentes t s.log) = (s.total t).toInt :=
    h.balance t
  have hsplit := suma_filter_add (fun p => p.origen == .originLocal) (vigentes t s.log)
  have hremote : (vigentes t s.log).filter (fun p => !(p.origen == .originLocal))
      = vigentesRemotas t s.log :=
    List.filter_congr (fun p _ => by cases p.origen <;> rfl)
  rw [h.suma_local, hremote] at hsplit
  omega

/-- The guard of `Honestas` as a test. -/
def Honestas.test (loc : Int32 → Bool) (s : Manager) : Call → Bool
  | .message _ msg _ => (parseMessage msg).all (fun m =>
      m.jobId?.all (fun i => decide (0 ≤ i)) && match m with
        | .jobRequest jobId requests =>
          loc jobId && decide ((requests.map (fun r => (r.ip, r.type))).Nodup)
        | .reserve jobId _ amount => !loc jobId && decide (0 < amount)
        | .release jobId type amount =>
          amount == 0 || (vigentes type s.log).any (PendingRequest.fits jobId amount)
        | _ => true)
  | .failed _ | .disconnect _ => false
  | _ => true

theorem Honestas.of_test {loc : Int32 → Bool} {s : Manager} {call : Call}
    (h : Honestas.test loc s call = true) : (Honestas fun i => loc i = true).allows s call := by
  cases call with
  | message conn msg red =>
    intro m hm
    simp only [test, hm, Option.all_some, Bool.and_eq_true] at h
    obtain ⟨hpos, hhonest⟩ := h
    refine ⟨fun i hi => ?_, ?_⟩
    · rw [Option.mem_def.mp hi] at hpos
      simpa using hpos
    · cases m <;> simp_all [Honesto]
      exact fun hne => hhonest.resolve_left hne
  | failed conn => exact absurd h Bool.false_ne_true
  | disconnect conn => exact absurd h Bool.false_ne_true
  | ready conn => exact trivial
  | announce now ipSender msg => exact trivial
  | purge now timeout => exact trivial

/-- Job 1 of this node holds three units, job 7 of another has one and gave back
another. -/
theorem units_conserved_reserve_release :
    ∃ s, Reaches.trace Manager.step (managerInit 5 8 1 ['A'])
        [.message 1 "JOB_REQUEST 1 @A:cpu:3".toList [],
         .message 9 "RESERVE 7 cpu 1".toList [],
         .message 9 "RESERVE 8 cpu 1".toList [],
         .message 9 "RELEASE 8 cpu 1".toList []] = some s
      ∧ s.available .cpu = 1
      ∧ (s.available .cpu).toInt + s.heldUnits .cpu + suma (vigentesRemotas .cpu s.log)
        = (s.total .cpu).toInt := by
  have hcheck : (Reaches.checked Manager.step (Honestas.test fun i => i == 1)
      (managerInit 5 8 1 ['A'])
      [.message 1 "JOB_REQUEST 1 @A:cpu:3".toList [],
       .message 9 "RESERVE 7 cpu 1".toList [],
       .message 9 "RESERVE 8 cpu 1".toList [],
       .message 9 "RELEASE 8 cpu 1".toList []]).any
        (fun s => decide (s.available .cpu = 1)) = true := by
    decide +kernel
  obtain ⟨s, htrace, hrun, hs⟩ := Reaches.of_checked (fun _ _ => Honestas.of_test) hcheck
  exact ⟨s, htrace, of_decide_eq_true hs, units_conserved (fun i => (i == 1) = true) hrun .cpu⟩

end Hpc
