import HpcAgent.Conservation
import HpcAgent.Grants
import HpcAgent.Marks

/-!
# What other nodes have

A node that is told the truth knows what it lent: the grants to jobs of other nodes that
are out, and those that were given back, are those it granted (`Prestamos`), counted by
job, resource and amount. A `RELEASE` then gives back a grant that is out whenever fewer
like it came than were granted.
-/

namespace Hpc

/-- What other nodes gave back. -/
def devueltas (log : List Event) : Multiset Peticion :=
  ↑(log.filterMap (fun e => match e with
    | .rx c (.release i t a) => if a ≠ 0 then some (c, i, t, a) else none
    | _ => none))

/-- **The grants to other nodes** are out or were given back. -/
def Prestamos (log : List Event) : Prop :=
  ∀ t i a, (vigentes t log).countP (PendingRequest.fits i a)
      + (devueltas log).countP (fun p => p.2 = (i, t, a))
    = (otorgadas log).countP (fun p => p.2 = (i, t, a))

/-- The event lends, or takes back. -/
def Event.presta : Event → Bool
  | .grant .. | .giveBack .. | .returned .. => true
  | .rx _ (.release _ _ a) => a != 0
  | _ => false

theorem Event.neutral_of_presta {e : Event} (h : e.presta = false) : e.neutral = true := by
  cases e with
  | grant | giveBack | returned => exact absurd h.symm Bool.false_ne_true
  | _ => rfl

theorem devueltas_append (log es : List Event) :
    devueltas (log ++ es) = devueltas log + devueltas es := by
  unfold devueltas
  rw [List.filterMap_append, Multiset.coe_add]

theorem presta_eq_zero {es : List Event} (hes : ∀ e ∈ es, e.presta = false) :
    devueltas es = 0 ∧ otorgadas es = 0 := by
  unfold devueltas otorgadas
  refine ⟨congrArg _ (List.filterMap_eq_nil_iff.mpr (fun e he => ?_)),
    congrArg _ (List.filterMap_eq_nil_iff.mpr (fun e he => ?_))⟩
  all_goals
    have hpresta := hes e he
    unfold Event.presta at hpresta
    split at hpresta <;> first | rfl | simp_all

/-- What fits the three is of one job, one resource and one amount. -/
theorem fits_iff {i a : Int32} {p : PendingRequest} :
    p.fits i a = true ↔ p.origen = .originRemote ∧ p.jobId = i ∧ p.amount = a := by
  unfold PendingRequest.fits PendingRequest.ofRemote
  simp [and_assoc]

namespace Prestamos

variable {log es : List Event} {s s' : Manager}

/-- Nothing of it is noted. -/
theorem calla (h : Prestamos s.log) (hs : s.Calla Event.presta s') : Prestamos s'.log := by
  obtain ⟨es, hlog, hes⟩ := hs
  obtain ⟨hdevueltas, hotorgadas⟩ := presta_eq_zero hes
  intro t i a
  rw [hlog, vigentes_append_of_neutral (fun e he => Event.neutral_of_presta (hes e he)),
    devueltas_append, otorgadas_append, hdevueltas, hotorgadas, add_zero, add_zero]
  exact h t i a

/-- **A grant.** -/
theorem grant (h : Prestamos log) (tipo : Resource) (p : PendingRequest) :
    Prestamos (log ++ [.grant tipo p]) := by
  intro t i a
  have hnada : devueltas [.grant tipo p] = 0 := rfl
  have hone : (p.peticion tipo).countP (fun p => p.2 = (i, t, a))
      = if tipo = t ∧ p.fits i a = true then 1 else 0 := by
    unfold PendingRequest.peticion
    by_cases hremote : p.origen = .originRemote
    · rw [if_pos hremote, ← Multiset.cons_zero, Multiset.countP_cons, Multiset.countP_zero,
        zero_add]
      simp only [fits_iff, Prod.mk.injEq, hremote, true_and]
      exact if_congr (by tauto) rfl rfl
    · rw [if_neg hremote, Multiset.countP_zero, if_neg (fun hf => hremote (fits_iff.mp hf.2).1)]
  have hmas : (vigentes t (log ++ [.grant tipo p])).countP (PendingRequest.fits i a)
      = (vigentes t log).countP (PendingRequest.fits i a)
        + if tipo = t ∧ p.fits i a = true then 1 else 0 := by
    rw [vigentes_concat]
    by_cases ht : tipo = t
    · simp [vigentesStep, ht, List.countP_cons]
    · simp [vigentesStep, ht]
  rw [hmas, devueltas_append, otorgadas_append, hnada, add_zero, otorgadas_grant,
    Multiset.countP_add, hone, ← h t i a]
  exact add_right_comm _ _ _

/-- A job of this node gives back what it held. -/
theorem giveBack (h : Prestamos log) (tipo : Resource) {p : PendingRequest}
    (hlocal : p.origen = .originLocal) : Prestamos (log ++ [.giveBack tipo p]) := by
  intro t i a
  have hnada : devueltas [.giveBack tipo p] = 0 ∧ otorgadas [.giveBack tipo p] = 0 := ⟨rfl, rfl⟩
  have hfits : p.fits i a = false :=
    Bool.eq_false_iff.mpr (fun hf => Origin.noConfusion (hlocal.symm.trans (fits_iff.mp hf).1))
  rw [vigentes_concat, devueltas_append, otorgadas_append, hnada.1, hnada.2, add_zero, add_zero,
    ← h t i a]
  refine congrArg (· + _) ?_
  show List.countP _ (if tipo = t then (vigentes t log).erase p else vigentes t log) = _
  split
  · rw [List.countP_eq_length_filter, List.filter_erase_of_not hfits,
      List.countP_eq_length_filter]
  · rfl

/-- **A `RELEASE`** that gives back a grant that is out. -/
theorem returned (h : Prestamos log) (conn : Conn) {jobId amount : Int32} {type : Resource}
    (hne : amount ≠ 0) (hout : ∃ p ∈ vigentes type log, p.fits jobId amount) :
    Prestamos (log ++ [.rx conn (.release jobId type amount)]
      ++ [.returned type jobId amount]) := by
  intro t i a
  have hrx : devueltas [.rx conn (.release jobId type amount)]
      = {(conn, jobId, type, amount)} := by
    unfold devueltas
    simp [hne]
  have hnada : otorgadas [.rx conn (.release jobId type amount)] = 0
      ∧ otorgadas [.returned type jobId amount] = 0
      ∧ devueltas [.returned type jobId amount] = 0 := ⟨rfl, rfl, rfl⟩
  have hmenos : (vigentes t (log ++ [.rx conn (.release jobId type amount)]
        ++ [.returned type jobId amount])).countP (PendingRequest.fits i a)
        + (if (jobId, type, amount) = (i, t, a) then 1 else 0)
      = (vigentes t log).countP (PendingRequest.fits i a) := by
    rw [vigentes_concat, vigentes_concat]
    show List.countP _ (if type = t then (vigentes t log).eraseP _ else vigentes t log) + _ = _
    by_cases ht : type = t
    · subst ht
      rw [if_pos rfl]
      by_cases hsame : jobId = i ∧ amount = a
      · obtain ⟨rfl, rfl⟩ := hsame
        obtain ⟨p, hp, hfits⟩ := hout
        obtain ⟨q, l, l', -, hq, hl, herase⟩ := List.exists_of_eraseP hp hfits
        rw [if_pos rfl, herase, hl, List.countP_append, List.countP_append,
          List.countP_cons_of_pos hq, add_assoc]
      · rw [if_neg (fun heq => hsame (by simp_all)), add_zero, List.countP_eq_length_filter,
          List.filter_eraseP_of_disjoint (fun p hp => ?_), List.countP_eq_length_filter]
        obtain ⟨-, hid, hamount⟩ := fits_iff.mp hp
        exact Bool.eq_false_iff.mpr (fun hf => hsame ⟨hid.symm.trans (fits_iff.mp hf).2.1,
          hamount.symm.trans (fits_iff.mp hf).2.2⟩)
    · rw [if_neg ht, if_neg (fun heq => ht (by simp_all)), add_zero]
  rw [devueltas_append, devueltas_append, otorgadas_append, otorgadas_append, hrx, hnada.1,
    hnada.2.1, hnada.2.2, add_zero, add_zero, add_zero, Multiset.countP_add,
    ← Multiset.cons_zero, Multiset.countP_cons, Multiset.countP_zero, zero_add, ← h t i a,
    ← hmenos]
  exact (add_assoc _ _ _).symm.trans (add_right_comm _ _ _)

/-- **What an honest small step keeps.** -/
theorem paso {Loc : Int32 → Prop} {c d : Manager × List Obra} (h : Prestamos c.1.log)
    (hpaso : Paso (Honestas Loc) c d) : Prestamos d.1.log := by
  have hemit : ∀ {s : Manager} {e : Event}, Prestamos s.log → e.presta = false →
      Prestamos (s.emit e).log := fun h he => h.calla ((Manager.Calla.of_eq rfl).emit he)
  cases hpaso with
  | mensaje conn m hG hm =>
    refine hemit h ?_
    cases m with
    | release i t a =>
      have hzero : a = 0 := of_decide_eq_true hm
      rw [hzero]
      rfl
    | _ => rfl
  | @reserve s conn jobId type amount hG =>
    have hrx := hemit (e := .rx conn (.reserve jobId type amount)) h rfl
    rcases processReserve_cases conn jobId type amount
      (s.emit (.rx conn (.reserve jobId type amount))) with ⟨-, heq⟩ | ⟨-, -, heq⟩ | ⟨-, -, heq⟩
    · rw [heq]
      exact hemit (hrx.grant type _) rfl
    · rw [heq]
      exact hemit hrx rfl
    · rw [heq]
      exact hrx
  | returned conn jobId type amount hG hne => exact h.returned conn hne (hG.2 hne)
  | refused conn jobId type amount hG hne => exact h.returned conn hne (hG.2 hne)
  | @granted s conn jobId =>
    have hrx := hemit (e := .rx conn (.granted jobId)) h rfl
    exact hrx.calla (.processGranted (fun _ _ _ => rfl) (fun _ _ => rfl) (fun _ _ => rfl) conn)
  | @dequeue s w tipo top rest hc =>
    have hpop : Prestamos (markTop tipo top (popTop tipo top s)).log := h.grant tipo top
    rw [dequeueTop_eq]
    unfold answerTop
    split
    · exact hemit hpop rfl
    · split
      · exact hemit (hemit hpop rfl) rfl
      · exact hpop
  | soltar job a rest => exact h.giveBack a.name rfl
  | perder job a rest => exact h.giveBack a.name rfl
  | avisar job a rest jobId conn => exact hemit h rfl
  | nuevo conn jobId requests => exact hemit h rfl
  | localGranted requests next head job => exact h.grant head.type _
  | remoteSent requests next head job remote => exact hemit h rfl
  | remoteConnecting requests next head job conn => exact hemit h rfl
  | insertar requests job =>
    exact h.calla (.insertJob (fun _ _ => rfl) (fun _ _ => rfl) (fun _ _ => rfl) job requests _)
  | decir conn m => exact hemit h rfl
  | @listo s conn =>
    obtain ⟨conns, heq⟩ := processConnectionReady_eq s conn
    rw [heq]
    refine h.calla ⟨_, rfl, fun e he => ?_⟩
    obtain ⟨req, -, rfl⟩ := List.mem_map.mp he
    rfl
  | _ => exact h

end Prestamos

/-- **What other nodes have, along every honest run.** -/
theorem prestamos_of_reaches {Loc : Int32 → Prop} {cpu mem gpu : Int32} {ip : CString}
    {s : Manager}
    (hrun : Reaches Manager.step (Honestas Loc).allows (managerInit cpu mem gpu ip) s) :
    Prestamos s.log :=
  pasos_of_reaches (I := fun c => Prestamos c.1.log) hrun (fun _ _ _ => rfl)
    (fun _ _ h hpaso => h.paso hpaso)

end Hpc
