import HpcAgent.Lib.Arithmetic
import HpcAgent.MicroSteps
import HpcAgent.Operations

/-!
# Nobody waits for what is free

The loop of `release_resource` ends when the queue is empty or its head does not fit,
and an arrival only takes units or joins the end. The purges are the one thing that
can leave a head that fits: `limpiar_colas_por_id` and `limpiar_colas_por_conn` may
unlink the entry the others are waiting behind, and run no loop. `Fila.Vela` says
that the purges of a call do not: whoever is left at the head after them asks
for more than is free, or a release accepted later in the call runs the loop.
Under this condition the queues are stopped after every call
(`stopped_of_reaches`).
-/

namespace Hpc

namespace Fila

/-- The queue is empty or its head does not fit. -/
def Parada (f : Fila) : Prop :=
  ∀ x ∈ f.linea.waiting.head?, ¬x.2.amount ≤ f.disponible

/-- What the purges among the operations take away. -/
def purga (ops : List Operacion) (p : PendingRequest) : Bool :=
  ops.any (fun op => match op with
    | .delete b => b p
    | _ => false)

/-- The release is accepted. -/
def Admite (amount : Int32) (f : Fila) : Prop := 0 ≤ amount ∧ f.disponible + amount ≤ f.total

/-- A release among the operations is accepted. -/
def Suelta : List Operacion → Fila → Prop
  | [], _ => False
  | .release amount :: ops, f => f.Admite amount ∨ Suelta ops (f.release amount)
  | op :: ops, f => Suelta ops (op.apply f)

/-- The head of what the purges among the operations leave does not fit. -/
def Resto (ops : List Operacion) (f : Fila) : Prop :=
  ∀ x ∈ (f.linea.waiting.filter (fun x => !purga ops x.2)).head?, ¬x.2.amount ≤ f.disponible

/-- **No purge leaves a head that fits**, unless a later release sees to it. -/
def Vela : List Operacion → Fila → Prop
  | [], _ => True
  | .delete b :: ops, f =>
    (f.Resto (.delete b :: ops) ∨ Suelta ops (f.delete b)) ∧ Vela ops (f.delete b)
  | op :: ops, f => Vela ops (op.apply f)

/-! ## One operation -/

variable {f : Fila} {ops : List Operacion}

/-- The loop ends where it is stopped, given a round for each of the line. -/
theorem parada_serve (k : ℕ) {f : Fila} (hk : f.linea.waiting.length ≤ k) :
    (f.serve k).Parada := by
  induction k generalizing f with
  | zero =>
    show f.Parada
    unfold Parada
    rw [List.length_eq_zero_iff.mp (Nat.le_zero.mp hk)]
    exact fun x hx => nomatch hx
  | succ k ih =>
    rw [serve]
    cases hw : f.linea.waiting with
    | nil =>
      unfold Parada
      rw [hw]
      exact fun x hx => nomatch hx
    | cons x rest =>
      dsimp only
      split
      · refine ih ?_
        show f.linea.waiting.tail.length ≤ k
        rw [hw] at hk ⊢
        exact Nat.le_of_succ_le_succ hk
      · next hfits =>
        unfold Parada
        rw [hw]
        intro y hy
        obtain rfl := Option.some.inj hy
        exact hfits

/-- **A release that is accepted stops the queue.** -/
theorem parada_release {amount : Int32} (h : f.Admite amount) : (f.release amount).Parada := by
  have hrelease : f.release amount
      = serve f.linea.waiting.length { f with disponible := f.disponible + amount } := if_pos h
  rw [hrelease]
  exact parada_serve _ le_rfl

theorem release_of_not_admite {amount : Int32} (h : ¬f.Admite amount) : f.release amount = f :=
  if_neg h

/-- **An arrival takes units or joins the end**: what does not fit still does not. -/
theorem reserve_head {p : PendingRequest} (hp : 0 < p.amount) {g : ℕ × PendingRequest → Bool}
    (h : ∀ x ∈ (f.linea.waiting.filter g).head?, ¬x.2.amount ≤ f.disponible) :
    ∀ x ∈ ((f.reserve p).linea.waiting.filter g).head?, ¬x.2.amount ≤ (f.reserve p).disponible := by
  unfold reserve
  split
  · next hfits =>
    intro x hx hle
    refine h x hx (Int32.le_iff_toInt_le.mpr ?_)
    have hsub := Int32.toInt_sub_of_pos_of_le hp hfits
    have hpos := Int32.pos_iff.mp hp
    have hle := Int32.le_iff_toInt_le.mp hle
    rw [hsub] at hle
    omega
  · next hfits =>
    split
    · exact h
    · show ∀ x ∈ ((f.linea.waiting ++ [(f.linea.next, p)]).filter g).head?, _
      rw [List.filter_append]
      cases hw : f.linea.waiting.filter g with
      | nil =>
        intro x hx
        rw [List.nil_append] at hx
        have hmem := List.mem_of_mem_head? hx
        rw [List.mem_singleton.mp (List.mem_filter.mp hmem).1]
        exact hfits
      | cons y rest =>
        rw [hw] at h
        exact h

/-! ## A list of operations -/

/-- **What the condition is for**: from a queue that is stopped, or that the
operations still to come will stop, they stop it. -/
theorem parada_tras (hops : ∀ p, .reserve p ∈ ops → 0 < p.amount) (hvela : f.Vela ops)
    (h : f.Parada ∨ f.Resto ops ∨ f.Suelta ops) : (f.tras ops).Parada := by
  induction ops generalizing f with
  | nil =>
    rcases h with h | h | h
    · exact h
    · have hall : f.linea.waiting.filter (fun x => !purga [] x.2) = f.linea.waiting :=
        List.filter_true _
      exact fun x hx => h x (hall.symm ▸ hx)
    · exact h.elim
  | cons op ops ih =>
    have ih := @ih (op.apply f) (fun p hp => hops p (List.mem_cons_of_mem op hp))
    cases op with
    | reserve p =>
      have hp := hops p List.mem_cons_self
      refine ih hvela ?_
      rcases h with h | h | h
      · refine Or.inl ?_
        have htrue := reserve_head (g := fun _ => true) hp (f := f)
        rw [List.filter_true, List.filter_true] at htrue
        exact htrue h
      · exact Or.inr (Or.inl (reserve_head hp h))
      · exact Or.inr (Or.inr h)
    | release amount =>
      refine ih hvela ?_
      by_cases hadmite : f.Admite amount
      · exact Or.inl (parada_release hadmite)
      · show (f.release amount).Parada ∨ (f.release amount).Resto ops
          ∨ (f.release amount).Suelta ops
        rw [release_of_not_admite hadmite]
        refine h.imp id (Or.imp id (fun h => ?_))
        have h := h.resolve_left hadmite
        rwa [release_of_not_admite hadmite] at h
    | delete b =>
      refine ih hvela.2 (Or.inr (hvela.1.imp (fun hresto => ?_) id))
      show ∀ x ∈ ((f.linea.waiting.filter (fun x => !b x.2)).filter
        (fun x => !purga ops x.2)).head?, _
      rw [List.filter_filter]
      refine fun x hx => hresto x (Eq.trans (congrArg List.head? ?_) hx)
      refine List.filter_congr (fun y _ => ?_)
      show (!(b y.2 || purga ops y.2)) = _
      rw [Bool.not_or, Bool.and_comm]

/-- Without arrivals or accepted releases a queue loses what is purged. -/
theorem waiting_tras (ops : List Operacion) {f : Fila} (hops : ∀ p, .reserve p ∉ ops)
    (hsuelta : ¬f.Suelta ops) :
    (f.tras ops).linea.waiting = f.linea.waiting.filter (fun x => !purga ops x.2)
      ∧ (f.tras ops).disponible = f.disponible := by
  induction ops generalizing f with
  | nil => exact ⟨(List.filter_true _).symm, rfl⟩
  | cons op ops ih =>
    have ih := @ih (op.apply f) (fun p hp => hops p (List.mem_cons_of_mem op hp))
    cases op with
    | reserve p => exact absurd List.mem_cons_self (hops p)
    | release amount =>
      obtain ⟨hadmite, hsuelta⟩ := not_or.mp hsuelta
      have ih := ih hsuelta
      have happly : (Operacion.release amount).apply f = f := release_of_not_admite hadmite
      rw [happly] at ih
      rw [tras_cons, happly]
      exact ih
    | delete b =>
      obtain ⟨hwaiting, hfree⟩ := ih hsuelta
      refine ⟨hwaiting.trans ?_, hfree⟩
      show (f.linea.waiting.filter _).filter _ = _
      rw [List.filter_filter]
      refine List.filter_congr (fun y _ => ?_)
      show _ = !(b y.2 || purga ops y.2)
      rw [Bool.not_or, Bool.and_comm]

/-- **And only then**: where no arrival follows a purge, the condition is needed. -/
theorem vela_of_parada
    (hops : ∀ b l l', ops = l ++ .delete b :: l' → ∀ p, .reserve p ∉ l')
    (h : (f.tras ops).Parada) : f.Vela ops := by
  induction ops generalizing f with
  | nil => exact trivial
  | cons op ops ih =>
    have ih := @ih (op.apply f) (fun b l l' heq => hops b (op :: l) l' (heq ▸ rfl)) h
    cases op with
    | reserve p => exact ih
    | release amount => exact ih
    | delete b =>
      refine ⟨?_, ih⟩
      by_cases hsuelta : (f.delete b).Suelta ops
      · exact Or.inr hsuelta
      · have hnone := hops b [] ops rfl
        obtain ⟨hwaiting, hfree⟩ := waiting_tras (.delete b :: ops) (f := f)
          (fun p hp => (List.mem_cons.mp hp).elim (fun h => nomatch h) (hnone p)) hsuelta
        refine Or.inl (fun x hx => ?_)
        rw [← hwaiting] at hx
        rw [← hfree]
        exact h x hx

end Fila

/-! ## The requests of a call -/

section Requests

variable {t : Resource} {p : PendingRequest}

theorem reserve_not_mem_ops (a : Allocation) : .reserve p ∉ a.ops t := by
  unfold Allocation.ops
  split
  · simp
  · exact List.not_mem_nil

theorem reserve_not_mem_flatMap_ops (l : List Allocation) :
    .reserve p ∉ l.flatMap (Allocation.ops t) := by
  rw [List.mem_flatMap]
  exact fun ⟨a, _, hp⟩ => reserve_not_mem_ops a hp

theorem reserve_not_mem_opsRemove (jobId : Int32) (s : Manager) :
    .reserve p ∉ opsRemove t jobId s := by
  unfold opsRemove
  split
  · exact List.not_mem_nil
  · exact reserve_not_mem_flatMap_ops _

theorem reserve_not_mem_opsDenied (jobId : Int32) (s : Manager) :
    .reserve p ∉ opsDenied t jobId s := by
  unfold opsDenied
  simp [reserve_not_mem_opsRemove]

theorem reserve_not_mem_opsRelease (jobId : Int32) (type : Resource) (amount : Int32)
    (s : Manager) : .reserve p ∉ opsRelease t jobId type amount s := by
  unfold opsRelease
  split <;> simp [reserve_not_mem_opsRemove]

theorem reserve_not_mem_opsJobRelease (jobId : Int32) (s : Manager) :
    .reserve p ∉ opsJobRelease t jobId s := by
  unfold opsJobRelease
  split
  · exact List.not_mem_nil
  · next job _ =>
    have hround : .reserve p ∉ job.confirmadas.flatMap (Allocation.opsJobRelease t) := by
      rw [List.mem_flatMap]
      rintro ⟨a, -, hp⟩
      unfold Allocation.opsJobRelease at hp
      split at hp
      · exact reserve_not_mem_ops a hp
      · simp at hp
    simp [hround]

theorem reserve_not_mem_opsRollback (job : Job) : .reserve p ∉ opsRollback t job := by
  unfold opsRollback
  rw [List.mem_cons, not_or]
  exact ⟨(fun h => nomatch h), reserve_not_mem_flatMap_ops _⟩

theorem reserve_not_mem_opsDrop (conn : Conn) (s : Manager) : .reserve p ∉ opsDrop t conn s := by
  unfold opsDrop
  rw [List.mem_flatMap]
  exact fun ⟨job, _, hp⟩ => reserve_not_mem_opsRollback job hp

/-- The loop over the entries reserves the entries. -/
theorem mem_of_reserve_mem_opsLoop {requests : List ResourceRequest} {red : Network} {job : Job}
    {s : Manager} (h : .reserve p ∈ opsLoop t requests red job s) :
    ∃ head ∈ requests, head.amount = p.amount := by
  induction requests generalizing red job s with
  | nil => exact absurd h List.not_mem_nil
  | cons head next ih =>
    have later : ∀ {red job s}, .reserve p ∈ opsLoop t next red job s →
        ∃ head' ∈ head :: next, head'.amount = p.amount := by
      intro red job s h
      obtain ⟨head', hhead, hamount⟩ := ih h
      exact ⟨head', List.mem_cons_of_mem _ hhead, hamount⟩
    rw [opsLoop] at h
    split at h
    · rcases List.mem_append.mp h with h | h
      · split at h
        · injection List.mem_singleton.mp h with h
          exact ⟨head, List.mem_cons_self, h ▸ rfl⟩
        · exact absurd h List.not_mem_nil
      · split at h
        · exact absurd h List.not_mem_nil
        · exact later h
    · split at h
      · exact absurd h List.not_mem_nil
      · exact later h

/-- Whoever asks asks for something. -/
def Call.Positiva : Call → Prop
  | .message _ msg _ => ∀ jobId type amount,
    parseMessage msg = some (.reserve jobId type amount) → 0 < amount
  | _ => True

/-- **The requests of a call are positive**: those of a `JOB_REQUEST` are by its
parser. -/
theorem pos_of_reserve_mem_ops {call : Call} (h : call.Positiva) {s : Manager}
    (hp : .reserve p ∈ call.ops t s) : 0 < p.amount := by
  cases call with
  | message conn msg red =>
    cases hparse : parseMessage msg with
    | none =>
      rw [Call.ops_message_of_none t hparse] at hp
      exact absurd hp List.not_mem_nil
    | some m =>
      rw [Call.ops_message_of_some t hparse] at hp
      cases m with
      | reserve jobId type amount =>
        change Operacion.reserve p ∈ (if type = t then _ else _) at hp
        split at hp
        · injection List.mem_singleton.mp hp with hp
          rw [hp]
          exact h jobId type amount hparse
        · exact absurd hp List.not_mem_nil
      | jobRequest jobId requests =>
        change Operacion.reserve p ∈ opsJobRequest t conn jobId requests red _ at hp
        unfold opsJobRequest at hp
        split at hp
        · exact absurd hp List.not_mem_nil
        · rcases List.mem_append.mp hp with hp | hp
          · obtain ⟨head, hhead, hamount⟩ := mem_of_reserve_mem_opsLoop hp
            exact hamount ▸ requests_pos hparse head hhead
          · split at hp
            · exact absurd hp List.not_mem_nil
            · exact absurd hp (reserve_not_mem_opsRollback _)
      | release jobId type amount => exact absurd hp (reserve_not_mem_opsRelease _ _ _ _)
      | denied jobId => exact absurd hp (reserve_not_mem_opsDenied _ _)
      | jobRelease jobId => exact absurd hp (reserve_not_mem_opsJobRelease _ _)
      | jobTimeout jobId => exact absurd hp (reserve_not_mem_opsDenied _ _)
      | _ => exact absurd hp List.not_mem_nil
  | failed conn => exact absurd hp (reserve_not_mem_opsDrop conn s)
  | disconnect conn =>
    rcases List.mem_cons.mp hp with hp | hp
    · cases hp
    · exact absurd hp (reserve_not_mem_opsDrop conn s)
  | ready _ => exact absurd hp List.not_mem_nil
  | announce _ _ _ => exact absurd hp List.not_mem_nil
  | purge _ _ => exact absurd hp List.not_mem_nil

/-- The loop over the entries purges nothing. -/
theorem delete_not_mem_opsLoop (b : PendingRequest → Bool) (requests : List ResourceRequest)
    (red : Network) (job : Job) (s : Manager) :
    .delete b ∉ opsLoop t requests red job s := by
  induction requests generalizing red job s with
  | nil => exact List.not_mem_nil
  | cons head next ih =>
    rw [opsLoop]
    split
    · rw [List.mem_append, not_or]
      constructor
      · split
        · simp
        · exact List.not_mem_nil
      · split
        · exact List.not_mem_nil
        · exact ih _ _ _
    · split
      · exact List.not_mem_nil
      · exact ih _ _ _

/-- **No arrival follows a purge** in a call. -/
theorem reserve_not_mem_of_delete {call : Call} {s : Manager} {b : PendingRequest → Bool}
    {l l' : List Operacion} (heq : call.ops t s = l ++ .delete b :: l') (p : PendingRequest) :
    .reserve p ∉ l' := by
  have hnone : .reserve p ∉ call.ops t s → .reserve p ∉ l' := fun h hp =>
    h (heq ▸ List.mem_append_right l (List.mem_cons_of_mem _ hp))
  cases call with
  | message conn msg red =>
    cases hparse : parseMessage msg with
    | none =>
      rw [Call.ops_message_of_none t hparse] at hnone
      exact hnone List.not_mem_nil
    | some m =>
      rw [Call.ops_message_of_some t hparse] at heq hnone
      cases m with
      | reserve jobId type amount =>
        change (if type = t then _ else _) = _ at heq
        have hmem : Operacion.delete b ∈ l ++ .delete b :: l' :=
          List.mem_append_right l List.mem_cons_self
        rw [← heq] at hmem
        split at hmem
        · cases List.mem_singleton.mp hmem
        · exact absurd hmem List.not_mem_nil
      | jobRequest jobId requests =>
        change opsJobRequest t conn jobId requests red _ = _ at heq
        unfold opsJobRequest at heq
        split at heq
        · exact absurd heq.symm (List.append_ne_nil_of_right_ne_nil l (List.cons_ne_nil _ _))
        · -- the purge is in the rollback, after the entries
          rcases List.append_eq_append_iff.mp heq with ⟨m, hl, hrest⟩ | ⟨m, hloop, hrest⟩
          · have hp : .reserve p ∉ m ++ .delete b :: l' := by
              rw [← hrest]
              split
              · exact List.not_mem_nil
              · exact reserve_not_mem_opsRollback _
            exact fun h => hp (List.mem_append_right m (List.mem_cons_of_mem _ h))
          · cases m with
            | nil =>
              have hp : .reserve p ∉ Operacion.delete b :: l' := by
                rw [hrest]
                split
                · exact List.not_mem_nil
                · exact reserve_not_mem_opsRollback _
              exact fun h => hp (List.mem_cons_of_mem _ h)
            | cons op m =>
              obtain ⟨rfl, -⟩ := List.cons.inj hrest
              exact absurd (hloop ▸ List.mem_append_right l List.mem_cons_self)
                (delete_not_mem_opsLoop b _ _ _ _)
      | release jobId type amount => exact hnone (reserve_not_mem_opsRelease _ _ _ _)
      | denied jobId => exact hnone (reserve_not_mem_opsDenied _ _)
      | jobRelease jobId => exact hnone (reserve_not_mem_opsJobRelease _ _)
      | jobTimeout jobId => exact hnone (reserve_not_mem_opsDenied _ _)
      | _ => exact hnone List.not_mem_nil
  | failed conn => exact hnone (reserve_not_mem_opsDrop conn s)
  | disconnect conn =>
    refine hnone (fun hp => ?_)
    rcases List.mem_cons.mp hp with hp | hp
    · cases hp
    · exact reserve_not_mem_opsDrop conn s hp
  | ready _ => exact hnone List.not_mem_nil
  | announce _ _ _ => exact hnone List.not_mem_nil
  | purge _ _ => exact hnone List.not_mem_nil

end Requests

/-! ## Runs -/

/-- A resource of the agent, alone. -/
def Manager.fila (s : Manager) (t : Resource) : Fila :=
  ⟨s.available t, s.total t, Line.ofList (s.cola t), []⟩

theorem Manager.refleja_fila (s : Manager) (t : Resource) :
    (s.fila t).Refleja (concesiones t s.log) s t :=
  ⟨rfl, rfl, Line.map_ofList _, (List.append_nil _).symm⟩

theorem Fila.Refleja.stopped_iff {f : Fila} {previas : List PendingRequest} {s : Manager}
    {t : Resource} (h : f.Refleja previas s t) : s.Stopped t ↔ f.Parada := by
  have hcola := h.cola
  unfold Fila.cola at hcola
  unfold Manager.Stopped Fila.Parada
  rw [← hcola, ← h.disponible]
  cases f.linea.waiting with
  | nil => simp
  | cons x rest => simp

/-- The calls with positive requests whose purges leave no head that fits. -/
def Veladas (s : Manager) (call : Call) : Prop :=
  call.Positiva ∧ ∀ t, (s.fila t).Vela (call.ops t s)

/-- **One call**: queues that were stopped are stopped again exactly if the purges
leave no head that fits. -/
theorem stopped_call_iff {s : Manager} {t : Resource} {call : Call} (h : s.Stopped t)
    (hpos : call.Positiva) : (call.run s).Stopped t ↔ (s.fila t).Vela (call.ops t s) := by
  rw [(hace_call t call s _ _ (s.refleja_fila t)).stopped_iff]
  exact ⟨Fila.vela_of_parada (fun _ _ _ heq p => reserve_not_mem_of_delete heq p), fun hvela =>
    Fila.parada_tras (fun p hp => pos_of_reserve_mem_ops hpos hp) hvela
      (Or.inl ((s.refleja_fila t).stopped_iff.mp h))⟩

/-- **After every call of such a run each queue is empty or its head asks for more
than is free**, and the first call that is not of the kind breaks it. -/
theorem stopped_of_reaches {cpu mem gpu : Int32} {ip : CString} {s : Manager}
    (hrun : Reaches Manager.step Veladas (managerInit cpu mem gpu ip) s) :
    (∀ t, s.Stopped t) ∧ ∀ call : Call, call.Positiva →
      ((∀ t, (call.run s).Stopped t) ↔ ∀ t, (s.fila t).Vela (call.ops t s)) := by
  have hstopped : ∀ t, s.Stopped t := by
    refine hrun.invariant (I := fun s => ∀ t, s.Stopped t) (fun t top rest hc => ?_)
      (fun u call v hu hok hstep t => ?_)
    · cases t <;> exact nomatch hc
    · obtain rfl := Option.some.inj hstep
      exact (stopped_call_iff (hu t) hok.1).mpr (hok.2 t)
  exact ⟨hstopped, fun call hpos => forall_congr' (fun t => stopped_call_iff (hstopped t) hpos)⟩

section Test

instance (amount : Int32) (f : Fila) : Decidable (f.Admite amount) :=
  inferInstanceAs (Decidable (0 ≤ amount ∧ f.disponible + amount ≤ f.total))

instance decidableSuelta : (ops : List Operacion) → (f : Fila) → Decidable (f.Suelta ops)
  | [], _ => inferInstanceAs (Decidable False)
  | .release amount :: ops, f =>
    have := decidableSuelta ops (f.release amount)
    inferInstanceAs (Decidable (f.Admite amount ∨ _))
  | .reserve p :: ops, f => decidableSuelta ops (f.reserve p)
  | .delete b :: ops, f => decidableSuelta ops (f.delete b)

instance (ops : List Operacion) (f : Fila) : Decidable (f.Resto ops) :=
  inferInstanceAs (Decidable (∀ x ∈ List.head? _, ¬_))

instance decidableVela : (ops : List Operacion) → (f : Fila) → Decidable (f.Vela ops)
  | [], _ => inferInstanceAs (Decidable True)
  | .delete b :: ops, f =>
    have := decidableVela ops (f.delete b)
    inferInstanceAs (Decidable ((_ ∨ _) ∧ _))
  | .reserve p :: ops, f => decidableVela ops (f.reserve p)
  | .release amount :: ops, f => decidableVela ops (f.release amount)

/-- `Call.Positiva`, computed. -/
def Positiva.test (_s : Manager) : Call → Bool
  | .message _ msg _ => match parseMessage msg with
    | some (.reserve _ _ amount) => decide (0 < amount)
    | _ => true
  | _ => true

theorem Positiva.of_test {s : Manager} {call : Call} (h : Positiva.test s call = true) :
    call.Positiva := by
  cases call with
  | message conn msg red =>
    intro jobId type amount hparse
    simpa [Positiva.test, hparse] using h
  | _ => exact trivial

/-- `Veladas`, computed. -/
def Veladas.test (s : Manager) (call : Call) : Bool :=
  Positiva.test s call
    && [Resource.cpu, .mem, .gpu].all (fun t => decide ((s.fila t).Vela (call.ops t s)))

theorem Veladas.of_test {s : Manager} {call : Call} (h : Veladas.test s call = true) :
    Veladas s call := by
  obtain ⟨hpos, hvela⟩ := Bool.and_eq_true_iff.mp h
  refine ⟨Positiva.of_test hpos, fun t => ?_⟩
  refine of_decide_eq_true (List.all_eq_true.mp hvela t ?_)
  cases t <;> decide

end Test

/-- The one request that waits gives up, and nobody is left. -/
theorem stopped_after_purge :
    ∃ s, Reaches.trace Manager.step (managerInit 4 8 1 ['A'])
        [.message 7 "RESERVE 1 cpu 3".toList [], .message 8 "RESERVE 2 cpu 2".toList [],
         .disconnect 8] = some s
      ∧ s.Stopped .cpu := by
  have hcheck : (Reaches.checked Manager.step Veladas.test (managerInit 4 8 1 ['A'])
      [.message 7 "RESERVE 1 cpu 3".toList [], .message 8 "RESERVE 2 cpu 2".toList [],
       .disconnect 8]).any (fun _ => true) = true := by
    decide +kernel
  obtain ⟨s, htrace, hrun, -⟩ := Reaches.of_checked (fun _ _ => Veladas.of_test) hcheck
  exact ⟨s, htrace, (stopped_of_reaches hrun).1 .cpu⟩

/-- **The head gives up and nobody wakes the next**: of four units jobs 1 and 4 have
three when job 2 comes for four and job 3 for two. Job 1 gives its two back, which is
not enough for job 2; job 2 gives up, and job 3 goes on waiting for two of the three
that are free. -/
theorem purged_head_wakes_nobody :
    ∃ s, Reaches Manager.step (fun _ call => call.Positiva) (managerInit 4 8 1 ['A']) s
      ∧ Reaches.trace Manager.step (managerInit 4 8 1 ['A'])
        [.message 7 "RESERVE 1 cpu 2".toList [], .message 7 "RESERVE 4 cpu 1".toList [],
         .message 8 "RESERVE 2 cpu 4".toList [], .message 9 "RESERVE 3 cpu 2".toList [],
         .message 7 "RELEASE 1 cpu 2".toList [], .message 8 "RELEASE 2 cpu 0".toList []]
          = some s
      ∧ ¬s.Stopped .cpu := by
  have hcheck : (Reaches.checked Manager.step Positiva.test (managerInit 4 8 1 ['A'])
      [.message 7 "RESERVE 1 cpu 2".toList [], .message 7 "RESERVE 4 cpu 1".toList [],
       .message 8 "RESERVE 2 cpu 4".toList [], .message 9 "RESERVE 3 cpu 2".toList [],
       .message 7 "RELEASE 1 cpu 2".toList [], .message 8 "RELEASE 2 cpu 0".toList []]).any
        (fun s => decide (
          s.cola .cpu = [⟨3, 2, 9, .originRemote⟩] ∧ s.available .cpu = 3)) = true := by
    decide +kernel
  obtain ⟨s, htrace, hrun, hs⟩ := Reaches.of_checked (fun _ _ => Positiva.of_test) hcheck
  obtain ⟨hcola, hfree⟩ := of_decide_eq_true hs
  refine ⟨s, hrun, htrace, fun h => h _ [] hcola ?_⟩
  rw [hfree]
  decide

end Hpc
