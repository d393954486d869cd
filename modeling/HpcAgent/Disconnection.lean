import HpcAgent.Conservation

/-!
# A peer that disconnects

`process_disconnect` cleans the queues of the connection's entries and takes
the affected jobs out of the table. It keeps no list of what the node granted
over the connection, so it has nothing to look these grants up in: a grant to a
remote job leaves no trace on the serving node but the counter. What the peer
had when it died stays deducted (`disconnect_returns_units`): the units of the
node add up without the peer exactly if it had given everything back.
-/

namespace Hpc

/-- The grants that are out to other nodes over the connections selected. -/
def vigentesDe (vivas : Conn → Bool) (t : Resource) (log : List Event) : List PendingRequest :=
  (vigentesRemotas t log).filter (fun p => vivas p.ownerConn)

/-- The units of a resource add up to its total: those free, those of the jobs
of the table, and those granted over the connections selected and not given
back. -/
def Manager.Balanced (s : Manager) (vivas : Conn → Bool) (t : Resource) : Prop :=
  (s.available t).toInt + s.heldUnits t + suma (vigentesDe vivas t s.log) = (s.total t).toInt

instance (s : Manager) (vivas : Conn → Bool) (t : Resource) : Decidable (s.Balanced vivas t) :=
  inferInstanceAs (Decidable (_ = _))

/-- Freeing allocations of other nodes touches no unit, no job and no grant. -/
theorem freeAllocations_of_remote {l : List Allocation} (jobId : Int32) (s : Manager)
    (hremote : ∀ a ∈ l, a.type = .remoteAlloc) :
    (freeAllocations jobId l s).recursos = s.recursos
      ∧ (freeAllocations jobId l s).tabla = s.tabla
      ∧ ∀ t, vigentes t (freeAllocations jobId l s).log = vigentes t s.log := by
  induction l generalizing s with
  | nil => exact ⟨rfl, rfl, fun _ => rfl⟩
  | cons a l ih =>
    have ha : a.type = .remoteAlloc := hremote a List.mem_cons_self
    obtain ⟨hrecursos, htabla, hlog⟩ := ih (freeAllocation jobId a s)
      (fun b hb => hremote b (List.mem_cons_of_mem a hb))
    have hstep : (freeAllocation jobId a s).recursos = s.recursos
        ∧ (freeAllocation jobId a s).tabla = s.tabla
        ∧ ∀ t, vigentes t (freeAllocation jobId a s).log = vigentes t s.log := by
      unfold freeAllocation
      rw [if_neg (by simp [Allocation.held, ha]), if_pos ha]
      split
      · exact ⟨rfl, rfl, fun _ => vigentes_concat _ _ _⟩
      · exact ⟨rfl, rfl, fun _ => rfl⟩
    exact ⟨hrecursos.trans hstep.1, htabla.trans hstep.2.1,
      fun t => (hlog t).trans (hstep.2.2 t)⟩

/-- Taking apart jobs that have nothing here touches no unit, no job of the
table and no grant. -/
theorem freeJobs_of_remote {lista : List Job} (s : Manager)
    (hremote : ∀ j ∈ lista, ∀ a ∈ j.confirmadas, a.type = .remoteAlloc) :
    (∀ t, (freeJobs lista s).available t = s.available t)
      ∧ (∀ t, (freeJobs lista s).total t = s.total t)
      ∧ (freeJobs lista s).tabla = s.tabla
      ∧ ∀ t, vigentes t (freeJobs lista s).log = vigentes t s.log := by
  induction lista generalizing s with
  | nil => exact ⟨fun _ => rfl, fun _ => rfl, rfl, fun _ => rfl⟩
  | cons job lista ih =>
    obtain ⟨havailable, htotal, htabla, hlog⟩ := ih
      (freeAllocations job.jobId job.confirmadas (limpiarColasPorId job.jobId s))
      (fun j hj => hremote j (List.mem_cons_of_mem job hj))
    obtain ⟨hrecursos, htabla', hlog'⟩ := freeAllocations_of_remote job.jobId
      (limpiarColasPorId job.jobId s) (hremote job List.mem_cons_self)
    refine ⟨fun t => (havailable t).trans ?_, fun t => (htotal t).trans ?_,
      htabla.trans htabla', fun t => (hlog t).trans (hlog' t)⟩
    · unfold Manager.available
      rw [hrecursos]
      rfl
    · unfold Manager.total
      rw [hrecursos]
      rfl

theorem units_dropRemote (conn : Conn) (t : Resource) (j : Job) :
    units Allocation.held t (j.dropRemote conn).confirmadas
      = units Allocation.held t j.confirmadas := by
  unfold units Job.dropRemote
  dsimp only
  rw [List.filter_filter]
  refine congrArg (fun l => (List.map _ l).sum) (List.filter_congr (fun a _ => ?_))
  unfold Allocation.held
  cases a.type <;> simp

/-- Jobs that have nothing here hold nothing here. -/
theorem units_of_remote {l : List Allocation} (t : Resource)
    (hremote : ∀ a ∈ l, a.type = .remoteAlloc) : units Allocation.held t l = 0 := by
  unfold units
  rw [List.filter_eq_nil_iff.mpr (fun a ha => by simp [Allocation.held, hremote a ha])]
  rfl

/-- The jobs that stay and those that leave hold what all jobs held. -/
theorem heldUnits_extract_add (s : Manager) (conn : Conn) (t : Resource) :
    (s.setTabla (tablaJobsExtractByRemoteConn s.tabla conn).2).heldUnits t
        + ((tablaJobsExtractByRemoteConn s.tabla conn).1.map
          (fun j => units Allocation.held t j.confirmadas)).sum
      = s.heldUnits t := by
  unfold Manager.heldUnits
  rw [Manager.jobs_setTabla, TablaJobs.jobs_extractByRemoteConn,
    TablaJobs.extractByRemoteConn_fst, List.map_reverse, List.sum_reverse]
  show _ = (s.jobs.map _).sum
  unfold Manager.jobs
  induction s.tabla.jobs with
  | nil => rfl
  | cons j l ih =>
    rw [List.map_cons, List.map_cons, List.sum_cons, ← units_dropRemote conn t j, ← ih]
    cases haff : (j.dropRemote conn).affected conn
    · rw [List.filter_cons_of_pos (by simp [haff]), List.filter_cons_of_neg (by simp [haff]),
        List.map_cons, List.sum_cons]
      omega
    · rw [List.filter_cons_of_neg (by simp [haff]), List.filter_cons_of_pos (by simp [haff]),
        List.map_cons, List.sum_cons]
      omega

/-- The jobs that stay hold what all jobs held, if those that leave have nothing
here. -/
theorem heldUnits_extract {s : Manager} {conn : Conn}
    (hremote : ∀ j ∈ (tablaJobsExtractByRemoteConn s.tabla conn).1, ∀ a ∈ j.confirmadas,
      a.type = .remoteAlloc) (t : Resource) :
    (s.setTabla (tablaJobsExtractByRemoteConn s.tabla conn).2).heldUnits t = s.heldUnits t := by
  rw [← heldUnits_extract_add s conn t, List.sum_eq_zero (fun v hv => ?_), add_zero]
  obtain ⟨j, hj, rfl⟩ := List.mem_map.mp hv
  exact units_of_remote t (hremote j hj)

/-- **A disconnect touches no unit**, if no job it takes out of the table has
anything here. -/
theorem processDisconnect_of_remote {s : Manager} {conn : Conn}
    (hremote : ∀ j ∈ (tablaJobsExtractByRemoteConn s.tabla conn).1, ∀ a ∈ j.confirmadas,
      a.type = .remoteAlloc) (t : Resource) :
    (processDisconnect conn s).available t = s.available t
      ∧ (processDisconnect conn s).total t = s.total t
      ∧ (processDisconnect conn s).heldUnits t = s.heldUnits t
      ∧ vigentes t (processDisconnect conn s).log = vigentes t s.log := by
  obtain ⟨havailable, htotal, htabla, hlog⟩ := freeJobs_of_remote
    ((limpiarColasPorConn conn s).setTabla (tablaJobsExtractByRemoteConn s.tabla conn).2) hremote
  refine ⟨havailable t, htotal t, ?_, hlog t⟩
  rw [← heldUnits_extract hremote]
  exact congrArg (fun tabla : TablaJobs => (tabla.jobs.map (fun j =>
    units Allocation.held t j.confirmadas)).sum) htabla

/-- **A dead peer takes its units along.** Where the units of the node add up with
those granted over the connection, and no job the disconnect takes out of the
table has anything here, they add up after it without the connection exactly if
what it had been granted and had not given back comes to nothing. -/
theorem disconnect_returns_units (s : Manager) (conn : Conn) (vivas : Conn → Bool)
    (hviva : vivas conn = true) (hbalanced : ∀ t, s.Balanced vivas t)
    (hremote : ∀ j ∈ (tablaJobsExtractByRemoteConn s.tabla conn).1, ∀ a ∈ j.confirmadas,
      a.type = .remoteAlloc) :
    (∀ t, (processDisconnect conn s).Balanced (fun c => vivas c && c != conn) t)
      ↔ ∀ t, suma (vigentesDe (fun c => c == conn) t s.log) = 0 := by
  refine forall_congr' (fun t => ?_)
  obtain ⟨havailable, htotal, hheld, hlog⟩ := processDisconnect_of_remote hremote t
  have hbefore : (s.available t).toInt + s.heldUnits t + suma (vigentesDe vivas t s.log)
      = (s.total t).toInt := hbalanced t
  -- the grants over live connections are the peer's and the others'
  have hsplit := suma_filter_add (fun p => p.ownerConn == conn) (vigentesDe vivas t s.log)
  have hpeer : (vigentesDe vivas t s.log).filter (fun p => p.ownerConn == conn)
      = vigentesDe (fun c => c == conn) t s.log := by
    unfold vigentesDe
    rw [List.filter_filter]
    refine List.filter_congr (fun p _ => ?_)
    show (p.ownerConn == conn && vivas p.ownerConn) = (p.ownerConn == conn)
    cases hp : p.ownerConn == conn
    · rfl
    · rw [eq_of_beq hp, hviva]
      rfl
  have hothers : (vigentesDe vivas t s.log).filter (fun p => !(p.ownerConn == conn))
      = vigentesDe (fun c => vivas c && c != conn) t s.log := by
    unfold vigentesDe
    rw [List.filter_filter]
    exact List.filter_congr (fun p _ => Bool.and_comm _ _)
  rw [hpeer, hothers] at hsplit
  have hafter : (processDisconnect conn s).Balanced (fun c => vivas c && c != conn) t
      ↔ (s.available t).toInt + s.heldUnits t
        + suma (vigentesDe (fun c => vivas c && c != conn) t s.log) = (s.total t).toInt := by
    unfold Manager.Balanced vigentesDe vigentesRemotas
    rw [havailable, htotal, hheld, hlog]
  rw [hafter]
  omega

/-- A peer that gave everything back: the units add up without it. -/
theorem disconnect_returns_units_released :
    ∃ s, Reaches.trace Manager.step (managerInit 4 8 1 ['A'])
        [.message 5 "RESERVE 7 cpu 3".toList [],
         .message 5 "RELEASE 7 cpu 3".toList []] = some s
      ∧ ∀ t, (processDisconnect 5 s).Balanced (fun c => c != 5) t := by
  have hcheck : (Reaches.checked Manager.step (fun _ _ => true) (managerInit 4 8 1 ['A'])
      [.message 5 "RESERVE 7 cpu 3".toList [],
       .message 5 "RELEASE 7 cpu 3".toList []]).any (fun s => decide (
        ([.cpu, .mem, .gpu] : List Resource).all (fun t =>
          decide (s.Balanced (fun _ => true) t)
            && decide (suma (vigentesDe (fun c => c == 5) t s.log) = 0)) = true
        ∧ (tablaJobsExtractByRemoteConn s.tabla 5).1 = [])) = true := by
    decide +kernel
  obtain ⟨s, htrace, -, hs⟩ := Reaches.of_checked (fun _ _ _ => trivial) hcheck
  obtain ⟨hunits, hnone⟩ := of_decide_eq_true hs
  have hall : ∀ t, s.Balanced (fun _ => true) t
      ∧ suma (vigentesDe (fun c => c == 5) t s.log) = 0 := by
    intro t
    have ht := List.all_eq_true.mp hunits t (by cases t <;> simp)
    obtain ⟨hbalanced, hzero⟩ := Bool.and_eq_true_iff.mp ht
    exact ⟨of_decide_eq_true hbalanced, of_decide_eq_true hzero⟩
  refine ⟨s, htrace, (disconnect_returns_units s 5 (fun _ => true) rfl (fun t => (hall t).1)
    (fun j hj => ?_)).mpr (fun t => (hall t).2)⟩
  rw [hnone] at hj
  exact absurd hj List.not_mem_nil

/-- **A dead peer's units are lost.** Connection 5 holds three of four units when
it dies; they stay deducted. -/
theorem disconnect_loses_units :
    ∃ s, Reaches.trace Manager.step (managerInit 4 8 1 ['A'])
        [.message 5 "RESERVE 7 cpu 3".toList []] = some s
      ∧ (∀ t, s.Balanced (fun _ => true) t)
      ∧ (tablaJobsExtractByRemoteConn s.tabla 5).1 = []
      ∧ (processDisconnect 5 s).available .cpu = 1
      ∧ ¬(processDisconnect 5 s).Balanced (fun c => c != 5) .cpu := by
  have hcheck : (Reaches.checked Manager.step (fun _ _ => true) (managerInit 4 8 1 ['A'])
      [.message 5 "RESERVE 7 cpu 3".toList []]).any (fun s => decide (
        ([.cpu, .mem, .gpu] : List Resource).all (fun t =>
          decide (s.Balanced (fun _ => true) t)) = true
        ∧ (tablaJobsExtractByRemoteConn s.tabla 5).1 = []
        ∧ (processDisconnect 5 s).available .cpu = 1
        ∧ ¬(processDisconnect 5 s).Balanced (fun c => c != 5) .cpu)) = true := by
    decide +kernel
  obtain ⟨s, htrace, -, hs⟩ := Reaches.of_checked (fun _ _ _ => trivial) hcheck
  obtain ⟨hunits, hnone, hfree, hnot⟩ := of_decide_eq_true hs
  refine ⟨s, htrace, fun t => ?_, hnone, hfree, hnot⟩
  exact of_decide_eq_true (List.all_eq_true.mp hunits t (by cases t <;> simp))

end Hpc
