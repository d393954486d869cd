import HpcAgent.Operations

/-!
# Who is served first

The queues are first in, first out, but `reserve_resource` looks at what is free
and not at who waits: a request that fits is granted on arrival even where others are
in line before it. This module says when the requests of a resource are served in
the order of their arrival: in the runs in which no arrival that fits meets a
line (`served_in_order_iff`), and in no others. The chronicle of a run keeps the
`Fila` of each resource beside the state; that the two agree is `Cronica.refleja`.
-/

namespace Hpc

/-! ## One resource -/

/-- A request for something was served before nobody who came earlier. -/
def Atencion.EnOrden (a : Atencion) : Prop :=
  0 < a.pedido.amount → ∀ n ∈ a.esperando, a.turno ≤ n

/-- **Served first come, first served.** -/
def Fila.EnOrden (f : Fila) : Prop := ∀ a ∈ f.servidas, a.EnOrden

/-- A request for something that arrives and fits finds nobody in line. -/
def Operacion.Respeta : Operacion → Fila → Prop
  | .reserve p, f => 0 < p.amount → p.amount ≤ f.disponible → f.linea.waiting = []
  | .release _, _ => True
  | .delete _, _ => True

/-- Every operation of the list does, in the state it meets. -/
def Fila.Respetan : List Operacion → Fila → Prop
  | [], _ => True
  | op :: ops, f => op.Respeta f ∧ Respetan ops (op.apply f)

namespace Fila

variable {f : Fila}

theorem enOrden_concat {d : Int32} {l : Line PendingRequest} {a : Atencion} :
    Fila.EnOrden { f with disponible := d, linea := l, servidas := f.servidas ++ [a] }
      ↔ f.EnOrden ∧ a.EnOrden := by
  unfold EnOrden
  simp [or_imp, forall_and]

/-- **The loop serves in order**: who is behind the head came later. -/
theorem enOrden_serve (k : ℕ) (f : Fila) : (f.serve k).EnOrden ↔ f.EnOrden := by
  induction k generalizing f with
  | zero => exact Iff.rfl
  | succ k ih =>
    rw [serve]
    cases hw : f.linea.waiting with
    | nil => exact Iff.rfl
    | cons x rest =>
      dsimp only
      split
      · have hfirst : Atencion.EnOrden ⟨x.1, x.2, rest.map (·.1)⟩ := by
          intro _ n hn
          obtain ⟨y, hy, rfl⟩ := List.mem_map.mp hn
          exact (Line.lt_of_mem_tail hw hy).le
        rw [ih, enOrden_concat]
        exact and_iff_left hfirst
      · exact Iff.rfl

/-- **An arrival is served in order** unless it passes a line. -/
theorem enOrden_reserve (p : PendingRequest) :
    (f.reserve p).EnOrden ↔ f.EnOrden ∧ (Operacion.reserve p).Respeta f := by
  unfold reserve
  split
  · next hfits =>
    rw [enOrden_concat]
    refine and_congr_right (fun _ => ?_)
    show (0 < p.amount → _) ↔ (0 < p.amount → _ → _)
    refine imp_congr_right (fun _ => ⟨fun h _ => ?_, fun h n hn => ?_⟩)
    · -- whoever waits has a smaller number than the one who arrives
      refine List.eq_nil_iff_forall_not_mem.mpr (fun x hx => ?_)
      exact absurd (Line.lt_next hx) (Nat.not_lt.mpr (h x.1 (List.mem_map_of_mem hx)))
    · rw [h hfits] at hn
      exact absurd hn List.not_mem_nil
  · next hfits =>
    have hrespeta : (Operacion.reserve p).Respeta f := fun _ h => absurd h hfits
    split
    · exact (and_iff_left hrespeta).symm
    · exact (and_iff_left hrespeta).symm

/-- **One operation.** -/
theorem enOrden_apply (op : Operacion) (f : Fila) :
    (op.apply f).EnOrden ↔ f.EnOrden ∧ op.Respeta f := by
  cases op with
  | reserve p => exact enOrden_reserve p
  | release amount =>
    refine Iff.trans ?_ (and_iff_left trivial).symm
    show (f.release amount).EnOrden ↔ _
    unfold release
    split
    · exact enOrden_serve _ _
    · exact Iff.rfl
  | delete b => exact (and_iff_left trivial).symm

/-- **A list of operations.** -/
theorem enOrden_tras (ops : List Operacion) (f : Fila) :
    (f.tras ops).EnOrden ↔ f.EnOrden ∧ f.Respetan ops := by
  induction ops generalizing f with
  | nil => exact (and_iff_left trivial).symm
  | cons op ops ih => rw [tras_cons, ih, enOrden_apply, and_assoc, Respetan]

end Fila

/-! ## Runs -/

/-- **The chronicle of a run**: the state, and each resource alone. -/
structure Cronica where
  manager : Manager
  fila : Resource → Fila

namespace Cronica

/-- Nobody has come yet. -/
def init (s : Manager) : Cronica where
  manager := s
  fila t := ⟨s.available t, s.total t, Line.empty, []⟩

/-- A call. -/
def paso (c : Cronica) (call : Call) : Cronica where
  manager := call.run c.manager
  fila t := (c.fila t).tras (call.ops t c.manager)

/-- The calls of a run, one after the other. -/
def tras (c : Cronica) (calls : List Call) : Cronica := calls.foldl paso c

/-- **No arrival that fits passes a line**, in any call of the run. -/
def SinAdelantos : List Call → Cronica → Prop
  | [], _ => True
  | call :: calls, c =>
    (∀ t, (c.fila t).Respetan (call.ops t c.manager)) ∧ SinAdelantos calls (c.paso call)

/-- **The chronicle is the run's**: each `Fila` has the counter and the queue of its
resource, and has served the requests that were granted. -/
theorem refleja (cpu mem gpu : Int32) (ip : CString) (calls : List Call) (t : Resource) :
    (((init (managerInit cpu mem gpu ip)).tras calls).fila t).Refleja []
      ((init (managerInit cpu mem gpu ip)).tras calls).manager t := by
  have hrun : ∀ c : Cronica, (c.fila t).Refleja [] c.manager t →
      ((c.tras calls).fila t).Refleja [] (c.tras calls).manager t := by
    induction calls with
    | nil => exact fun c h => h
    | cons call calls ih => exact fun c h => ih (c.paso call) (hace_call t call c.manager _ _ h)
  refine hrun _ ⟨rfl, rfl, ?_, rfl⟩
  cases t <;> rfl

theorem enOrden_tras (calls : List Call) (c : Cronica) :
    (∀ t, ((c.tras calls).fila t).EnOrden)
      ↔ (∀ t, (c.fila t).EnOrden) ∧ c.SinAdelantos calls := by
  induction calls generalizing c with
  | nil => exact (and_iff_left trivial).symm
  | cons call calls ih =>
    have hcall : (∀ t, ((c.paso call).fila t).EnOrden)
        ↔ (∀ t, (c.fila t).EnOrden) ∧ ∀ t, (c.fila t).Respetan (call.ops t c.manager) := by
      rw [← forall_and]
      exact forall_congr' (fun t => Fila.enOrden_tras _ _)
    show (∀ t, (((c.paso call).tras calls).fila t).EnOrden) ↔ _
    rw [ih, hcall, and_assoc, SinAdelantos]

end Cronica

/-- **Requests are served in the order of their arrival in the runs in which no
arrival that fits meets a line**, and in no others. What was served is what the run
granted. -/
theorem served_in_order_iff (cpu mem gpu : Int32) (ip : CString) (calls : List Call) :
    (∀ t, concesiones t ((Cronica.init (managerInit cpu mem gpu ip)).tras calls).manager.log
        = (((Cronica.init (managerInit cpu mem gpu ip)).tras calls).fila t).servidas.map
          (·.pedido))
      ∧ ((∀ t, (((Cronica.init (managerInit cpu mem gpu ip)).tras calls).fila t).EnOrden)
        ↔ (Cronica.init (managerInit cpu mem gpu ip)).SinAdelantos calls) := by
  refine ⟨fun t => (Cronica.refleja cpu mem gpu ip calls t).servidas, ?_⟩
  rw [Cronica.enOrden_tras]
  refine and_iff_right (fun t a ha => absurd ha List.not_mem_nil)

/-- **A small request overtakes a large one**: with two of four units free, job 2
waits for three when the `RESERVE` of job 3 arrives, and job 3 is served. -/
theorem small_request_overtakes :
    ∃ calls : List Call, (∀ call ∈ calls, ∃ conn msg, call = .message conn msg [])
      ∧ ¬(((Cronica.init (managerInit 4 8 1 ['A'])).tras calls).fila .cpu).EnOrden := by
  refine ⟨[.message 7 "RESERVE 1 cpu 2".toList [], .message 7 "RESERVE 2 cpu 3".toList [],
    .message 7 "RESERVE 3 cpu 1".toList []], by simp, fun h => ?_⟩
  have hserved : (⟨2, ⟨3, 1, 7, .originRemote⟩, [1]⟩ : Atencion)
      ∈ (((Cronica.init (managerInit 4 8 1 ['A'])).tras
        [.message 7 "RESERVE 1 cpu 2".toList [], .message 7 "RESERVE 2 cpu 3".toList [],
          .message 7 "RESERVE 3 cpu 1".toList []]).fila .cpu).servidas := by
    decide +kernel
  exact absurd (h _ hserved (by decide) 1 (List.mem_singleton_self 1)) (by decide)

end Hpc
