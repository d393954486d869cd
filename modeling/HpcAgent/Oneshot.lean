import HpcAgent.Workers

/-!
# Who holds a connection, and whether its output is remembered

Two invariants of one connection under the movements of the event loop.

Output that waits is always asked for: `EPOLLOUT` is in the mask, or a worker
holds an event of the connection and will come by `rearm_conn`, which looks at
what waits (`output_not_forgotten`). `in_handler` is one flag for all workers, so
what carries the proof is only that somebody holds an event while it is set.

That one worker at a time holds an event is what `EPOLLONESHOT` is there for: an
armed connection is in nobody's hands, and a report disarms it. `rearm_conn`
keeps this, since its caller lets go of the event. `enqueue_write` does not: it
goes by `in_handler`, which is still unset when an event was delivered and its
worker is not there yet (`one_worker`, `two_workers`).
-/

namespace Hpc

variable {W : Type}

/-! ## Output that waits -/

/-- Somebody holds an event while `in_handler` is set, and somebody holds an event
or `EPOLLOUT` is asked for while output waits. -/
structure Recordado (k : Descriptor) (H : Set W) : Prop where
  handler : k.inHandler = true → H.Nonempty
  output : 0 < k.salida.writeLen → k.armed.any (·.epollout) = true ∨ H.Nonempty

/-- **A movement keeps output remembered**, if `enqueue_write` arms where it tries
to. -/
theorem Recordado.movimiento {k k' : Descriptor} {H H' : Set W} (h : Recordado k H)
    (hmov : Movimiento (fun _ _ _ mod => mod = true) k H k' H') : Recordado k' H' := by
  cases hmov with
  | rest type => exact ⟨h.handler, h.output⟩
  | report w harmed =>
    have hsome : (insert w H).Nonempty := ⟨w, Set.mem_insert w H⟩
    exact ⟨fun _ => hsome, fun _ => Or.inr hsome⟩
  | begin w hw => exact ⟨fun _ => ⟨w, hw⟩, h.output⟩
  | enqueueWrite msg mod hmod =>
    unfold Descriptor.enqueueWrite
    split
    · refine ⟨h.handler, fun _ => ?_⟩
      cases hin : k.inHandler with
      | false =>
        rw [hmod]
        exact Or.inl rfl
      | true => exact Or.inr (h.handler hin)
    · exact h
  | handleTcpWrite salida hlen =>
    refine ⟨h.handler, fun hpos => ?_⟩
    have hpos : 0 < salida.writeLen := hpos
    rcases hlen with hzero | hsame
    · rw [hzero] at hpos
      exact absurd hpos (lt_irrefl 0)
    · exact h.output (hsame ▸ hpos)
  | rearm w hw =>
    refine ⟨fun hin => absurd hin Bool.false_ne_true, fun hpos => Or.inl ?_⟩
    -- `rearm_conn` reads the length that is asked about
    show decide (0 < k.salida.writeLen) = true
    exact decide_eq_true hpos
  | rearmFailed w hw =>
    exact ⟨fun hin => absurd hin Bool.false_ne_true, fun _ => Or.inr ⟨w, hw⟩⟩

theorem Recordado.nuevo (type : ConnectionType) (m : Mascara) :
    Recordado (.nuevo type m) (∅ : Set W) :=
  ⟨fun hin => absurd hin Bool.false_ne_true, fun hpos => absurd hpos (lt_irrefl 0)⟩

namespace Servidor

variable [DecidableEq W]

/-- A property of one connection that new ones have and movements keep. -/
theorem forall_of_reaches {permitido : Descriptor → Set W → CString → Bool → Prop}
    {P : Descriptor → Set W → Prop} (hnuevo : ∀ type m, P (.nuevo type m) ∅)
    (hmov : ∀ k H k' H', P k H → Movimiento permitido k H k' H' → P k' H')
    {s : Servidor W} (hrun : Reaches step (fun s a => s.Promete permitido a) inicial s) :
    Bien s ∧ ∀ c k, s.conns c = some k → connUsesOneshot k.type = true → P k (s.tiene c) := by
  refine hrun.invariant (I := fun s => Bien s ∧ ∀ c k, s.conns c = some k →
    connUsesOneshot k.type = true → P k (s.tiene c)) ⟨.inicial, fun c k hk hone => ?_⟩
    (fun u a v hu ha hv => ?_)
  · exact absurd ((listening hk).2.symm.trans hone) Bool.false_ne_true
  · obtain ⟨hbien, hall⟩ := hu
    have hsigue := movimiento hbien ha hv
    refine ⟨hsigue.bien, fun c k' hk' hone => ?_⟩
    rcases hsigue.movida c k' hk' hone with ⟨hempty, type, m, rfl⟩ | ⟨k, hk, hone, hmove⟩
    · exact hempty ▸ hnuevo type m
    · exact hmov _ _ _ _ (hall c k hk hone) hmove

/-- Every `EPOLL_CTL_MOD` succeeds. -/
def ModSucceeds : Accion W → Prop
  | .enqueueWrite _ _ _ mod | .rearm _ mod => mod = true
  | _ => True

instance : DecidablePred (ModSucceeds (W := W)) := fun a => by
  cases a <;> unfold ModSucceeds <;> infer_instance

/-- **Queued output is never forgotten.** In every reachable state, an open
connection with output waiting is armed for `EPOLLOUT`, or a worker holds a
delivered event of it and has not executed `rearm_conn` yet. -/
theorem output_not_forgotten {s : Servidor W}
    (hrun : Reaches step (fun _ a => ModSucceeds a) inicial s) {c : Conn} {k : Descriptor}
    (hk : s.conns c = some k) (hone : connUsesOneshot k.type = true)
    (hlen : 0 < k.salida.writeLen) :
    k.armed.any (·.epollout) = true ∨ ∃ w, w ∈ s.tiene c := by
  have hguard : ∀ (u : Servidor W) (a : Accion W), ModSucceeds a →
      u.Promete (fun _ _ _ mod => mod = true) a := by
    intro u a ha
    cases a with
    | enqueueWrite w c msg mod => exact fun _ _ _ => ha
    | _ => trivial
  obtain ⟨-, hall⟩ := forall_of_reaches Recordado.nuevo
    (fun _ _ _ _ h hmov => h.movimiento hmov) (hrun.mono hguard)
  exact (hall c k hk hone).output hlen

/-- The two listening sockets accept a planner (3) and another agent (4), one
worker each. -/
def acepta : List (Accion Bool) :=
  [.epollWait false [(1, ⟨true, false, false⟩)], .begin false, .handleAccept false,
    .readDone false false, .skip false, .rearm false true,
    .epollWait true [(0, ⟨true, false, false⟩)], .begin true, .handleAccept true,
    .readDone true false, .skip true, .rearm true true]

/-- A line is sent to the planner while its own line is being read. -/
theorem output_not_forgotten_handler :
    ∃ s k, Reaches.trace step (inicial : Servidor Bool)
        (acepta ++ [.epollWait false [(3, ⟨true, false, false⟩)], .begin false,
          .enqueueWrite false 3 "JOB_DENIED 1\n".toList true]) = some s
      ∧ s.conns 3 = some k ∧ k.inHandler = true
      ∧ (k.armed.any (·.epollout) = true ∨ ∃ w, w ∈ s.tiene 3) := by
  have hcheck : (Reaches.checked step (fun _ a => decide (ModSucceeds a))
      (inicial : Servidor Bool)
      (acepta ++ [.epollWait false [(3, ⟨true, false, false⟩)], .begin false,
        .enqueueWrite false 3 "JOB_DENIED 1\n".toList true])).any (fun s =>
      (s.conns 3).any (fun k => connUsesOneshot k.type && k.inHandler
        && decide (0 < k.salida.writeLen))) = true := by
    decide +kernel
  obtain ⟨s, htrace, hrun, hs⟩ := Reaches.of_checked (fun _ _ => of_decide_eq_true) hcheck
  obtain ⟨k, hk, hs⟩ := Option.any_eq_true _ _ |>.mp hs
  rw [Bool.and_eq_true, Bool.and_eq_true] at hs
  exact ⟨s, k, htrace, hk, hs.1.2, output_not_forgotten hrun hk hs.1.1 (of_decide_eq_true hs.2)⟩

end Servidor

/-! ## One worker -/

/-- `enqueue_write` arms no connection of which a worker holds an event. -/
def Sola (k : Descriptor) (H : Set W) (msg : CString) (mod : Bool) : Prop :=
  k.Rearma msg mod → H = ∅

/-- One worker at most holds an event, and none while the connection is armed. -/
structure Exclusivo (k : Descriptor) (H : Set W) : Prop where
  one : H.Subsingleton
  armed : k.armed.isSome = true → H = ∅

/-- **A movement keeps a connection in one worker's hands**, if it is not armed
meanwhile. -/
theorem Exclusivo.movimiento {k k' : Descriptor} {H H' : Set W} (h : Exclusivo k H)
    (hmov : Movimiento Sola k H k' H') : Exclusivo k' H' := by
  cases hmov with
  | rest type => exact ⟨h.one, h.armed⟩
  | report w harmed =>
    rw [h.armed harmed]
    exact ⟨by simp, fun hsome => absurd hsome Bool.false_ne_true⟩
  | begin w hw => exact ⟨h.one, h.armed⟩
  | enqueueWrite msg mod hsola =>
    refine ⟨h.one, fun hsome => ?_⟩
    unfold Descriptor.enqueueWrite at hsome
    split at hsome
    · next hcabe =>
      dsimp only at hsome
      split at hsome
      · next hrearma =>
        rw [Bool.and_eq_true, Bool.not_eq_true'] at hrearma
        exact hsola ⟨hcabe, hrearma.1, hrearma.2⟩
      · exact h.armed hsome
    · exact h.armed hsome
  | handleTcpWrite salida hlen => exact ⟨h.one, h.armed⟩
  | rearm w hw =>
    -- the worker that arms it was the only one, and lets go
    have hempty : H \ {w} = ∅ := Set.sdiff_eq_empty.mpr (fun v hv => h.one hv hw)
    exact ⟨h.one.anti Set.sdiff_subset, fun _ => hempty⟩
  | rearmFailed w hw => exact ⟨h.one, h.armed⟩

theorem Exclusivo.nuevo (type : ConnectionType) (m : Mascara) :
    Exclusivo (.nuevo type m) (∅ : Set W) :=
  ⟨Set.subsingleton_empty, fun _ => rfl⟩

namespace Servidor

variable [DecidableEq W]

/-- **One worker per connection**, in every run in which `enqueue_write` arms no
connection of which a worker holds an event. A call that does breaks it: the
next `epoll_wait` of an idle worker may return the connection while the first
worker still holds its event. -/
theorem one_worker {s : Servidor W}
    (hrun : Reaches step (fun s a => s.Promete Sola a) inicial s) :
    (∀ c k, s.conns c = some k → connUsesOneshot k.type = true →
      ∀ w ∈ s.tiene c, ∀ w' ∈ s.tiene c, w = w')
    ∧ ∀ a s', s.step a = some s' → ¬ s.Promete Sola a →
      ∃ c, ∃ w ∈ s'.tiene c, ∀ w', (s'.workers w').events = [] →
        ∃ t, s'.step (.epollWait w' [(c, ⟨true, false, false⟩)]) = some t
          ∧ w ∈ t.tiene c ∧ w' ∈ t.tiene c := by
  obtain ⟨-, hall⟩ := forall_of_reaches Exclusivo.nuevo
    (fun _ _ _ _ h hmov => h.movimiento hmov) hrun
  refine ⟨fun c k hk hone w hw w' hw' => (hall c k hk hone).one hw hw', ?_⟩
  intro a s' hstep ha
  cases a with
  | enqueueWrite v c msg mod =>
    simp only [Promete, Sola, not_forall] at ha
    obtain ⟨k, hk, hone, ⟨hcabe, hin, rfl⟩, hheld⟩ := ha
    obtain ⟨w, hw⟩ := Set.nonempty_iff_ne_empty.mpr hheld
    rw [step] at hstep
    split at hstep
    · rw [hk] at hstep
      obtain rfl := Option.some.inj hstep
      refine ⟨c, w, hw, fun w' hidle => ?_⟩
      have harmed : (k.enqueueWrite msg true).armed = some ⟨true, true, true⟩ := by
        unfold Descriptor.enqueueWrite
        rw [if_pos hcabe, hin]
        rfl
      have hofrece : (s.setConn c (k.enqueueWrite msg true)).ofrece
          [(c, ⟨true, false, false⟩)] = true := by
        unfold ofrece
        simp only [List.length_singleton, List.map_cons, List.map_nil, List.nodup_singleton,
          List.all_cons, List.all_nil, conns_setConn, if_true, Option.bind_some, harmed]
        rfl
      rw [step, if_pos ⟨hidle, hofrece⟩]
      refine ⟨_, rfl, ?_, ?_⟩
      · rw [mem_tiene, workers_setWorker]
        split
        · exact List.mem_cons_self
        · exact hw
      · rw [mem_tiene, workers_setWorker, if_pos rfl]
        exact List.mem_cons_self
    · exact absurd hstep (by simp)
  | _ => exact absurd trivial ha

/-- Neither worker holds an event of the connection a message is sent to. -/
def libre (s : Servidor Bool) : Accion Bool → Bool
  | .enqueueWrite _ c _ _ => decide (c ∉ (s.workers false).events.map (·.1))
    && decide (c ∉ (s.workers true).events.map (·.1))
  | _ => true

theorem promete_of_libre (s : Servidor Bool) (a : Accion Bool) (h : s.libre a = true) :
    s.Promete Sola a := by
  cases a with
  | enqueueWrite w c msg mod =>
    unfold libre at h
    rw [Bool.and_eq_true] at h
    refine fun k hk hone hrearma => Set.eq_empty_iff_forall_notMem.mpr (fun v hv => ?_)
    cases v with
    | false => exact of_decide_eq_true h.1 hv
    | true => exact of_decide_eq_true h.2 hv
  | _ => trivial

/-- The other agent's worker sends to the planner while nobody holds an event of
it, and the planner's next line is delivered to one worker. -/
theorem one_worker_idle :
    ∃ s, Reaches.trace step (inicial : Servidor Bool)
        (acepta ++ [.epollWait true [(4, ⟨true, false, false⟩)], .begin true,
          .enqueueWrite true 3 "JOB_GRANTED 1\n".toList true,
          .epollWait false [(3, ⟨true, true, false⟩)]]) = some s
      ∧ false ∈ s.tiene 3 ∧ ∀ w ∈ s.tiene 3, w = false := by
  have hcheck : (Reaches.checked step libre (inicial : Servidor Bool)
      (acepta ++ [.epollWait true [(4, ⟨true, false, false⟩)], .begin true,
        .enqueueWrite true 3 "JOB_GRANTED 1\n".toList true,
        .epollWait false [(3, ⟨true, true, false⟩)]])).any (fun s =>
      (s.conns 3).any (fun k => connUsesOneshot k.type)
        && decide (3 ∈ (s.workers false).events.map (·.1))) = true := by
    decide +kernel
  obtain ⟨s, htrace, hrun, hs⟩ := Reaches.of_checked promete_of_libre hcheck
  rw [Bool.and_eq_true] at hs
  obtain ⟨k, hk, hone⟩ := Option.any_eq_true _ _ |>.mp hs.1
  have hmem : false ∈ s.tiene 3 := mem_tiene.mpr (of_decide_eq_true hs.2)
  exact ⟨s, htrace, hmem, fun w hw => (one_worker hrun).1 3 k hk hone w hw false hmem⟩

/-- **Two workers on one connection.** The planner's line is delivered to one
worker; before it gets to `in_handler`, the other answers a message of the other
agent by a line to the planner, which arms the planner's connection again, and
is given it by its next `epoll_wait`. -/
theorem two_workers : ¬ ∀ s : Servidor Bool, Reaches step (fun _ _ => True) inicial s →
    ∀ c k, s.conns c = some k → connUsesOneshot k.type = true →
      ∀ w ∈ s.tiene c, ∀ w' ∈ s.tiene c, w = w' := by
  intro hclaim
  have hcheck : (Reaches.checked step (fun _ _ => true) (inicial : Servidor Bool)
      (acepta ++ [.epollWait true [(4, ⟨true, false, false⟩)], .begin true,
        .epollWait false [(3, ⟨true, false, false⟩)],
        .enqueueWrite true 3 "JOB_GRANTED 1\n".toList true,
        .readDone true false, .skip true, .rearm true true,
        .epollWait true [(3, ⟨true, true, false⟩)]])).any (fun s =>
      (s.conns 3).any (fun k => connUsesOneshot k.type)
        && decide (3 ∈ (s.workers false).events.map (·.1))
        && decide (3 ∈ (s.workers true).events.map (·.1))) = true := by
    decide +kernel
  obtain ⟨s, -, hrun, hs⟩ := Reaches.of_checked (fun _ _ _ => trivial) hcheck
  rw [Bool.and_eq_true, Bool.and_eq_true] at hs
  obtain ⟨⟨hconn, hfirst⟩, hsecond⟩ := hs
  obtain ⟨k, hk, hone⟩ := Option.any_eq_true _ _ |>.mp hconn
  exact Bool.false_ne_true (hclaim s hrun 3 k hk hone false
    (mem_tiene.mpr (of_decide_eq_true hfirst)) true (mem_tiene.mpr (of_decide_eq_true hsecond)))

end Servidor

end Hpc
