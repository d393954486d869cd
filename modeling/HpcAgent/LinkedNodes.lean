import HpcAgent.Lib.Buckets
import HpcAgent.Lib.LinkedList
import HpcAgent.Lib.Reaches
import HpcAgent.TablaConns

/-!
# The node table as a map

What the node table is for: the last announce of each address, until it is too old.
`MapaNodos` says so, and this module connects it to the code in two steps. The
chains of the model's table represent a map (`TablaNodos.Representa`), and the
links that `tabla_node_entry.c` moves on its heap represent the chains
(`NodosEnlazados.insertOrUpdate_spec`, `NodosEnlazados.purge_spec`).
-/

namespace Hpc

open Heap

/-! ## The map -/

/-- What is known of a node. -/
structure NodoDatos where
  puerto : Int32
  cpuDisp : Int32
  memDisp : Int32
  gpuDisp : Int32
  lastSeen : ℤ

/-- The entry of the table. -/
def NodoDatos.entrada (d : NodoDatos) (ip : CString) : NodeEntry :=
  ⟨ip, d.puerto, d.cpuDisp, d.memDisp, d.gpuDisp, d.lastSeen⟩

/-- The nodes by their addresses. -/
abbrev MapaNodos := CString → Option NodoDatos

/-- An announce overwrites what was known of the address. -/
def MapaNodos.anunciar (m : MapaNodos) (ip : CString) (d : NodoDatos) : MapaNodos :=
  Function.update m ip (some d)

/-- A purge forgets what is older than the timeout. -/
def MapaNodos.purgar (m : MapaNodos) (now timeout : ℤ) : MapaNodos :=
  fun ip => (m ip).filter (fun d => !decide (timeout < now - d.lastSeen))

/-! ## The chains -/

/-- **The chains represent a map**: an entry is in the bucket of its address, no
address is twice in a bucket, and the entries are those of the map. -/
structure TablaNodos.Representa (t : TablaNodos) (m : MapaNodos) : Prop where
  hash : ∀ i, ∀ e ∈ t.buckets i, hashIp e.ip = i
  nodup : ∀ i, ((t.buckets i).map (·.ip)).Nodup
  mem_iff : ∀ ip d, d.entrada ip ∈ t.buckets (hashIp ip) ↔ m ip = some d

/-- An entry is the entry of its address. -/
theorem NodeEntry.eq_entrada (e : NodeEntry) :
    e = NodoDatos.entrada ⟨e.puerto, e.cpuDisp, e.memDisp, e.gpuDisp, e.lastSeen⟩ e.ip := rfl

/-- What an announce does to a chain. -/
def announceChain (ip : CString) (d : NodoDatos) (chain : List NodeEntry) : List NodeEntry :=
  if chain.any (fun e => e.ip == ip) then
    chain.modifyFirst (fun e => e.ip == ip)
      (fun e => { e with puerto := d.puerto, cpuDisp := d.cpuDisp, memDisp := d.memDisp,
                         gpuDisp := d.gpuDisp, lastSeen := d.lastSeen })
  else d.entrada (copyTo 16 ip) :: chain

theorem announceChain_append {ip : CString} (d : NodoDatos) {before after : List NodeEntry}
    {e : NodeEntry} (he : e.ip = ip) (hbefore : ∀ f ∈ before, (f.ip == ip) = false) :
    announceChain ip d (before ++ e :: after) = before ++ d.entrada ip :: after := by
  have hany : (before ++ e :: after).any (fun e => e.ip == ip) = true :=
    List.any_eq_true.mpr ⟨e, by simp, beq_iff_eq.mpr he⟩
  unfold announceChain
  rw [if_pos hany, List.modifyFirst_append_right hbefore, List.modifyFirst,
    if_pos (beq_iff_eq.mpr he), NodoDatos.entrada, he]

theorem announceChain_of_forall_ne {ip : CString} (d : NodoDatos) {chain : List NodeEntry}
    (hne : ∀ e ∈ chain, e.ip ≠ ip) :
    announceChain ip d chain = d.entrada (copyTo 16 ip) :: chain := by
  unfold announceChain
  refine if_neg (fun hany => ?_)
  obtain ⟨e, he, heq⟩ := List.any_eq_true.mp hany
  exact hne e he (eq_of_beq heq)

/-- **An announce on a chain without repeated addresses**: the other entries stay,
and the address has the new one. -/
theorem announceChain_spec {ip : CString} (hip : ip.length ≤ 15) (d : NodoDatos)
    {chain : List NodeEntry} (hnd : (chain.map (·.ip)).Nodup) :
    (∀ e, e ∈ announceChain ip d chain ↔ (e ∈ chain ∧ e.ip ≠ ip) ∨ e = d.entrada ip)
      ∧ ((announceChain ip d chain).map (·.ip)).Nodup := by
  cases hfind : chain.find? (fun e => e.ip == ip) with
  | some found =>
    obtain ⟨before, after, rfl, hfound, hfirst, -, -⟩ := List.find?_split hfind
    have hfound : found.ip = ip := eq_of_beq hfound
    rw [announceChain_append d hfound hfirst]
    rw [List.map_append, List.map_cons, hfound, List.nodup_middle, List.nodup_cons,
      List.mem_append, not_or] at hnd
    obtain ⟨⟨hbefore, hafter⟩, hnd⟩ := hnd
    have hne : ∀ {l : List NodeEntry}, ip ∉ l.map (·.ip) → ∀ e ∈ l, e.ip ≠ ip :=
      fun hl e he h => hl (h ▸ List.mem_map_of_mem he)
    constructor
    · intro e
      simp only [List.mem_append, List.mem_cons]
      constructor
      · rintro (he | rfl | he)
        · exact Or.inl ⟨Or.inl he, hne hbefore e he⟩
        · exact Or.inr rfl
        · exact Or.inl ⟨Or.inr (Or.inr he), hne hafter e he⟩
      · rintro (⟨he | rfl | he, hip⟩ | rfl)
        · exact Or.inl he
        · exact absurd hfound hip
        · exact Or.inr (Or.inr he)
        · exact Or.inr (Or.inl rfl)
    · rw [List.map_append, List.map_cons, List.nodup_middle, List.nodup_cons, List.mem_append,
        not_or]
      exact ⟨⟨hbefore, hafter⟩, hnd⟩
  | none =>
    have hne : ∀ e ∈ chain, e.ip ≠ ip :=
      fun e he heq => List.find?_eq_none.mp hfind e he (beq_iff_eq.mpr heq)
    have hcopy : copyTo 16 ip = ip := List.take_of_length_le hip
    rw [announceChain_of_forall_ne d hne, hcopy]
    constructor
    · intro e
      rw [List.mem_cons]
      constructor
      · rintro (rfl | he)
        · exact Or.inr rfl
        · exact Or.inl ⟨he, hne e he⟩
      · rintro (⟨he, -⟩ | rfl)
        · exact Or.inr he
        · exact Or.inl rfl
    · rw [List.map_cons, List.nodup_cons]
      refine ⟨fun hmem => ?_, hnd⟩
      obtain ⟨e, he, heq⟩ := List.mem_map.mp hmem
      exact hne e he heq

/-- The chain of the address is all an announce changes. -/
theorem tablaNodosInsertOrUpdate_eq (t : TablaNodos) (now : ℤ) (ip : CString)
    (puerto cpu mem gpu : Int32) :
    tablaNodosInsertOrUpdate t now ip puerto cpu mem gpu
      = ⟨Function.update t.buckets (hashIp ip)
        (announceChain ip ⟨puerto, cpu, mem, gpu, now⟩ (t.buckets (hashIp ip)))⟩ := rfl

namespace TablaNodos.Representa

variable {t : TablaNodos} {m : MapaNodos}

theorem init : tablaNodosInit.Representa (fun _ => none) :=
  ⟨fun _ _ h => absurd h List.not_mem_nil, fun _ => List.nodup_nil,
    fun _ _ => iff_of_false List.not_mem_nil (by simp)⟩

/-- **An announce overwrites.** -/
theorem insertOrUpdate (h : t.Representa m) {ip : CString} (hip : ip.length ≤ 15) (now : ℤ)
    (puerto cpu mem gpu : Int32) :
    (tablaNodosInsertOrUpdate t now ip puerto cpu mem gpu).Representa
      (m.anunciar ip ⟨puerto, cpu, mem, gpu, now⟩) := by
  obtain ⟨hmem, hnd⟩ := announceChain_spec hip ⟨puerto, cpu, mem, gpu, now⟩ (h.nodup (hashIp ip))
  have hbuckets : (tablaNodosInsertOrUpdate t now ip puerto cpu mem gpu).buckets
      = Function.update t.buckets (hashIp ip)
        (announceChain ip ⟨puerto, cpu, mem, gpu, now⟩ (t.buckets (hashIp ip))) := rfl
  constructor
  · intro i e he
    rw [hbuckets] at he
    by_cases hi : i = hashIp ip
    · rw [hi, Function.update_self] at he
      rcases (hmem e).mp he with ⟨he, -⟩ | rfl
      · exact hi ▸ h.hash (hashIp ip) e he
      · exact hi.symm
    · rw [Function.update_of_ne hi] at he
      exact h.hash i e he
  · intro i
    rw [hbuckets]
    by_cases hi : i = hashIp ip
    · rw [hi, Function.update_self]
      exact hnd
    · rw [Function.update_of_ne hi]
      exact h.nodup i
  · intro ip' d
    rw [hbuckets]
    unfold MapaNodos.anunciar
    by_cases hip' : ip' = ip
    · subst hip'
      rw [Function.update_self, Function.update_self, hmem]
      constructor
      · rintro (⟨-, hne⟩ | heq)
        · exact absurd rfl hne
        · cases d
          cases heq
          rfl
      · intro heq
        exact Or.inr (congrArg (NodoDatos.entrada · ip') (Option.some.inj heq).symm)
    · rw [Function.update_of_ne hip', ← h.mem_iff]
      by_cases hi : hashIp ip' = hashIp ip
      · rw [hi, Function.update_self, hmem]
        constructor
        · rintro (⟨he, -⟩ | heq)
          · exact he
          · exact absurd (congrArg NodeEntry.ip heq) hip'
        · exact fun he => Or.inl ⟨he, hip'⟩
      · rw [Function.update_of_ne hi]

/-- **A purge forgets.** -/
theorem purge (h : t.Representa m) (now timeout : ℤ) :
    (tablaNodosPurge t now timeout).Representa (m.purgar now timeout) := by
  have hbuckets : ∀ i, (tablaNodosPurge t now timeout).buckets i
      = (t.buckets i).filter (fun e => decide (now - e.lastSeen ≤ timeout)) := by
    intro i
    show (if i < TAM_TABLA_CONN then _ else _) = _
    split
    · rfl
    · next hi =>
      have hnil : t.buckets i = [] := List.eq_nil_iff_forall_not_mem.mpr
        (fun e he => hi (h.hash i e he ▸ hashIp_lt e.ip))
      rw [hnil, List.filter_nil]
  constructor
  · intro i e he
    rw [hbuckets] at he
    exact h.hash i e (List.mem_of_mem_filter he)
  · intro i
    rw [hbuckets]
    exact (h.nodup i).sublist ((List.filter_sublist).map _)
  · intro ip d
    rw [hbuckets, List.mem_filter, h.mem_iff]
    unfold MapaNodos.purgar
    rw [Option.filter_eq_some_iff]
    simp [NodoDatos.entrada]

/-- **A lookup reads the map**: the port last announced, or `-1`. -/
theorem getPuerto (h : t.Representa m) (ip : CString) :
    tablaNodosGetPuerto t ip = ((m ip).map NodoDatos.puerto).getD (-1) := by
  unfold tablaNodosGetPuerto
  cases hfind : (t.buckets (hashIp ip)).find? (fun e => e.ip == ip) with
  | none =>
    have hnone : m ip = none := by
      refine Option.eq_none_iff_forall_ne_some.mpr (fun d hd => ?_)
      exact List.find?_eq_none.mp hfind _ ((h.mem_iff ip d).mpr hd) (beq_iff_eq.mpr rfl)
    rw [hnone]
    rfl
  | some e =>
    have hip : e.ip = ip := eq_of_beq (List.find?_some (p := fun e : NodeEntry => e.ip == ip) hfind)
    have hmem := List.mem_of_find?_eq_some hfind
    rw [e.eq_entrada, hip, h.mem_iff] at hmem
    rw [hmem]
    rfl

/-- No address is twice in the table. -/
theorem entries_nodup (h : t.Representa m) : (t.entries.map (·.ip)).Nodup := by
  unfold TablaNodos.entries
  rw [List.map_flatMap]
  refine List.nodup_flatMap.mpr ⟨fun i _ => h.nodup i, ?_⟩
  refine List.Nodup.pairwise_of_forall_ne List.nodup_range (fun i _ j _ hij => ?_)
  intro ip hi hj
  obtain ⟨e, he, rfl⟩ := List.mem_map.mp hi
  obtain ⟨f, hf, hip⟩ := List.mem_map.mp hj
  exact hij (by rw [← h.hash i e he, ← h.hash j f hf, hip])

end TablaNodos.Representa

/-! ## The links -/

/-- `TablaNodos`, as the structure is, with the heap of its nodes. -/
structure NodosEnlazados where
  heap : Heap NodeEntry
  buckets : ℕ → Option ℕ

namespace NodosEnlazados

/-- `tabla_nodos_insert_or_update`, at the time `now`, `malloc` returning `nuevo`
where it is called. The loop has at most `rounds` rounds. -/
def insertOrUpdate (rounds nuevo : ℕ) (now : ℤ) (ip : CString) (puerto cpu mem gpu : Int32)
    (t : NodosEnlazados) : Option NodosEnlazados := do
  match ← search (fun e => e.ip == ip) rounds t.heap (t.buckets (hashIp ip)) with
  | some curr =>
    let c ← t.heap curr
    let heap ← t.heap.setVal curr { c.val with
      puerto := puerto
      cpuDisp := cpu
      memDisp := mem
      gpuDisp := gpu
      lastSeen := now }
    return { t with heap := heap }
  | none =>
    let heap ← t.heap.malloc nuevo
      ⟨⟨copyTo 16 ip, puerto, cpu, mem, gpu, now⟩, t.buckets (hashIp ip)⟩
    return ⟨heap, Function.update t.buckets (hashIp ip) (some nuevo)⟩

/-- `tabla_nodos_get_puerto`. -/
def getPuerto (rounds : ℕ) (ip : CString) (t : NodosEnlazados) : Option Int32 := do
  match ← search (fun e => e.ip == ip) rounds t.heap (t.buckets (hashIp ip)) with
  | some curr => return (← t.heap curr).val.puerto
  | none => return -1

/-- The loop of `tabla_nodos_purge` over the buckets with these numbers. -/
def purgeBuckets (rounds : ℕ) (now timeout : ℤ) :
    List ℕ → NodosEnlazados → Option NodosEnlazados
  | [], t => some t
  | i :: ids, t => do
    let (heap, head, _) ← sweep (fun e => decide (timeout < now - e.lastSeen))
      (fun _ _ _ _ => ()) rounds t.heap (t.buckets i) none (t.buckets i) ()
    purgeBuckets rounds now timeout ids ⟨heap, Function.update t.buckets i head⟩

/-- `tabla_nodos_purge`, at the time `now`. -/
def purge (rounds : ℕ) (now timeout : ℤ) : NodosEnlazados → Option NodosEnlazados :=
  purgeBuckets rounds now timeout (List.range TAM_TABLA_CONN)

/-- The model's table with the entries of these lists. -/
def abs (L : ℕ → List (ℕ × NodeEntry)) : TablaNodos := ⟨fun i => (L i).map Prod.snd⟩

theorem buckets_abs (L : ℕ → List (ℕ × NodeEntry)) (i : ℕ) :
    (abs L).buckets i = (L i).map Prod.snd := rfl

/-- A list replaced. -/
theorem abs_update (L : ℕ → List (ℕ × NodeEntry)) (i : ℕ) (l : List (ℕ × NodeEntry)) :
    abs (Function.update L i l)
      = ⟨Function.update (abs L).buckets i (l.map Prod.snd)⟩ := by
  unfold abs
  congr 1
  funext j
  by_cases hj : j = i
  · rw [hj, Function.update_self, Function.update_self]
  · rw [Function.update_of_ne hj, Function.update_of_ne hj]

section Spec

variable {t : NodosEnlazados} {L : ℕ → List (ℕ × NodeEntry)} {rounds : ℕ}

/-- What the loop over a bucket finds. -/
theorem search_bucket (hL : t.heap.Lists t.buckets L) (ip : CString)
    (hrounds : (L (hashIp ip)).length ≤ rounds) :
    search (fun e => e.ip == ip) rounds t.heap (t.buckets (hashIp ip))
      = some (((L (hashIp ip)).find? (fun x => x.2.ip == ip)).map Prod.fst) :=
  search_spec _ (hL.chain _) hrounds

/-- **`tabla_nodos_insert_or_update` on the links is the model's.** -/
theorem insertOrUpdate_spec (hL : t.heap.Lists t.buckets L) {nuevo : ℕ}
    (hfresh : t.heap nuevo = none) (now : ℤ) (ip : CString) (puerto cpu mem gpu : Int32)
    (hrounds : (L (hashIp ip)).length ≤ rounds) :
    ∃ t' L', insertOrUpdate rounds nuevo now ip puerto cpu mem gpu t = some t'
      ∧ t'.heap.Lists t'.buckets L'
      ∧ abs L' = tablaNodosInsertOrUpdate (abs L) now ip puerto cpu mem gpu
      ∧ ∀ i, (L' i).length ≤ (L i).length + 1 := by
  have hlen : ∀ {l : List (ℕ × NodeEntry)}, l.length ≤ (L (hashIp ip)).length + 1 →
      ∀ i, (Function.update L (hashIp ip) l i).length ≤ (L i).length + 1 := by
    intro l hl i
    by_cases hi : i = hashIp ip
    · rw [hi, Function.update_self]
      exact hl
    · rw [Function.update_of_ne hi]
      exact Nat.le_succ _
  unfold insertOrUpdate
  rw [search_bucket hL ip hrounds, tablaNodosInsertOrUpdate_eq, buckets_abs]
  cases hfind : (L (hashIp ip)).find? (fun x => x.2.ip == ip) with
  | some x =>
    obtain ⟨curr, e⟩ := x
    obtain ⟨before, after, hsplit, hsel, hbefore, -, -⟩ := List.find?_split hfind
    have hip : e.ip = ip := eq_of_beq hsel
    have hchain := hsplit ▸ hL.chain (hashIp ip)
    obtain ⟨sig, hcell⟩ := hchain.cell (List.mem_append_right before List.mem_cons_self)
    obtain ⟨heap', hset, hchain', hframe⟩ := hchain.setVal ⟨e.ip, puerto, cpu, mem, gpu, now⟩
    have hreplace := hL.replace (i := hashIp ip) (p := t.buckets (hashIp ip)) hchain'
      (fun a ha => Or.inl (by rw [hsplit]; simpa using ha))
      (fun a ha _ => hframe a (fun heq => ha (by rw [hsplit, heq]; simp)))
    rw [Function.update_eq_self] at hreplace
    refine ⟨{ t with heap := heap' }, Function.update L (hashIp ip)
      (before ++ (curr, ⟨e.ip, puerto, cpu, mem, gpu, now⟩) :: after), ?_, hreplace, ?_,
      hlen (by rw [hsplit]; simp)⟩
    · simp [hcell, hset]
    · rw [abs_update, hsplit, List.map_append, List.map_cons, List.map_append, List.map_cons,
        announceChain_append _ hip (fun f hf => ?_), NodoDatos.entrada, hip]
      obtain ⟨y, hy, rfl⟩ := List.mem_map.mp hf
      exact hbefore y hy
  | none =>
    obtain ⟨heap', hheap⟩ : ∃ heap' : Heap NodeEntry, heap' = Function.update t.heap nuevo
        (some ⟨⟨copyTo 16 ip, puerto, cpu, mem, gpu, now⟩, t.buckets (hashIp ip)⟩) := ⟨_, rfl⟩
    have hmalloc : t.heap.malloc nuevo ⟨⟨copyTo 16 ip, puerto, cpu, mem, gpu, now⟩,
        t.buckets (hashIp ip)⟩ = some heap' := hheap ▸ malloc_of_none hfresh _
    have hnew : nuevo ∉ addrs (L (hashIp ip)) := by
      intro hmem
      obtain ⟨⟨a, v⟩, hx, rfl⟩ := List.mem_map.mp hmem
      obtain ⟨sig, hcell⟩ := (hL.chain (hashIp ip)).cell hx
      exact absurd (hfresh.symm.trans hcell) (by simp)
    refine ⟨⟨heap', Function.update t.buckets (hashIp ip) (some nuevo)⟩, Function.update L
      (hashIp ip) ((nuevo, ⟨copyTo 16 ip, puerto, cpu, mem, gpu, now⟩) :: L (hashIp ip)), ?_, ?_,
      ?_, hlen (by simp)⟩
    · simp [hmalloc]
    · refine hL.replace (hheap ▸ (hL.chain (hashIp ip)).push hnew _) (fun a ha => ?_)
        (fun a _ ha => ?_)
      · rcases List.mem_cons.mp ha with rfl | ha
        · exact Or.inr hfresh
        · exact Or.inl ha
      · rw [hheap]
        exact Function.update_of_ne (by rintro rfl; exact ha hfresh) _ _
    · rw [abs_update, announceChain_of_forall_ne]
      · rfl
      · intro f hf heq
        obtain ⟨y, hy, rfl⟩ := List.mem_map.mp hf
        exact List.find?_eq_none.mp hfind y hy (beq_iff_eq.mpr heq)

/-- **`tabla_nodos_get_puerto` on the links is the model's.** -/
theorem getPuerto_spec (hL : t.heap.Lists t.buckets L) (ip : CString)
    (hrounds : (L (hashIp ip)).length ≤ rounds) :
    getPuerto rounds ip t = some (tablaNodosGetPuerto (abs L) ip) := by
  unfold getPuerto tablaNodosGetPuerto
  have hcomp : ((fun e : NodeEntry => e.ip == ip) ∘ Prod.snd) =
      fun x : ℕ × NodeEntry => x.2.ip == ip := rfl
  rw [search_bucket hL ip hrounds, buckets_abs, List.find?_map, hcomp]
  cases hfind : (L (hashIp ip)).find? (fun x => x.2.ip == ip) with
  | none => rfl
  | some x =>
    obtain ⟨sig, hcell⟩ := (hL.chain (hashIp ip)).cell (List.mem_of_find?_eq_some hfind)
    simp [hcell]

/-- The lists without the entries a purge frees. -/
def purgeLists (now timeout : ℤ) (L : ℕ → List (ℕ × NodeEntry)) (ids : List ℕ) (i : ℕ) :
    List (ℕ × NodeEntry) :=
  if i ∈ ids then (L i).filter (fun x => !decide (timeout < now - x.2.lastSeen)) else L i

/-- **The loop over the buckets filters each.** -/
theorem purgeBuckets_spec (hL : t.heap.Lists t.buckets L) (now timeout : ℤ)
    (hrounds : ∀ i, (L i).length ≤ rounds) {ids : List ℕ} (hids : ids.Nodup) :
    ∃ t', purgeBuckets rounds now timeout ids t = some t'
      ∧ t'.heap.Lists t'.buckets (purgeLists now timeout L ids) := by
  induction ids generalizing t L with
  | nil => exact ⟨t, rfl, hL⟩
  | cons i ids ih =>
    obtain ⟨hi, hids⟩ := List.nodup_cons.mp hids
    obtain ⟨heap', head, u, hsweep, hchain, -, -, hframe⟩ :=
      sweep_chain (fun e : NodeEntry => decide (timeout < now - e.lastSeen))
        (fun (_ : Unit) _ _ _ => ()) (I := fun _ _ _ => True) (fun _ _ _ _ _ _ _ _ => trivial)
        (fun _ _ _ _ _ _ _ => trivial) (hL.chain i) (hrounds i) trivial
    have hsub : ∀ a ∈ addrs ((L i).filter (fun x => !decide (timeout < now - x.2.lastSeen))),
        a ∈ addrs (L i) := fun a ha => (List.filter_sublist.map Prod.fst).subset ha
    have hL' := hL.replace hchain (fun a ha => Or.inl (hsub a ha)) (fun a ha _ => hframe a ha)
    have hsplit : purgeLists now timeout (Function.update L i
          ((L i).filter (fun x => !decide (timeout < now - x.2.lastSeen)))) ids
        = purgeLists now timeout L (i :: ids) := by
      funext j
      unfold purgeLists
      by_cases hj : j = i
      · rw [hj, if_neg hi, Function.update_self, if_pos List.mem_cons_self]
      · rw [Function.update_of_ne hj]
        simp only [List.mem_cons, hj, false_or]
    have hrounds' : ∀ j, (Function.update L i ((L i).filter
        (fun x => !decide (timeout < now - x.2.lastSeen))) j).length ≤ rounds := by
      intro j
      by_cases hj : j = i
      · rw [hj, Function.update_self]
        exact (List.length_filter_le _ _).trans (hrounds i)
      · rw [Function.update_of_ne hj]
        exact hrounds j
    obtain ⟨t', hrun, ht'⟩ := @ih ⟨heap', Function.update t.buckets i head⟩ _ hL' hrounds' hids
    refine ⟨t', ?_, hsplit ▸ ht'⟩
    unfold purgeBuckets
    rw [show sweep _ _ rounds t.heap (t.buckets i) none (t.buckets i) ()
      = some (heap', head, u) from hsweep]
    exact hrun

/-- **`tabla_nodos_purge` on the links is the model's.** -/
theorem purge_spec (hL : t.heap.Lists t.buckets L) (now timeout : ℤ)
    (hrounds : ∀ i, (L i).length ≤ rounds) :
    ∃ t' L', purge rounds now timeout t = some t' ∧ t'.heap.Lists t'.buckets L'
      ∧ abs L' = tablaNodosPurge (abs L) now timeout ∧ ∀ i, (L' i).length ≤ (L i).length := by
  obtain ⟨t', hrun, ht'⟩ := purgeBuckets_spec hL now timeout hrounds List.nodup_range
  refine ⟨t', _, hrun, ht', ?_, fun i => ?_⟩
  · unfold abs tablaNodosPurge
    congr 1
    funext i
    unfold purgeLists
    simp only [List.mem_range]
    split
    · rw [List.filter_map]
      congr 1
      refine List.filter_congr (fun x _ => ?_)
      rw [Function.comp_apply, ← decide_not, decide_eq_decide, not_lt]
    · rfl
  · unfold purgeLists
    split
    · exact List.length_filter_le _ _
    · exact le_refl _

end Spec

end NodosEnlazados

/-! ## The calls on the table -/

/-- A table in use, the map it stands for, and how many announces there were. -/
structure NodosEnUso where
  tabla : NodosEnlazados
  mapa : MapaNodos
  anuncios : ℕ

/-- A call that changes the table, with the time it reads, a bound on the rounds of
its loops, and the address `malloc` returns if it is called. -/
inductive LlamadaNodos
  | insertOrUpdate (rounds nuevo : ℕ) (now : ℤ) (ip : CString) (puerto cpu mem gpu : Int32)
  | purge (rounds : ℕ) (now timeout : ℤ)

namespace NodosEnUso

/-- One call; `none` is an access to what is not allocated, or a loop that is not
over. -/
def step (x : NodosEnUso) : LlamadaNodos → Option NodosEnUso
  | .insertOrUpdate rounds nuevo now ip puerto cpu mem gpu => do
    let tabla ← x.tabla.insertOrUpdate rounds nuevo now ip puerto cpu mem gpu
    return ⟨tabla, x.mapa.anunciar ip ⟨puerto, cpu, mem, gpu, now⟩, x.anuncios + 1⟩
  | .purge rounds now timeout => do
    let tabla ← x.tabla.purge rounds now timeout
    return { x with tabla := tabla, mapa := x.mapa.purgar now timeout }

/-- `malloc` returns what is not in use, an address has at most 15 characters, and a
loop has a round for every announce. The times are any. -/
def Permitido (x : NodosEnUso) : LlamadaNodos → Prop
  | .insertOrUpdate rounds nuevo _ ip .. =>
    x.tabla.heap nuevo = none ∧ ip.length ≤ 15 ∧ x.anuncios ≤ rounds
  | .purge rounds _ _ => x.anuncios ≤ rounds

instance (x : NodosEnUso) (a : LlamadaNodos) : Decidable (x.Permitido a) :=
  match a with
  | .insertOrUpdate .. => inferInstanceAs (Decidable (_ ∧ _ ∧ _))
  | .purge .. => inferInstanceAs (Decidable (_ ≤ _))

/-- A table after `tabla_nodos_init`, on any heap. -/
def inicio (heap : Heap NodeEntry) : NodosEnUso := ⟨⟨heap, fun _ => none⟩, fun _ => none, 0⟩

/-- **The invariant**: the links run through lists that share no node, and their
entries represent the map. -/
structure Fiel (x : NodosEnUso) (L : ℕ → List (ℕ × NodeEntry)) : Prop where
  lists : x.tabla.heap.Lists x.tabla.buckets L
  representa : (NodosEnlazados.abs L).Representa x.mapa
  length_le : ∀ i, (L i).length ≤ x.anuncios

theorem fiel_inicio (heap : Heap NodeEntry) : (inicio heap).Fiel (fun _ => []) :=
  ⟨⟨fun _ => rfl, fun _ _ _ _ h => absurd h List.not_mem_nil⟩, TablaNodos.Representa.init,
    fun _ => le_refl 0⟩

/-- **A call keeps the invariant**, and reads nothing that is not allocated. -/
theorem Fiel.step {x : NodosEnUso} {L : ℕ → List (ℕ × NodeEntry)} (hx : x.Fiel L)
    {a : LlamadaNodos} (ha : x.Permitido a) : ∃ y L', x.step a = some y ∧ y.Fiel L' := by
  cases a with
  | insertOrUpdate rounds nuevo now ip puerto cpu mem gpu =>
    obtain ⟨hfresh, hip, hrounds⟩ := ha
    obtain ⟨t', L', hrun, hL', habs, hlen⟩ := NodosEnlazados.insertOrUpdate_spec hx.lists hfresh
      now ip puerto cpu mem gpu ((hx.length_le _).trans hrounds)
    refine ⟨⟨t', x.mapa.anunciar ip ⟨puerto, cpu, mem, gpu, now⟩, x.anuncios + 1⟩, L', ?_, hL',
      habs ▸ hx.representa.insertOrUpdate hip now puerto cpu mem gpu,
      fun i => (hlen i).trans (Nat.succ_le_succ (hx.length_le i))⟩
    simp [NodosEnUso.step, hrun]
  | purge rounds now timeout =>
    obtain ⟨t', L', hrun, hL', habs, hlen⟩ := NodosEnlazados.purge_spec hx.lists now timeout
      (fun i => (hx.length_le i).trans ha)
    refine ⟨{ x with tabla := t', mapa := x.mapa.purgar now timeout }, L', ?_, hL',
      habs ▸ hx.representa.purge now timeout, fun i => (hlen i).trans (hx.length_le i)⟩
    simp [NodosEnUso.step, hrun]

variable {heap : Heap NodeEntry} {x : NodosEnUso}

/-- The invariant holds in every run. -/
theorem exists_fiel (hrun : Reaches step Permitido (inicio heap) x) : ∃ L, x.Fiel L := by
  refine hrun.invariant (I := fun x => ∃ L, x.Fiel L) ⟨_, fiel_inicio heap⟩
    (fun u a v ⟨L, hu⟩ ha hstep => ?_)
  obtain ⟨y, L', hy, hfiel⟩ := hu.step ha
  obtain rfl := Option.some.inj (hstep.symm.trans hy)
  exact ⟨L', hfiel⟩

/-- **The node table is a last-writer-wins map with expiry.** After any announces and
purges the buckets are lists whose entries are those of the map that each announce
overwrites and each purge filters: every address at most once, in the bucket of its
hash. A lookup returns the port last announced by an address that is present, and
`-1` for one that is absent; and no call fails. -/
theorem tablaNodos_representa (hrun : Reaches step Permitido (inicio heap) x) :
    ∃ L : ℕ → List (ℕ × NodeEntry), (∀ i, x.tabla.heap.Chain (x.tabla.buckets i) (L i))
      ∧ (∀ i, ∀ e ∈ L i, hashIp e.2.ip = i)
      ∧ (((List.range TAM_TABLA_CONN).flatMap L).map (fun e => e.2.ip)).Nodup
      ∧ (∀ ip d, (∃ a, (a, d.entrada ip) ∈ L (hashIp ip)) ↔ x.mapa ip = some d)
      ∧ (∀ rounds, x.anuncios ≤ rounds → ∀ ip, x.tabla.getPuerto rounds ip
        = some (match x.mapa ip with
          | some d => d.puerto
          | none => -1))
      ∧ ∀ a, x.Permitido a → ∃ y, x.step a = some y := by
  obtain ⟨L, hx⟩ := exists_fiel hrun
  refine ⟨L, hx.lists.chain, fun i e he => ?_, ?_, fun ip d => ?_, fun rounds hrounds ip => ?_,
    fun a ha => ?_⟩
  · exact hx.representa.hash i e.2 (List.mem_map_of_mem he)
  · have hnodup := hx.representa.entries_nodup
    have hentries : (NodosEnlazados.abs L).entries
        = ((List.range TAM_TABLA_CONN).flatMap L).map Prod.snd := List.map_flatMap.symm
    rw [hentries, List.map_map] at hnodup
    exact hnodup
  · rw [← hx.representa.mem_iff, NodosEnlazados.buckets_abs, List.mem_map]
    constructor
    · rintro ⟨a, ha⟩
      exact ⟨_, ha, rfl⟩
    · rintro ⟨⟨a, e⟩, ha, rfl⟩
      exact ⟨a, ha⟩
  · rw [NodosEnlazados.getPuerto_spec hx.lists ip ((hx.length_le _).trans hrounds),
      hx.representa.getPuerto]
    cases x.mapa ip <;> rfl
  · obtain ⟨y, _, hy, -⟩ := hx.step ha
    exact ⟨y, hy⟩

/-- Two addresses of one bucket: the second announces itself again, and the purge
forgets the first, which is behind it. -/
theorem tablaNodos_representa_two :
    ∃ x, Reaches.trace step (inicio (fun _ => none))
        [.insertOrUpdate 0 4 100 "10.0.0.10".toList 8000 4 1024 0,
          .insertOrUpdate 1 7 103 "10.0.0.39".toList 8001 2 512 1,
          .insertOrUpdate 2 9 110 "10.0.0.39".toList 8002 1 512 1, .purge 3 118 15] = some x
      ∧ x.tabla.getPuerto 3 "10.0.0.10".toList = some (-1)
      ∧ x.tabla.getPuerto 3 "10.0.0.39".toList = some 8002 := by
  have hcheck : (Reaches.checked step (fun x a => decide (x.Permitido a)) (inicio (fun _ => none))
      [.insertOrUpdate 0 4 100 "10.0.0.10".toList 8000 4 1024 0,
        .insertOrUpdate 1 7 103 "10.0.0.39".toList 8001 2 512 1,
        .insertOrUpdate 2 9 110 "10.0.0.39".toList 8002 1 512 1, .purge 3 118 15]).any (fun x =>
      decide (x.anuncios = 3 ∧ x.mapa "10.0.0.10".toList = none
        ∧ (x.mapa "10.0.0.39".toList).map NodoDatos.puerto = some 8002)) = true := by
    decide +kernel
  obtain ⟨x, htrace, hrun, hx⟩ := Reaches.of_checked (fun _ _ => of_decide_eq_true) hcheck
  obtain ⟨hanuncios, hfirst, hlast⟩ := of_decide_eq_true hx
  obtain ⟨-, -, -, -, -, hpuerto, -⟩ := tablaNodos_representa hrun
  obtain ⟨d, hd, hd'⟩ := Option.map_eq_some_iff.mp hlast
  refine ⟨x, htrace, ?_, ?_⟩
  · rw [hpuerto 3 hanuncios.le, hfirst]
  · rw [hpuerto 3 hanuncios.le, hd]
    exact congrArg some hd'

/-- **`-1` is no sign of absence**: an announce may carry it. -/
theorem getPuerto_announced_minus_one :
    ¬ ∀ (heap : Heap NodeEntry) (x : NodosEnUso), Reaches step Permitido (inicio heap) x →
      ∀ rounds, x.anuncios ≤ rounds → ∀ ip,
        (x.tabla.getPuerto rounds ip = some (-1) ↔ x.mapa ip = none) := by
  intro h
  have hcheck : (Reaches.checked step (fun x a => decide (x.Permitido a)) (inicio (fun _ => none))
      [.insertOrUpdate 0 4 100 "10.0.0.1".toList (-1) 4 1024 0]).any (fun x =>
      decide (x.anuncios = 1 ∧ x.mapa "10.0.0.1".toList ≠ none
        ∧ x.tabla.getPuerto 1 "10.0.0.1".toList = some (-1))) = true := by
    decide +kernel
  obtain ⟨x, -, hrun, hx⟩ := Reaches.of_checked (fun _ _ => of_decide_eq_true) hcheck
  obtain ⟨hanuncios, hpresent, hpuerto⟩ := of_decide_eq_true hx
  exact hpresent ((h _ x hrun 1 hanuncios.le _).mp hpuerto)

end NodosEnUso

end Hpc
