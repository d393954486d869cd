import HpcAgent.Parsing

/-!
# The command of the planner

`host_sort` and `armar_comando_ordenado` of `c_agent_client.erl`, which write
the `JOB_REQUEST` that `parse_job_request` reads. The planner asks each node
for a random amount of each resource; the amounts are an argument here, one
for each node and resource.

The two programs agree on the request and on its order
(`parseJobRequest_armarComando`): the entries come sorted by host and, for one
host, in the order cpu, mem, gpu, whatever the order the nodes were listed in.
An amount of zero leaves no trace, and neither does a node without any; if it
is the last one the command ends in a blank, which the parser skips.
-/

namespace Hpc

open Scan

/-- The map of a node, as far as the order of the nodes reads it. -/
structure NodeMap where
  host : CString

/-- `host_sort`. -/
def hostSort (mapsList : List NodeMap) : List NodeMap :=
  mapsList.insertionSort (fun a b => a.host ≤ b.host)

/-- `case N of 0 -> ""; N -> ":type:" ++ integer_to_list(N) end`. -/
def pairText (type : Resource) (n : ℕ) : CString :=
  if n = 0 then [] else ':' :: (type.toStr ++ ':' :: showInt n)

/-- `case Tail of [] -> ""; _ -> " " end`. -/
def separator : List NodeMap → CString
  | [] => []
  | _ :: _ => [' ']

/-- `armar_comando_ordenado`, with the amounts that are drawn. -/
def armarComandoOrdenado (rand : NodeMap → Resource → ℕ) : List NodeMap → CString
  | [] => []
  | head :: tail =>
    match rand head .cpu, rand head .mem, rand head .gpu with
    | 0, 0, 0 => armarComandoOrdenado rand tail
    | first, second, third =>
      '@' :: (head.host ++ (pairText .cpu first ++ (pairText .mem second
        ++ (pairText .gpu third ++ (separator tail ++ armarComandoOrdenado rand tail)))))

/-- The line `disparar_rafaga` sends, without its newline. -/
def jobRequestLine (jobId : ℕ) (comando : CString) : CString :=
  Cmd.jobRequest ++ ' ' :: (showInt jobId ++ ' ' :: comando)

/-! ## One node -/

/-- The pairs of a node that ask for something. -/
def pares (rand : NodeMap → Resource → ℕ) (node : NodeMap) : List (Resource × ℕ) :=
  (([.cpu, .mem, .gpu] : List Resource).map (fun t => (t, rand node t))).filter
    (fun r => r.2 != 0)

/-- The token of a node. -/
def bloque (rand : NodeMap → Resource → ℕ) (node : NodeMap) : CString :=
  '@' :: (node.host ++ (pares rand node).flatMap (fun r => pairText r.1 r.2))

/-- The requests of a node. -/
def entradas (rand : NodeMap → Resource → ℕ) (node : NodeMap) : List ResourceRequest :=
  (pares rand node).map (fun r => ⟨node.host, r.1, Int32.ofNat r.2⟩)

/-- A node whose host the parser's buffers hold, and amounts that are `int`s. -/
structure NodeMap.Valid (rand : NodeMap → Resource → ℕ) (node : NodeMap) : Prop where
  nonempty : 1 ≤ node.host.length
  short : node.host.length ≤ 15
  chars : ∀ c ∈ node.host, c ≠ ':' ∧ isSpace c = false
  amounts : ∀ t, rand node t < 2 ^ 31

variable {rand : NodeMap → Resource → ℕ} {node : NodeMap}

theorem pares_eq_nil : pares rand node = []
    ↔ rand node .cpu = 0 ∧ rand node .mem = 0 ∧ rand node .gpu = 0 := by
  unfold pares
  simp

theorem flatMap_pairText : (pares rand node).flatMap (fun r => pairText r.1 r.2)
    = pairText .cpu (rand node .cpu) ++ (pairText .mem (rand node .mem)
      ++ pairText .gpu (rand node .gpu)) := by
  have hzero : ∀ l : List (Resource × ℕ),
      (l.filter (fun r => r.2 != 0)).flatMap (fun r => pairText r.1 r.2)
        = l.flatMap (fun r => pairText r.1 r.2) := by
    intro l
    induction l with
    | nil => rfl
    | cons r l ih =>
      by_cases hr : r.2 = 0
      · rw [List.filter_cons_of_neg (by simp [hr]), ih, List.flatMap_cons, pairText, if_pos hr,
          List.nil_append]
      · rw [List.filter_cons_of_pos (by simp [hr]), List.flatMap_cons, List.flatMap_cons, ih]
  unfold pares
  rw [hzero]
  simp

/-- **A node of the command** writes its token, and a separator if other nodes
follow; a node that is asked for nothing writes nothing. -/
theorem armarComandoOrdenado_cons (tail : List NodeMap) :
    armarComandoOrdenado rand (node :: tail)
      = if pares rand node = [] then armarComandoOrdenado rand tail
        else bloque rand node ++ (separator tail ++ armarComandoOrdenado rand tail) := by
  rw [armarComandoOrdenado]
  split
  · next h₁ h₂ h₃ => rw [if_pos (pares_eq_nil.mpr ⟨h₁, h₂, h₃⟩)]
  · next h =>
    have hpares : pares rand node ≠ [] := fun hnil => by
      obtain ⟨h₁, h₂, h₃⟩ := pares_eq_nil.mp hnil
      exact h h₁ h₂ h₃
    rw [if_neg hpares, bloque, flatMap_pairText]
    simp

/-! ## Reading a token back -/

/-- The first character behind a pair starts the next pair, if there is one. -/
theorem head?_flatMap_pairText (l : List (Resource × ℕ)) :
    ∀ c ∈ (l.flatMap (fun r => pairText r.1 r.2)).head?, c = ':' := by
  induction l with
  | nil => exact fun c hc => nomatch hc
  | cons r l ih =>
    intro c hc
    rw [List.flatMap_cons] at hc
    unfold pairText at hc
    split at hc
    · exact ih c hc
    · exact (Option.some.inj hc).symm

theorem not_mem_toStr (t : Resource) : ':' ∉ t.toStr := by cases t <;> decide

theorem toInt32_ofNat {n : ℕ} (h : n < 2 ^ 31) : toInt32 n = Int32.ofNat n := by
  unfold toInt32
  rw [min_eq_left (by omega), max_eq_right (by omega)]
  rfl

/-- `%d` reads an amount back. -/
theorem int?_amount {n : ℕ} (h : n < 2 ^ 31) (rest : CString)
    (hrest : ∀ c ∈ rest.head?, c.isDigit = false) :
    int? (showInt n ++ rest) = some (Int32.ofNat n, rest) := by
  unfold int?
  rw [decimal?_showInt _ hrest, Option.map_some, toInt32_ofNat h]

theorem toInt_ofNat {n : ℕ} (h : n < 2 ^ 31) : (Int32.ofNat n).toInt = n := by
  rw [Int32.toInt_ofNat_of_lt h]

/-- **The pairs of a node are read back**, in their order. -/
theorem parsePairs_flatMap (ip : CString) {l : List (Resource × ℕ)}
    (hpos : ∀ r ∈ l, r.2 ≠ 0) (hmax : ∀ r ∈ l, r.2 < 2 ^ 31) {n : ℕ} (hn : l.length ≤ n) :
    parsePairs ip n (l.flatMap (fun r => pairText r.1 r.2))
      = some (l.map (fun r => ⟨ip, r.1, Int32.ofNat r.2⟩)) := by
  induction l generalizing n with
  | nil =>
    unfold parsePairs
    split
    · next heq => exact absurd heq (List.cons_ne_nil _ _).symm
    · rfl
  | cons r l ih =>
    obtain ⟨t, a⟩ := r
    cases n with
    | zero => exact absurd hn (Nat.not_succ_le_zero _)
    | succ n =>
      have ha0 : a ≠ 0 := hpos (t, a) List.mem_cons_self
      have hamax : a < 2 ^ 31 := hmax (t, a) List.mem_cons_self
      have hnext := ih (fun r hr => hpos r (List.mem_cons_of_mem _ hr))
        (fun r hr => hmax r (List.mem_cons_of_mem _ hr)) (Nat.le_of_succ_le_succ hn)
      have htext : ((t, a) :: l).flatMap (fun r => pairText r.1 r.2)
          = ':' :: (t.toStr ++ ':' :: (showInt a ++ l.flatMap (fun r => pairText r.1 r.2))) := by
        rw [List.flatMap_cons, pairText, if_neg ha0]
        simp
      have hname : until? 7 ':' (t.toStr ++ ':' :: (showInt a
          ++ l.flatMap (fun r => pairText r.1 r.2)))
          = some (t.toStr, ':' :: (showInt a ++ l.flatMap (fun r => pairText r.1 r.2))) :=
        until?_append (by cases t <;> decide) (by cases t <;> decide) (not_mem_toStr t)
          (fun c hc => (Option.some.inj hc).symm)
      have hamount := int?_amount hamax (l.flatMap (fun r => pairText r.1 r.2))
        (fun c hc => by rw [head?_flatMap_pairText l c hc]; decide)
      have hgt : (0 : Int32) < Int32.ofNat a := by
        rw [Int32.lt_iff_toInt_lt, toInt_ofNat hamax]
        show (0 : ℤ) < a
        omega
      rw [htext, parsePairs, hname]
      simp only [Option.bind_eq_bind, Option.bind_some, List.isPrefixOf?, beq_self_eq_true,
        if_true, hamount, resourceOf_toStr, hnext, if_pos hgt]
      rfl

namespace NodeMap.Valid

variable (h : node.Valid rand)

include h

theorem host_ne_nil : node.host ≠ [] := List.ne_nil_of_length_pos h.nonempty

theorem pares_lt : ∀ r ∈ pares rand node, r.2 < 2 ^ 31 := by
  intro r hr
  obtain ⟨hmem, -⟩ := List.mem_filter.mp hr
  obtain ⟨t, -, rfl⟩ := List.mem_map.mp hmem
  exact h.amounts t

/-- **The token of a node is read back.** -/
theorem parseToken_bloque (hne : pares rand node ≠ []) :
    parseToken (bloque rand node) = some (entradas rand node) := by
  have hpos : ∀ r ∈ pares rand node, r.2 ≠ 0 := fun r hr => by
    simpa using (List.mem_filter.mp hr).2
  have hstop : ':' ∉ node.host := fun hmem => (h.chars ':' hmem).1 rfl
  have hhost : until? 15 ':' (node.host
      ++ (pares rand node).flatMap (fun r => pairText r.1 r.2))
      = some (node.host, (pares rand node).flatMap (fun r => pairText r.1 r.2)) :=
    until?_append h.host_ne_nil h.short hstop (head?_flatMap_pairText _)
  have hfirst : ((pares rand node).flatMap (fun r => pairText r.1 r.2)).head? = some ':' := by
    obtain ⟨r, l, hl⟩ := List.exists_cons_of_ne_nil hne
    have hr : r.2 ≠ 0 := hpos r (hl ▸ List.mem_cons_self)
    rw [hl, List.flatMap_cons, pairText, if_neg hr]
    rfl
  have hlen : (pares rand node).length
      ≤ ((pares rand node).flatMap (fun r => pairText r.1 r.2)).length := by
    rw [List.length_flatMap, ← List.length_map (fun r : Resource × ℕ => (pairText r.1 r.2).length)]
    refine List.length_le_sum_of_one_le _ (fun i hi => ?_)
    obtain ⟨r, hr, rfl⟩ := List.mem_map.mp hi
    unfold pairText
    rw [if_neg (hpos r hr)]
    exact Nat.succ_le_succ (Nat.zero_le _)
  unfold parseToken bloque
  simp only [List.isPrefixOf?, beq_self_eq_true, if_true, Option.bind_eq_bind,
    Option.bind_some, hhost, hfirst]
  exact parsePairs_flatMap node.host hpos h.pares_lt hlen

/-- The token of a node has no blank. -/
theorem blank_not_mem_bloque : ' ' ∉ bloque rand node := by
  have htype : ∀ t : Resource, ' ' ∉ t.toStr := fun t => by cases t <;> decide
  have hhost : ' ' ∉ node.host := fun hmem =>
    Bool.false_ne_true ((h.chars ' ' hmem).2.symm.trans (by decide))
  unfold bloque
  rw [List.mem_cons, List.mem_append, List.mem_flatMap, not_or, not_or]
  refine ⟨by decide, hhost, ?_⟩
  rintro ⟨r, -, hr⟩
  unfold pairText at hr
  split at hr
  · exact List.not_mem_nil hr
  · rw [List.mem_cons, List.mem_append, List.mem_cons] at hr
    rcases hr with hr | hr | hr | hr
    · exact absurd hr (by decide)
    · exact htype r.1 hr
    · exact absurd hr (by decide)
    · exact blank_not_mem_showInt r.2 hr

end NodeMap.Valid

/-! ## Reading the command back -/

theorem bloque_ne_nil (rand : NodeMap → Resource → ℕ) (node : NodeMap) :
    bloque rand node ≠ [] := List.cons_ne_nil _ _

/-- **The tokens of the command** are those of the nodes that are asked for
something. -/
theorem tokens_armarComandoOrdenado {nodes : List NodeMap} (h : ∀ m ∈ nodes, m.Valid rand) :
    tokens ' ' (armarComandoOrdenado rand nodes)
      = (nodes.filter (fun m => pares rand m != [])).map (bloque rand) := by
  induction nodes with
  | nil => rfl
  | cons head tail ih =>
    have ih := ih (fun m hm => h m (List.mem_cons_of_mem _ hm))
    have hhead := h head List.mem_cons_self
    rw [armarComandoOrdenado_cons]
    by_cases hpares : pares rand head = []
    · rw [if_pos hpares, List.filter_cons_of_neg (by simp [hpares]), ih]
    · rw [if_neg hpares, List.filter_cons_of_pos (by simp [hpares]), List.map_cons]
      cases tail with
      | nil =>
        show tokens ' ' (bloque rand head ++ ([] ++ [])) = [bloque rand head]
        rw [List.append_nil, List.append_nil]
        exact tokens_of_not_mem (bloque_ne_nil _ _) hhead.blank_not_mem_bloque
      | cons next tail =>
        show tokens ' ' (bloque rand head ++ ' ' :: armarComandoOrdenado rand (next :: tail)) = _
        rw [tokens_append (bloque_ne_nil _ _) hhead.blank_not_mem_bloque, ih]

/-- **The tokens of the nodes are read back**, one node after the other. -/
theorem parseTokens_bloques {nodes : List NodeMap} (h : ∀ m ∈ nodes, m.Valid rand) :
    parseTokens ((nodes.filter (fun m => pares rand m != [])).map (bloque rand))
      = some (nodes.flatMap (entradas rand)) := by
  induction nodes with
  | nil => rfl
  | cons head tail ih =>
    have ih := ih (fun m hm => h m (List.mem_cons_of_mem _ hm))
    by_cases hpares : pares rand head = []
    · have hnone : entradas rand head = [] := by
        unfold entradas
        rw [hpares]
        rfl
      rw [List.filter_cons_of_neg (by simp [hpares]), ih, List.flatMap_cons, hnone,
        List.nil_append]
    · rw [List.filter_cons_of_pos (by simp [hpares]), List.map_cons, parseTokens,
        (h head List.mem_cons_self).parseToken_bloque hpares, ih, List.flatMap_cons]
      rfl

/-- The line is read back. -/
theorem parseJobRequest_jobRequestLine {nodes : List NodeMap} (h : ∀ m ∈ nodes, m.Valid rand)
    {jobId : ℕ} (hid : jobId < 2 ^ 31) :
    parseJobRequest (jobRequestLine jobId (armarComandoOrdenado rand nodes))
      = some (Int32.ofNat jobId, nodes.flatMap (entradas rand)) := by
  have hblank : ∀ s : CString, ∀ c ∈ (' ' :: s).head?, c.isDigit = false :=
    fun s c hc => (head?_space c hc).1
  have hline : parseIdLine Cmd.jobRequest
      (jobRequestLine jobId (armarComandoOrdenado rand nodes)) = some (Int32.ofNat jobId) := by
    unfold parseIdLine jobRequestLine
    simp only [isPrefixOf?_append, Option.bind_eq_bind, Option.bind_some, int?_space,
      int?_amount hid _ (hblank _)]
    rfl
  have htokens : (tokens ' ' (jobRequestLine jobId (armarComandoOrdenado rand nodes))).drop 2
      = (nodes.filter (fun m => pares rand m != [])).map (bloque rand) := by
    unfold jobRequestLine
    rw [tokens_append (by decide) (by decide), tokens_append showInt_ne_nil
      (blank_not_mem_showInt jobId), tokens_armarComandoOrdenado h]
    rfl
  unfold parseJobRequest
  rw [hline, htokens, parseTokens_bloques h]
  rfl

/-! ## The order of the requests -/

/-- The place of a resource in `resource_t`. -/
def Resource.rank : Resource → ℕ
  | .cpu => 0
  | .mem => 1
  | .gpu => 2

/-- **The global order**: by host, and for one host by resource. -/
def ResourceRequest.Before (a b : ResourceRequest) : Prop :=
  a.ip < b.ip ∨ (a.ip = b.ip ∧ a.type.rank < b.type.rank)

theorem pairwise_entradas (rand : NodeMap → Resource → ℕ) (node : NodeMap) :
    (entradas rand node).Pairwise ResourceRequest.Before := by
  refine List.Pairwise.map (R := fun a b => a.1.rank < b.1.rank) _
    (fun a b hab => Or.inr ⟨rfl, hab⟩) (List.Pairwise.filter _ ?_)
  refine List.Pairwise.map (R := fun a b : Resource => a.rank < b.rank) _ (fun a b hab => hab) ?_
  decide

/-- The requests of the nodes, sorted by host, are in the global order. -/
theorem pairwise_flatMap_entradas {nodes : List NodeMap}
    (hsorted : nodes.Pairwise (fun a b => a.host < b.host)) :
    (nodes.flatMap (entradas rand)).Pairwise ResourceRequest.Before := by
  refine List.pairwise_flatMap.mpr ⟨fun m _ => pairwise_entradas rand m, hsorted.imp ?_⟩
  intro a b hab x hx y hy
  obtain ⟨r, -, rfl⟩ := List.mem_map.mp hx
  obtain ⟨q, -, rfl⟩ := List.mem_map.mp hy
  exact Or.inl hab

/-- `host_sort` sorts distinct hosts strictly. -/
theorem pairwise_hostSort {nodes : List NodeMap} (hnodup : (nodes.map (·.host)).Nodup) :
    (hostSort nodes).Pairwise (fun a b => a.host < b.host) := by
  have hle : (hostSort nodes).Pairwise (fun a b => a.host ≤ b.host) := by
    have : Std.Total (fun a b : NodeMap => a.host ≤ b.host) := ⟨fun a b => le_total a.host b.host⟩
    have : IsTrans NodeMap (fun a b => a.host ≤ b.host) := ⟨fun a b c => le_trans⟩
    exact List.pairwise_insertionSort _ nodes
  have hne : (hostSort nodes).Pairwise (fun a b => a.host ≠ b.host) := by
    have hperm := (List.perm_insertionSort (fun a b : NodeMap => a.host ≤ b.host) nodes).map
      (·.host)
    exact List.pairwise_map.mp (hperm.nodup_iff.mpr hnodup)
  exact (hle.and hne).imp (fun h => lt_of_le_of_ne h.1 h.2)

theorem mem_entradas {r : ResourceRequest} (h : node.Valid rand) :
    r ∈ entradas rand node
      ↔ r.ip = node.host ∧ r.amount ≠ 0 ∧ r.amount.toInt = rand node r.type := by
  have hamount : ∀ t, (Int32.ofNat (rand node t)).toInt = rand node t :=
    fun t => toInt_ofNat (h.amounts t)
  constructor
  · intro hr
    obtain ⟨q, hq, rfl⟩ := List.mem_map.mp hr
    obtain ⟨hmem, hne⟩ := List.mem_filter.mp hq
    obtain ⟨t, -, rfl⟩ := List.mem_map.mp hmem
    refine ⟨rfl, fun hzero => ?_, hamount t⟩
    have hne : rand node t ≠ 0 := by simpa using hne
    have hzero : ((Int32.ofNat (rand node t)).toInt : ℤ) = 0 := congrArg Int32.toInt hzero
    rw [hamount t] at hzero
    omega
  · rintro ⟨hip, hne, heq⟩
    have hnat : rand node r.type ≠ 0 := fun hzero => by
      rw [hzero] at heq
      exact hne (Int32.toInt_inj.mp heq)
    refine List.mem_map.mpr ⟨(r.type, rand node r.type), List.mem_filter.mpr ⟨?_, by simpa⟩, ?_⟩
    · exact List.mem_map.mpr ⟨r.type, by cases r.type <;> simp, rfl⟩
    · obtain ⟨ip, t, a⟩ := r
      obtain rfl : ip = node.host := hip
      exact congrArg (ResourceRequest.mk node.host t)
        (Int32.toInt_inj.mp ((hamount t).trans heq.symm))

/-- **The planner's command survives the parser.** Whatever the order the nodes
are listed in and whatever amounts are drawn, `parse_job_request` accepts the
line, returns its id, and its list is made of the amounts that are not zero, each
once, in the global order. -/
theorem parseJobRequest_armarComando (rand : NodeMap → Resource → ℕ) (nodes : List NodeMap)
    (jobId : ℕ) (hid : jobId < 2 ^ 31) (hnodup : (nodes.map (·.host)).Nodup)
    (hvalid : ∀ m ∈ nodes, m.Valid rand) :
    ∃ requests,
      parseJobRequest (jobRequestLine jobId (armarComandoOrdenado rand (hostSort nodes)))
          = some (Int32.ofNat jobId, requests)
        ∧ requests.Pairwise ResourceRequest.Before
        ∧ ∀ r, r ∈ requests
          ↔ ∃ m ∈ nodes, r.ip = m.host ∧ r.amount ≠ 0 ∧ r.amount.toInt = rand m r.type := by
  have hmem : ∀ m, m ∈ hostSort nodes ↔ m ∈ nodes := fun m => List.mem_insertionSort _
  have hsorted : ∀ m ∈ hostSort nodes, m.Valid rand := fun m hm => hvalid m ((hmem m).mp hm)
  refine ⟨(hostSort nodes).flatMap (entradas rand), parseJobRequest_jobRequestLine hsorted hid,
    pairwise_flatMap_entradas (pairwise_hostSort hnodup), fun r => ?_⟩
  rw [List.mem_flatMap]
  constructor
  · rintro ⟨m, hm, hr⟩
    exact ⟨m, (hmem m).mp hm, (mem_entradas (hsorted m hm)).mp hr⟩
  · rintro ⟨m, hm, hr⟩
    exact ⟨m, (hmem m).mpr hm, (mem_entradas (hvalid m hm)).mpr hr⟩

/-- Three nodes out of order, the last of which is asked for nothing: the command
ends in a blank. -/
theorem parseJobRequest_armarComando_blank :
    ∃ requests, parseJobRequest "JOB_REQUEST 7 @A:cpu:2:gpu:1 @B:mem:3 ".toList
        = some (7, requests)
      ∧ requests.Pairwise ResourceRequest.Before := by
  have hline : jobRequestLine 7 (armarComandoOrdenado
      (fun m t => if m.host = ['A'] ∧ t = .cpu then 2 else if m.host = ['A'] ∧ t = .gpu then 1
        else if m.host = ['B'] ∧ t = .mem then 3 else 0) (hostSort [⟨['C']⟩, ⟨['B']⟩, ⟨['A']⟩]))
      = "JOB_REQUEST 7 @A:cpu:2:gpu:1 @B:mem:3 ".toList := by
    decide +kernel
  obtain ⟨requests, hparse, hsorted, -⟩ := parseJobRequest_armarComando
    (fun m t => if m.host = ['A'] ∧ t = .cpu then 2 else if m.host = ['A'] ∧ t = .gpu then 1
      else if m.host = ['B'] ∧ t = .mem then 3 else 0) [⟨['C']⟩, ⟨['B']⟩, ⟨['A']⟩] 7
    (by decide) (by decide) (fun m hm => by
      rw [List.mem_cons, List.mem_cons, List.mem_singleton] at hm
      rcases hm with rfl | rfl | rfl <;>
        exact ⟨by decide, by decide, fun c hc => by rw [List.mem_singleton.mp hc]; decide,
          fun t => by cases t <;> decide⟩)
  rw [hline] at hparse
  exact ⟨requests, hparse, hsorted⟩

end Hpc
