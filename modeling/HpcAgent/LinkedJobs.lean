import HpcAgent.Lib.LinkedList
import HpcAgent.TablaJobs

/-!
# Extraction by connection, on the links

`tabla_jobs_extract_by_remote_conn` on three heaps: the jobs, whose cells hold the
pointers to their two lists, the allocations and the requests. One walk over each
bucket unlinks and frees allocations inside the jobs, unlinks jobs from the bucket,
and threads the jobs it unlinks on a list of their own, with the link that held
them in the bucket.

A `JobVisto` is a job with the addresses of its nodes. What the walk does to the
lists of such jobs is what `tablaJobsExtractByRemoteConn` says of the table
(`JobVisto.job_dropRemote`, `JobVisto.job_affected`).
-/

namespace Hpc

open Heap

/-- `Job`, as the structure is: its link is in the cell. -/
structure JobNodo where
  jobId : Int32
  conn : Conn
  confirmadas : Option ℕ
  pendientes : Option ℕ

/-- The test of the inner loop: `acurr->type == REMOTE && acurr->conn == conn`. -/
def esRemota (conn : Conn) (a : Allocation) : Bool := a.type == .remoteAlloc && a.conn == conn

/-- The loop over one bucket. `confirmadas` is the head of the list the inner loop
walks; every loop has at most `rounds` rounds. -/
def extractLoop (conn : Conn) (rounds : ℕ) (outs : Heap OutRequest) :
    ℕ → Heap JobNodo → Heap Allocation → Option ℕ → Option ℕ → Option ℕ → Option ℕ →
      Option (Heap JobNodo × Heap Allocation × Option ℕ × Option ℕ)
  | _, jobs, allocs, head, _, none, extraidos => some (jobs, allocs, head, extraidos)
  | 0, _, _, _, _, some _, _ => none
  | n + 1, jobs, allocs, head, prev, some curr, extraidos => do
    let c ← jobs curr
    let next := c.sig
    -- the first step: allocations on this connection are unlinked and freed
    let (allocs, confirmadas, _) ← sweep (esRemota conn) (fun _ _ _ _ => ()) rounds allocs
      c.val.confirmadas none c.val.confirmadas ()
    let jobs ← jobs.setVal curr { c.val with confirmadas := confirmadas }
    -- the second step: whether the job goes
    let out ← search (fun out => out.conn == conn) rounds outs c.val.pendientes
    if (c.val.conn == conn || out.isSome) || (confirmadas.isNone && c.val.pendientes.isNone) then
      let (jobs, head) ← jobs.unlink head prev next
      let jobs ← jobs.setSig curr extraidos
      extractLoop conn rounds outs n jobs allocs head prev next (some curr)
    else extractLoop conn rounds outs n jobs allocs head (some curr) next extraidos

/-- The loop over the buckets with these numbers. -/
def extractBuckets (conn : Conn) (rounds : ℕ) (outs : Heap OutRequest) :
    List ℕ → Heap JobNodo → Heap Allocation → (ℕ → Option ℕ) → Option ℕ →
      Option (Heap JobNodo × Heap Allocation × (ℕ → Option ℕ) × Option ℕ)
  | [], jobs, allocs, tabla, extraidos => some (jobs, allocs, tabla, extraidos)
  | idx :: ids, jobs, allocs, tabla, extraidos => do
    let (jobs, allocs, head, extraidos) ← extractLoop conn rounds outs rounds jobs allocs
      (tabla idx) none (tabla idx) extraidos
    extractBuckets conn rounds outs ids jobs allocs (Function.update tabla idx head) extraidos

/-- **`tabla_jobs_extract_by_remote_conn`**. -/
def extractByRemoteConn (conn : Conn) (rounds : ℕ) (outs : Heap OutRequest)
    (jobs : Heap JobNodo) (allocs : Heap Allocation) (tabla : ℕ → Option ℕ) :
    Option (Heap JobNodo × Heap Allocation × (ℕ → Option ℕ) × Option ℕ) :=
  extractBuckets conn rounds outs (List.range TAM_TABLA_JOBS) jobs allocs tabla none

/-! ## Jobs with their addresses -/

/-- A job at its address, with the nodes of its two lists. -/
structure JobVisto where
  addr : ℕ
  jobId : Int32
  conn : Conn
  asigs : List (ℕ × Allocation)
  pends : List (ℕ × OutRequest)

namespace JobVisto

/-- The job. -/
def job (x : JobVisto) : Job := ⟨x.jobId, x.conn, x.asigs.map Prod.snd, x.pends.map Prod.snd⟩

/-- The node of the job, with its address. -/
def celda (x : JobVisto) : ℕ × JobNodo := (x.addr, ⟨x.jobId, x.conn, first x.asigs, first x.pends⟩)

/-- The job without its remote allocations on the connection. -/
def dropRemote (conn : Conn) (x : JobVisto) : JobVisto :=
  { x with asigs := x.asigs.filter (fun a => !esRemota conn a.2) }

/-- Whether what is left of the job is taken out of the table. -/
def affected (conn : Conn) (x : JobVisto) : Bool :=
  (x.conn == conn || x.pends.any (fun out => out.2.conn == conn))
    || (x.asigs.isEmpty && x.pends.isEmpty)

@[simp] theorem addr_dropRemote (conn : Conn) (x : JobVisto) :
    (x.dropRemote conn).addr = x.addr := rfl

theorem job_dropRemote (conn : Conn) (x : JobVisto) :
    (x.dropRemote conn).job = x.job.dropRemote conn := by
  unfold job dropRemote Job.dropRemote
  rw [List.filter_map]
  rfl

theorem job_affected (conn : Conn) (x : JobVisto) : x.job.affected conn = x.affected conn := by
  unfold job affected Job.affected
  rw [List.any_map, List.isEmpty_map, List.isEmpty_map]
  rfl

/-- The lists of a job are in the heaps. -/
def Enlazado (allocs : Heap Allocation) (outs : Heap OutRequest) (x : JobVisto) : Prop :=
  allocs.Chain (first x.asigs) x.asigs ∧ outs.Chain (first x.pends) x.pends

end JobVisto

open JobVisto

/-- The nodes of a list of jobs. -/
def celdas (l : List JobVisto) : List (ℕ × JobNodo) := l.map celda

/-- The addresses of the allocations of a list of jobs. -/
def asignadas (l : List JobVisto) : List ℕ := l.flatMap (fun x => addrs x.asigs)

@[simp] theorem celdas_append (l m : List JobVisto) : celdas (l ++ m) = celdas l ++ celdas m :=
  List.map_append

@[simp] theorem celdas_cons (x : JobVisto) (l : List JobVisto) :
    celdas (x :: l) = x.celda :: celdas l := rfl

theorem addrs_celdas (l : List JobVisto) : addrs (celdas l) = l.map addr := by
  unfold celdas addrs
  rw [List.map_map]
  rfl

/-- The jobs that stay. -/
def quedan (conn : Conn) (l : List JobVisto) : List JobVisto :=
  (l.map (dropRemote conn)).filter (fun x => !x.affected conn)

/-- The jobs that go, the last one first. -/
def seVan (conn : Conn) (l : List JobVisto) : List JobVisto :=
  ((l.map (dropRemote conn)).filter (affected conn)).reverse

/-! ## One bucket -/

theorem isSome_search (conn : Conn) (l : List (ℕ × OutRequest)) :
    ((l.find? (fun out => out.2.conn == conn)).map Prod.fst).isSome
      = l.any (fun out => out.2.conn == conn) := by
  rw [Option.isSome_map, List.isSome_find?]

theorem isNone_first {α : Type} (l : List (ℕ × α)) : (first l).isNone = l.isEmpty := by
  cases l <;> rfl

/-- **What the first step does to a job**: its remote allocations on the connection
are freed and gone from its list, and no other allocation changes. -/
theorem sweep_asigs (conn : Conn) {rounds : ℕ} {allocs : Heap Allocation}
    {asigs : List (ℕ × Allocation)} (h : allocs.Chain (first asigs) asigs)
    (hrounds : asigs.length ≤ rounds) :
    ∃ allocs', sweep (esRemota conn) (fun _ _ _ _ => ()) rounds allocs (first asigs) none
        (first asigs) () = some (allocs',
          first (asigs.filter (fun a => !esRemota conn a.2)), ())
      ∧ allocs'.Chain (first (asigs.filter (fun a => !esRemota conn a.2)))
        (asigs.filter (fun a => !esRemota conn a.2))
      ∧ (∀ a ∈ asigs, esRemota conn a.2 = true → allocs' a.1 = none)
      ∧ ∀ a ∉ addrs asigs, allocs' a = allocs a := by
  obtain ⟨allocs', head, _, hsweep, hchain, -, hfreed, hframe⟩ :=
    sweep_chain (esRemota conn) (fun (_ : Unit) _ _ _ => ()) (I := fun _ _ _ => True)
      (fun _ _ _ _ _ _ _ _ => trivial) (fun _ _ _ _ _ _ _ => trivial) h hrounds trivial
  obtain rfl := hchain.eq_first
  exact ⟨allocs', hsweep, hchain, hfreed, hframe⟩

/-- The allocations a job keeps are some of its allocations, in order. -/
theorem addrs_dropRemote_sublist (conn : Conn) (x : JobVisto) :
    (addrs (x.dropRemote conn).asigs).Sublist (addrs x.asigs) :=
  (List.filter_sublist (p := fun a : ℕ × Allocation => !esRemota conn a.2)).map Prod.fst

/-- **The loop stands in a bucket**: behind it the jobs that stay, ahead those it has not
visited, aside those it took out. All are linked, no two are at one address, and those
ahead have their lists, which share no allocation. -/
structure EnBucket (outs : Heap OutRequest) (kept rest fuera : List JobVisto)
    (jobs : Heap JobNodo) (allocs : Heap Allocation) (head curr extraidos : Option ℕ) : Prop where
  behind : jobs.Seg head (celdas kept) curr
  ahead : jobs.Chain curr (celdas rest)
  aside : jobs.Chain extraidos (celdas fuera)
  nodup : ((kept ++ rest ++ fuera).map addr).Nodup
  lists : ∀ x ∈ rest, x.Enlazado allocs outs
  asigs : (asignadas rest).Nodup

namespace EnBucket

variable {conn : Conn} {rounds : ℕ} {outs : Heap OutRequest} {kept rest fuera : List JobVisto}
  {jobs : Heap JobNodo} {allocs : Heap Allocation} {head curr extraidos : Option ℕ} {x : JobVisto}

/-- The job ahead is at an address of its own. -/
theorem own (h : EnBucket outs kept (x :: rest) fuera jobs allocs head curr extraidos) :
    x.addr ∉ addrs (celdas kept) ∧ x.addr ∉ addrs (celdas rest)
      ∧ x.addr ∉ addrs (celdas fuera) := by
  have hnodup : (kept.map addr ++ x.addr :: (rest.map addr ++ fuera.map addr)).Nodup := by
    simpa using h.nodup
  have hnew := (List.nodup_cons.mp (List.nodup_middle.mp hnodup)).1
  rw [List.mem_append, List.mem_append] at hnew
  simp only [addrs_celdas]
  exact ⟨fun h => hnew (Or.inl h), fun h => hnew (Or.inr (Or.inl h)),
    fun h => hnew (Or.inr (Or.inr h))⟩

/-- Its allocations are those of no job behind it. -/
theorem asigs_disjoint (h : EnBucket outs kept (x :: rest) fuera jobs allocs head curr extraidos) :
    ∀ a ∈ addrs x.asigs, a ∉ asignadas rest := by
  obtain ⟨-, -, hdisjoint⟩ := List.nodup_append.mp
    (show (addrs x.asigs ++ asignadas rest).Nodup from h.asigs)
  exact fun a ha hrest => hdisjoint a ha a hrest rfl

/-- **A round of the loop over a bucket**: the first step is done in place, and the second
takes the job out of the bucket or leaves it behind. -/
theorem round (conn : Conn)
    (h : EnBucket outs kept (x :: rest) fuera jobs allocs head curr extraidos)
    (hrounds : x.asigs.length ≤ rounds ∧ x.pends.length ≤ rounds) :
    ∃ jobs₁ allocs₁ next,
      EnBucket outs kept (x.dropRemote conn :: rest) fuera jobs₁ allocs₁ head curr extraidos
        ∧ jobs₁ x.addr = some ⟨(x.dropRemote conn).celda.2, next⟩
        ∧ (∀ a ∈ x.asigs, esRemota conn a.2 = true → allocs₁ a.1 = none)
        ∧ (∀ a ∉ addrs x.asigs, allocs₁ a = allocs a)
        ∧ (∀ a ≠ x.addr, jobs₁ a = jobs a)
        ∧ ∀ n prev,
          extractLoop conn rounds outs (n + 1) jobs allocs head prev curr extraidos
            = if (x.dropRemote conn).affected conn then (do
                let (jobs, head) ← unlink head prev next jobs₁
                let jobs ← jobs.setSig x.addr extraidos
                extractLoop conn rounds outs n jobs allocs₁ head prev next (some x.addr))
              else extractLoop conn rounds outs n jobs₁ allocs₁ head (some x.addr) next
                extraidos := by
  obtain ⟨hxkept, hxrest, hxfuera⟩ := h.own
  obtain ⟨hxlists, hlists⟩ := List.forall_mem_cons.mp h.lists
  obtain ⟨rfl, next, hx, hnext⟩ := h.ahead
  obtain ⟨allocs₁, hsweep, hchain, hfreed, hframe⟩ :=
    sweep_asigs conn hxlists.1 hrounds.1
  refine ⟨Function.update jobs x.addr (some ⟨(x.dropRemote conn).celda.2, next⟩), allocs₁, next,
    ⟨h.behind.update hxkept _, ?_, h.aside.update hxfuera _, ?_, ?_, ?_⟩,
    Function.update_self _ _ _, hfreed, hframe, fun a ha => Function.update_of_ne ha _ _,
    fun n prev => ?_⟩
  · exact ⟨rfl, next, Function.update_self _ _ _, hnext.update hxrest _⟩
  · simpa using h.nodup
  · refine List.forall_mem_cons.mpr ⟨⟨hchain, hxlists.2⟩, fun y hy => ⟨?_, (hlists y hy).2⟩⟩
    refine (hlists y hy).1.congr (fun a ha => hframe a (fun hax => ?_))
    exact h.asigs_disjoint a hax (List.mem_flatMap.mpr ⟨y, hy, ha⟩)
  · exact List.Nodup.sublist ((addrs_dropRemote_sublist conn x).append_right _) h.asigs
  · have hval : jobs.setVal x.addr ⟨x.jobId, x.conn,
        first (x.asigs.filter (fun a => !esRemota conn a.2)), first x.pends⟩
        = some (Function.update jobs x.addr (some ⟨(x.dropRemote conn).celda.2, next⟩)) :=
      setVal_of_cell hx _
    have hsearch := search_spec (fun out : OutRequest => out.conn == conn) hxlists.2 hrounds.2
    have htest : (x.dropRemote conn).affected conn
        = ((x.conn == conn || ((x.pends.find? (fun out => out.2.conn == conn)).map
          Prod.fst).isSome) || ((first (x.asigs.filter (fun a => !esRemota conn a.2))).isNone
            && (first x.pends).isNone)) := by
      rw [isSome_search, isNone_first, isNone_first]
      rfl
    have hx : jobs x.addr = some ⟨⟨x.jobId, x.conn, first x.asigs, first x.pends⟩, next⟩ := hx
    show extractLoop conn rounds outs (n + 1) jobs allocs head prev (some x.addr) extraidos = _
    simp only [extractLoop, hx, Option.bind_eq_bind, Option.bind_some, hsweep, hval, hsearch, htest]

variable {next : Option ℕ}

/-- The links ahead of a job are those behind its own. -/
theorem next_rest (h : EnBucket outs kept (x :: rest) fuera jobs allocs head curr extraidos)
    (hx : jobs x.addr = some ⟨x.celda.2, next⟩) : jobs.Chain next (celdas rest) := by
  obtain ⟨-, sig, hcell, hrest⟩ := h.ahead
  obtain rfl := (Cell.mk.inj (Option.some.inj (hcell.symm.trans hx))).2
  exact hrest

/-- **A job that stays** is left behind. -/
theorem keep (h : EnBucket outs kept (x :: rest) fuera jobs allocs head curr extraidos)
    (hx : jobs x.addr = some ⟨x.celda.2, next⟩) :
    EnBucket outs (kept ++ [x]) rest fuera jobs allocs head next extraidos := by
  obtain ⟨rfl, -⟩ := h.ahead
  refine ⟨?_, h.next_rest hx, h.aside, by simpa using h.nodup,
    (List.forall_mem_cons.mp h.lists).2, (List.nodup_append.mp h.asigs).2.1⟩
  rw [celdas_append]
  exact seg_concat.mpr ⟨h.behind, hx⟩

/-- **A job that goes** is unlinked and put in front of those taken out before. -/
theorem take (h : EnBucket outs kept (x :: rest) fuera jobs allocs head curr extraidos)
    (hx : jobs x.addr = some ⟨x.celda.2, next⟩) :
    ∃ jobs₁ jobs₂ head₂, unlink head (last (celdas kept)) next jobs = some (jobs₁, head₂)
      ∧ jobs₁.setSig x.addr extraidos = some jobs₂
      ∧ EnBucket outs kept rest (x :: fuera) jobs₂ allocs head₂ next (some x.addr)
      ∧ ∀ a ∉ kept.map addr, a ≠ x.addr → jobs₂ a = jobs a := by
  obtain ⟨hxkept, hxrest, hxfuera⟩ := h.own
  obtain ⟨rfl, -⟩ := h.ahead
  have hnodup : (x.addr :: (kept.map addr ++ (rest.map addr ++ fuera.map addr))).Nodup := by
    refine List.nodup_middle.mp ?_
    simpa using h.nodup
  obtain ⟨hkeptnd, -, hsep⟩ := List.nodup_append.mp (List.nodup_cons.mp hnodup).2
  obtain ⟨jobs₁, head₂, hunlink, hseg, hframe⟩ := unlink_spec next h.behind (by rwa [addrs_celdas])
  have hframe : ∀ a ∉ kept.map addr, jobs₁ a = jobs a := by
    refine fun a ha => hframe a (fun h => ha ?_)
    rw [← addrs_celdas]
    exact mem_addrs_of_last h
  -- the chains ahead and aside share no node with what stays
  have hother : ∀ l, (∀ a ∈ l.map addr, a ∈ rest.map addr ++ fuera.map addr) →
      ∀ a ∈ addrs (celdas l), jobs₁ a = jobs a := by
    intro l hl a ha
    rw [addrs_celdas] at ha
    exact hframe a (fun hk => hsep a hk a (hl a ha) rfl)
  have hself : jobs₁ x.addr = some ⟨x.celda.2, next⟩ :=
    (hframe x.addr (by rwa [← addrs_celdas])).trans hx
  refine ⟨jobs₁, Function.update jobs₁ x.addr (some ⟨x.celda.2, extraidos⟩), head₂, hunlink,
    setSig_of_cell hself _, ⟨hseg.update hxkept _, ?_, ?_, ?_,
      (List.forall_mem_cons.mp h.lists).2, (List.nodup_append.mp h.asigs).2.1⟩, fun a ha hax => ?_⟩
  · refine Seg.update ((h.next_rest hx).congr (hother rest ?_)) hxrest _
    exact fun a ha => List.mem_append_left _ ha
  · refine ⟨rfl, extraidos, Function.update_self _ _ _, Seg.update
      (h.aside.congr (hother fuera ?_)) hxfuera _⟩
    exact fun a ha => List.mem_append_right _ ha
  · rw [List.map_append, List.map_cons, List.nodup_middle, List.map_append, List.append_assoc]
    exact hnodup
  · rw [Function.update_of_ne hax, hframe a ha]

/-- What the rounds that follow leave of a job, when they leave its allocations alone. -/
theorem restore (h : EnBucket outs kept (x :: rest) fuera jobs allocs head curr extraidos)
    {allocs₁ allocs' : Heap Allocation} (hlists₁ : (x.dropRemote conn).Enlazado allocs₁ outs)
    (hfreed₁ : ∀ a ∈ x.asigs, esRemota conn a.2 = true → allocs₁ a.1 = none)
    (hframe₁ : ∀ a ∉ addrs x.asigs, allocs₁ a = allocs a)
    (hframe : ∀ a ∉ asignadas rest, allocs' a = allocs₁ a) :
    (x.dropRemote conn).Enlazado allocs' outs
      ∧ (∀ a ∈ x.asigs, esRemota conn a.2 = true → allocs' a.1 = none)
      ∧ ∀ a ∉ asignadas (x :: rest), allocs' a = allocs a := by
  have hown : ∀ a ∈ addrs x.asigs, allocs' a = allocs₁ a :=
    fun a ha => hframe a (h.asigs_disjoint a ha)
  refine ⟨⟨hlists₁.1.congr (fun a ha => hown a ?_), hlists₁.2⟩, fun a ha hsel => ?_,
    fun a ha => ?_⟩
  · exact (addrs_dropRemote_sublist conn x).subset ha
  · rw [hown a.1 (List.mem_map_of_mem ha), hfreed₁ a ha hsel]
  · have ha : a ∉ addrs x.asigs ++ asignadas rest := ha
    rw [List.mem_append, not_or] at ha
    rw [hframe a ha.2, hframe₁ a ha.1]

end EnBucket

/-- **The loop over one bucket.** The jobs that stay are chained from the head of
the bucket, in order, and those that go are threaded in front of the ones extracted
before; their lists are what the first step leaves, and nothing else changes. -/
theorem extractLoop_spec (conn : Conn) {rounds n : ℕ} {outs : Heap OutRequest}
    {jobs : Heap JobNodo} {allocs : Heap Allocation} {head curr extraidos : Option ℕ}
    {kept rest fuera : List JobVisto}
    (h : EnBucket outs kept rest fuera jobs allocs head curr extraidos) (hn : rest.length ≤ n)
    (hrounds : ∀ x ∈ rest, x.asigs.length ≤ rounds ∧ x.pends.length ≤ rounds) :
    ∃ jobs' allocs' head' extraidos',
      extractLoop conn rounds outs n jobs allocs head (last (celdas kept)) curr extraidos
          = some (jobs', allocs', head', extraidos')
        ∧ jobs'.Chain head' (celdas (kept ++ quedan conn rest))
        ∧ jobs'.Chain extraidos' (celdas (seVan conn rest ++ fuera))
        ∧ (∀ x ∈ rest, (x.dropRemote conn).Enlazado allocs' outs)
        ∧ (∀ x ∈ rest, ∀ a ∈ x.asigs, esRemota conn a.2 = true → allocs' a.1 = none)
        ∧ (∀ a ∉ (kept ++ rest).map addr, jobs' a = jobs a)
        ∧ ∀ a ∉ asignadas rest, allocs' a = allocs a := by
  induction rest generalizing n jobs allocs head curr extraidos kept fuera with
  | nil =>
    obtain rfl : curr = none := h.ahead
    refine ⟨jobs, allocs, head, extraidos, by cases n <;> rfl, ?_, h.aside, by simp, by simp,
      fun _ _ => rfl, fun _ _ => rfl⟩
    have hnone : quedan conn [] = [] := rfl
    rw [hnone, List.append_nil]
    exact h.behind
  | cons x rest ih =>
    obtain ⟨n, rfl⟩ : ∃ m, n = m + 1 := ⟨n - 1, by simp at hn; omega⟩
    have hn : rest.length ≤ n := by simpa using hn
    obtain ⟨hxrounds, hrounds⟩ := List.forall_mem_cons.mp hrounds
    obtain ⟨jobs₁, allocs₁, next, h₁, hx₁, hfreed₁, hframea₁, hframe₁, hround⟩ :=
      h.round conn hxrounds
    have hxlists₁ := h₁.lists _ List.mem_cons_self
    rw [hround]
    cases haff : (x.dropRemote conn).affected conn with
    | true =>
      obtain ⟨jobs₂, jobs₃, head₃, hunlink, hlink, h₃, hframe₃⟩ := h₁.take hx₁
      obtain ⟨jobs', allocs', head', extraidos', hrun, hstay, hgo, hlists', hfreed', hframe',
        hframea⟩ := ih h₃ hn hrounds
      obtain ⟨hx', hxfreed', hframea'⟩ := h.restore hxlists₁ hfreed₁ hframea₁ hframea
      refine ⟨jobs', allocs', head', extraidos', ?_, ?_, ?_,
        List.forall_mem_cons.mpr ⟨hx', hlists'⟩, List.forall_mem_cons.mpr ⟨hxfreed', hfreed'⟩,
        fun a ha => ?_, hframea'⟩
      · rw [if_pos rfl, hunlink]
        show (do
          let jobs ← jobs₂.setSig (x.dropRemote conn).addr extraidos
          _) = _
        rw [hlink]
        exact hrun
      · have hq : quedan conn (x :: rest) = quedan conn rest := by simp [quedan, haff]
        rwa [hq]
      · have hs : seVan conn (x :: rest) ++ fuera
            = seVan conn rest ++ (x.dropRemote conn :: fuera) := by simp [seVan, haff]
        rwa [hs]
      · rw [List.map_append, List.map_cons, List.mem_append, List.mem_cons, not_or, not_or] at ha
        obtain ⟨hak, hax, har⟩ := ha
        rw [hframe' a (by rw [List.map_append, List.mem_append]; exact not_or.mpr ⟨hak, har⟩),
          hframe₃ a hak hax, hframe₁ a hax]
    | false =>
      have hlast : last (celdas (kept ++ [x.dropRemote conn])) = some x.addr := by
        rw [celdas_append]
        exact last_concat _ _
      obtain ⟨jobs', allocs', head', extraidos', hrun, hstay, hgo, hlists', hfreed', hframe',
        hframea⟩ := ih (h₁.keep hx₁) hn hrounds
      obtain ⟨hx', hxfreed', hframea'⟩ := h.restore hxlists₁ hfreed₁ hframea₁ hframea
      refine ⟨jobs', allocs', head', extraidos', ?_, ?_, ?_,
        List.forall_mem_cons.mpr ⟨hx', hlists'⟩, List.forall_mem_cons.mpr ⟨hxfreed', hfreed'⟩,
        fun a ha => ?_, hframea'⟩
      · rw [if_neg Bool.false_ne_true, ← hlast]
        exact hrun
      · have hq : kept ++ quedan conn (x :: rest)
            = kept ++ [x.dropRemote conn] ++ quedan conn rest := by simp [quedan, haff]
        rwa [hq]
      · have hs : seVan conn (x :: rest) = seVan conn rest := by simp [seVan, haff]
        rwa [hs]
      · have hax : a ≠ x.addr := by
          rintro rfl
          exact ha (by simp)
        rw [hframe' a (by simpa using ha), hframe₁ a hax]

/-! ## The table -/

/-- The jobs of the buckets with these numbers. -/
def jobsDe (L : ℕ → List JobVisto) (ids : List ℕ) : List JobVisto := ids.flatMap L

/-- What the buckets of these numbers hold: the chains of jobs, and in each job its
two lists; no job and no allocation is in two places. -/
structure TablaEnlazada (L : ℕ → List JobVisto) (ids : List ℕ) (tabla : ℕ → Option ℕ)
    (jobs : Heap JobNodo) (allocs : Heap Allocation) (outs : Heap OutRequest) : Prop where
  chains : ∀ i ∈ ids, jobs.Chain (tabla i) (celdas (L i))
  lists : ∀ x ∈ jobsDe L ids, x.Enlazado allocs outs
  jobs_nodup : ((jobsDe L ids).map addr).Nodup
  asigs_nodup : (asignadas (jobsDe L ids)).Nodup

theorem seVan_append (conn : Conn) (l m : List JobVisto) :
    seVan conn (l ++ m) = seVan conn m ++ seVan conn l := by
  unfold seVan
  rw [List.map_append, List.filter_append, List.reverse_append]

/-- The jobs that stay are some of the jobs, in order. -/
theorem addr_quedan_sublist (conn : Conn) (l : List JobVisto) :
    ((quedan conn l).map addr).Sublist (l.map addr) := by
  have h := (List.filter_sublist (p := fun x => !affected conn x)
    (l := l.map (dropRemote conn))).map addr
  rwa [List.map_map] at h

/-- The jobs that go are some of the jobs, in the opposite order. -/
theorem addr_seVan_sublist (conn : Conn) (l : List JobVisto) :
    ((seVan conn l).map addr).reverse.Sublist (l.map addr) := by
  have h := (List.filter_sublist (p := affected conn) (l := l.map (dropRemote conn))).map addr
  rwa [List.map_map, ← List.reverse_reverse (List.map addr _), ← List.map_reverse] at h

/-- **The buckets behind one** do not notice what is done to it. -/
theorem TablaEnlazada.tail {L : ℕ → List JobVisto} {i : ℕ} {ids : List ℕ} {tabla : ℕ → Option ℕ}
    {jobs jobs' : Heap JobNodo} {allocs allocs' : Heap Allocation} {outs : Heap OutRequest}
    (ht : TablaEnlazada L (i :: ids) tabla jobs allocs outs) (hi : i ∉ ids) (head : Option ℕ)
    (hjobs : ∀ a ∈ (jobsDe L ids).map addr, jobs' a = jobs a)
    (hallocs : ∀ a ∈ asignadas (jobsDe L ids), allocs' a = allocs a) :
    TablaEnlazada L ids (Function.update tabla i head) jobs' allocs' outs := by
  have hsub : (jobsDe L ids).Sublist (jobsDe L (i :: ids)) := List.sublist_append_right _ _
  refine ⟨fun j hj => ?_, fun x hx => ?_, ht.jobs_nodup.sublist (hsub.map addr),
    ht.asigs_nodup.sublist (hsub.flatMap _)⟩
  · rw [Function.update_of_ne (ne_of_mem_of_not_mem hj hi)]
    refine (ht.chains j (List.mem_cons_of_mem i hj)).congr (fun a ha => hjobs a ?_)
    rw [addrs_celdas] at ha
    obtain ⟨x, hx, rfl⟩ := List.mem_map.mp ha
    exact List.mem_map_of_mem (List.mem_flatMap.mpr ⟨j, hj, hx⟩)
  · obtain ⟨hasigs, hpends⟩ := ht.lists x (hsub.subset hx)
    exact ⟨hasigs.congr (fun a ha => hallocs a (List.mem_flatMap.mpr ⟨x, hx, ha⟩)), hpends⟩

/-- **The loop over the buckets.** -/
theorem extractBuckets_spec (conn : Conn) {rounds : ℕ} {outs : Heap OutRequest} {ids : List ℕ}
    {L : ℕ → List JobVisto} {jobs : Heap JobNodo} {allocs : Heap Allocation}
    {tabla : ℕ → Option ℕ} {extraidos : Option ℕ} {fuera : List JobVisto}
    (ht : TablaEnlazada L ids tabla jobs allocs outs) (hids : ids.Nodup)
    (hfuera : jobs.Chain extraidos (celdas fuera))
    (hnodup : ((jobsDe L ids ++ fuera).map addr).Nodup)
    (hrounds : ∀ i ∈ ids, (L i).length ≤ rounds)
    (hlists : ∀ x ∈ jobsDe L ids, x.asigs.length ≤ rounds ∧ x.pends.length ≤ rounds) :
    ∃ jobs' allocs' tabla' extraidos',
      extractBuckets conn rounds outs ids jobs allocs tabla extraidos
          = some (jobs', allocs', tabla', extraidos')
        ∧ (∀ i ∈ ids, jobs'.Chain (tabla' i) (celdas (quedan conn (L i))))
        ∧ jobs'.Chain extraidos' (celdas (seVan conn (jobsDe L ids) ++ fuera))
        ∧ (∀ x ∈ jobsDe L ids, (x.dropRemote conn).Enlazado allocs' outs)
        ∧ (∀ x ∈ jobsDe L ids, ∀ a ∈ x.asigs, esRemota conn a.2 = true → allocs' a.1 = none)
        ∧ (∀ i ∉ ids, tabla' i = tabla i)
        ∧ (∀ a ∉ (jobsDe L ids).map addr, jobs' a = jobs a)
        ∧ ∀ a ∉ asignadas (jobsDe L ids), allocs' a = allocs a := by
  induction ids generalizing jobs allocs tabla extraidos fuera with
  | nil =>
    exact ⟨jobs, allocs, tabla, extraidos, rfl, by simp, hfuera, by simp [jobsDe],
      by simp [jobsDe], fun _ _ => rfl, fun _ _ => rfl, fun _ _ => rfl⟩
  | cons i ids ih =>
    have hsplit : jobsDe L (i :: ids) = L i ++ jobsDe L ids := List.flatMap_cons
    obtain ⟨hi, hids⟩ := List.nodup_cons.mp hids
    obtain ⟨hroundsi, hrounds⟩ := List.forall_mem_cons.mp hrounds
    rw [hsplit] at hnodup hlists
    obtain ⟨hlistsi, hlists⟩ := List.forall_mem_append.mp hlists
    obtain ⟨-, -, hjsep⟩ := List.nodup_append.mp
      (show ((L i).map addr ++ (jobsDe L ids).map addr).Nodup by
        simpa [hsplit] using ht.jobs_nodup)
    obtain ⟨handi, -, hasep⟩ := List.nodup_append.mp
      (show (asignadas (L i) ++ asignadas (jobsDe L ids)).Nodup by
        simpa [hsplit, asignadas] using ht.asigs_nodup)
    rw [List.append_assoc, List.map_append] at hnodup
    obtain ⟨hLnd, hrestnd, hsep⟩ := List.nodup_append.mp hnodup
    have hhere : EnBucket outs [] (L i) fuera jobs allocs (tabla i) (tabla i) extraidos := by
      refine ⟨rfl, ht.chains i List.mem_cons_self, hfuera, ?_, fun x hx => ht.lists x ?_, handi⟩
      · rw [List.nil_append, List.map_append]
        refine hnodup.sublist (List.Sublist.append_left ?_ _)
        exact (List.sublist_append_right _ _).map addr
      · exact hsplit ▸ List.mem_append_left _ hx
    obtain ⟨jobs₁, allocs₁, head₁, extraidos₁, hrun₁, hstay₁, hgo₁, hlists₁, hfreed₁, hframe₁,
      hframea₁⟩ := extractLoop_spec conn (n := rounds) hhere hroundsi hlistsi
    rw [List.nil_append] at hstay₁ hframe₁
    have ht₁ : TablaEnlazada L ids (Function.update tabla i head₁) jobs₁ allocs₁ outs :=
      ht.tail hi head₁ (fun a ha => hframe₁ a (fun hi => hjsep a hi a ha rfl))
        (fun a ha => hframea₁ a (fun hi => hasep a hi a ha rfl))
    have hgone := addr_seVan_sublist conn (L i)
    obtain ⟨jobs', allocs', tabla', extraidos', hrun, hstay, hgo, hlists', hfreed', htabla',
      hframe', hframea'⟩ := ih ht₁ hids hgo₁ (by
        rw [List.map_append, List.map_append]
        refine (List.perm_append_comm_assoc _ _ _).nodup_iff.mpr ?_
        rw [← List.map_append]
        refine List.nodup_append.mpr ⟨List.nodup_reverse.mp (hLnd.sublist hgone), hrestnd, ?_⟩
        exact fun a ha => hsep a (hgone.subset (List.mem_reverse.mpr ha))) hrounds hlists
    refine ⟨jobs', allocs', tabla', extraidos', ?_, ?_, ?_, ?_, ?_, fun j hj => ?_, fun a ha => ?_,
      fun a ha => ?_⟩
    · rw [extractBuckets]
      show (do
        let r ← extractLoop conn rounds outs rounds jobs allocs (tabla i) none (tabla i) extraidos
        _) = _
      rw [show extractLoop conn rounds outs rounds jobs allocs (tabla i) none (tabla i) extraidos
        = some (jobs₁, allocs₁, head₁, extraidos₁) from hrun₁]
      exact hrun
    · refine List.forall_mem_cons.mpr ⟨?_, hstay⟩
      rw [htabla' i hi, Function.update_self]
      refine hstay₁.congr (fun a ha => hframe' a (fun hin => ?_))
      rw [addrs_celdas] at ha
      exact hjsep a ((addr_quedan_sublist conn (L i)).subset ha) a hin rfl
    · rwa [hsplit, seVan_append, List.append_assoc]
    · rw [hsplit]
      refine List.forall_mem_append.mpr ⟨fun x hx => ?_, hlists'⟩
      refine ⟨(hlists₁ x hx).1.congr (fun a ha => hframea' a (fun hin => ?_)), (hlists₁ x hx).2⟩
      exact hasep a
        (List.mem_flatMap.mpr ⟨x, hx, (addrs_dropRemote_sublist conn x).subset ha⟩) a hin rfl
    · rw [hsplit]
      refine List.forall_mem_append.mpr ⟨fun x hx a ha hsel => ?_, hfreed'⟩
      rw [hframea' a.1 (fun hin => hasep a.1 (List.mem_flatMap.mpr
        ⟨x, hx, List.mem_map_of_mem ha⟩) a.1 hin rfl), hfreed₁ x hx a ha hsel]
    · rw [List.mem_cons, not_or] at hj
      rw [htabla' j hj.2, Function.update_of_ne hj.1]
    · rw [hsplit, List.map_append, List.mem_append, not_or] at ha
      rw [hframe' a ha.2, hframe₁ a ha.1]
    · rw [hsplit, asignadas, List.flatMap_append, List.mem_append, not_or] at ha
      rw [hframea' a ha.2, hframea₁ a ha.1]

/-- The buckets that stay are what stays of the buckets. -/
theorem quedan_jobsDe (conn : Conn) (L : ℕ → List JobVisto) (ids : List ℕ) :
    quedan conn (jobsDe L ids) = jobsDe (fun i => quedan conn (L i)) ids := by
  unfold quedan jobsDe
  rw [List.map_flatMap, List.filter_flatMap]

theorem asignadas_quedan_sublist (conn : Conn) (l : List JobVisto) :
    (asignadas (quedan conn l)).Sublist (asignadas l) := by
  induction l with
  | nil => exact List.Sublist.refl _
  | cons x l ih =>
    have hx := addrs_dropRemote_sublist conn x
    cases haff : (x.dropRemote conn).affected conn with
    | true =>
      have hq : quedan conn (x :: l) = quedan conn l := by simp [quedan, haff]
      rw [hq]
      exact ih.trans (List.sublist_append_right _ _)
    | false =>
      have hq : quedan conn (x :: l) = x.dropRemote conn :: quedan conn l := by
        simp [quedan, haff]
      rw [hq]
      exact hx.append ih

/-- **No job is lost and none is there twice.** -/
theorem quedan_seVan_perm (conn : Conn) (l : List JobVisto) :
    (quedan conn l ++ seVan conn l).Perm (l.map (dropRemote conn)) := by
  refine List.Perm.trans ?_ (List.filter_append_perm (affected conn) (l.map (dropRemote conn)))
  refine List.perm_append_comm.trans ?_
  exact (List.reverse_perm _).append_right _

/-- The condition under which a job goes. -/
theorem affected_iff (conn : Conn) (x : JobVisto) :
    x.affected conn = true ↔ x.conn = conn ∨ (∃ out ∈ x.pends, out.2.conn = conn)
      ∨ (x.asigs = [] ∧ x.pends = []) := by
  unfold affected
  rw [Bool.or_eq_true, Bool.or_eq_true, Bool.and_eq_true, List.any_eq_true, beq_iff_eq,
    List.isEmpty_iff, List.isEmpty_iff, or_assoc]
  simp only [beq_iff_eq]

/-- A bound for every loop of the function. -/
def rondas (l : List JobVisto) : ℕ :=
  l.length + (l.map (fun x => x.asigs.length + x.pends.length)).sum

theorem le_rondas {l : List JobVisto} {x : JobVisto} (hx : x ∈ l) :
    x.asigs.length ≤ rondas l ∧ x.pends.length ≤ rondas l := by
  have h : x.asigs.length + x.pends.length
      ≤ (l.map (fun x => x.asigs.length + x.pends.length)).sum :=
    List.le_sum_of_mem (List.mem_map_of_mem hx)
  unfold rondas
  omega

theorem length_le_rondas {L : ℕ → List JobVisto} {ids : List ℕ} {i : ℕ} (hi : i ∈ ids) :
    (L i).length ≤ rondas (jobsDe L ids) := by
  have h : (L i).length ≤ (jobsDe L ids).length := by
    unfold jobsDe
    rw [List.length_flatMap]
    exact List.le_sum_of_mem (List.mem_map_of_mem hi)
  unfold rondas
  omega

/-- **Extraction by connection neither loses nor duplicates jobs.** On a table of
finite chains the function ends without touching what is not allocated. The buckets
and the returned list hold the jobs of the table, each exactly once, without their
remote allocations on the connection and otherwise unchanged; in every bucket the
jobs that stay keep their order; and a job is returned just if the connection is
its own or that of one of its requests, or if nothing is left of it. -/
theorem extractByRemoteConn_spec (conn : Conn) {L : ℕ → List JobVisto}
    {tabla : ℕ → Option ℕ} {jobs : Heap JobNodo} {allocs : Heap Allocation}
    {outs : Heap OutRequest}
    (ht : TablaEnlazada L (List.range TAM_TABLA_JOBS) tabla jobs allocs outs) :
    ∃ n, ∀ rounds, n ≤ rounds → ∃ jobs' allocs' tabla' extraidos',
      extractByRemoteConn conn rounds outs jobs allocs tabla
          = some (jobs', allocs', tabla', extraidos')
        ∧ TablaEnlazada (fun i => quedan conn (L i)) (List.range TAM_TABLA_JOBS) tabla' jobs'
          allocs' outs
        ∧ jobs'.Chain extraidos' (celdas (seVan conn (jobsDe L (List.range TAM_TABLA_JOBS))))
        ∧ (∀ x ∈ seVan conn (jobsDe L (List.range TAM_TABLA_JOBS)), x.Enlazado allocs' outs)
        ∧ (jobsDe (fun i => quedan conn (L i)) (List.range TAM_TABLA_JOBS)
            ++ seVan conn (jobsDe L (List.range TAM_TABLA_JOBS))).Perm
          ((jobsDe L (List.range TAM_TABLA_JOBS)).map (dropRemote conn))
        ∧ (∀ i, ((quedan conn (L i)).map addr).Sublist ((L i).map addr))
        ∧ (∀ x ∈ jobsDe L (List.range TAM_TABLA_JOBS),
          (x.dropRemote conn ∈ seVan conn (jobsDe L (List.range TAM_TABLA_JOBS))
            ↔ x.conn = conn ∨ (∃ out ∈ x.pends, out.2.conn = conn)
              ∨ ((x.dropRemote conn).asigs = [] ∧ x.pends = []))
          ∧ (x.dropRemote conn).jobId = x.jobId ∧ (x.dropRemote conn).conn = x.conn
          ∧ (x.dropRemote conn).pends = x.pends
          ∧ (x.dropRemote conn).asigs = x.asigs.filter
            (fun a => !(a.2.type == .remoteAlloc && a.2.conn == conn)))
        ∧ ∀ x ∈ jobsDe L (List.range TAM_TABLA_JOBS), ∀ a ∈ x.asigs,
          a.2.type = .remoteAlloc → a.2.conn = conn → allocs' a.1 = none := by
  refine ⟨rondas (jobsDe L (List.range TAM_TABLA_JOBS)), fun rounds hrounds => ?_⟩
  obtain ⟨jobs', allocs', tabla', extraidos', hrun, hstay, hgo, hlists, hfreed, -, -, -⟩ :=
    @extractBuckets_spec conn rounds outs _ L jobs allocs tabla none [] ht List.nodup_range
      rfl (by rw [List.append_nil]; exact ht.jobs_nodup)
      (fun i hi => (length_le_rondas hi).trans hrounds)
      (fun x hx => ⟨(le_rondas hx).1.trans hrounds, (le_rondas hx).2.trans hrounds⟩)
  have hdropped : ∀ x ∈ (jobsDe L (List.range TAM_TABLA_JOBS)).map (dropRemote conn),
      x.Enlazado allocs' outs := by
    intro x hx
    obtain ⟨y, hy, rfl⟩ := List.mem_map.mp hx
    exact hlists y hy
  have hperm := quedan_seVan_perm conn (jobsDe L (List.range TAM_TABLA_JOBS))
  rw [List.append_nil] at hgo
  refine ⟨jobs', allocs', tabla', extraidos', hrun, ⟨hstay, fun x hx => ?_, ?_, ?_⟩, hgo,
    fun x hx => hdropped x (hperm.subset (List.mem_append_right _ hx)),
    quedan_jobsDe conn L _ ▸ hperm, fun i => addr_quedan_sublist conn (L i),
    fun x hx => ⟨?_, rfl, rfl, rfl, rfl⟩,
    fun x hx a ha htype hconn => hfreed x hx a ha (by simp [esRemota, htype, hconn])⟩
  · rw [← quedan_jobsDe] at hx
    exact hdropped x (hperm.subset (List.mem_append_left _ hx))
  · rw [← quedan_jobsDe]
    exact ht.jobs_nodup.sublist (addr_quedan_sublist conn _)
  · rw [← quedan_jobsDe]
    exact ht.asigs_nodup.sublist (asignadas_quedan_sublist conn _)
  · rw [← show (x.dropRemote conn).conn = x.conn from rfl,
      ← show (x.dropRemote conn).pends = x.pends from rfl, ← affected_iff]
    unfold seVan
    rw [List.mem_reverse, List.mem_filter]
    exact and_iff_right (List.mem_map_of_mem hx)

/-- Two jobs of one bucket: the first loses an allocation and stays, the second
waits for the connection and goes. -/
theorem extractByRemoteConn_two :
    let local_ : Allocation := crearAllocation .cpu 1 .localAlloc [] 1 .granted 5
    let remota : Allocation := crearAllocation .cpu 1 .remoteAlloc [] 1 .granted 7
    let out : OutRequest := crearOutrequest [] 7 .cpu 1 none
    let outs : Heap OutRequest := Function.update (fun _ => none) 200 (some ⟨out, none⟩)
    let allocs : Heap Allocation := Function.update
      (Function.update (fun _ => none) 100 (some ⟨remota, some 101⟩)) 101 (some ⟨local_, none⟩)
    let jobs : Heap JobNodo := Function.update
      (Function.update (fun _ => none) 10 (some ⟨⟨1, 5, some 100, none⟩, some 11⟩))
      11 (some ⟨⟨72, 5, none, some 200⟩, none⟩)
    let tabla : ℕ → Option ℕ := Function.update (fun _ => none) 1 (some 10)
    ∃ n, ∀ rounds, n ≤ rounds → ∃ jobs' allocs' tabla' extraidos',
      extractByRemoteConn 7 rounds outs jobs allocs tabla
          = some (jobs', allocs', tabla', extraidos')
        ∧ jobs'.Chain (tabla' 1) [(10, ⟨1, 5, some 101, none⟩)]
        ∧ jobs'.Chain extraidos' [(11, ⟨72, 5, none, some 200⟩)] ∧ allocs' 100 = none := by
  intro local_ remota out outs allocs jobs tabla
  obtain ⟨x, hx⟩ : ∃ x : JobVisto, x = ⟨10, 1, 5, [(100, remota), (101, local_)], []⟩ := ⟨_, rfl⟩
  obtain ⟨y, hy⟩ : ∃ y : JobVisto, y = ⟨11, 72, 5, [], [(200, out)]⟩ := ⟨_, rfl⟩
  obtain ⟨L, hL⟩ : ∃ L : ℕ → List JobVisto, L = Function.update (fun _ => []) 1 [x, y] := ⟨_, rfl⟩
  have hjobs : jobsDe L (List.range TAM_TABLA_JOBS) = [x, y] := by
    subst hL
    rfl
  have ht : TablaEnlazada L (List.range TAM_TABLA_JOBS) tabla jobs allocs outs := by
    refine ⟨fun i _ => ?_, ?_, ?_, ?_⟩
    · by_cases hi : i = 1
      · subst hi hL hx hy
        exact ⟨rfl, _, rfl, rfl, _, rfl, rfl⟩
      · have hLi : L i = [] := hL ▸ Function.update_of_ne hi _ _
        rw [hLi]
        exact Function.update_of_ne hi _ _
    · rw [hjobs]
      subst hx hy
      refine List.forall_mem_cons.mpr ⟨⟨⟨rfl, _, rfl, rfl, _, rfl, rfl⟩, rfl⟩, ?_⟩
      exact List.forall_mem_cons.mpr ⟨⟨rfl, rfl, _, rfl, rfl⟩, by simp⟩
    · rw [hjobs]
      subst hx hy
      decide
    · rw [hjobs]
      subst hx hy
      decide
  obtain ⟨n, hspec⟩ := extractByRemoteConn_spec 7 ht
  refine ⟨n, fun rounds hrounds => ?_⟩
  obtain ⟨jobs', allocs', tabla', extraidos', hrun, hstay, hgo, -, -, -, -, hfreed⟩ :=
    hspec rounds hrounds
  rw [hjobs] at hgo hfreed
  refine ⟨jobs', allocs', tabla', extraidos', hrun, ?_, ?_, ?_⟩
  · have hchain := hstay.chains 1 (by decide)
    subst hL hx hy
    exact hchain
  · subst hx hy
    exact hgo
  · refine hfreed x List.mem_cons_self (100, remota) ?_ rfl rfl
    subst hx
    exact List.mem_cons_self

/-! ## The model's table -/

/-- **The walk over the links is the model's**: with the same jobs in the buckets
before, the same jobs are in the buckets after, and the same are returned. -/
theorem tablaJobsExtractByRemoteConn_eq {t : TablaJobs} {L : ℕ → List JobVisto}
    (hL : ∀ i < TAM_TABLA_JOBS, t.bucket i = (L i).map job) (conn : Conn) :
    (∀ i < TAM_TABLA_JOBS, (tablaJobsExtractByRemoteConn t conn).2.bucket i
        = (quedan conn (L i)).map job)
      ∧ (tablaJobsExtractByRemoteConn t conn).1
        = (seVan conn (jobsDe L (List.range TAM_TABLA_JOBS))).map job := by
  have hdrop : ∀ l : List JobVisto, (l.map job).map (Job.dropRemote conn)
      = (l.map (dropRemote conn)).map job := by
    intro l
    rw [List.map_map, List.map_map]
    exact List.map_congr_left (fun x _ => (job_dropRemote conn x).symm)
  have haffected : (Job.affected conn) ∘ job = affected conn := funext (job_affected conn)
  constructor
  · intro i hi
    show (if i < TAM_TABLA_JOBS then (extractBucket conn (t.bucket i) []).1 else t.bucket i) = _
    rw [if_pos hi, extractBucket_eq, hL i hi, hdrop, List.filter_map]
    unfold quedan
    rw [← haffected]
    rfl
  · have hjobs : t.jobs = (jobsDe L (List.range TAM_TABLA_JOBS)).map job := by
      unfold TablaJobs.jobs Buckets.toList jobsDe
      rw [List.map_flatMap]
      exact List.flatMap_congr (fun i hi => hL i (List.mem_range.mp hi))
    rw [TablaJobs.extractByRemoteConn_fst, hjobs, hdrop, List.filter_map, haffected,
      ← List.map_reverse]
    rfl

end Hpc
