import HpcAgent.Types

/-!
# The tables keyed by address

`tabla_conns.c` and `tabla_node_entry.c`: the connections to other nodes and
the nodes heard of over UDP, two hash tables over the same hash of the address
string. A table is the function from the bucket number to the chain of that
bucket.
-/

namespace Hpc

/-- `TAM_TABLA_CONN`. -/
def TAM_TABLA_CONN : ℕ := 71

/-- `hash_ip`, the same function in both files. -/
def hashIp (ip : CString) : ℕ :=
  (ip.foldl (fun hash c => hash * 31 + (UInt8.ofNat c.toNat).toUInt32) (0 : UInt32)
    % 71).toNat

theorem hashIp_lt (ip : CString) : hashIp ip < TAM_TABLA_CONN := by
  unfold hashIp TAM_TABLA_CONN
  rw [UInt32.toNat_mod]
  exact Nat.mod_lt _ (by decide)

/-! ## The connections -/

/-- `TablaConns`. -/
structure TablaConns where
  buckets : ℕ → List ConnEntry

/-- `tabla_conns_init`. -/
def tablaConnsInit : TablaConns := ⟨fun _ => []⟩

/-- The entries of a table, in the order a walk over the buckets meets them. -/
def TablaConns.entries (t : TablaConns) : List ConnEntry :=
  (List.range TAM_TABLA_CONN).flatMap t.buckets

/-- `tabla_conns_insert`. -/
def tablaConnsInsert (t : TablaConns) (ip : CString) (conn : Conn) : TablaConns :=
  ⟨Function.update t.buckets (hashIp ip)
    (⟨copyTo 16 ip, conn⟩ :: t.buckets (hashIp ip))⟩

/-- `tabla_conns_lookup`. -/
def tablaConnsLookup (t : TablaConns) (ip : CString) : Option Conn :=
  ((t.buckets (hashIp ip)).find? (fun e => e.ip == ip)).map (·.conn)

/-- `tabla_conns_get_ip_by_conn`. -/
def tablaConnsGetIpByConn (t : TablaConns) (conn : Conn) : Option CString :=
  (t.entries.find? (fun e => e.conn == conn)).map (·.ip)

/-- `tabla_conns_delete_by_conn`: the first entry of the connection in each
bucket is unlinked. -/
def tablaConnsDeleteByConn (t : TablaConns) (conn : Conn) : TablaConns :=
  ⟨fun i => if i < TAM_TABLA_CONN
    then (t.buckets i).eraseP (fun e => e.conn == conn) else t.buckets i⟩

/-! ## The nodes -/

/-- `TablaNodos`. -/
structure TablaNodos where
  buckets : ℕ → List NodeEntry

/-- `tabla_nodos_init`. -/
def tablaNodosInit : TablaNodos := ⟨fun _ => []⟩

/-- The entries of the table, bucket after bucket. -/
def TablaNodos.entries (t : TablaNodos) : List NodeEntry :=
  (List.range TAM_TABLA_CONN).flatMap t.buckets

/-- `tabla_nodos_insert_or_update`, at the time `now`. -/
def tablaNodosInsertOrUpdate (t : TablaNodos) (now : ℤ) (ip : CString)
    (puerto cpu mem gpu : Int32) : TablaNodos :=
  let chain := t.buckets (hashIp ip)
  ⟨Function.update t.buckets (hashIp ip)
    (if chain.any (fun e => e.ip == ip) then
      chain.modifyFirst (fun e => e.ip == ip)
        (fun e => { e with puerto := puerto, cpuDisp := cpu, memDisp := mem,
                           gpuDisp := gpu, lastSeen := now })
    else ⟨copyTo 16 ip, puerto, cpu, mem, gpu, now⟩ :: chain)⟩

/-- `tabla_nodos_get_puerto`. -/
def tablaNodosGetPuerto (t : TablaNodos) (ip : CString) : Int32 :=
  match (t.buckets (hashIp ip)).find? (fun e => e.ip == ip) with
  | some e => e.puerto
  | none => -1

/-- `tabla_nodos_purge`, at the time `now`. -/
def tablaNodosPurge (t : TablaNodos) (now timeout : ℤ) : TablaNodos :=
  ⟨fun i => if i < TAM_TABLA_CONN
    then (t.buckets i).filter (fun e => decide (now - e.lastSeen ≤ timeout))
    else t.buckets i⟩

end Hpc
