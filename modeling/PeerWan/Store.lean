import Mathlib.Data.List.DropRight
import Mathlib.Data.List.Sort
import Mathlib.Logic.Function.Basic
import PeerWan.Model

/-!
# The node store

`NodeStore` is the interface of `pkg/store/store.go`: every call answers or
fails, and may move the store. Calls that range over a map take the order of
that loop, calls that read the clock take its time. `MemoryStore` is the
in-memory implementation of `pkg/store/memory.go`; only `rollbackPlan` and
`updatePolicy` fail there.
-/

namespace PeerWan

open Lib

abbrev Reply (α : Type) := Except String α

/-- A call whose error is discarded: `x, _ := ...`. -/
def Reply.getD (r : Reply α) (zero : α) : α :=
  match r with
  | .ok a => a
  | .error _ => zero

@[simp] theorem Reply.getD_ok (a zero : α) : Reply.getD (.ok a) zero = a := rfl

class NodeStore (σ : Type) where
  upsertNode : Node → σ → Reply Node × σ
  listNodes : MapOrder Node → σ → Reply (List Node) × σ
  getNode : String → σ → Reply (Option Node) × σ
  savePlan : Plan → σ → Reply Unit × σ
  getPlan : String → σ → Reply (Option Plan) × σ
  listPlanHistory : String → Int → σ → Reply (List Plan) × σ
  rollbackPlan : String → Int → σ → Reply Plan × σ
  setGlobalPlanVersion : Int → σ → Reply Unit × σ
  getGlobalPlanVersion : σ → Reply Int × σ
  updatePolicy : PolicyRequest → σ → Reply Unit × σ
  saveTask : Int → Task → σ → Reply Unit × σ
  getTask : String → σ → Reply (Option Task) × σ
  listTasks : MapOrder Task → String → Int → σ → Reply (List Task) × σ
  saveHealth : Int → HealthReport → σ → Reply Unit × σ
  listHealth : MapOrder HealthReport → σ → Reply (List HealthReport) × σ
  listHealthHistory : String → Int → σ → Reply (List HealthReport) × σ
  pruneHealthBefore : Int → σ → Reply Unit × σ
  appendAudit : AuditEntry → σ → Reply Unit × σ
  listAudit : Int → σ → Reply (List AuditEntry) × σ
  getSettings : σ → Reply Settings × σ
  updateSettings : Settings → σ → Reply Unit × σ
  /-- What a restarted controller finds of the store. -/
  reopen : σ → σ

def defaultGeoIP : GeoIPConfig where
  cacheDir := "/tmp/peer-wan-geoip"
  sourceV4 := "https://raw.githubusercontent.com/ipverse/rir-ip/master/country/ipv4/%s.cidr"
  sourceV6 := "https://raw.githubusercontent.com/ipverse/rir-ip/master/country/ipv6/%s.cidr"
  cacheTTL := "24h"

def defaultDiag : DiagConfig where
  pingInterval := "3s"

def Node.withPolicy (n : Node) (req : PolicyRequest) : Node :=
  { n with
    egressPeerID := req.egressPeer
    policyRules := req.policyRules
    defaultRoute := req.defaultRoute
    bypassCIDRs := req.bypassCIDRs
    defaultRouteNextHop := req.defaultRouteNextHop }

-- ---------------------------------------------------------------------------
-- MemoryStore
-- ---------------------------------------------------------------------------

/-- A Go map that is only read and written by key is a function: reading an
absent key gives the zero value. A record's version is an `int` in the source,
which would take 2^63 writes of the record to wrap. -/
structure MemoryStore where
  nodes : Table Node.id
  version : String → Nat
  health : Table HealthReport.nodeID
  healthHistory : String → List HealthReport
  tasks : Table Task.id
  audit : List AuditEntry
  plans : String → Option Plan
  history : String → List Plan
  globalPlanVersion : Int
  settings : Settings

namespace MemoryStore

def new : MemoryStore where
  nodes := ∅
  version := fun _ => 0
  health := ∅
  healthHistory := fun _ => []
  tasks := ∅
  audit := []
  plans := fun _ => none
  history := fun _ => []
  globalPlanVersion := 0
  settings := { geoIP := defaultGeoIP, diag := defaultDiag }

instance : Inhabited MemoryStore := ⟨new⟩

def versionString (v : Nat) : String := "v0.0." ++ toString v

def upsertNode (n : Node) (m : MemoryStore) : Node × MemoryStore :=
  let next := m.version n.id + 1
  let n := { n with version := versionString next, configVersion := versionString next }
  (n, { m with nodes := m.nodes.put n, version := Function.update m.version n.id next })

def day : Int := 24 * 60 * 60 * 1000000000

def saveHealth (now : Int) (h : HealthReport) (m : MemoryStore) : MemoryStore :=
  let cutoff := now - day
  let hist := m.healthHistory h.nodeID ++ [h]
  { m with
    health := m.health.put h
    healthHistory := Function.update m.healthHistory h.nodeID
      (hist.filter fun item => item.timestamp > cutoff) }

def listHealthHistory (nodeID : String) (since : Int) (m : MemoryStore) : List HealthReport :=
  (m.healthHistory nodeID).filter fun h => h.timestamp ≥ since

def pruneHealthBefore (cutoff : Int) (m : MemoryStore) : MemoryStore :=
  { m with healthHistory := fun nodeID =>
      (m.healthHistory nodeID).filter fun h => h.timestamp ≥ cutoff }

/-- The last `limit` entries, or all of them when the limit does not bite. -/
def limited (limit : Int) (l : List α) : List α :=
  if limit ≤ 0 ∨ limit > l.length then l else l.rtake limit.toNat

/-- A zero time is the unset time of a new task. -/
def saveTask (now : Int) (t : Task) (m : MemoryStore) : MemoryStore :=
  let t := if t.createdAt = 0 then { t with createdAt := now } else t
  { m with tasks := m.tasks.put { t with updatedAt := now } }

def listTasks (o : MapOrder Task) (nodeID : String) (limit : Int) (m : MemoryStore) : List Task :=
  let out := (m.tasks.range o).filter fun t => nodeID = "" || t.nodeID = nodeID
  let out := out.insertionSort fun a b => a.createdAt ≤ b.createdAt
  if limit > 0 ∧ out.length > limit then out.rtake limit.toNat else out

def savePlan (p : Plan) (m : MemoryStore) : MemoryStore :=
  { m with
    plans := Function.update m.plans p.nodeID (some p)
    history := Function.update m.history p.nodeID ((m.history p.nodeID ++ [p]).rtake 20) }

def rollbackPlan (nodeID : String) (version : Int) (m : MemoryStore) : Reply Plan × MemoryStore :=
  match (m.history nodeID).find? (fun p => p.version = version) with
  | some p => (.ok p, { m with
      plans := Function.update m.plans nodeID (some p)
      globalPlanVersion := version })
  | none => (.error "version not found", m)

def updatePolicy (req : PolicyRequest) (m : MemoryStore) : Reply Unit × MemoryStore :=
  match m.nodes.get? req.nodeID with
  | some n => (.ok (), { m with nodes := m.nodes.put (n.withPolicy req) })
  | none => (.error "node not found", m)

end MemoryStore

instance : NodeStore MemoryStore where
  upsertNode n m := let (n, m) := m.upsertNode n; (.ok n, m)
  listNodes o m := (.ok (m.nodes.range o), m)
  getNode id m := (.ok (m.nodes.get? id), m)
  savePlan p m := (.ok (), m.savePlan p)
  getPlan nodeID m := (.ok (m.plans nodeID), m)
  listPlanHistory nodeID limit m := (.ok (MemoryStore.limited limit (m.history nodeID)), m)
  rollbackPlan nodeID version m := m.rollbackPlan nodeID version
  setGlobalPlanVersion v m := (.ok (), { m with globalPlanVersion := v })
  getGlobalPlanVersion m := (.ok m.globalPlanVersion, m)
  updatePolicy req m := m.updatePolicy req
  saveTask now t m := (.ok (), m.saveTask now t)
  getTask id m := (.ok (m.tasks.get? id), m)
  listTasks o nodeID limit m := (.ok (m.listTasks o nodeID limit), m)
  saveHealth now h m := (.ok (), m.saveHealth now h)
  listHealth o m := (.ok (m.health.range o), m)
  listHealthHistory nodeID since m := (.ok (m.listHealthHistory nodeID since), m)
  pruneHealthBefore cutoff m := (.ok (), m.pruneHealthBefore cutoff)
  appendAudit entry m := (.ok (), { m with audit := m.audit ++ [entry] })
  listAudit limit m := (.ok (MemoryStore.limited limit m.audit), m)
  getSettings m := (.ok m.settings, m)
  updateSettings s m := (.ok (), { m with settings := s })
  reopen _ := MemoryStore.new

namespace MemoryStore

variable (m : MemoryStore)

@[simp] theorem store_upsertNode (n : Node) :
    NodeStore.upsertNode n m = (.ok (m.upsertNode n).1, (m.upsertNode n).2) := rfl

@[simp] theorem store_listNodes (o : MapOrder Node) :
    NodeStore.listNodes o m = (.ok (m.nodes.range o), m) := rfl

@[simp] theorem store_getNode (id : String) : NodeStore.getNode id m = (.ok (m.nodes.get? id), m) := rfl

@[simp] theorem store_savePlan (p : Plan) : NodeStore.savePlan p m = (.ok (), m.savePlan p) := rfl

@[simp] theorem store_rollbackPlan (nodeID : String) (v : Int) :
    NodeStore.rollbackPlan nodeID v m = m.rollbackPlan nodeID v := rfl

@[simp] theorem store_setGlobalPlanVersion (v : Int) :
    NodeStore.setGlobalPlanVersion v m = (.ok (), { m with globalPlanVersion := v }) := rfl

@[simp] theorem store_updatePolicy (req : PolicyRequest) :
    NodeStore.updatePolicy req m = m.updatePolicy req := rfl

@[simp] theorem store_saveTask (now : Int) (t : Task) :
    NodeStore.saveTask now t m = (.ok (), m.saveTask now t) := rfl

@[simp] theorem store_saveHealth (now : Int) (h : HealthReport) :
    NodeStore.saveHealth now h m = (.ok (), m.saveHealth now h) := rfl

@[simp] theorem store_listHealth (o : MapOrder HealthReport) :
    NodeStore.listHealth o m = (.ok (m.health.range o), m) := rfl

@[simp] theorem store_appendAudit (entry : AuditEntry) :
    NodeStore.appendAudit entry m = (.ok (), { m with audit := m.audit ++ [entry] }) := rfl

@[simp] theorem store_getSettings : NodeStore.getSettings m = (.ok m.settings, m) := rfl

end MemoryStore

end PeerWan
