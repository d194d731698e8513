import PeerWan.Lib.KV
import PeerWan.Store
import PeerWan.Text

/-!
# The Consul store

`pkg/consul/store_consul.go` keeps every record under a key of its own in
Consul's key-value store, as JSON. Here a value is what it encodes, so
marshalling and reading back a record of the model is the identity; `raw` is
text that decodes as none of them. The goroutine that `SaveHealth` starts to
prune old entries is taken to run at once.
-/

namespace PeerWan

open Lib

-- ---------------------------------------------------------------------------
-- Keys and values
-- ---------------------------------------------------------------------------

inductive ConsulValue where
  | node (n : Node)
  | health (h : HealthReport)
  | task (t : Task)
  | audit (e : AuditEntry)
  | plan (p : Plan)
  | version (v : Int)
  | settings (s : Settings)
  | raw (text : String)
  deriving DecidableEq, Repr

/-- `json.Unmarshal` into a `Plan`, if it succeeds. -/
def ConsulValue.plan? : ConsulValue → Option Plan
  | .plan p => some p
  | _ => none

theorem ConsulValue.plan?_eq_some {v : ConsulValue} {p : Plan} : v.plan? = some p ↔ v = .plan p := by
  cases v <;> simp [plan?]

/-- What `Sscanf` with `%d` finds: zero where the text is no number. -/
def ConsulValue.scanVersion : ConsulValue → Int
  | .version v => v
  | _ => 0

/-- `decodeNodeRecord`, without the numeric versions of older records. -/
def ConsulValue.node? : ConsulValue → Option Node
  | .node n => some (if n.configVersion = "" ∧ n.version ≠ "" then { n with configVersion := n.version } else n)
  | _ => none

def ConsulValue.health? : ConsulValue → Option HealthReport
  | .health h => some h
  | _ => none

def ConsulValue.task? : ConsulValue → Option Task
  | .task t => some t
  | _ => none

def ConsulValue.audit? : ConsulValue → Option AuditEntry
  | .audit e => some e
  | _ => none

def ConsulValue.settings? : ConsulValue → Option Settings
  | .settings s => some s
  | _ => none

/-- `now` is what `time.Now` gives where a record comes without a time. -/
structure ConsulStore where
  kv : KV ConsulValue
  now : Int := 0

/-- An empty Consul, with any index to begin from and any indices to come. -/
def ConsulStore.empty (index : Nat) (next : Nat → Nat) (h : ∀ i, i < next i) : ConsulStore where
  kv := { entries := ∅, index := index, index_le := nofun, next := next, lt_next := h }

namespace ConsulStore

def nodePrefix : String := "peer-wan/nodes/"
def healthPrefix : String := "peer-wan/health/"
def healthHistPrefix : String := "peer-wan/health-history/"
def policyStatusPref : String := "peer-wan/policy-status/"
def policyDiagPref : String := "peer-wan/policy-diag/"
def taskPref : String := "peer-wan/tasks/"
def auditPrefix : String := "peer-wan/audit/"
def planPrefix : String := "peer-wan/plan/"
def versionKey : String := "peer-wan/plan/version"
def settingsKey : String := "peer-wan/settings"

/-- `UnixNano`: the `int64` wraps. -/
def unixNano (t : Int) : Int := int64 t

def nodeKey (id : String) : String := nodePrefix ++ id
def healthKey (nodeID : String) : String := healthPrefix ++ nodeID
def healthHistKey (nodeID : String) (timestamp : Int) : String :=
  healthHistPrefix ++ nodeID ++ "/" ++ toString (unixNano timestamp)
def policyStatusKey (nodeID : String) (timestamp : Int) : String :=
  policyStatusPref ++ nodeID ++ "/" ++ toString (unixNano timestamp)
def policyDiagKey (nodeID : String) (timestamp : Int) : String :=
  policyDiagPref ++ nodeID ++ "/" ++ toString (unixNano timestamp)
def taskKey (id : String) : String := taskPref ++ id
def auditKey (timestamp : Int) (target : String) : String :=
  auditPrefix ++ toString (unixNano timestamp) ++ "-" ++ target
def planKey (nodeID : String) : String := planPrefix ++ nodeID
def planHistKey (nodeID : String) (version : Int) : String := planPrefix ++ nodeID ++ "/" ++ toString version

-- ---------------------------------------------------------------------------
-- Requests to Consul
-- ---------------------------------------------------------------------------

variable (s : ConsulStore)

def withKV {α : Type} (r : Except String α × KV ConsulValue) : Except String α × ConsulStore :=
  (r.1, { s with kv := r.2 })

/-- A read of one key: an absent key is no error, a value that does not decode is. -/
def getValue (k : String) (decode : ConsulValue → Option α) : Reply (Option α) × ConsulStore :=
  match s.withKV (s.kv.get k) with
  | (.error err, s) => (.error err, s)
  | (.ok none, s) => (.ok none, s)
  | (.ok (some e), s) =>
    match decode e.value with
    | none => (.error "invalid value", s)
    | some a => (.ok (some a), s)

/-- A listing leaves out what does not decode. -/
def listValues (pfx : String) (decode : ConsulValue → Option α) : Reply (List α) × ConsulStore :=
  match s.withKV (s.kv.list pfx) with
  | (.error err, s) => (.error err, s)
  | (.ok es, s) => (.ok (es.filterMap fun e => decode e.value), s)

def putValue (k : String) (v : ConsulValue) : Reply Unit × ConsulStore := s.withKV (s.kv.put k v)

/-- The last `limit` entries, if the limit is positive. -/
def limited (limit : Int) (l : List α) : List α :=
  if limit > 0 ∧ l.length > limit then l.rtake limit.toNat else l

-- ---------------------------------------------------------------------------
-- Nodes, settings and audit
-- ---------------------------------------------------------------------------

def upsertNode (n : Node) : Reply Node × ConsulStore :=
  match s.putValue (nodeKey n.id) (.node n) with
  | (.error err, s) => (.error err, s)
  | (.ok (), s) => (.ok n, s)

def listNodes : Reply (List Node) × ConsulStore := s.listValues nodePrefix ConsulValue.node?

def getNode (id : String) : Reply (Option Node) × ConsulStore := s.getValue (nodeKey id) ConsulValue.node?

def updatePolicy (req : PolicyRequest) : Reply Unit × ConsulStore :=
  match s.getNode req.nodeID with
  | (.error err, s) => (.error err, s)
  | (.ok none, s) => (.error "node not found", s)
  | (.ok (some n), s) => s.putValue (nodeKey req.nodeID) (.node (n.withPolicy req))

def getSettings : Reply Settings × ConsulStore :=
  match s.getValue settingsKey ConsulValue.settings? with
  | (.error err, s) => (.error err, s)
  | (.ok cfg, s) => (.ok (cfg.getD {}), s)

def updateSettings (cfg : Settings) : Reply Unit × ConsulStore := s.putValue settingsKey (.settings cfg)

def appendAudit (entry : AuditEntry) : Reply Unit × ConsulStore :=
  let entry := if entry.timestamp = 0 then { entry with timestamp := s.now } else entry
  s.putValue (auditKey entry.timestamp entry.target) (.audit entry)

def listAudit (limit : Int) : Reply (List AuditEntry) × ConsulStore :=
  match s.listValues auditPrefix ConsulValue.audit? with
  | (.error err, s) => (.error err, s)
  | (.ok out, s) => (.ok (limited limit out), s)

-- ---------------------------------------------------------------------------
-- Health and tasks
-- ---------------------------------------------------------------------------

/-- The timestamp at the end of a history key. -/
def keyTimestamp (k : String) : Option Int :=
  parseInt (String.ofList (k.toList.rtakeWhile (· ≠ '/')))

/-- The loop that deletes the entries before a cutoff: a delete that fails is
passed over. -/
def deleteBefore (cutoff : Int) (es : List (KVEntry ConsulValue)) : ConsulStore :=
  es.foldl (fun s e =>
    match keyTimestamp e.key with
    | some ts => if ts < cutoff then (s.withKV (s.kv.delete e.key)).2 else s
    | none => s) s

def pruneHealth (pfx : String) (cutoff : Int) : Reply Unit × ConsulStore :=
  match s.withKV (s.kv.list pfx) with
  | (.error err, s) => (.error err, s)
  | (.ok es, s) => (.ok (), s.deleteBefore cutoff es)

def pruneHealthBefore (cutoff : Int) : Reply Unit × ConsulStore := s.pruneHealth healthHistPrefix cutoff

def saveHealth (now : Int) (h : HealthReport) : Reply Unit × ConsulStore :=
  match s.putValue (healthKey h.nodeID) (.health h) with
  | (.error err, s) => (.error err, s)
  | (.ok (), s) =>
    let (_, s) := s.putValue (healthHistKey h.nodeID h.timestamp) (.health h)
    let (_, s) := s.pruneHealth (healthHistPrefix ++ h.nodeID ++ "/") (now - MemoryStore.day)
    (.ok (), s)

def listHealth : Reply (List HealthReport) × ConsulStore := s.listValues healthPrefix ConsulValue.health?

def listHealthHistory (nodeID : String) (since : Int) : Reply (List HealthReport) × ConsulStore :=
  match s.listValues (healthHistPrefix ++ nodeID ++ "/") ConsulValue.health? with
  | (.error err, s) => (.error err, s)
  | (.ok out, s) => (.ok (out.filter fun h => h.timestamp ≥ since), s)

def saveTask (now : Int) (t : Task) : Reply Unit × ConsulStore :=
  let t := if t.createdAt = 0 then { t with createdAt := now } else t
  s.putValue (taskKey t.id) (.task { t with updatedAt := now })

def getTask (id : String) : Reply (Option Task) × ConsulStore := s.getValue (taskKey id) ConsulValue.task?

def listTasks (nodeID : String) (limit : Int) : Reply (List Task) × ConsulStore :=
  match s.listValues taskPref ConsulValue.task? with
  | (.error err, s) => (.error err, s)
  | (.ok out, s) =>
    let out := out.filter fun t => nodeID = "" || t.nodeID = nodeID
    (.ok (limited limit (out.insertionSort fun a b => a.createdAt ≤ b.createdAt)), s)

/-- A report of the policy pages, which the model does not read: its text under
the key that `SavePolicyStatus` or `SavePolicyDiag` forms. -/
def savePolicyStatus (nodeID : String) (timestamp : Int) (text : String) : Reply Unit × ConsulStore :=
  s.putValue (policyStatusKey nodeID timestamp) (.raw text)

def savePolicyDiag (nodeID : String) (timestamp : Int) (text : String) : Reply Unit × ConsulStore :=
  s.putValue (policyDiagKey nodeID timestamp) (.raw text)

-- ---------------------------------------------------------------------------
-- Plans
-- ---------------------------------------------------------------------------

/-- The index that `SavePlan` makes of a version. -/
def casIndex (version : Int) : Nat := if version > 0 then version.toNat else 0

def dated (p : Plan) : Plan := if p.createdAt = 0 then { p with createdAt := s.now } else p

def savePlan (p : Plan) : Reply Unit × ConsulStore :=
  let p := s.dated p
  match s.withKV (s.kv.cas (planKey p.nodeID) (.plan p) (casIndex p.version)) with
  | (.error err, s) => (.error err, s)
  | (.ok false, s) => (.error "plan CAS failed", s)
  | (.ok true, s) => s.putValue (planHistKey p.nodeID p.version) (.plan p)

def getPlan (nodeID : String) : Reply (Option Plan) × ConsulStore := s.getValue (planKey nodeID) ConsulValue.plan?

def listPlanHistory (nodeID : String) (limit : Int) : Reply (List Plan) × ConsulStore :=
  match s.listValues (planPrefix ++ nodeID ++ "/") ConsulValue.plan? with
  | (.error err, s) => (.error err, s)
  | (.ok out, s) => (.ok (limited limit out), s)

def rollbackPlan (nodeID : String) (version : Int) : Reply Plan × ConsulStore :=
  match s.withKV (s.kv.get (planHistKey nodeID version)) with
  | (.error _, s) => (.error "plan version not found", s)
  | (.ok none, s) => (.error "plan version not found", s)
  | (.ok (some e), s) =>
    match e.value.plan? with
    | none => (.error "invalid value", s)
    | some p =>
      let p := { p with version := version }
      match s.savePlan p with
      | (.error err, s) => (.error err, s)
      | (.ok (), s) => (.ok p, s)

def setGlobalPlanVersion (v : Int) : Reply Unit × ConsulStore := s.putValue versionKey (.version v)

def getGlobalPlanVersion : Reply Int × ConsulStore :=
  match s.withKV (s.kv.get versionKey) with
  | (.error err, s) => (.error err, s)
  | (.ok none, s) => (.ok 0, s)
  | (.ok (some e), s) => (.ok e.value.scanVersion, s)

end ConsulStore

/-- Consul lists in the order of the keys, whatever the loop over a map would
do, and keeps what it has when the controller restarts. -/
instance : NodeStore ConsulStore where
  upsertNode n s := s.upsertNode n
  listNodes _ s := s.listNodes
  getNode id s := s.getNode id
  savePlan p s := s.savePlan p
  getPlan nodeID s := s.getPlan nodeID
  listPlanHistory nodeID limit s := s.listPlanHistory nodeID limit
  rollbackPlan nodeID version s := s.rollbackPlan nodeID version
  setGlobalPlanVersion v s := s.setGlobalPlanVersion v
  getGlobalPlanVersion s := s.getGlobalPlanVersion
  updatePolicy req s := s.updatePolicy req
  saveTask now t s := s.saveTask now t
  getTask id s := s.getTask id
  listTasks _ nodeID limit s := s.listTasks nodeID limit
  saveHealth now h s := s.saveHealth now h
  listHealth _ s := s.listHealth
  listHealthHistory nodeID since s := s.listHealthHistory nodeID since
  pruneHealthBefore cutoff s := s.pruneHealthBefore cutoff
  appendAudit entry s := s.appendAudit entry
  listAudit limit s := s.listAudit limit
  getSettings s := s.getSettings
  updateSettings cfg s := s.updateSettings cfg
  reopen s := s

end PeerWan
