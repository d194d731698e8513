import PeerWan.Controller.Plans

/-!
# The controller's requests

The handlers of `pkg/api/controller.go`, `prepare.go` and `policy.go` that
touch node records, plans or versions, each from the checks it makes to the
answer it gives. A body that does not decode is `none`. Whether the bearer
token parses is an input, and so is everything in `Env`.
-/

namespace PeerWan

open Lib

structure Credentials where
  jwt : Bool := false
  token : String := ""
  deriving DecidableEq, Repr

/-- The fields `UpdatePolicy` sets and `/policy` answers with. -/
structure PolicyFields where
  egressPeerID : String := ""
  policyRules : List PolicyRule := []
  defaultRoute : Bool := false
  bypassCIDRs : List String := []
  defaultRouteNextHop : String := ""
  deriving DecidableEq, Repr, Inhabited

def Node.policyFields (n : Node) : PolicyFields where
  egressPeerID := n.egressPeerID
  policyRules := n.policyRules
  defaultRoute := n.defaultRoute
  bypassCIDRs := n.bypassCIDRs
  defaultRouteNextHop := n.defaultRouteNextHop

inductive Body where
  | error (text : String)
  | status (status : String)
  | config (cfg : NodeConfigResponse)
  | prepared (p : PrepareResponse)
  | policy (fields : PolicyFields)
  | plan (p : Plan)
  deriving DecidableEq, Repr

structure Response where
  code : Nat
  body : Body
  deriving DecidableEq, Repr

def Response.error (code : Nat) (text : String) : Response := ⟨code, .error text⟩

@[simp] theorem Response.error_code (code : Nat) (text : String) : (Response.error code text).code = code := rfl

-- ---------------------------------------------------------------------------
-- The overlay scan
-- ---------------------------------------------------------------------------

/-- `fmt.Sscanf(ip, "10.10.%d.", &third)`: the number, when the scan has no error. -/
def scanThird (ip : String) : Option Int :=
  let head := "10.10.".toList
  if head <+: ip.toList then
    let rest := (ip.toList.drop head.length).dropWhile fun c => isSpace c && c ≠ '\n'
    let (negative, rest) := match rest with
      | '-' :: rest => (true, rest)
      | '+' :: rest => (false, rest)
      | rest => (false, rest)
    let ds := rest.takeWhile Char.isDigit
    let value : Int := if negative then -(digitsValue ds : Int) else digitsValue ds
    if ds ≠ [] ∧ (rest.drop ds.length).head? = some '.' ∧ int64 value = value then some value else none
  else none

-- ---------------------------------------------------------------------------
-- Register
-- ---------------------------------------------------------------------------

variable {σ : Type} [NodeStore σ]

def agentAuthorized (nodeID token : String) (st : σ) : Bool × σ :=
  if nodeID = "" ∨ token = "" then (false, st)
  else match NodeStore.getNode nodeID st with
    | (.ok (some n), st) => (decide (n.provisionToken ≠ "" ∧ n.provisionToken = token), st)
    | (_, st) => (false, st)

/-- `if !auth(r) && !agentAuthorized(...)`. -/
def admitted (auth : Credentials) (nodeID : String) (st : σ) : Bool × σ :=
  if auth.jwt then (true, st) else agentAuthorized nodeID auth.token st

theorem agentAuthorized_leaves {τ : Type} {f : σ → τ} (hread : ∀ id st, f (NodeStore.getNode id st).2 = f st)
    (nodeID token : String) (st : σ) : f (agentAuthorized nodeID token st).2 = f st := by
  unfold agentAuthorized
  split
  next => rfl
  next =>
    rw [← hread nodeID st]
    rcases NodeStore.getNode nodeID st with ⟨r, st'⟩
    rcases r with err | n
    · rfl
    · cases n <;> rfl

theorem admitted_leaves {τ : Type} {f : σ → τ} (hread : ∀ id st, f (NodeStore.getNode id st).2 = f st)
    (auth : Credentials) (nodeID : String) (st : σ) : f (admitted auth nodeID st).2 = f st := by
  unfold admitted
  split
  · rfl
  · exact agentAuthorized_leaves hread nodeID auth.token st

def nodeEqual (a b : Node) : Bool :=
  a.id = b.id && a.publicKey = b.publicKey && a.listenPort = b.listenPort && a.overlayIP = b.overlayIP &&
    a.asn = b.asn && a.routerID = b.routerID && a.endpoints = b.endpoints && a.cidrs = b.cidrs

def isPlaceholderOverlay (s : String) : Bool := s = "" || s = "10.10.1.1/32"

/-- The token of the request, or else of its header. -/
def NodeRegistrationRequest.withToken (req : NodeRegistrationRequest) (token : String) :
    NodeRegistrationRequest :=
  if req.provisionToken = "" then { req with provisionToken := token } else req

def NodeRegistrationRequest.toNode (req : NodeRegistrationRequest) : Node where
  id := req.id
  publicKey := if req.publicKey = "stub-public-key" then "" else req.publicKey
  endpoints := req.endpoints
  cidrs := req.cidrs
  listenPort := req.listenPort
  overlayIP := req.overlayIP
  asn := req.asn
  routerID := req.routerID
  peerEndpoints := req.peerEndpoints
  provisionToken := req.provisionToken

/-- The merge of both register paths, with a provision token and without: what
the request leaves empty is taken from the stored record. -/
def mergeExisting (existing node : Node) : Node :=
  { node with
    publicKey := if node.publicKey = "" then existing.publicKey else node.publicKey
    privateKey := if node.privateKey = "" then existing.privateKey else node.privateKey
    overlayIP :=
      if existing.overlayIP ≠ "" then existing.overlayIP
      else if node.overlayIP = "" || (isPlaceholderOverlay node.overlayIP && existing.overlayIP ≠ "") then
        existing.overlayIP
      else node.overlayIP
    provisionToken := existing.provisionToken
    listenPort := if node.listenPort = 0 then existing.listenPort else node.listenPort
    asn := if node.asn = 0 then existing.asn else node.asn
    routerID := if node.routerID = "" then existing.routerID else node.routerID
    endpoints := if node.endpoints = [] then existing.endpoints else node.endpoints
    cidrs := if node.cidrs = [] then existing.cidrs else node.cidrs
    peerEndpoints := if node.peerEndpoints = ∅ then existing.peerEndpoints else node.peerEndpoints }

def withRouterID (node : Node) : Node :=
  if node.routerID = "" then { node with routerID := (beforeSlash node.overlayIP).getD "" } else node

/-- The record a register builds. A request with a token has passed the check
of the stored one, so there is a record to merge. -/
def registeredNode (existing : Option Node) (req : NodeRegistrationRequest) : Node :=
  withRouterID (match existing with
    | some existing => mergeExisting existing req.toNode
    | none => req.toNode)

/-- The stored record stays when nothing that `nodeEqual` compares has changed. -/
def registerWrites (existing : Option Node) (req : NodeRegistrationRequest) : Bool :=
  match existing with
  | some existing => req.force || !nodeEqual existing (registeredNode (some existing) req)
  | none => true

def validToken (existing : Option Node) (token : String) : Bool :=
  match existing with
  | some existing => existing.provisionToken ≠ "" && existing.provisionToken = token
  | none => false

def registered (host : Host) (env : Env) (saved : Node) (c : Controller σ) : Response × Controller σ :=
  let entry : AuditEntry := {
    actor := "controller"
    action := "register"
    target := saved.id
    detail := "node registered/updated"
    timestamp := env.now }
  let (_, st) := NodeStore.appendAudit entry c.store
  let (allNodes, st) := NodeStore.listNodes (env.nodeOrder 0) st
  let allNodes := Reply.getD allNodes []
  let (reports, st) := NodeStore.listHealth (env.healthOrder 0) st
  let localPlan := buildPeerPlan saved.id allNodes (healthMap (Reply.getD reports []))
  let c := { c with store := st }
  let c := match recomputeAllPlans host env 1 c with
    | (.error _, c) => c
    | (.ok (), c) => bumpPlanVersion c
  let (settings, st) := loadSettingsOrDefault c.store
  let (interval, st) := diagIntervalSeconds host st
  let cv := if saved.configVersion = "" then host.build else saved.configVersion
  let cfg := configOf saved cv localPlan (expandPolicyRules allNodes saved.id) settings.geoIP interval
    "registered; peer plan derived from currently known nodes"
  (⟨200, .config { cfg with privateKey := saved.privateKey, publicKey := saved.publicKey }⟩,
    { c with store := st })

def register (host : Host) (env : Env) (auth : Credentials) (body : Option NodeRegistrationRequest)
    (c : Controller σ) : Response × Controller σ :=
  match body with
  | none => (.error 400 "invalid payload", c)
  | some req =>
    let req := req.withToken auth.token
    if req.id = "" then (.error 400 "id is required", c)
    else if req.provisionToken = "" && !auth.jwt then (.error 401 "unauthorized", c)
    else
      let (existing, st) := NodeStore.getNode req.id c.store
      let existing := Reply.getD existing none
      if req.provisionToken ≠ "" && !validToken existing req.provisionToken then
        (.error 401 "invalid provision token", { c with store := st })
      else
        let node := registeredNode existing req
        if registerWrites existing req then
          match NodeStore.upsertNode node st with
          | (.error _, st) => (.error 500 "failed to persist node", { c with store := st })
          | (.ok saved, st) => registered host env saved { c with store := st }
        else registered host env (existing.getD {}) { c with store := st }

-- ---------------------------------------------------------------------------
-- Prepare
-- ---------------------------------------------------------------------------

def assignOverlay (env : Env) (st : σ) : String × σ :=
  let (nodes, st) := NodeStore.listNodes (env.nodeOrder 0) st
  let used := (Reply.getD nodes []).filterMap fun n => scanThird (ipWithoutMask n.overlayIP)
  match (List.range' 1 253).find? fun i => (i : Int) ∉ used with
  | some i => ("10.10." ++ toString i ++ ".1/32", st)
  | none => ("10.10.250.1/32", st)

theorem assignOverlay_leaves {τ : Type} {f : σ → τ} {env : Env}
    (hread : ∀ st, f (NodeStore.listNodes (env.nodeOrder 0) st).2 = f st) (st : σ) :
    f (assignOverlay env st).2 = f st := by
  unfold assignOverlay
  dsimp only
  split <;> exact hread st

def preparedNode (host : Host) (env : Env) (id priv overlay : String) : Node where
  id := id
  publicKey := host.publicKey priv
  privateKey := priv
  overlayIP := overlay
  listenPort := 8082
  asn := 65000
  routerID := ipWithoutMask overlay
  provisionToken := "pt-" ++ toString env.now

def installCommand (addr id token : String) : String :=
  "curl -fsSL https://raw.githubusercontent.com/NiuStar/peer-wan/refs/heads/main/scripts/agent-install.sh -o /tmp/agent-install.sh && chmod +x /tmp/agent-install.sh && sudo /tmp/agent-install.sh --controller=" ++
    addr ++ " --node-id=" ++ id ++ " --provision-token=" ++ token ++ " --auto-endpoint=true"

def prepared (host : Host) (httpAddr id : String) (node : Node) (c : Controller σ) :
    Response × Controller σ :=
  let addr := if host.controllerAddr = "" then httpAddr else host.controllerAddr
  (⟨200, .prepared {
    id := id
    publicKey := node.publicKey
    privateKey := node.privateKey
    overlayIP := node.overlayIP
    listenPort := node.listenPort
    provisionToken := node.provisionToken
    command := installCommand addr id node.provisionToken }⟩, bumpPlanVersion c)

/-- `httpAddr` is the scheme and host the request came to. -/
def prepare (host : Host) (env : Env) (auth : Credentials) (httpAddr : String) (body : Option String)
    (c : Controller σ) : Response × Controller σ :=
  if !auth.jwt then (.error 401 "unauthorized", c)
  else match body with
    | none => (.error 400 "invalid payload", c)
    | some id =>
      if id = "" then (.error 400 "invalid payload", c)
      else
        let (existing, st) := NodeStore.getNode id c.store
        let existing := (Reply.getD existing none).getD {}
        if existing.provisionToken ≠ "" then prepared host httpAddr id existing { c with store := st }
        else match env.privateKey with
          | none => (.error 500 "failed to generate key", { c with store := st })
          | some priv =>
            let (overlay, st) := assignOverlay env st
            let node := preparedNode host env id priv overlay
            match NodeStore.upsertNode node st with
            | (.error _, st) => (.error 500 "failed to save node", { c with store := st })
            | (.ok _, st) => prepared host httpAddr id node { c with store := st }

-- ---------------------------------------------------------------------------
-- Policy, health, plan and rollback
-- ---------------------------------------------------------------------------

/-- Trims the selector and names the tail of the path as the via node. -/
def PolicyRule.normalize (pr : PolicyRule) : PolicyRule :=
  { pr with
    pfx := trimSpace pr.pfx
    viaNode := if pr.viaNode = "" then pr.path.getLastD "" else pr.viaNode }

def PolicyRequest.normalize (req : PolicyRequest) : PolicyRequest :=
  { req with policyRules := req.policyRules.map PolicyRule.normalize }

/-- A request may clear the rules, but not send only invalid ones. -/
def PolicyRequest.rulesValid (req : PolicyRequest) : Bool :=
  req.policyRules = [] || req.policyRules.any PolicyRule.validate

def policyTask (env : Env) (nodeID : String) : Task where
  id := env.uuid
  nodeID := nodeID
  type := "policy_apply"
  status := "running"
  steps := [{ name := "dispatch", status := "running", timestamp := env.now, message := "sending to agent" }]
  createdAt := env.now
  updatedAt := env.now

def policyTaskMessage (env : Env) (nodeID : String) : WSMessage where
  type := "task"
  nodeID := nodeID
  payload := .task env.uuid "policy_apply"

def policy (env : Env) (auth : Credentials) (body : Option PolicyRequest) (c : Controller σ) :
    Response × Controller σ :=
  if !auth.jwt then (.error 401 "unauthorized", c)
  else match body with
    | none => (.error 400 "invalid payload", c)
    | some req =>
      if req.nodeID = "" then (.error 400 "invalid payload", c)
      else
        let req := req.normalize
        if !req.rulesValid then (.error 400 "no valid policy rules", c)
        else match NodeStore.updatePolicy req c.store with
          | (.error _, st) => (.error 500 "failed to update policy", { c with store := st })
          | (.ok (), st) =>
            let c := bumpPlanVersion { c with store := st }
            let (_, st) := NodeStore.saveTask env.now (policyTask env req.nodeID) c.store
            let (node, st) := NodeStore.getNode req.nodeID st
            let answer := match Reply.getD node none with
              | some n => Body.policy n.policyFields
              | none => .status "ok"
            (⟨200, answer⟩, { c with store := st, sent := c.sent ++ [policyTaskMessage env req.nodeID] })

def health (host : Host) (env : Env) (auth : Credentials) (body : Option HealthReport)
    (c : Controller σ) : Response × Controller σ :=
  match body with
  | none => (.error 400 "invalid payload", c)
  | some report =>
    let report := { report with timestamp := env.now }
    if report.nodeID = "" then (.error 400 "nodeId is required", c)
    else match admitted auth report.nodeID c.store with
      | (false, st) => (.error 401 "unauthorized", { c with store := st })
      | (true, st) =>
        match NodeStore.saveHealth env.now report st with
        | (.error _, st) => (.error 500 "failed to save health", { c with store := st })
        | (.ok (), st) =>
          let (nodes, st) := NodeStore.listNodes (env.nodeOrder 0) st
          let nodes := Reply.getD nodes []
          let peerPlan := buildPeerPlan report.nodeID nodes (healthMap [report])
          let c := savePlanWithRules host env { id := report.nodeID } peerPlan
            (expandPolicyRules nodes report.nodeID) { c with store := st }
          let c := bumpPlanVersion c
          let entry : AuditEntry := {
            actor := report.nodeID
            action := "health_report"
            target := "self"
            timestamp := report.timestamp }
          let (_, st) := NodeStore.appendAudit entry c.store
          (⟨200, .status "ok"⟩, { c with store := st })

/-- `GET /plan`, from where it no longer waits for a version. -/
def getPlan (host : Host) (env : Env) (auth : Credentials) (nodeID : String) (c : Controller σ) :
    Response × Controller σ :=
  if nodeID = "" then (.error 400 "nodeId is required", c)
  else match admitted auth nodeID c.store with
    | (false, st) => (.error 401 "unauthorized", { c with store := st })
    | (true, st) =>
      match NodeStore.listNodes (env.nodeOrder 0) st with
      | (.error _, st) => (.error 500 "failed to list nodes", { c with store := st })
      | (.ok nodes, st) =>
        let rules := expandPolicyRules nodes nodeID
        let (reports, st) := NodeStore.listHealth (env.healthOrder 0) st
        let peerPlan := buildPeerPlan nodeID nodes (healthMap (Reply.getD reports []))
        let target := (nodes.find? fun n => n.id = nodeID).getD {}
        let version := planConfigVersion env c.planVersion
        let c := savePlanWithRules host env target peerPlan rules { c with store := st }
        let (settings, st) := loadSettingsOrDefault c.store
        let (interval, st) := diagIntervalSeconds host st
        let cfg := configOf target version peerPlan rules settings.geoIP interval
          "dynamic plan based on current health"
        (⟨200, .config { cfg with id := nodeID }⟩, { c with store := st })

/-- The signature a rollback checks; a plan without one passes. -/
def Plan.signatureValid (host : Host) (p : Plan) : Bool :=
  p.signature = "" || p.signature = signPlan host p.nodeID p.peers p.configVersion

def rollback (host : Host) (env : Env) (auth : Credentials) (body : Option (String × Int))
    (c : Controller σ) : Response × Controller σ :=
  if !auth.jwt then (.error 401 "unauthorized", c)
  else match body with
    | none => (.error 400 "invalid payload", c)
    | some (nodeID, version) =>
      if nodeID = "" then (.error 400 "invalid payload", c)
      else match NodeStore.rollbackPlan nodeID version c.store with
        | (.error _, st) => (.error 500 "rollback failed", { c with store := st })
        | (.ok p, st) =>
          if !p.signatureValid host then
            (.error 400 "rollback signature mismatch", { c with store := st })
          else
            let (_, st) := NodeStore.setGlobalPlanVersion p.version st
            let entry : AuditEntry := {
              actor := "controller"
              action := "rollback_plan"
              target := p.nodeID
              detail := "rollback to version " ++ itoa p.version
              timestamp := env.now }
            let (_, st) := NodeStore.appendAudit entry st
            (⟨200, .plan p⟩, { c with store := st, planVersion := p.version })

theorem rollback_succeeds {host : Host} {env : Env} {auth : Credentials} {c : Controller σ}
    (h : (rollback host env auth (some (nodeID, version)) c).1.code = 200) :
    auth.jwt = true ∧ ∃ p, (NodeStore.rollbackPlan nodeID version c.store).1 = .ok p := by
  unfold rollback at h
  split at h
  · exact absurd h (by simp)
  next hjwt =>
    dsimp only at h
    split at h
    · exact absurd h (by simp)
    split at h
    · exact absurd h (by simp)
    · next p st hr => exact ⟨by simpa using hjwt, p, congrArg Prod.fst hr⟩

-- ---------------------------------------------------------------------------
-- Steps
-- ---------------------------------------------------------------------------

inductive Request where
  | register (auth : Credentials) (body : Option NodeRegistrationRequest)
  | prepare (auth : Credentials) (httpAddr : String) (body : Option String)
  | policy (auth : Credentials) (body : Option PolicyRequest)
  | health (auth : Credentials) (body : Option HealthReport)
  | plan (auth : Credentials) (nodeID : String)
  | rollback (auth : Credentials) (body : Option (String × Int))

def serve (host : Host) (env : Env) (r : Request) (c : Controller σ) : Response × Controller σ :=
  match r with
  | .register auth body => register host env auth body c
  | .prepare auth httpAddr body => prepare host env auth httpAddr body c
  | .policy auth body => policy env auth body c
  | .health auth body => health host env auth body c
  | .plan auth nodeID => getPlan host env auth nodeID c
  | .rollback auth body => rollback host env auth body c

/-- `main` starts the counter at 0 whatever the store holds. -/
def start (st : σ) : Controller σ where
  store := st
  planVersion := 0
  sent := []
  saved := []

def restart (c : Controller σ) : Controller σ :=
  { c with store := NodeStore.reopen c.store, planVersion := 0 }

/-- What moves the controller: a request, the leader's 30 s ticker, a change
the Consul watch sees, a restart of the process. -/
inductive Event where
  | request (r : Request)
  | tick
  | watch
  | restart

def Event.step (host : Host) (e : Env × Event) (c : Controller σ) : Controller σ :=
  match e.2 with
  | .request r => (serve host e.1 r c).2
  | .tick => (recomputeAllPlans host e.1 1 c).2
  | .watch => bumpPlanVersion (recomputeAllPlans host e.1 1 c).2
  | .restart => PeerWan.restart c

def Request.step (host : Host) (e : Env × Request) (c : Controller σ) : Controller σ :=
  (serve host e.1 e.2 c).2

end PeerWan
