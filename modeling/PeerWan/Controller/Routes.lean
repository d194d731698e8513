import PeerWan.Controller.Hub
import PeerWan.Controller.Settings
import PeerWan.Controller.Tasks

/-!
# The controller's routes

What `RegisterRoutes` of `pkg/api` and `main` of `cmd/controller` put on the
mux: for each route the checks it makes, in its order, and what it goes on to
do. Of pages and listings the model has what they read and not what they show.
The users' database behind `/api/v1/auth` is not part of it.

`NodeStore` here is without the reports of the policy pages, so these stand
beside the store, in the lists that `MemoryStore` has for them.
-/

namespace PeerWan

open Lib

inductive Method where
  | get
  | post
  | other
  deriving DecidableEq, Repr

structure PolicyInstallLog where
  nodeID : String := ""
  version : String := ""
  status : String := ""
  message : String := ""
  logs : List String := []
  timestamp : Int := 0
  deriving DecidableEq, Repr

structure PolicyDiagCheck where
  name : String := ""
  status : String := ""
  detail : String := ""
  deriving DecidableEq, Repr

structure PolicyDiagReport where
  nodeID : String := ""
  summary : String := ""
  checks : List PolicyDiagCheck := []
  timestamp : Int := 0
  deriving DecidableEq, Repr

structure PolicyReports where
  policyStatus : String → List PolicyInstallLog := fun _ => []
  policyDiag : String → List PolicyDiagReport := fun _ => []

def PolicyReports.savePolicyStatus (now : Int) (l : PolicyInstallLog) (reports : PolicyReports) : PolicyReports :=
  let l := if l.timestamp = 0 then { l with timestamp := now } else l
  { reports with
    policyStatus := Function.update reports.policyStatus l.nodeID ((reports.policyStatus l.nodeID ++ [l]).rtake 50) }

def PolicyReports.savePolicyDiag (now : Int) (d : PolicyDiagReport) (reports : PolicyReports) : PolicyReports :=
  let d := if d.timestamp = 0 then { d with timestamp := now } else d
  { reports with
    policyDiag := Function.update reports.policyDiag d.nodeID ((reports.policyDiag d.nodeID ++ [d]).rtake 20) }

structure Site (σ : Type) where
  controller : Controller σ
  hub : WSHub
  taskUpd : String → List StepReport := fun _ => []
  /-- The nodes whose logs the UI connections follow. -/
  logSubs : List String := []
  /-- The commands that the hub was given, each with its node. -/
  commands : List (String × String) := []
  reports : PolicyReports := {}

/-- What comes to a route. A body that does not decode is `none`. -/
inductive HttpRoute where
  /-- `/`, `/healthz`, `/ui/`, `/api/v1/info` and `/api/v1/version`. -/
  | page
  /-- `/api/v1/auth/register` and `/api/v1/auth/login`. -/
  | account
  | settingsGeoIP (body : Option GeoIPConfig)
  | settingsDiag (body : Option DiagConfig)
  | nodes
  | nodesRegister (body : Option NodeRegistrationRequest)
  | nodesPrepare (httpAddr : String) (body : Option String)
  | health (body : Option HealthReport)
  | healthHistory (nodeID : String) (since : Int)
  | audit
  | plan (nodeID : String)
  | planHistory (nodeID : String)
  | planRollback (body : Option (String × Int))
  | policy (nodeID : String) (body : Option PolicyRequest)
  | policyCommand (body : Option (String × String))
  | policyStatus (nodeID : String) (body : Option PolicyInstallLog)
  | policyDiag (nodeID : String) (body : Option PolicyDiagReport)
  /-- The order is that of the map which a listing ranges over. -/
  | tasks (order : MapOrder Task) (nodeID : String) (body : Option TaskRequest)
  | statusMesh
  | diagnose (nodeID : String)

inductive Answer where
  | response (r : Response)
  | page
  deriving DecidableEq, Repr

def Answer.error (code : Nat) (text : String) : Answer := .response (.error code text)

def methodNotAllowed : Answer := .error 405 "method not allowed"

-- ---------------------------------------------------------------------------
-- What the pages read
-- ---------------------------------------------------------------------------

section

variable {σ : Type} [NodeStore σ]

def listing (read : σ → Reply α × σ) (failure : String) (st : σ) : Answer × σ :=
  match read st with
  | (.error _, st) => (.error 500 failure, st)
  | (.ok _, st) => (.page, st)

def listingOf (nodeID : String) (read : σ → Reply α × σ) (failure : String) (st : σ) : Answer × σ :=
  if nodeID = "" then (.error 400 "nodeId is required", st) else listing read failure st

def statusMesh (env : Env) (host : Host) (st : σ) : Answer × σ :=
  match NodeStore.listNodes (env.nodeOrder 0) st with
  | (.error _, st) => (.error 500 "failed to list nodes", st)
  | (.ok _, st) =>
    let (_, st) := NodeStore.listHealth (env.healthOrder 0) st
    let (_, st) := diagIntervalSeconds host st
    (.page, st)

def diagnoseNode (env : Env) (nodeID : String) (st : σ) : Answer × σ :=
  match NodeStore.getNode nodeID st with
  | (.ok (some _), st) =>
    let (_, st) := loadSettingsOrDefault st
    let (reports, st) := NodeStore.listHealth (env.healthOrder 0) st
    if (Reply.getD reports []).all fun h => h.nodeID ≠ nodeID then (.page, st)
    else (.page, (NodeStore.getPlan nodeID st).2)
  | (_, st) => (.page, st)

/-- `GET /api/v1/policy`. -/
def getPolicy (nodeID : String) (st : σ) : Answer × σ :=
  if nodeID = "" then (.error 400 "nodeId is required", st)
  else match NodeStore.getNode nodeID st with
    | (.ok (some n), st) => (.response ⟨200, .policy n.policyFields⟩, st)
    | (_, st) => (.error 404 "node not found", st)

end

-- ---------------------------------------------------------------------------
-- The mux
-- ---------------------------------------------------------------------------

namespace Site

variable {σ : Type}

def onController (f : Controller σ → Response × Controller σ) (s : Site σ) : Answer × Site σ :=
  (.response (f s.controller).1, { s with controller := (f s.controller).2 })

def onStore (f : σ → Answer × σ) (s : Site σ) : Answer × Site σ :=
  ((f s.controller.store).1, { s with controller := { s.controller with store := (f s.controller.store).2 } })

def onSettings (f : σ → Except (Nat × String) β × σ) (s : Site σ) : Answer × Site σ :=
  s.onStore fun st => match f st with
    | (.error (code, text), st) => (.error code text, st)
    | (.ok _, st) => (.page, st)

/-- `POST /api/v1/tasks`. -/
def onTasks [NodeStore σ] (env : Env) (auth : Credentials) (body : Option TaskRequest) (s : Site σ) :
    Answer × Site σ :=
  match createTask env auth body s.controller with
  | (.error r, c) => (.response r, { s with controller := c })
  | (.ok _, c) => (.page, { s with controller := c })

/-- `if !auth(r)`, with which most handlers begin. -/
def authorized (auth : Credentials) (f : Site σ → Answer × Site σ) (s : Site σ) : Answer × Site σ :=
  if !auth.jwt then (.error 401 "unauthorized", s) else f s

def only (allowed method : Method) (f : Site σ → Answer × Site σ) (s : Site σ) : Answer × Site σ :=
  if method ≠ allowed then (methodNotAllowed, s) else f s

def getOrPost (method : Method) (get post : Site σ → Answer × Site σ) (s : Site σ) : Answer × Site σ :=
  match method with
  | .get => get s
  | .post => post s
  | .other => (methodNotAllowed, s)

def policyCommand (body : Option (String × String)) (s : Site σ) : Answer × Site σ :=
  match body with
  | none => (.error 400 "invalid payload", s)
  | some (nodeID, action) =>
    if nodeID = "" ∨ action = "" then (.error 400 "invalid payload", s)
    else (.response ⟨200, .status "sent"⟩, { s with commands := s.commands ++ [(nodeID, action)] })

/-- Both pages of reports list those of one node. -/
def listReports (nodeID : String) (s : Site σ) : Answer × Site σ :=
  if nodeID = "" then (.error 400 "nodeId is required", s) else (.page, s)

def postStatus (env : Env) (body : Option PolicyInstallLog) (s : Site σ) : Answer × Site σ :=
  match body with
  | none => (.error 400 "invalid payload", s)
  | some l =>
    if l.nodeID = "" ∨ l.status = "" then (.error 400 "invalid payload", s)
    else (.response ⟨200, .status "ok"⟩, { s with reports := s.reports.savePolicyStatus env.now l })

def postPolicyDiag (env : Env) (body : Option PolicyDiagReport) (s : Site σ) : Answer × Site σ :=
  match body with
  | none => (.error 400 "invalid payload", s)
  | some d =>
    if d.nodeID = "" then (.error 400 "invalid payload", s)
    else (.response ⟨200, .status "ok"⟩, { s with reports := s.reports.savePolicyDiag env.now d })

end Site

section

variable {σ : Type} [NodeStore σ]

def readSettings (st : σ) : Answer × σ := (.page, (loadSettingsOrDefault st).2)

open Site in
def serveRoute (host : Host) (env : Env) (method : Method) (auth : Credentials) (r : HttpRoute) :
    Site σ → Answer × Site σ :=
  match r with
  | .page | .account => fun s => (.page, s)
  | .settingsGeoIP body =>
    authorized auth <| getOrPost method (onStore readSettings) (onSettings (postGeoIP auth body))
  | .settingsDiag body =>
    authorized auth <| getOrPost method (onStore readSettings) (onSettings (postDiag auth body))
  | .nodes =>
    authorized auth <| only .get method <|
      onStore (listing (NodeStore.listNodes (env.nodeOrder 0)) "failed to list nodes")
  | .nodesRegister body => only .post method <| onController (register host env auth body)
  | .nodesPrepare httpAddr body =>
    authorized auth <| only .post method <| onController (prepare host env auth httpAddr body)
  | .health body =>
    getOrPost method (onStore (listing (NodeStore.listHealth (env.healthOrder 0)) "failed to list health"))
      (onController (health host env auth body))
  | .healthHistory nodeID since =>
    authorized auth <| only .get method <|
      onStore (listingOf nodeID (NodeStore.listHealthHistory nodeID since) "failed to list history")
  | .audit =>
    authorized auth <| only .get method <| onStore (listing (NodeStore.listAudit 50) "failed to list audit")
  | .plan nodeID => only .get method <| onController (getPlan host env auth nodeID)
  | .planHistory nodeID =>
    authorized auth <| only .get method <|
      onStore (listingOf nodeID (NodeStore.listPlanHistory nodeID 20) "failed to list plan history")
  | .planRollback body => authorized auth <| only .post method <| onController (rollback host env auth body)
  | .policy nodeID body =>
    authorized auth <| getOrPost method (onStore (getPolicy nodeID)) (onController (policy env auth body))
  | .policyCommand body => authorized auth <| only .post method <| policyCommand body
  | .policyStatus nodeID body =>
    authorized auth <| getOrPost method (listReports nodeID) (postStatus env body)
  | .policyDiag nodeID body =>
    authorized auth <| getOrPost method (listReports nodeID) (postPolicyDiag env body)
  | .tasks order nodeID body =>
    authorized auth <| getOrPost method
      (onStore (listing (NodeStore.listTasks order nodeID 50) "failed to list"))
      (onTasks env auth body)
  | .statusMesh => authorized auth <| onStore (statusMesh env host)
  | .diagnose nodeID =>
    authorized auth <| only .get method <| fun s =>
      if nodeID = "" then (.error 400 "nodeId is required", s) else s.onStore (diagnoseNode env nodeID)

-- ---------------------------------------------------------------------------
-- What comes to the controller
-- ---------------------------------------------------------------------------

inductive AgentMessage where
  | agentLog
  | taskStep (payload : Option StepReport)
  | other
  deriving DecidableEq, Repr

/-- A log goes to those who follow it, and is not kept. -/
def Site.received (nodeID : String) (now : Int) (msg : AgentMessage) (s : Site σ) : Site σ :=
  match msg with
  | .taskStep payload =>
    let h := TaskHub.handleTaskStep nodeID now payload { store := s.controller.store, taskUpd := s.taskUpd }
    { s with controller := { s.controller with store := h.store }, taskUpd := h.taskUpd }
  | .agentLog | .other => s

inductive SiteEvent where
  | http (env : Env) (method : Method) (auth : Credentials) (r : HttpRoute)
  /-- On `/api/v1/ws/agent`: a connection, or what becomes of one. -/
  | hub (e : HubEvent)
  | frame (c : Nat) (now : Int) (msg : AgentMessage)
  | subscribe (nodeID : String)
  | unsubscribe (nodeID : String)

def SiteEvent.step (host : Host) (e : SiteEvent) (s : Site σ) : Site σ :=
  match e with
  | .http env method auth r => (serveRoute host env method auth r s).2
  | .hub e => { s with hub := e.step s.hub }
  | .frame c now msg =>
    match s.hub.conns[c]? with
    -- what has arrived before a close is still read
    | some { nodeID, loop := .reading, .. } => s.received nodeID now msg
    | _ => s
  | .subscribe nodeID => if nodeID = "" then s else { s with logSubs := s.logSubs ++ [nodeID] }
  | .unsubscribe nodeID => { s with logSubs := s.logSubs.erase nodeID }

end

end PeerWan
