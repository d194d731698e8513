import Mathlib.Algebra.Group.Nat.Defs
import Mathlib.Algebra.Ring.Int.Defs
import PeerWan.PolicyRules
import PeerWan.Store
import PeerWan.Text
import PeerWan.Topology

/-!
# Saving and pushing plans

The plan side of `pkg/api/controller.go`: the version counter, the signature,
`savePlanWithRules` and `RecomputeAllPlans`. `Host` is what is fixed for one
controller process, `Env` what one request takes from outside: the clock, the
random key, the order of each map loop.

A controller carries two histories besides its store and counter. `sent` is
what it handed to the WebSocket hub, which `main` always attaches. `saved` is
what `savePlanWithRules` handed to the store; no code reads it.
-/

namespace PeerWan

open Lib

structure Host where
  /-- `hex.EncodeToString` of the SHA-256 of a byte string. -/
  sha256Hex : String → String
  /-- The public key of a WireGuard private key. -/
  publicKey : String → String
  /-- `int(d.Seconds())` of a parsed duration. -/
  durationSeconds : String → Option Int
  controllerAddr : String
  build : String

def sampleDigests : List (String × String) :=
  [("adynamic-v1", "0a2ac97e3cc37050dacdf343af61666caf0753d92023c2455ad98333da534d0f"),
   ("adynamic-v2", "7d11147f6f5c787a7652bd54ca8a8ea145f53a74ba846479f9599ce6c00b401e"),
   ("adynamic-v3", "7abfd594fcb8628afc4b163ad4d0e253c66cbab62e4387e4634ba96a0b091c6e")]

def Host.sample : Host where
  sha256Hex := fun s => (sampleDigests.lookup s).getD ""
  publicKey := fun _ => ""
  durationSeconds := fun s => if s = "3s" then some 3 else none
  controllerAddr := "http://controller:8080"
  build := "dev"

structure Env where
  now : Int := 0
  /-- The same instant as `time.RFC3339Nano` prints it. -/
  nowText : String := ""
  /-- The order of the k-th `ListNodes` of the request. -/
  nodeOrder : Nat → MapOrder Node := fun _ => default
  healthOrder : Nat → MapOrder HealthReport := fun _ => default
  privateKey : Option String := none
  uuid : String := ""

structure Controller (σ : Type) where
  store : σ
  planVersion : Int
  sent : List WSMessage
  saved : List Plan

-- ---------------------------------------------------------------------------
-- Versions and signatures
-- ---------------------------------------------------------------------------

def signPlan (host : Host) (nodeID : String) (peers : List Peer) (cfgVer : String) : String :=
  host.sha256Hex (peers.foldl (fun h p => h ++ p.id ++ ",".intercalate p.allowedIPs) (nodeID ++ cfgVer))

/-- `BumpPlanVersion`: the counter moves, the stored version does not. -/
def bumpPlanVersion (c : Controller σ) : Controller σ :=
  { c with planVersion := int64 (c.planVersion + 1) }

-- ---------------------------------------------------------------------------
-- Settings
-- ---------------------------------------------------------------------------

def orDefault (s d : String) : String := if s = "" then d else s

def Settings.orDefault (s : Settings) : Settings where
  geoIP := {
    cacheDir := PeerWan.orDefault s.geoIP.cacheDir defaultGeoIP.cacheDir
    sourceV4 := PeerWan.orDefault s.geoIP.sourceV4 defaultGeoIP.sourceV4
    sourceV6 := PeerWan.orDefault s.geoIP.sourceV6 defaultGeoIP.sourceV6
    cacheTTL := PeerWan.orDefault s.geoIP.cacheTTL defaultGeoIP.cacheTTL }
  diag := { pingInterval := PeerWan.orDefault s.diag.pingInterval defaultDiag.pingInterval }

def Settings.intervalSeconds (host : Host) (cfg : Settings) : Int :=
  if cfg.diag.pingInterval ≠ "" then (host.durationSeconds cfg.diag.pingInterval).getD 0 else 0

variable {σ : Type} [NodeStore σ]

def loadSettingsOrDefault (st : σ) : Settings × σ :=
  match NodeStore.getSettings st with
  | (.error _, st) => ({ geoIP := defaultGeoIP, diag := defaultDiag }, st)
  | (.ok s, st) => (s.orDefault, st)

def diagIntervalSeconds (host : Host) (st : σ) : Int × σ :=
  let (cfg, st) := loadSettingsOrDefault st
  (cfg.intervalSeconds host, st)

theorem loadSettingsOrDefault_leaves {τ : Type} {f : σ → τ} (hread : ∀ st, f (NodeStore.getSettings st).2 = f st)
    (st : σ) : f (loadSettingsOrDefault st).2 = f st := by
  rw [← hread st, loadSettingsOrDefault]
  rcases NodeStore.getSettings st with ⟨r, st'⟩
  cases r <;> rfl

-- ---------------------------------------------------------------------------
-- Plans
-- ---------------------------------------------------------------------------

/-- WireGuard over WSS listens on 8082 unless the record says otherwise. -/
def withListenPort (node : Node) : Node :=
  if node.listenPort = 0 then { node with listenPort := 8082 } else node

def planConfigVersion (env : Env) (version : Int) : String :=
  if version > 0 then "dynamic-v" ++ itoa version else "dynamic-" ++ env.nowText

def planOf (host : Host) (env : Env) (version : Int) (node : Node) (peers : List Peer)
    (rules : List PolicyRule) : Plan :=
  let cv := planConfigVersion env version
  { nodeID := node.id
    version := version
    configVersion := cv
    peers := peers
    routes := node.cidrs
    createdAt := env.now
    signature := signPlan host node.id peers cv
    egressPeerID := node.egressPeerID
    policyRules := rules
    peerEndpoints := node.peerEndpoints
    defaultRoute := node.defaultRoute
    bypassCIDRs := node.bypassCIDRs
    defaultRouteNextHop := node.defaultRouteNextHop }

def configOf (node : Node) (cv : String) (peers : List Peer) (rules : List PolicyRule)
    (geoIP : GeoIPConfig) (healthIntervalSec : Int) (message : String) : NodeConfigResponse where
  id := node.id
  configVersion := cv
  wireGuardPeers := peers
  routes := node.cidrs
  overlayIP := node.overlayIP
  listenPort := node.listenPort
  asn := node.asn
  routerID := node.routerID
  endpoints := node.endpoints
  peerEndpoints := node.peerEndpoints
  egressPeerID := node.egressPeerID
  policyRules := rules
  geoIPConfig := some geoIP
  defaultRoute := node.defaultRoute
  bypassCIDRs := node.bypassCIDRs
  defaultRouteNextHop := node.defaultRouteNextHop
  healthIntervalSec := healthIntervalSec
  message := message

def savePlanWithRules (host : Host) (env : Env) (node : Node) (peers : List Peer)
    (rules : List PolicyRule) (c : Controller σ) : Controller σ :=
  let node := withListenPort node
  let version := int64 (c.planVersion + 1)
  let p := planOf host env version node peers rules
  let (_, st) := NodeStore.savePlan p c.store
  let (_, st) := NodeStore.setGlobalPlanVersion version st
  let (settings, st) := loadSettingsOrDefault st
  let (interval, st) := diagIntervalSeconds host st
  let cfg := configOf node p.configVersion peers rules settings.geoIP interval "ws plan push"
  { store := st
    planVersion := version
    sent := c.sent ++ [{ type := "plan", nodeID := node.id, payload := .plan cfg }]
    saved := c.saved ++ [p] }

def healthMap (reports : List HealthReport) : HealthMap := Table.ofList reports

/-- `RecomputeAllPlans`, whose `ListNodes` is the `k`-th of the request. -/
def recomputeAllPlans (host : Host) (env : Env) (k : Nat) (c : Controller σ) : Reply Unit × Controller σ :=
  match NodeStore.listNodes (env.nodeOrder k) c.store with
  | (.error e, st) => (.error e, { c with store := st })
  | (.ok nodes, st) =>
    let policyMap := expandPolicyRules nodes
    let (reports, st) := NodeStore.listHealth (env.healthOrder k) st
    let hmap := healthMap (reports.getD [])
    (.ok (), nodes.foldl (fun c n => savePlanWithRules host env n (buildPeerPlan n.id nodes hmap)
      (policyMap n.id) c) { c with store := st })

end PeerWan
