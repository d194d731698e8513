import PeerWan.Lib.Table

/-!
# The data model

The records of `pkg/model` and the messages of `pkg/api`. A structure's
defaults are Go's zero values, so `{}` is the zero record. A nil slice and an
empty one are the same list: the program only asks for lengths and elements.
Times are nanoseconds, `int` and `int64` are integers.
-/

namespace PeerWan

open Lib

/-- `prefix` is a reserved word here, hence `pfx`. -/
structure PolicyRule where
  pfx : String := ""
  viaNode : String := ""
  path : List String := []
  domains : List String := []
  deriving DecidableEq, Repr, Inhabited

def PolicyRule.validate (p : PolicyRule) : Bool :=
  let hasTarget := p.viaNode ≠ "" || p.path.length > 0
  (p.pfx ≠ "" || p.domains.length > 0) && hasTarget

structure Node where
  id : String := ""
  publicKey : String := ""
  endpoints : List String := []
  cidrs : List String := []
  configVersion : String := ""
  version : String := ""
  listenPort : Int := 0
  overlayIP : String := ""
  asn : Int := 0
  routerID : String := ""
  egressPeerID : String := ""
  policyRules : List PolicyRule := []
  defaultRoute : Bool := false
  bypassCIDRs : List String := []
  defaultRouteNextHop : String := ""
  privateKey : String := ""
  provisionToken : String := ""
  peerEndpoints : StrMap String := ∅
  deriving DecidableEq, Repr, Inhabited

structure Peer where
  id : String := ""
  publicKey : String := ""
  endpoint : String := ""
  allowedIPs : List String := []
  keepalive : Int := 0
  deriving DecidableEq, Repr, Inhabited

structure Plan where
  nodeID : String := ""
  version : Int := 0
  configVersion : String := ""
  peers : List Peer := []
  routes : List String := []
  createdAt : Int := 0
  signature : String := ""
  egressPeerID : String := ""
  policyRules : List PolicyRule := []
  peerEndpoints : StrMap String := ∅
  defaultRoute : Bool := false
  bypassCIDRs : List String := []
  defaultRouteNextHop : String := ""
  deriving DecidableEq, Repr, Inhabited

/-- The finite `float64` percentages of `packetLoss` are read as rationals. -/
structure HealthReport where
  nodeID : String := ""
  status : String := ""
  latencyMs : StrMap Int := ∅
  packetLoss : StrMap Rat := ∅
  frrState : StrMap String := ∅
  timestamp : Int := 0
  deriving DecidableEq, Repr, Inhabited

structure GeoIPConfig where
  sourceV4 : String := ""
  sourceV6 : String := ""
  cacheDir : String := ""
  cacheTTL : String := ""
  deriving DecidableEq, Repr, Inhabited

structure DiagConfig where
  pingInterval : String := ""
  deriving DecidableEq, Repr, Inhabited

structure Settings where
  geoIP : GeoIPConfig := {}
  diag : DiagConfig := {}
  deriving DecidableEq, Repr, Inhabited

structure AuditEntry where
  actor : String := ""
  action : String := ""
  target : String := ""
  detail : String := ""
  timestamp : Int := 0
  deriving DecidableEq, Repr, Inhabited

structure TaskStep where
  name : String := ""
  status : String := ""
  message : String := ""
  nodeID : String := ""
  timestamp : Int := 0
  deriving DecidableEq, Repr, Inhabited

structure Task where
  id : String := ""
  nodeID : String := ""
  targets : List String := []
  type : String := ""
  status : String := ""
  overallStatus : String := ""
  steps : List TaskStep := []
  createdAt : Int := 0
  updatedAt : Int := 0
  deriving DecidableEq, Repr, Inhabited

-- ---------------------------------------------------------------------------
-- Messages of the HTTP API and of the agents' WebSocket
-- ---------------------------------------------------------------------------

structure NodeRegistrationRequest where
  id : String := ""
  publicKey : String := ""
  endpoints : List String := []
  cidrs : List String := []
  force : Bool := false
  listenPort : Int := 0
  overlayIP : String := ""
  asn : Int := 0
  routerID : String := ""
  provisionToken : String := ""
  peerEndpoints : StrMap String := ∅
  deriving DecidableEq, Repr, Inhabited

structure PolicyRequest where
  nodeID : String := ""
  egressPeer : String := ""
  policyRules : List PolicyRule := []
  defaultRoute : Bool := false
  bypassCIDRs : List String := []
  defaultRouteNextHop : String := ""
  deriving DecidableEq, Repr, Inhabited

structure NodeConfigResponse where
  id : String := ""
  configVersion : String := ""
  wireGuardPeers : List Peer := []
  routes : List String := []
  overlayIP : String := ""
  listenPort : Int := 0
  asn : Int := 0
  routerID : String := ""
  endpoints : List String := []
  privateKey : String := ""
  publicKey : String := ""
  message : String := ""
  egressPeerID : String := ""
  policyRules : List PolicyRule := []
  peerEndpoints : StrMap String := ∅
  geoIPConfig : Option GeoIPConfig := none
  defaultRoute : Bool := false
  bypassCIDRs : List String := []
  defaultRouteNextHop : String := ""
  healthIntervalSec : Int := 0
  deriving DecidableEq, Repr, Inhabited

structure PrepareResponse where
  id : String := ""
  publicKey : String := ""
  privateKey : String := ""
  overlayIP : String := ""
  listenPort : Int := 0
  provisionToken : String := ""
  command : String := ""
  deriving DecidableEq, Repr, Inhabited

inductive WSPayload where
  | plan (cfg : NodeConfigResponse)
  | task (taskID type : String)
  deriving DecidableEq, Repr

structure WSMessage where
  type : String
  nodeID : String
  payload : WSPayload
  deriving DecidableEq, Repr

end PeerWan
