import PeerWan.Agent.Session
import PeerWan.Agent.VerifyTargets
import PeerWan.Consul.NodeRecords

/-!
# Messages on the wire

What the hub of `pkg/api/ws.go` writes to an agent, and what `readLoop` of
`pkg/agent/ws_client.go` and the handlers of `pkg/agent/plan.go` read of it. A
message goes out as a struct and comes in as an untyped map. `handleWSPlan`
writes the payload of a plan once more, to read it as a struct; the other
handlers look their fields up in the map. A plan that is answered over HTTP is
read as a struct at once.
-/

namespace PeerWan

open Lib Json

-- ---------------------------------------------------------------------------
-- Plans as documents
-- ---------------------------------------------------------------------------

def Peer.Small (p : Peer) : Prop := p.keepalive.natAbs < 2 ^ 53

/-- Its numbers are such that a document can hold them. -/
structure NodeConfigResponse.Small (cfg : NodeConfigResponse) : Prop where
  listenPort : cfg.listenPort.natAbs < 2 ^ 53
  asn : cfg.asn.natAbs < 2 ^ 53
  healthIntervalSec : cfg.healthIntervalSec.natAbs < 2 ^ 53
  peers : ∀ p ∈ cfg.wireGuardPeers, p.Small

abbrev SentPeer := { p : Peer // p.Small }

abbrev SentConfig := { cfg : NodeConfigResponse // cfg.Small }

namespace SentPeer

def zero : SentPeer := ⟨{}, by unfold Peer.Small; decide⟩

def keepalive (p : SentPeer) : Int53 := ⟨p.1.keepalive, p.2⟩

end SentPeer

namespace SentConfig

variable (cfg : SentConfig)

def peers : List SentPeer := cfg.1.wireGuardPeers.pmap Subtype.mk cfg.2.peers

def listenPort : Int53 := ⟨cfg.1.listenPort, cfg.2.listenPort⟩

def asn : Int53 := ⟨cfg.1.asn, cfg.2.asn⟩

def healthIntervalSec : Int53 := ⟨cfg.1.healthIntervalSec, cfg.2.healthIntervalSec⟩

end SentConfig

/-- Which of the lists that are written in any case are nil when they are empty. -/
structure ConfigNils where
  peers : Bool
  routes : Bool
  allowedIPs : SentPeer → Bool

def peerFields (nils : ConfigNils) (p : SentPeer) : List (String × Option Json) :=
  [("id", some (.str p.1.id)),
    ("publicKey", some (.str p.1.publicKey)),
    ("endpoint", omitEmpty "" .str p.1.endpoint),
    ("allowedIPs", some (ofSlice .str (nils.allowedIPs p) p.1.allowedIPs)),
    ("keepaliveSeconds", omitEmpty zeroNum .num p.keepalive)]

def peerJson (nils : ConfigNils) (p : SentPeer) : Json := .obj (present (peerFields nils p))

def geoIPFields (g : GeoIPConfig) : List (String × Option Json) :=
  [("sourceV4", some (.str g.sourceV4)),
    ("sourceV6", some (.str g.sourceV6)),
    ("cacheDir", some (.str g.cacheDir)),
    ("cacheTtl", some (.str g.cacheTTL))]

def geoIPJson (g : GeoIPConfig) : Json := .obj (present (geoIPFields g))

def configFields (nils : ConfigNils) (cfg : SentConfig) : List (String × Option Json) :=
  [("id", some (.str cfg.1.id)),
    ("configVersion", some (.str cfg.1.configVersion)),
    ("wireGuardPeers", some (ofSlice (peerJson nils) nils.peers cfg.peers)),
    ("routes", some (ofSlice .str nils.routes cfg.1.routes)),
    ("overlayIp", omitEmpty "" .str cfg.1.overlayIP),
    ("listenPort", omitEmpty zeroNum .num cfg.listenPort),
    ("asn", omitEmpty zeroNum .num cfg.asn),
    ("routerId", omitEmpty "" .str cfg.1.routerID),
    ("endpoints", omitEmpty [] (ofSlice .str false) cfg.1.endpoints),
    ("privateKey", omitEmpty "" .str cfg.1.privateKey),
    ("publicKey", omitEmpty "" .str cfg.1.publicKey),
    ("message", omitEmpty "" .str cfg.1.message),
    ("egressPeerId", omitEmpty "" .str cfg.1.egressPeerID),
    ("policyRules", omitEmpty [] (ofSlice ruleJson false) cfg.1.policyRules),
    ("peerEndpoints", omitEmpty ∅ (ofDict .str) cfg.1.peerEndpoints),
    ("geoip", cfg.1.geoIPConfig.map geoIPJson),
    ("defaultRoute", omitEmpty false .bool cfg.1.defaultRoute),
    ("bypassCidrs", omitEmpty [] (ofSlice .str false) cfg.1.bypassCIDRs),
    ("defaultRouteNextHop", omitEmpty "" .str cfg.1.defaultRouteNextHop),
    ("healthIntervalSec", omitEmpty zeroNum .num cfg.healthIntervalSec)]

def configJson (nils : ConfigNils) (cfg : SentConfig) : Json := .obj (present (configFields nils cfg))

def readPeer : Decoder SentPeer
  | .obj kvs, old =>
    let m := members kvs
    let id := field m "id" string old.1.id
    let publicKey := field m "publicKey" string old.1.publicKey
    let endpoint := field m "endpoint" string old.1.endpoint
    let allowedIPs := field m "allowedIPs" (slice "" string) old.1.allowedIPs
    let keepalive := field m "keepaliveSeconds" int old.keepalive
    (⟨{ id := id.1
        publicKey := publicKey.1
        endpoint := endpoint.1
        allowedIPs := allowedIPs.1
        keepalive := keepalive.1.val }, keepalive.1.small⟩,
      id.2 && publicKey.2 && endpoint.2 && allowedIPs.2 && keepalive.2)
  | .null, old => (old, true)
  | _, old => (old, false)

def readGeoIP : Decoder GeoIPConfig
  | .obj kvs, old =>
    let m := members kvs
    let sourceV4 := field m "sourceV4" string old.sourceV4
    let sourceV6 := field m "sourceV6" string old.sourceV6
    let cacheDir := field m "cacheDir" string old.cacheDir
    let cacheTTL := field m "cacheTtl" string old.cacheTTL
    ({ sourceV4 := sourceV4.1, sourceV6 := sourceV6.1, cacheDir := cacheDir.1, cacheTTL := cacheTTL.1 },
      sourceV4.2 && sourceV6.2 && cacheDir.2 && cacheTTL.2)
  | .null, old => (old, true)
  | _, old => (old, false)

def readConfig (m : StrMap Json) : NodeConfigResponse × Bool :=
  let id := field m "id" string ""
  let configVersion := field m "configVersion" string ""
  let wireGuardPeers := field m "wireGuardPeers" (slice .zero readPeer) []
  let routes := field m "routes" (slice "" string) []
  let overlayIP := field m "overlayIp" string ""
  let listenPort := field m "listenPort" int zeroNum
  let asn := field m "asn" int zeroNum
  let routerID := field m "routerId" string ""
  let endpoints := field m "endpoints" (slice "" string) []
  let privateKey := field m "privateKey" string ""
  let publicKey := field m "publicKey" string ""
  let message := field m "message" string ""
  let egressPeerID := field m "egressPeerId" string ""
  let policyRules := field m "policyRules" (slice {} readRule) []
  let peerEndpoints := field m "peerEndpoints" (dict "" string) ∅
  let geoIPConfig := field m "geoip" (pointer {} readGeoIP) none
  let defaultRoute := field m "defaultRoute" boolean false
  let bypassCIDRs := field m "bypassCidrs" (slice "" string) []
  let defaultRouteNextHop := field m "defaultRouteNextHop" string ""
  let healthIntervalSec := field m "healthIntervalSec" int zeroNum
  ({ id := id.1
     configVersion := configVersion.1
     wireGuardPeers := wireGuardPeers.1.map Subtype.val
     routes := routes.1
     overlayIP := overlayIP.1
     listenPort := listenPort.1.val
     asn := asn.1.val
     routerID := routerID.1
     endpoints := endpoints.1
     privateKey := privateKey.1
     publicKey := publicKey.1
     message := message.1
     egressPeerID := egressPeerID.1
     policyRules := policyRules.1
     peerEndpoints := peerEndpoints.1
     geoIPConfig := geoIPConfig.1
     defaultRoute := defaultRoute.1
     bypassCIDRs := bypassCIDRs.1
     defaultRouteNextHop := defaultRouteNextHop.1
     healthIntervalSec := healthIntervalSec.1.val },
    id.2 && configVersion.2 && wireGuardPeers.2 && routes.2 && overlayIP.2 && listenPort.2 && asn.2 && routerID.2 &&
      endpoints.2 && privateKey.2 && publicKey.2 && message.2 && egressPeerID.2 && policyRules.2 && peerEndpoints.2 &&
      geoIPConfig.2 && defaultRoute.2 && bypassCIDRs.2 && defaultRouteNextHop.2 && healthIntervalSec.2)

def decodeConfig : Json → Option NodeConfigResponse
  | .obj kvs => if (readConfig (members kvs)).2 then some (readConfig (members kvs)).1 else none
  | .null => some {}
  | _ => none

-- ---------------------------------------------------------------------------
-- What the hub writes
-- ---------------------------------------------------------------------------

inductive Outgoing where
  | plan (nodeID : String) (cfg : SentConfig) (nils : ConfigNils)
  | task (nodeID taskID type : String) (verifyTargets : List String) (data : StrMap Json)
  | command (nodeID action : String) (data : StrMap Json)

/-- `Data` is left out if it is empty. -/
def dataField (data : StrMap Json) : Option Json :=
  if data.rows.isEmpty then none else some (.obj (data.range keyOrder))

def taskFields (taskID type : String) (verifyTargets : List String) (data : StrMap Json) :
    List (String × Option Json) :=
  [("taskId", some (.str taskID)),
    ("type", some (.str type)),
    ("verifyTargets", omitEmpty [] (ofSlice .str false) verifyTargets),
    ("data", dataField data)]

/-- The struct of a command, whose text of a script is among the data. -/
def commandFields (nodeID action : String) (data : StrMap Json) : List (String × Option Json) :=
  [("nodeId", some (.str nodeID)),
    ("action", some (.str action)),
    ("data", dataField data)]

def envelope (type nodeID : String) (payload : Json) : Json :=
  .obj (present [("type", some (.str type)), ("nodeId", omitEmpty "" .str nodeID), ("payload", some payload)])

def Outgoing.frame : Outgoing → Json
  | .plan nodeID cfg nils => envelope "plan" nodeID (configJson nils cfg)
  | .task nodeID taskID type verifyTargets data =>
    envelope "task" nodeID (.obj ((members (present (taskFields taskID type verifyTargets data))).range keyOrder))
  | .command nodeID action data => envelope "command" nodeID (.obj (present (commandFields nodeID action data)))

-- ---------------------------------------------------------------------------
-- What an agent reads
-- ---------------------------------------------------------------------------

/-- `v.(string)`, which is empty if there is no such text. -/
def textOf (m : StrMap Json) (name : String) : String :=
  match m.get? name with
  | some (_, .str s) => s
  | _ => ""

def toStringSlice : Option Json → List String
  | some (.arr elems) => elems.filterMap fun
    | .str s => if trimSpace s = "" then none else some s
    | _ => none
  | _ => []

def readFrame : Json → Option (String × Option (StrMap Json))
  | .obj kvs =>
    let msg := members (untypedMembers kvs)
    some (textOf msg "type", match msg.get? "payload" with
      | some (_, .obj kvs) => some (members kvs)
      | _ => none)
  | .null => some ("", none)
  | _ => none

def planPayload (payload : Option (StrMap Json)) : Option NodeConfigResponse :=
  decodeConfig (payload.elim .null fun m => .obj (m.range keyOrder))

def handlerCall (type : String) (payload : Option (StrMap Json)) : Option Message :=
  let m := payload.getD ∅
  if type = "plan" then some (.plan (planPayload payload))
  else if type = "task" then some (.task (textOf m "taskId") (textOf m "type"))
  else if type = "command" then some (.command (textOf m "action") (textOf m "cmd"))
  else none

def readLoop (frame : Json) : Option Message := (readFrame frame).bind fun f => handlerCall f.1 f.2

/-- The targets that `handleWSTask` finds in the payload. -/
def taskTargets (frame : Json) : List String :=
  toStringSlice (((readFrame frame).bind Prod.snd).bind fun m => (m.get? "verifyTargets").map Prod.snd)

def Outgoing.message : Outgoing → Message
  | .plan _ cfg _ => .plan (some cfg.1)
  | .task _ taskID type _ _ => .task taskID type
  | .command _ action _ => .command action ""

def Outgoing.targets : Outgoing → List String
  | .task _ _ _ verifyTargets _ => verifyTargets.filter fun s => trimSpace s ≠ ""
  | _ => []

/-- All fields are the same; maps are compared by what they hold. -/
structure NodeConfigResponse.SameFields (a b : NodeConfigResponse) : Prop where
  fields : { a with peerEndpoints := ∅ } = { b with peerEndpoints := ∅ }
  peerEndpoints : ∀ k, a.peerEndpoints.get? k = b.peerEndpoints.get? k

def Message.Same : Message → Message → Prop
  | .plan (some a), .plan (some b) => a.SameFields b
  | m, m' => m = m'

-- ---------------------------------------------------------------------------
-- Reading a plan
-- ---------------------------------------------------------------------------

section

variable {m : StrMap Json} {nils : ConfigNils} {cfg : SentConfig}

theorem readPeer_eq {kvs : List (String × Json)} {p old : SentPeer} (hm : MembersOf (members kvs) (peerFields nils p))
    (hold : old = .zero ∨ old = p) : (readPeer (.obj kvs) old).1 = p ∧ (readPeer (.obj kvs) old).2 = true := by
  have hid := hm.read "id" (encodes_string p.1.id) (by simp [peerFields])
    (hold.imp (congrArg fun q : SentPeer => q.1.id) (congrArg fun q : SentPeer => q.1.id))
  have hkey := hm.read "publicKey" (encodes_string p.1.publicKey) (by simp [peerFields])
    (hold.imp (congrArg fun q : SentPeer => q.1.publicKey) (congrArg fun q : SentPeer => q.1.publicKey))
  have hendpoint := hm.read "endpoint" ((encodes_string p.1.endpoint).omitEmpty rfl) (by simp [peerFields])
    (hold.imp (congrArg fun q : SentPeer => q.1.endpoint) (congrArg fun q : SentPeer => q.1.endpoint))
  have hips := hm.read "allowedIPs" (encodes_strings p.1.allowedIPs (nils.allowedIPs p)) (by simp [peerFields])
    (hold.imp (congrArg fun q : SentPeer => q.1.allowedIPs) (congrArg fun q : SentPeer => q.1.allowedIPs))
  have hkeepalive := hm.read "keepaliveSeconds" ((encodes_int zeroNum p.keepalive).omitEmpty rfl)
    (by simp [peerFields]) (hold.imp (congrArg SentPeer.keepalive) (congrArg SentPeer.keepalive))
  constructor
  · refine Subtype.ext ?_
    simp only [readPeer, hid, hkey, hendpoint, hips, hkeepalive]
    rfl
  · simp only [readPeer, hid, hkey, hendpoint, hips, hkeepalive, Bool.and_self]

theorem encodes_peer (nils : ConfigNils) (p : SentPeer) : Encodes readPeer .zero (· = p) (some (peerJson nils p)) := by
  have hnodup : ((peerFields nils p).map Prod.fst).Nodup := by
    have hnames : (peerFields nils p).map Prod.fst =
        ["id", "publicKey", "endpoint", "allowedIPs", "keepaliveSeconds"] := rfl
    rw [hnames]
    decide
  refine ⟨fun j hj old hold => ?_, fun j hj old hold => ?_, by rintro ⟨⟩⟩
  · obtain rfl := Option.some.inj hj
    exact readPeer_eq (membersOf_present hnodup) hold
  · obtain rfl := Option.some.inj hj
    rw [peerJson, Json.untyped]
    exact readPeer_eq (membersOf_untyped hnodup) hold

theorem readGeoIP_eq {kvs : List (String × Json)} {g old : GeoIPConfig} (hm : MembersOf (members kvs) (geoIPFields g))
    (hold : old = {} ∨ old = g) : (readGeoIP (.obj kvs) old).1 = g ∧ (readGeoIP (.obj kvs) old).2 = true := by
  have hv4 := hm.read "sourceV4" (encodes_string g.sourceV4) (by simp [geoIPFields])
    (hold.imp (congrArg GeoIPConfig.sourceV4) (congrArg GeoIPConfig.sourceV4))
  have hv6 := hm.read "sourceV6" (encodes_string g.sourceV6) (by simp [geoIPFields])
    (hold.imp (congrArg GeoIPConfig.sourceV6) (congrArg GeoIPConfig.sourceV6))
  have hdir := hm.read "cacheDir" (encodes_string g.cacheDir) (by simp [geoIPFields])
    (hold.imp (congrArg GeoIPConfig.cacheDir) (congrArg GeoIPConfig.cacheDir))
  have httl := hm.read "cacheTtl" (encodes_string g.cacheTTL) (by simp [geoIPFields])
    (hold.imp (congrArg GeoIPConfig.cacheTTL) (congrArg GeoIPConfig.cacheTTL))
  simp only [readGeoIP, hv4, hv6, hdir, httl, Bool.and_self, and_true]

theorem encodes_geoIP (g : GeoIPConfig) : Encodes readGeoIP {} (· = g) (some (geoIPJson g)) := by
  have hnodup : ((geoIPFields g).map Prod.fst).Nodup := by
    have hnames : (geoIPFields g).map Prod.fst = ["sourceV4", "sourceV6", "cacheDir", "cacheTtl"] := rfl
    rw [hnames]
    decide
  refine ⟨fun j hj old hold => ?_, fun j hj old hold => ?_, by rintro ⟨⟩⟩
  · obtain rfl := Option.some.inj hj
    exact readGeoIP_eq (membersOf_present hnodup) hold
  · obtain rfl := Option.some.inj hj
    rw [geoIPJson, Json.untyped]
    exact readGeoIP_eq (membersOf_untyped hnodup) hold

theorem configFields_nodup (nils : ConfigNils) (cfg : SentConfig) : ((configFields nils cfg).map Prod.fst).Nodup := by
  have hnames : (configFields nils cfg).map Prod.fst = ["id", "configVersion", "wireGuardPeers", "routes", "overlayIp",
      "listenPort", "asn", "routerId", "endpoints", "privateKey", "publicKey", "message", "egressPeerId",
      "policyRules", "peerEndpoints", "geoip", "defaultRoute", "bypassCidrs", "defaultRouteNextHop",
      "healthIntervalSec"] := rfl
  rw [hnames]
  decide

theorem read_new {α : Type} {dec : Decoder α} {zero : α} {P : α → Prop} {o : Option Json}
    (hm : MembersOf m (configFields nils cfg)) (name : String) (h : Encodes dec zero P o)
    (hin : (name, o) ∈ configFields nils cfg := by simp [configFields]) :
    P (field m name dec zero).1 ∧ (field m name dec zero).2 = true :=
  hm.read name h hin (.inl rfl)

theorem readConfig_eq (hm : MembersOf m (configFields nils cfg)) :
    cfg.1.SameFields (readConfig m).1 ∧ (readConfig m).2 = true := by
  have hid := read_new hm "id" (encodes_string cfg.1.id)
  have hversion := read_new hm "configVersion" (encodes_string cfg.1.configVersion)
  have hpeers := read_new hm "wireGuardPeers"
    (encodes_slice (l := cfg.peers) (fun p _ => encodes_peer nils p) nils.peers)
  have hroutes := read_new hm "routes" (encodes_strings cfg.1.routes nils.routes)
  have hoverlay := read_new hm "overlayIp" ((encodes_string cfg.1.overlayIP).omitEmpty rfl)
  have hport := read_new hm "listenPort" ((encodes_int zeroNum cfg.listenPort).omitEmpty rfl)
  have hasn := read_new hm "asn" ((encodes_int zeroNum cfg.asn).omitEmpty rfl)
  have hrouter := read_new hm "routerId" ((encodes_string cfg.1.routerID).omitEmpty rfl)
  have hendpoints := read_new hm "endpoints" ((encodes_strings cfg.1.endpoints false).omitEmpty rfl)
  have hprivate := read_new hm "privateKey" ((encodes_string cfg.1.privateKey).omitEmpty rfl)
  have hpublic := read_new hm "publicKey" ((encodes_string cfg.1.publicKey).omitEmpty rfl)
  have hmessage := read_new hm "message" ((encodes_string cfg.1.message).omitEmpty rfl)
  have hegress := read_new hm "egressPeerId" ((encodes_string cfg.1.egressPeerID).omitEmpty rfl)
  have hrules := read_new hm "policyRules" (encodes_rules cfg.1.policyRules)
  have hoverrides := read_new hm "peerEndpoints" (encodes_endpoints cfg.1.peerEndpoints)
  have hgeoip := read_new hm "geoip" (encodes_pointer (o := cfg.1.geoIPConfig) (fun g _ => encodes_geoIP g)
    fun g => ⟨_, rfl⟩)
  have hdefault := read_new hm "defaultRoute" ((encodes_boolean cfg.1.defaultRoute).omitEmpty rfl)
  have hbypass := read_new hm "bypassCidrs" ((encodes_strings cfg.1.bypassCIDRs false).omitEmpty rfl)
  have hnextHop := read_new hm "defaultRouteNextHop" ((encodes_string cfg.1.defaultRouteNextHop).omitEmpty rfl)
  have hinterval := read_new hm "healthIntervalSec" ((encodes_int zeroNum cfg.healthIntervalSec).omitEmpty rfl)
  have hvals : cfg.peers.map Subtype.val = cfg.1.wireGuardPeers := by
    rw [SentConfig.peers, List.map_pmap, List.pmap_eq_map, List.map_id']
  refine ⟨⟨?_, fun k => (hoverrides.1 k).symm⟩, ?_⟩
  · simp only [readConfig, hid.1, hversion.1, hpeers.1, hvals, hroutes.1, hoverlay.1, hport.1, hasn.1, hrouter.1,
      hendpoints.1, hprivate.1, hpublic.1, hmessage.1, hegress.1, hrules.1, hgeoip.1, hdefault.1, hbypass.1,
      hnextHop.1, hinterval.1, SentConfig.listenPort, SentConfig.asn, SentConfig.healthIntervalSec]
  · simp only [readConfig, hid.2, hversion.2, hpeers.2, hroutes.2, hoverlay.2, hport.2, hasn.2, hrouter.2,
      hendpoints.2, hprivate.2, hpublic.2, hmessage.2, hegress.2, hrules.2, hoverrides.2, hgeoip.2, hdefault.2,
      hbypass.2, hnextHop.2, hinterval.2, Bool.and_self]

theorem decodeConfig_eq {kvs : List (String × Json)} (hm : MembersOf (members kvs) (configFields nils cfg)) :
    ∃ cfg', decodeConfig (.obj kvs) = some cfg' ∧ cfg.1.SameFields cfg' := by
  obtain ⟨hsame, hok⟩ := readConfig_eq hm
  exact ⟨_, if_pos hok, hsame⟩

end

-- ---------------------------------------------------------------------------
-- Reading a frame
-- ---------------------------------------------------------------------------

section

variable {type nodeID : String} {kvs : List (String × Json)}

theorem readFrame_envelope (type nodeID : String) (kvs : List (String × Json)) :
    readFrame (envelope type nodeID (.obj kvs)) =
      some (type, some (members ((members (untypedMembers kvs)).range keyOrder))) := by
  let fields := [("type", some (.str type)), ("nodeId", omitEmpty "" .str nodeID), ("payload", some (.obj kvs))]
  have hnodup : (fields.map Prod.fst).Nodup := by
    have hnames : fields.map Prod.fst = ["type", "nodeId", "payload"] := rfl
    rw [hnames]
    decide
  have hget (name : String) (j : Json) (h : (name, some j) ∈ fields) :
      (members (untypedMembers (present fields))).get? name = some (name, j.untyped) := by
    rw [get?_members_untyped, get?_members_present hnodup h]
    rfl
  have htype := hget "type" (.str type) (by simp [fields])
  have hpayload := hget "payload" (.obj kvs) (by simp [fields])
  rw [Json.untyped] at hpayload
  simp only [envelope, readFrame, textOf]
  rw [htype, hpayload]
  rfl

theorem get?_payload (kvs : List (String × Json)) (name : String) :
    (members ((members (untypedMembers kvs)).range keyOrder)).get? name =
      ((members kvs).get? name).map fun kv => (kv.1, kv.2.untyped) := by
  rw [get?_members_range, get?_members_untyped]

theorem textOf_eq {m : StrMap Json} {name s : String} (h : m.get? name = some (name, .str s)) : textOf m name = s := by
  rw [textOf, h]

theorem textOf_payload {fields : List (String × Option Json)} (hnodup : (fields.map Prod.fst).Nodup) (name s : String)
    {kvs : List (String × Json)} (hkvs : ∀ k, (members kvs).get? k = (members (present fields)).get? k)
    (h : (name, some (.str s)) ∈ fields) :
    textOf (members ((members (untypedMembers kvs)).range keyOrder)) name = s := by
  refine textOf_eq ?_
  rw [get?_payload, hkvs, get?_members_present hnodup h]
  rfl

theorem taskFields_nodup (taskID type : String) (verifyTargets : List String) (data : StrMap Json) :
    ((taskFields taskID type verifyTargets data).map Prod.fst).Nodup := by
  have hnames : (taskFields taskID type verifyTargets data).map Prod.fst =
      ["taskId", "type", "verifyTargets", "data"] := rfl
  rw [hnames]
  decide

theorem commandFields_nodup (nodeID action : String) (data : StrMap Json) :
    ((commandFields nodeID action data).map Prod.fst).Nodup := by
  have hnames : (commandFields nodeID action data).map Prod.fst = ["nodeId", "action", "data"] := rfl
  rw [hnames]
  decide

theorem get?_payload_none {fields : List (String × Option Json)} (hnodup : (fields.map Prod.fst).Nodup) (name : String)
    (h : name ∉ fields.map Prod.fst) :
    (members ((members (untypedMembers (present fields))).range keyOrder)).get? name = none := by
  rw [get?_payload, get?_members (hnodup.sublist (keys_present fields)), Option.map_eq_none_iff, List.find?_eq_none]
  intro kv hkv hk
  have hkey := (keys_present fields).subset (List.mem_map_of_mem hkv)
  rw [of_decide_eq_true hk] at hkey
  exact h hkey

theorem toStringSlice_texts (l : List String) :
    toStringSlice (some (.arr (l.map .str))) = l.filter fun s => trimSpace s ≠ "" := by
  rw [toStringSlice, List.filterMap_map]
  induction l with
  | nil => rfl
  | cons s l ih =>
    by_cases hs : trimSpace s = ""
    · simpa [hs] using ih
    · simpa [hs] using ih

theorem read_plan (nils : ConfigNils) (cfg : SentConfig) :
    ∃ cfg', planPayload (some (members ((members (untypedMembers (present (configFields nils cfg)))).range keyOrder))) =
      some cfg' ∧ cfg.1.SameFields cfg' := by
  have hm := membersOf_untyped (configFields_nodup nils cfg)
  refine @decodeConfig_eq nils cfg _ fun name o h => ?_
  rw [get?_members_range]
  exact hm name o h

/-- An answer over HTTP is read at once. -/
theorem read_answer (nils : ConfigNils) (cfg : SentConfig) :
    ∃ cfg', decodeConfig (configJson nils cfg) = some cfg' ∧ cfg.1.SameFields cfg' :=
  decodeConfig_eq (membersOf_present (configFields_nodup nils cfg))

theorem readLoop_frame (out : Outgoing) : ∃ m, readLoop out.frame = some m ∧ out.message.Same m := by
  cases out with
  | plan nodeID cfg nils =>
    obtain ⟨cfg', hdecode, hsame⟩ := read_plan nils cfg
    refine ⟨.plan (some cfg'), ?_, hsame⟩
    rw [Outgoing.frame, configJson, readLoop, readFrame_envelope]
    exact congrArg (fun c => some (Message.plan c)) hdecode
  | task nodeID taskID type verifyTargets data =>
    refine ⟨.task taskID type, ?_, rfl⟩
    have htask := textOf_payload (taskFields_nodup taskID type verifyTargets data) "taskId" taskID
      (get?_members_range _) (by simp [taskFields])
    have htype := textOf_payload (taskFields_nodup taskID type verifyTargets data) "type" type
      (get?_members_range _) (by simp [taskFields])
    rw [Outgoing.frame, readLoop, readFrame_envelope]
    simp only [Option.bind_some, handlerCall, Option.getD_some, htask, htype]
    rfl
  | command nodeID action data =>
    refine ⟨.command action "", ?_, rfl⟩
    have haction := textOf_payload (commandFields_nodup nodeID action data) "action" action
      (fun _ => rfl) (by simp [commandFields])
    have hcmd : textOf (members ((members (untypedMembers (present (commandFields nodeID action data)))).range
        keyOrder)) "cmd" = "" := by
      rw [textOf, get?_payload_none (commandFields_nodup nodeID action data) "cmd" (by simp [commandFields])]
    rw [Outgoing.frame, readLoop, readFrame_envelope]
    simp only [Option.bind_some, handlerCall, Option.getD_some, haction, hcmd]
    rfl

theorem taskTargets_frame (out : Outgoing) : taskTargets out.frame = out.targets := by
  cases out with
  | plan nodeID cfg nils =>
    have hnone := get?_payload_none (configFields_nodup nils cfg) "verifyTargets" (by simp [configFields])
    rw [taskTargets, Outgoing.frame, configJson, readFrame_envelope, Option.bind_some, Option.bind_some, hnone]
    rfl
  | command nodeID action data =>
    have hnone := get?_payload_none (commandFields_nodup nodeID action data) "verifyTargets"
      (by simp [commandFields])
    rw [taskTargets, Outgoing.frame, readFrame_envelope, Option.bind_some, Option.bind_some, hnone]
    rfl
  | task nodeID taskID type verifyTargets data =>
    have hget : (members (present (taskFields taskID type verifyTargets data))).get? "verifyTargets" =
        (omitEmpty [] (ofSlice .str false) verifyTargets).map ("verifyTargets", ·) :=
      get?_members_present (taskFields_nodup ..) (by simp [taskFields])
    rw [taskTargets, Outgoing.frame, readFrame_envelope, Option.bind_some, Option.bind_some, get?_payload,
      get?_members_range, hget, Outgoing.targets]
    by_cases hempty : verifyTargets = []
    · rw [hempty, omitEmpty, if_pos rfl]
      rfl
    · have hstrs : ofSlice Json.str false verifyTargets = .arr (verifyTargets.map .str) := if_neg fun h => hempty h.1
      rw [omitEmpty, if_neg hempty, hstrs, ← toStringSlice_texts]
      simp [Json.untyped, untypedList_eq, Function.comp_def]

end

/-- Whatever the controller hands to the hub: the handler that the agent calls gets the
plan as it was made, the task with its targets, and of a command the action, but never
the text of a script. -/
theorem read_as_sent (out : Outgoing) :
    (∃ m, readLoop out.frame = some m ∧ out.message.Same m) ∧ taskTargets out.frame = out.targets :=
  ⟨readLoop_frame out, taskTargets_frame out⟩

end PeerWan
