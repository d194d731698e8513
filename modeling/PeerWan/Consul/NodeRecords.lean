import PeerWan.Consul.Store
import PeerWan.Lib.Json

/-!
# Node records as documents

`nodeRecord` of `pkg/consul/store_consul.go` is a node with two fields that the
node hides from JSON. `decodeNodeRecord` reads a record as it is written, and a
record of an older kind, whose version is a number, through an untyped map. Both
ways are to give a record without configuration version the version for it.
-/

namespace PeerWan

open Lib Json

def Node.Small (n : Node) : Prop := n.listenPort.natAbs < 2 ^ 53 ∧ n.asn.natAbs < 2 ^ 53

structure NodeRecord where
  node : Node := {}
  privateKey : String := ""
  provisionToken : String := ""
  small : node.Small

namespace NodeRecord

def zero : NodeRecord where
  small := ⟨by decide, by decide⟩

def listenPort (rec : NodeRecord) : Int53 := ⟨rec.node.listenPort, rec.small.1⟩

def asn (rec : NodeRecord) : Int53 := ⟨rec.node.asn, rec.small.2⟩

/-- The node that is handed out has the fields of the record. -/
def toNode (rec : NodeRecord) : Node :=
  { rec.node with privateKey := rec.privateKey, provisionToken := rec.provisionToken }

/-- The record that `UpsertNode` writes. -/
def ofNode (n : Node) (small : n.Small) : NodeRecord where
  node := n
  privateKey := n.privateKey
  provisionToken := n.provisionToken
  small := small

end NodeRecord

-- ---------------------------------------------------------------------------
-- Writing
-- ---------------------------------------------------------------------------

def zeroNum : Int53 := ⟨0, by decide⟩

def ruleFields (r : PolicyRule) : List (String × Option Json) :=
  [("prefix", some (.str r.pfx)),
    ("viaNode", some (.str r.viaNode)),
    ("path", omitEmpty [] (ofSlice .str false) r.path),
    ("domains", omitEmpty [] (ofSlice .str false) r.domains)]

def ruleJson (r : PolicyRule) : Json := .obj (present (ruleFields r))

/-- Which of the lists that are written in any case are nil when they are empty. -/
structure Nils where
  endpoints : Bool
  cidrs : Bool

def frontFields (rec : NodeRecord) (nils : Nils) : List (String × Option Json) :=
  [("id", some (.str rec.node.id)),
    ("publicKey", some (.str rec.node.publicKey)),
    ("endpoints", some (ofSlice .str nils.endpoints rec.node.endpoints)),
    ("cidrs", some (ofSlice .str nils.cidrs rec.node.cidrs))]

def backFields (rec : NodeRecord) : List (String × Option Json) :=
  [("listenPort", omitEmpty zeroNum .num rec.listenPort),
    ("overlayIp", omitEmpty "" .str rec.node.overlayIP),
    ("asn", omitEmpty zeroNum .num rec.asn),
    ("routerId", omitEmpty "" .str rec.node.routerID),
    ("egressPeerId", omitEmpty "" .str rec.node.egressPeerID),
    ("policyRules", omitEmpty [] (ofSlice ruleJson false) rec.node.policyRules),
    ("defaultRoute", omitEmpty false .bool rec.node.defaultRoute),
    ("bypassCidrs", omitEmpty [] (ofSlice .str false) rec.node.bypassCIDRs),
    ("defaultRouteNextHop", omitEmpty "" .str rec.node.defaultRouteNextHop),
    ("peerEndpoints", omitEmpty ∅ (ofDict .str) rec.node.peerEndpoints),
    ("privateKey", omitEmpty "" .str rec.privateKey),
    ("provisionToken", omitEmpty "" .str rec.provisionToken)]

def recordFields (rec : NodeRecord) (nils : Nils) (version : Json) (configVersion : Option Json) :
    List (String × Option Json) :=
  frontFields rec nils ++ ("configVersion", configVersion) :: ("version", some version) :: backFields rec

def marshalRecord (rec : NodeRecord) (nils : Nils) : Json :=
  .obj (present (recordFields rec nils (.str rec.node.version) (some (.str rec.node.configVersion))))

-- ---------------------------------------------------------------------------
-- Reading
-- ---------------------------------------------------------------------------

def readRule : Decoder PolicyRule
  | .obj kvs, old =>
    let m := members kvs
    let pfx := field m "prefix" string old.pfx
    let viaNode := field m "viaNode" string old.viaNode
    let path := field m "path" (slice "" string) old.path
    let domains := field m "domains" (slice "" string) old.domains
    ({ pfx := pfx.1, viaNode := viaNode.1, path := path.1, domains := domains.1 },
      pfx.2 && viaNode.2 && path.2 && domains.2)
  | .null, old => (old, true)
  | _, old => (old, false)

def readRecord (m : StrMap Json) (old : NodeRecord) : NodeRecord × Bool :=
  let id := field m "id" string old.node.id
  let publicKey := field m "publicKey" string old.node.publicKey
  let endpoints := field m "endpoints" (slice "" string) old.node.endpoints
  let cidrs := field m "cidrs" (slice "" string) old.node.cidrs
  let configVersion := field m "configVersion" string old.node.configVersion
  let version := field m "version" string old.node.version
  let listenPort := field m "listenPort" int old.listenPort
  let overlayIP := field m "overlayIp" string old.node.overlayIP
  let asn := field m "asn" int old.asn
  let routerID := field m "routerId" string old.node.routerID
  let egressPeerID := field m "egressPeerId" string old.node.egressPeerID
  let policyRules := field m "policyRules" (slice {} readRule) old.node.policyRules
  let defaultRoute := field m "defaultRoute" boolean old.node.defaultRoute
  let bypassCIDRs := field m "bypassCidrs" (slice "" string) old.node.bypassCIDRs
  let defaultRouteNextHop := field m "defaultRouteNextHop" string old.node.defaultRouteNextHop
  let peerEndpoints := field m "peerEndpoints" (dict "" string) old.node.peerEndpoints
  let privateKey := field m "privateKey" string old.privateKey
  let provisionToken := field m "provisionToken" string old.provisionToken
  ({ node := {
      id := id.1
      publicKey := publicKey.1
      endpoints := endpoints.1
      cidrs := cidrs.1
      configVersion := configVersion.1
      version := version.1
      listenPort := listenPort.1.val
      overlayIP := overlayIP.1
      asn := asn.1.val
      routerID := routerID.1
      egressPeerID := egressPeerID.1
      policyRules := policyRules.1
      defaultRoute := defaultRoute.1
      bypassCIDRs := bypassCIDRs.1
      defaultRouteNextHop := defaultRouteNextHop.1
      privateKey := old.node.privateKey
      provisionToken := old.node.provisionToken
      peerEndpoints := peerEndpoints.1 }
     privateKey := privateKey.1
     provisionToken := provisionToken.1
     small := ⟨listenPort.1.small, asn.1.small⟩ },
    version.2 && configVersion.2 && (id.2 && publicKey.2 && endpoints.2 && cidrs.2 && listenPort.2 && overlayIP.2 &&
      asn.2 && routerID.2 && egressPeerID.2 && policyRules.2 && defaultRoute.2 && bypassCIDRs.2 &&
      defaultRouteNextHop.2 && peerEndpoints.2 && privateKey.2 && provisionToken.2))

def unmarshalRecord : Decoder NodeRecord
  | .obj kvs, old => readRecord (members kvs) old
  | .null, old => (old, true)
  | _, old => (old, false)

/-- `fmt.Sprintf("v0.0.%d", int(t))`. -/
def legacyVersion (k : Int53) : String := "v0.0." ++ toString k.val

/-- What `decodeNodeRecord` does to the version of the untyped map. -/
def coerceVersion (raw : StrMap Json) : StrMap Json :=
  match raw.get? "version" with
  | some (_, .num k) => raw.put ("version", .str (legacyVersion k))
  | _ => raw

def addConfigVersion (raw : StrMap Json) : StrMap Json :=
  match raw.get? "configVersion", raw.get? "version" with
  | none, some (_, .null) => raw
  | none, some (_, v) => raw.put ("configVersion", v)
  | _, _ => raw

def fillConfigVersion (rec : NodeRecord) : NodeRecord :=
  if rec.node.configVersion = "" ∧ rec.node.version ≠ "" then
    { rec with node := { rec.node with configVersion := rec.node.version }, small := rec.small }
  else rec

def rewritten (kvs : List (String × Json)) : Json :=
  .obj ((addConfigVersion (coerceVersion (members (untypedMembers kvs)))).range keyOrder)

/-- The second reading is into what the first one has left. -/
def decodeNodeRecord (doc : Json) : Reply NodeRecord :=
  match unmarshalRecord doc .zero with
  | (rec, true) => .ok (fillConfigVersion rec)
  | (rec, false) =>
    match doc with
    | .obj kvs =>
      match unmarshalRecord (rewritten kvs) rec with
      | (rec, true) => .ok rec
      | (_, false) => .error "invalid value"
    | _ => .error "invalid value"

theorem decodeNodeRecord_typed {doc : Json} (h : (unmarshalRecord doc .zero).2 = true) :
    decodeNodeRecord doc = .ok (fillConfigVersion (unmarshalRecord doc .zero).1) := by
  have hread : unmarshalRecord doc .zero = ((unmarshalRecord doc .zero).1, true) := Prod.ext rfl h
  rw [decodeNodeRecord, hread]

theorem decodeNodeRecord_untyped {kvs : List (String × Json)} (h : (unmarshalRecord (.obj kvs) .zero).2 = false)
    (hagain : (unmarshalRecord (rewritten kvs) (unmarshalRecord (.obj kvs) .zero).1).2 = true) :
    decodeNodeRecord (.obj kvs) = .ok (unmarshalRecord (rewritten kvs) (unmarshalRecord (.obj kvs) .zero).1).1 := by
  have hread : unmarshalRecord (.obj kvs) .zero = ((unmarshalRecord (.obj kvs) .zero).1, false) := Prod.ext rfl h
  have hreread : unmarshalRecord (rewritten kvs) (unmarshalRecord (.obj kvs) .zero).1 =
      ((unmarshalRecord (rewritten kvs) (unmarshalRecord (.obj kvs) .zero).1).1, true) := Prod.ext rfl hagain
  rw [decodeNodeRecord, hread]
  dsimp only
  rw [hreread]

/-- What `UpdatePolicy` makes of the value of a node. -/
def updatePolicyDocument (req : PolicyRequest) (nils : Nils) (doc : Json) : Reply Json :=
  match decodeNodeRecord doc with
  | .error err => .error err
  | .ok rec => .ok (marshalRecord { rec with node := rec.node.withPolicy req, small := rec.small } nils)

-- ---------------------------------------------------------------------------
-- What is read back
-- ---------------------------------------------------------------------------

/-- All but the versions of the record and the hidden fields of its node has been
read; maps are compared by what they hold. -/
structure Carried (r rec : NodeRecord) : Prop where
  id : r.node.id = rec.node.id
  publicKey : r.node.publicKey = rec.node.publicKey
  endpoints : r.node.endpoints = rec.node.endpoints
  cidrs : r.node.cidrs = rec.node.cidrs
  listenPort : r.listenPort = rec.listenPort
  overlayIP : r.node.overlayIP = rec.node.overlayIP
  asn : r.asn = rec.asn
  routerID : r.node.routerID = rec.node.routerID
  egressPeerID : r.node.egressPeerID = rec.node.egressPeerID
  policyRules : r.node.policyRules = rec.node.policyRules
  defaultRoute : r.node.defaultRoute = rec.node.defaultRoute
  bypassCIDRs : r.node.bypassCIDRs = rec.node.bypassCIDRs
  defaultRouteNextHop : r.node.defaultRouteNextHop = rec.node.defaultRouteNextHop
  peerEndpoints : ∀ k, r.node.peerEndpoints.get? k = rec.node.peerEndpoints.get? k
  privateKey : r.privateKey = rec.privateKey
  provisionToken : r.provisionToken = rec.provisionToken

/-- The members are those of some fields, as they were written or written again. -/
def MembersOf (m : StrMap Json) (fields : List (String × Option Json)) : Prop :=
  ∀ name o, (name, o) ∈ fields → m.get? name = o.map (name, ·) ∨ m.get? name = o.map fun j => (name, j.untyped)

section

variable {fields : List (String × Option Json)}

theorem membersOf_present (hnodup : (fields.map Prod.fst).Nodup) : MembersOf (members (present fields)) fields :=
  fun _ _ h => .inl (get?_members_present hnodup h)

theorem membersOf_untyped (hnodup : (fields.map Prod.fst).Nodup) :
    MembersOf (members ((members (untypedMembers (present fields))).range keyOrder)) fields := by
  intro name o h
  rw [get?_members_range, get?_members_untyped, get?_members_present hnodup h, Option.map_map]
  exact .inr rfl

theorem MembersOf.read {α : Type} {dec : Decoder α} {zero : α} {P : α → Prop} {o : Option Json} {m : StrMap Json}
    (hm : MembersOf m fields) (name : String) (h : Encodes dec zero P o) (hin : (name, o) ∈ fields) {x : α}
    (hx : x = zero ∨ P x) : P (field m name dec x).1 ∧ (field m name dec x).2 = true := h.field (hm name o hin) hx

theorem encodes_strings (l : List String) (isNil : Bool) :
    Encodes (slice "" string) [] (· = l) (some (ofSlice .str isNil l)) :=
  encodes_slice (fun s _ => encodes_string s) isNil

theorem readRule_eq {kvs : List (String × Json)} {r old : PolicyRule} (hm : MembersOf (members kvs) (ruleFields r))
    (hold : old = {} ∨ old = r) : (readRule (.obj kvs) old).1 = r ∧ (readRule (.obj kvs) old).2 = true := by
  have hpfx := hm.read "prefix" (encodes_string r.pfx) (by simp [ruleFields])
    (hold.imp (congrArg PolicyRule.pfx) (congrArg PolicyRule.pfx))
  have hvia := hm.read "viaNode" (encodes_string r.viaNode) (by simp [ruleFields])
    (hold.imp (congrArg PolicyRule.viaNode) (congrArg PolicyRule.viaNode))
  have hpath := hm.read "path" ((encodes_strings r.path false).omitEmpty rfl) (by simp [ruleFields])
    (hold.imp (congrArg PolicyRule.path) (congrArg PolicyRule.path))
  have hdomains := hm.read "domains" ((encodes_strings r.domains false).omitEmpty rfl) (by simp [ruleFields])
    (hold.imp (congrArg PolicyRule.domains) (congrArg PolicyRule.domains))
  simp only [readRule, hpfx, hvia, hpath, hdomains, Bool.and_self, and_true]

theorem encodes_rule (r : PolicyRule) : Encodes readRule {} (· = r) (some (ruleJson r)) := by
  have hnodup : ((ruleFields r).map Prod.fst).Nodup := by
    have hnames : (ruleFields r).map Prod.fst = ["prefix", "viaNode", "path", "domains"] := rfl
    rw [hnames]
    decide
  refine ⟨fun j hj old hold => ?_, fun j hj old hold => ?_, nofun⟩
  · obtain rfl := Option.some.inj hj
    exact readRule_eq (membersOf_present hnodup) hold
  · obtain rfl := Option.some.inj hj
    rw [ruleJson, Json.untyped]
    exact readRule_eq (membersOf_untyped hnodup) hold

end

theorem encodes_rules (l : List PolicyRule) :
    Encodes (slice {} readRule) [] (· = l) (omitEmpty [] (ofSlice ruleJson false) l) :=
  (encodes_slice (fun r _ => encodes_rule r) false).omitEmpty rfl

theorem encodes_endpoints (t : StrMap String) :
    Encodes (dict "" string) ∅ (fun u => ∀ k, u.get? k = t.get? k) (omitEmpty ∅ (ofDict .str) t) :=
  (encodes_dict fun kv _ => encodes_string kv.2).omitEmpty fun _ => rfl

section

variable {m : StrMap Json} {old rec : NodeRecord} {nils : Nils} {version : Json} {configVersion : Option Json}

theorem read_field {α : Type} {dec : Decoder α} {P : α → Prop} {o : Option Json}
    (hm : MembersOf m (recordFields rec nils version configVersion)) (hold : old = .zero ∨ Carried old rec)
    (name : String) (f : NodeRecord → α) (h : Encodes dec (f .zero) P o) (hf : Carried old rec → P (f old))
    (hin : (name, o) ∈ recordFields rec nils version configVersion := by simp [recordFields, frontFields, backFields]) :
    P (field m name dec (f old)).1 ∧ (field m name dec (f old)).2 = true :=
  hm.read name h hin (hold.imp (congrArg f) hf)

theorem readRecord_carried (hm : MembersOf m (recordFields rec nils version configVersion))
    (hold : old = .zero ∨ Carried old rec) : Carried (readRecord m old).1 rec ∧ (readRecord m old).2 =
      ((field m "version" string old.node.version).2 && (field m "configVersion" string old.node.configVersion).2) := by
  have hid := read_field hm hold "id" (fun r => r.node.id) (encodes_string rec.node.id) fun h => h.id
  have hpublicKey := read_field hm hold "publicKey" (fun r => r.node.publicKey) (encodes_string rec.node.publicKey)
    fun h => h.publicKey
  have hendpoints := read_field hm hold "endpoints" (fun r => r.node.endpoints)
    (encodes_strings rec.node.endpoints nils.endpoints) fun h => h.endpoints
  have hcidrs := read_field hm hold "cidrs" (fun r => r.node.cidrs) (encodes_strings rec.node.cidrs nils.cidrs)
    fun h => h.cidrs
  have hlistenPort := read_field hm hold "listenPort" (fun r => r.listenPort)
    ((encodes_int zeroNum rec.listenPort).omitEmpty rfl) fun h => h.listenPort
  have hoverlayIP := read_field hm hold "overlayIp" (fun r => r.node.overlayIP)
    ((encodes_string rec.node.overlayIP).omitEmpty rfl) fun h => h.overlayIP
  have hasn := read_field hm hold "asn" (fun r => r.asn) ((encodes_int zeroNum rec.asn).omitEmpty rfl) fun h => h.asn
  have hrouterID := read_field hm hold "routerId" (fun r => r.node.routerID)
    ((encodes_string rec.node.routerID).omitEmpty rfl) fun h => h.routerID
  have hegress := read_field hm hold "egressPeerId" (fun r => r.node.egressPeerID)
    ((encodes_string rec.node.egressPeerID).omitEmpty rfl) fun h => h.egressPeerID
  have hrules := read_field hm hold "policyRules" (fun r => r.node.policyRules) (encodes_rules rec.node.policyRules)
    fun h => h.policyRules
  have hdefault := read_field hm hold "defaultRoute" (fun r => r.node.defaultRoute)
    ((encodes_boolean rec.node.defaultRoute).omitEmpty rfl) fun h => h.defaultRoute
  have hbypass := read_field hm hold "bypassCidrs" (fun r => r.node.bypassCIDRs)
    ((encodes_strings rec.node.bypassCIDRs false).omitEmpty rfl) fun h => h.bypassCIDRs
  have hnextHop := read_field hm hold "defaultRouteNextHop" (fun r => r.node.defaultRouteNextHop)
    ((encodes_string rec.node.defaultRouteNextHop).omitEmpty rfl) fun h => h.defaultRouteNextHop
  have hpeers := read_field hm hold "peerEndpoints" (fun r => r.node.peerEndpoints)
    (encodes_endpoints rec.node.peerEndpoints) fun h => h.peerEndpoints
  have hprivateKey := read_field hm hold "privateKey" (fun r => r.privateKey)
    ((encodes_string rec.privateKey).omitEmpty rfl) fun h => h.privateKey
  have htoken := read_field hm hold "provisionToken" (fun r => r.provisionToken)
    ((encodes_string rec.provisionToken).omitEmpty rfl) fun h => h.provisionToken
  refine ⟨⟨hid.1, hpublicKey.1, hendpoints.1, hcidrs.1, hlistenPort.1, hoverlayIP.1, hasn.1, hrouterID.1, hegress.1,
    hrules.1, hdefault.1, hbypass.1, hnextHop.1, hpeers.1, hprivateKey.1, htoken.1⟩, ?_⟩
  simp only [readRecord, hid.2, hpublicKey.2, hendpoints.2, hcidrs.2, hlistenPort.2, hoverlayIP.2, hasn.2, hrouterID.2,
    hegress.2, hrules.2, hdefault.2, hbypass.2, hnextHop.2, hpeers.2, hprivateKey.2, htoken.2, Bool.and_true]

theorem recordFields_nodup (rec : NodeRecord) (nils : Nils) (version : Json) (configVersion : Option Json) :
    ((recordFields rec nils version configVersion).map Prod.fst).Nodup := by
  have hnames : (recordFields rec nils version configVersion).map Prod.fst = ["id", "publicKey", "endpoints", "cidrs",
      "configVersion", "version", "listenPort", "overlayIp", "asn", "routerId", "egressPeerId", "policyRules",
      "defaultRoute", "bypassCidrs", "defaultRouteNextHop", "peerEndpoints", "privateKey", "provisionToken"] := rfl
  rw [hnames]
  decide

end

-- ---------------------------------------------------------------------------
-- Both kinds of documents
-- ---------------------------------------------------------------------------

structure Node.SameFields (a b : Node) : Prop where
  fields : { a with peerEndpoints := ∅ } = { b with peerEndpoints := ∅ }
  peerEndpoints : ∀ k, a.peerEndpoints.get? k = b.peerEndpoints.get? k

/-- A record as `UpsertNode` writes it, perhaps with a number for its version, and
perhaps without configuration version. -/
def document (rec : NodeRecord) (nils : Nils) (legacy : Option Int53) (absent : Bool) : Json :=
  .obj (present (recordFields rec nils (legacy.elim (.str rec.node.version) .num)
    (if absent then none else some (.str rec.node.configVersion))))

theorem marshalRecord_eq (rec : NodeRecord) (nils : Nils) : marshalRecord rec nils = document rec nils none false := rfl

/-- The version that a document is to have. -/
def documentVersion (n : Node) (legacy : Option Int53) : String := legacy.elim n.version legacyVersion

/-- The configuration version that a document has, and the version where that is missing. -/
def filledVersion (n : Node) (legacy : Option Int53) (absent : Bool) : String :=
  if absent ∨ n.configVersion = "" then documentVersion n legacy else n.configVersion

def readVersion (n : Node) (legacy : Option Int53) (absent : Bool) : String :=
  if legacy ≠ none ∧ absent = false then n.configVersion else filledVersion n legacy absent

section

variable {m : StrMap Json} {r rec : NodeRecord} {nils : Nils} {legacy : Option Int53} {absent : Bool}

theorem Carried.sameFields (h : Carried r rec) : Node.SameFields
    { rec.toNode with version := r.node.version, configVersion := r.node.configVersion } r.toNode := by
  have hlistenPort : r.node.listenPort = rec.node.listenPort := congrArg Int53.val h.listenPort
  have hasn : r.node.asn = rec.node.asn := congrArg Int53.val h.asn
  constructor
  · simp only [NodeRecord.toNode, h.id, h.publicKey, h.endpoints, h.cidrs, hlistenPort, h.overlayIP, hasn, h.routerID,
      h.egressPeerID, h.policyRules, h.defaultRoute, h.bypassCIDRs, h.defaultRouteNextHop, h.privateKey,
      h.provisionToken]
  · exact fun k => (h.peerEndpoints k).symm

theorem Carried.fill (h : Carried r rec) : Carried (fillConfigVersion r) rec := by
  unfold fillConfigVersion
  split
  · exact ⟨h.id, h.publicKey, h.endpoints, h.cidrs, h.listenPort, h.overlayIP, h.asn, h.routerID, h.egressPeerID,
      h.policyRules, h.defaultRoute, h.bypassCIDRs, h.defaultRouteNextHop, h.peerEndpoints, h.privateKey,
      h.provisionToken⟩
  · exact h

theorem fillConfigVersion_version (r : NodeRecord) : (fillConfigVersion r).node.version = r.node.version := by
  unfold fillConfigVersion
  split <;> rfl

theorem fillConfigVersion_configVersion (r : NodeRecord) : (fillConfigVersion r).node.configVersion =
    if r.node.configVersion = "" then r.node.version else r.node.configVersion := by
  unfold fillConfigVersion
  split
  next h => rw [if_pos h.1]
  next h =>
    split
    next hempty =>
      rw [hempty]
      exact (not_not.mp fun hne => h ⟨hempty, hne⟩).symm
    next => rfl

theorem mem_recordFields {name : String} {o : Option Json} {version : Json} {configVersion : Option Json} :
    (name, o) ∈ recordFields rec nils version configVersion ↔
      (name = "version" ∧ o = some version) ∨ (name = "configVersion" ∧ o = configVersion) ∨
        (name ≠ "version" ∧ name ≠ "configVersion" ∧ (name, o) ∈ frontFields rec nils ++ backFields rec) := by
  have hnames : ∀ f ∈ frontFields rec nils ++ backFields rec, f.1 ≠ "version" ∧ f.1 ≠ "configVersion" := by
    simp [frontFields, backFields]
  have hne := hnames (name, o)
  simp only [recordFields, List.mem_append, List.mem_cons, Prod.mk.injEq] at hne ⊢
  tauto

theorem readRecord_typed {old : NodeRecord} {v : String} {c : Option String}
    (hm : MembersOf m (recordFields rec nils (.str v) (c.map .str))) (hold : old = .zero ∨ Carried old rec) :
    Carried (readRecord m old).1 rec ∧ (readRecord m old).1.node.version = v ∧
      (readRecord m old).1.node.configVersion = c.getD old.node.configVersion ∧ (readRecord m old).2 = true := by
  obtain ⟨hcarried, hok⟩ := readRecord_carried hm hold
  have hv : m.get? "version" = some ("version", .str v) := (hm _ _ (mem_recordFields.mpr (.inl ⟨rfl, rfl⟩))).elim id id
  have hc : m.get? "configVersion" = c.map fun c => ("configVersion", .str c) := by
    rcases hm _ _ (mem_recordFields.mpr (.inr (.inl ⟨rfl, rfl⟩))) with h | h
    · rw [h, Option.map_map]; rfl
    · rw [h, Option.map_map]; rfl
  have hconfig : field m "configVersion" string old.node.configVersion = (c.getD old.node.configVersion, true) := by
    cases c with
    | none => exact field_none hc string _
    | some c => exact field_some hc string _
  rw [field_some hv, hconfig] at hok
  exact ⟨hcarried, congrArg Prod.fst (field_some hv string _), congrArg Prod.fst hconfig, hok⟩

theorem decode_typed (rec : NodeRecord) (nils : Nils) (absent : Bool) :
    ∃ r, decodeNodeRecord (document rec nils none absent) = .ok r ∧ Carried r rec ∧
      r.node.version = rec.node.version ∧ r.node.configVersion = filledVersion rec.node none absent := by
  let c : Option String := if absent then none else some rec.node.configVersion
  have hfields : document rec nils none absent =
      .obj (present (recordFields rec nils (.str rec.node.version) (c.map .str))) := by
    cases absent <;> rfl
  have hm := membersOf_present (recordFields_nodup rec nils (.str rec.node.version) (c.map .str))
  obtain ⟨hcarried, hversion, hconfig, hok⟩ := readRecord_typed hm (.inl rfl)
  refine ⟨_, hfields ▸ decodeNodeRecord_typed hok, hcarried.fill, (fillConfigVersion_version _).trans hversion, ?_⟩
  refine (fillConfigVersion_configVersion _).trans ?_
  rw [hversion, hconfig, filledVersion]
  cases absent with
  | true => rfl
  | false => simp [c, documentVersion, NodeRecord.zero]

def legacyMembers (rec : NodeRecord) (nils : Nils) (k : Int53) (absent : Bool) : List (String × Json) :=
  present (recordFields rec nils (.num k) (if absent then none else some (.str rec.node.configVersion)))

theorem membersOf_rewritten (rec : NodeRecord) (nils : Nils) (k : Int53) (absent : Bool) :
    MembersOf (members ((addConfigVersion (coerceVersion
      (members (untypedMembers (legacyMembers rec nils k absent))))).range keyOrder)) (recordFields rec nils (.str (legacyVersion k))
        ((some (if absent then legacyVersion k else rec.node.configVersion)).map .str)) := by
  let raw := members (untypedMembers (legacyMembers rec nils k absent))
  have hget {name : String} {o : Option Json}
      (h : (name, o) ∈ recordFields rec nils (.num k) (if absent then none else some (.str rec.node.configVersion))) :
      raw.get? name = o.map fun j => (name, j.untyped) := by
    rw [get?_members_untyped, legacyMembers, get?_members_present (recordFields_nodup ..) h, Option.map_map]
    rfl
  have hversion := hget (mem_recordFields.mpr (.inl ⟨rfl, rfl⟩))
  have hconfig := hget (mem_recordFields.mpr (.inr (.inl ⟨rfl, rfl⟩)))
  have hcoerced : coerceVersion raw = raw.put ("version", .str (legacyVersion k)) := by
    rw [coerceVersion, hversion]
    rfl
  have hadded : addConfigVersion (coerceVersion raw) =
      if absent then (coerceVersion raw).put ("configVersion", .str (legacyVersion k)) else coerceVersion raw := by
    have hv : (coerceVersion raw).get? "version" = some ("version", .str (legacyVersion k)) := by
      rw [hcoerced, Table.get?_put, if_pos rfl]
    have hc : (coerceVersion raw).get? "configVersion" = raw.get? "configVersion" := by
      rw [hcoerced, Table.get?_put, if_neg (by simp)]
    rw [addConfigVersion, hv, hc, hconfig]
    cases absent <;> rfl
  intro name o h
  rw [get?_members_range, hadded]
  rcases mem_recordFields.mp h with ⟨rfl, rfl⟩ | ⟨rfl, rfl⟩ | ⟨hv, hc, hside⟩
  · refine .inl ?_
    cases absent
    · simp [hcoerced]
    · simp [hcoerced]
  · refine .inl ?_
    cases absent
    · simp [hcoerced, hconfig, Json.untyped]
    · simp
  · have hraw := hget (mem_recordFields.mpr (.inr (.inr ⟨hv, hc, hside⟩)))
    refine .inr ?_
    rw [← hraw]
    cases absent
    · simp [hcoerced, Ne.symm hv]
    · simp [hcoerced, Ne.symm hv, Ne.symm hc]

theorem decode_legacy (rec : NodeRecord) (nils : Nils) (k : Int53) (absent : Bool) :
    ∃ r, decodeNodeRecord (document rec nils (some k) absent) = .ok r ∧ Carried r rec ∧
      r.node.version = legacyVersion k ∧
      r.node.configVersion = if absent then legacyVersion k else rec.node.configVersion := by
  have hm := membersOf_present (recordFields_nodup rec nils (.num k)
    (if absent then none else some (.str rec.node.configVersion)))
  obtain ⟨hcarried, hok⟩ := readRecord_carried hm (.inl rfl)
  have hnum := field_some ((hm _ _ (mem_recordFields.mpr (.inl ⟨rfl, rfl⟩))).elim id id) string ""
  have hfailed := hok.trans (by rw [Bool.and_eq_false_iff]; exact .inl (congrArg Prod.snd hnum))
  obtain ⟨hcarried', hversion, hconfig, hok'⟩ :=
    readRecord_typed (membersOf_rewritten rec nils k absent) (.inr hcarried)
  exact ⟨_, decodeNodeRecord_untyped hfailed hok', hcarried', hversion, hconfig⟩

theorem decode_document (rec : NodeRecord) (nils : Nils) (legacy : Option Int53) (absent : Bool) :
    ∃ r, decodeNodeRecord (document rec nils legacy absent) = .ok r ∧ Carried r rec ∧
      r.node.version = documentVersion rec.node legacy ∧ r.node.configVersion = readVersion rec.node legacy absent := by
  cases legacy with
  | none => exact decode_typed rec nils absent
  | some k =>
    obtain ⟨r, hdecode, hcarried, hversion, hconfig⟩ := decode_legacy rec nils k absent
    refine ⟨r, hdecode, hcarried, hversion, hconfig.trans ?_⟩
    cases absent with
    | true => rfl
    | false => rfl

end

-- ---------------------------------------------------------------------------
-- Records
-- ---------------------------------------------------------------------------

/-- The node as a document is to be read. -/
def Node.asRead (n : Node) (legacy : Option Int53) (absent : Bool) : Node :=
  { n with version := documentVersion n legacy, configVersion := filledVersion n legacy absent }

abbrev StorableNode := { n : Node // n.Small }

/-- A record is read back whole, and a change of its policy leaves the rest of it. -/
def RecordExact (n : StorableNode) (nils nils' : Nils) (legacy : Option Int53) (absent : Bool) (req : PolicyRequest) :
    Prop :=
  let doc := document (.ofNode n.1 n.2) nils legacy absent
  (∃ r, decodeNodeRecord doc = .ok r ∧ (n.1.asRead legacy absent).SameFields r.toNode) ∧
    ∃ doc' r, updatePolicyDocument req nils' doc = .ok doc' ∧ decodeNodeRecord doc' = .ok r ∧
      ((n.1.asRead legacy absent).withPolicy req).SameFields r.toNode

section

variable {a b c : Node} {n : Node} {legacy : Option Int53} {absent : Bool}

theorem Node.SameFields.trans (h : a.SameFields b) (h' : b.SameFields c) : a.SameFields c :=
  ⟨h.fields.trans h'.fields, fun k => (h.peerEndpoints k).trans (h'.peerEndpoints k)⟩

theorem Node.SameFields.change (h : a.SameFields b) (version configVersion : String) (req : PolicyRequest) :
    ({ a with version := version, configVersion := configVersion }.withPolicy req).SameFields
      ({ b with version := version, configVersion := configVersion }.withPolicy req) :=
  ⟨congrArg (fun n : Node => { n with version := version, configVersion := configVersion }.withPolicy req) h.fields,
    h.peerEndpoints⟩

theorem legacyVersion_ne_empty (k : Int53) : legacyVersion k ≠ "" := by
  simp [legacyVersion, String.append_eq_empty_iff]

theorem readVersion_eq_iff : readVersion n legacy absent = filledVersion n legacy absent ↔
    legacy = none ∨ absent = true ∨ n.configVersion ≠ "" := by
  cases legacy with
  | none => exact iff_of_true (if_neg fun h => h.1 rfl) (.inl rfl)
  | some k =>
    cases absent with
    | true => exact iff_of_true (if_neg fun h => nomatch h.2) (.inr (.inl rfl))
    | false =>
      have hfilled : filledVersion n (some k) false =
          if n.configVersion = "" then legacyVersion k else n.configVersion := by
        simp [filledVersion, documentVersion]
      have hread : readVersion n (some k) false = n.configVersion := rfl
      rw [hfilled, hread]
      by_cases hempty : n.configVersion = ""
      · simp [hempty, (legacyVersion_ne_empty k).symm]
      · simp [hempty]

theorem filledVersion_readVersion :
    (if readVersion n legacy absent = "" then documentVersion n legacy else readVersion n legacy absent) =
      filledVersion n legacy absent := by
  unfold readVersion filledVersion
  grind

end

/-- A record is kept whole unless its version is a number and its configuration
version is there and empty. -/
theorem recordExact_iff (n : StorableNode) (nils nils' : Nils) (legacy : Option Int53) (absent : Bool)
    (req : PolicyRequest) : RecordExact n nils nils' legacy absent req ↔
      (legacy = none ∨ absent = true ∨ n.1.configVersion ≠ "") := by
  obtain ⟨r, hdecode, hcarried, hversion, hconfig⟩ := decode_document (.ofNode n.1 n.2) nils legacy absent
  have hsame := hcarried.sameFields
  rw [hversion, hconfig] at hsame
  rw [← readVersion_eq_iff, RecordExact]
  constructor
  · rintro ⟨⟨r', hdecode', hread⟩, -⟩
    obtain rfl := Except.ok.inj (hdecode.symm.trans hdecode')
    exact hconfig.symm.trans (congrArg Node.configVersion hread.fields).symm
  · intro heq
    refine ⟨⟨r, hdecode, ?_⟩, ?_⟩
    · rw [Node.asRead, ← heq]
      exact hsame
    · let changed : NodeRecord := { r with node := r.node.withPolicy req, small := r.small }
      obtain ⟨r', hdecode', hcarried', hversion', hconfig'⟩ := decode_document changed nils' none false
      have hsame' := hcarried'.sameFields
      have hfilled : readVersion changed.node none false = filledVersion n.1 legacy absent := by
        have hchanged : readVersion changed.node none false =
            if r.node.configVersion = "" then r.node.version else r.node.configVersion := by
          simp [readVersion, filledVersion, documentVersion, changed, Node.withPolicy]
        rw [hchanged, hversion, hconfig]
        exact filledVersion_readVersion
      have hkept : documentVersion changed.node none = documentVersion n.1 legacy := hversion
      rw [hversion', hconfig', hfilled, hkept] at hsame'
      refine ⟨marshalRecord changed nils', r', ?_, hdecode', ?_⟩
      · rw [updatePolicyDocument, hdecode]
      · exact (hsame.change _ _ req).trans hsame'

/-- The record of a node as an older controller wrote it, with no configuration version. -/
def olderNode : StorableNode := ⟨{ id := "a" }, by decide, by decide⟩

theorem recordExact_counterexample :
    (decodeNodeRecord (document (.ofNode olderNode.1 olderNode.2) ⟨true, true⟩ (some ⟨7, by decide⟩) false)).map
        (fun r => (r.node.version, r.node.configVersion)) = .ok ("v0.0.7", "") ∧
      ¬ RecordExact olderNode ⟨true, true⟩ ⟨true, true⟩ (some ⟨7, by decide⟩) false {} := by
  have hread : (decodeNodeRecord (document (.ofNode olderNode.1 olderNode.2) ⟨true, true⟩ (some ⟨7, by decide⟩)
      false)).map (fun r => (r.node.version, r.node.configVersion)) = .ok ("v0.0.7", "") := by decide
  refine ⟨hread, ?_⟩
  rintro ⟨⟨r, hdecode, hsame⟩, -⟩
  rw [hdecode] at hread
  have hempty : r.node.configVersion = "" := (Prod.mk.inj (Except.ok.inj hread)).2
  have hfilled : "v0.0.7" = r.node.configVersion := congrArg Node.configVersion hsame.fields
  rw [hempty] at hfilled
  exact absurd hfilled (by decide)

/-- The store reads a node as its document is to be read. -/
theorem node?_eq_asRead (n : Node) : ConsulValue.node? (.node n) = some (n.asRead none false) := by
  have hfilled : filledVersion n none false =
      if n.configVersion = "" ∧ n.version ≠ "" then n.version else n.configVersion := by
    have hversion : documentVersion n none = n.version := rfl
    rw [filledVersion, hversion]
    grind
  rw [ConsulValue.node?, Node.asRead, hfilled]
  split <;> rfl

theorem decode_marshalRecord (n : StorableNode) (nils : Nils) :
    ∃ r n', decodeNodeRecord (marshalRecord (.ofNode n.1 n.2) nils) = .ok r ∧
      ConsulValue.node? (.node n.1) = some n' ∧ n'.SameFields r.toNode := by
  obtain ⟨r, hdecode, hcarried, hversion, hconfig⟩ := decode_document (.ofNode n.1 n.2) nils none false
  have hsame := hcarried.sameFields
  rw [hversion, hconfig] at hsame
  exact ⟨r, n.1.asRead none false, hdecode, node?_eq_asRead n.1, hsame⟩

end PeerWan
