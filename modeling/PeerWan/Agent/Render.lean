import Mathlib.Logic.Function.Basic
import PeerWan.Agent.Session
import PeerWan.Lib.Net

/-!
# Rendering a plan

`RenderAndWrite` of `pkg/agent/render.go` with the two texts it writes, the
WireGuard configuration of `pkg/wireguard/render.go` and the FRR configuration
of `pkg/frr/bgp.go`, and the `ip` commands that `applyStaticRoutes` runs. What
a command does, and what one that shows routes prints, is up to the host. The
database that records policy operations is not read by any of this.
-/

namespace PeerWan

open Lib

/-- `policy.Expand`, which reads country files and asks the resolver: what it
gives during one rendering. An invalid rule has no prefixes, and every prefix
has a mask. -/
structure Expander where
  expand : PolicyRule → List String
  invalid : ∀ r, r.validate = false → expand r = []
  masked : ∀ r, ∀ pfx ∈ expand r, '/' ∈ pfx.toList

/-- What `Expand` gives for rules with a CIDR and without domains. -/
def Expander.literal : Expander where
  expand r := if r.validate ∧ '/' ∈ r.pfx.toList then [r.pfx] else []
  invalid r h := by simp [h]
  masked r pfx hpfx := by
    split at hpfx
    next h => exact List.mem_singleton.mp hpfx ▸ h.2
    next => cases hpfx

def zeroPrefix : String := "0.0.0.0/0"

/-- The next hop that a rule names: the head of its path, or its node. -/
def PolicyRule.nextID (r : PolicyRule) : String := r.path.headD r.viaNode

/-- The first allowed IP of the first peer that has the ID and an allowed IP. -/
def overlayForPeer (id : String) (peers : List Peer) : String :=
  (peers.findSome? fun p => if p.id = id then p.allowedIPs.head? else none).getD ""

def frrOverlayForPeer (id : String) (peers : List Peer) : String := overlayForPeer id peers

-- ---------------------------------------------------------------------------
-- Local tunnels
-- ---------------------------------------------------------------------------

def endpointHost (ep : String) : String :=
  if ep = "" then ""
  else match if ':' ∈ ep.toList then splitHostPort ep else none with
    | some (host, _) => host
    | none => if (parseInt ep).isSome then "" else ep

def allocateLocalPorts (peers : List Peer) (base : Int) : StrMap Int :=
  (peers.foldl (fun (ports, cur) p =>
    let host := endpointHost p.endpoint
    if host = "" ∨ (ports.get? host).isSome then (ports, cur) else (ports.put (host, cur), cur + 1))
    ((∅ : StrMap Int), base)).1

def withLocalEndpoint (hostToLocal : StrMap Int) (p : Peer) : Peer :=
  let host := endpointHost p.endpoint
  match hostToLocal.get? host with
  | some (_, lp) => if host = "" then p else { p with endpoint := "127.0.0.1:" ++ toString lp }
  | none => p

-- ---------------------------------------------------------------------------
-- WireGuard
-- ---------------------------------------------------------------------------

/-- What the rules, and then the default route, want to send through each peer. -/
def egressTargets (ex : Expander) (node : Node) : String → List String :=
  let targets := node.policyRules.foldl (fun targets pr =>
    let pfx := ex.expand pr
    let target := pr.nextID
    if pfx = [] ∨ target = "" then targets
    else Function.update targets target (targets target ++ pfx)) fun _ => []
  if node.defaultRoute ∧ node.egressPeerID ≠ "" then
    Function.update targets node.egressPeerID (targets node.egressPeerID ++ [zeroPrefix])
  else targets

def addAllowed (allowed want : List String) : List String :=
  want.foldl (fun allowed pref => if pref ∈ allowed then allowed else allowed ++ [pref]) allowed

def augmentEgressAllowedIPs (ex : Expander) (peers : List Peer) (node : Node) : List Peer :=
  peers.map fun p => { p with allowedIPs := addAllowed p.allowedIPs (egressTargets ex node p.id) }

theorem mem_addAllowed {allowed want : List String} {pfx : String} :
    pfx ∈ addAllowed allowed want ↔ pfx ∈ allowed ∨ pfx ∈ want := by
  unfold addAllowed
  induction want generalizing allowed with
  | nil => simp
  | cons w want ih =>
    rw [List.foldl_cons, ih, List.mem_cons]
    split
    next hw =>
      constructor
      · rintro (h | h)
        · exact .inl h
        · exact .inr (.inr h)
      · rintro (h | rfl | h)
        · exact .inl h
        · exact .inl hw
        · exact .inr h
    next => simp [or_assoc]

/-- What a node wants to send through the peer with an ID: the prefixes of the
rules that name it next, and the default route if it is the egress peer. -/
def Node.Wants (ex : Expander) (node : Node) (id pfx : String) : Prop :=
  id ≠ "" ∧ ((∃ pr ∈ node.policyRules, pr.nextID = id ∧ pfx ∈ ex.expand pr) ∨
    (node.defaultRoute = true ∧ node.egressPeerID = id ∧ pfx = zeroPrefix))

theorem mem_ruleTargets (ex : Expander) (rules : List PolicyRule) (targets : String → List String)
    (id pfx : String) : pfx ∈ rules.foldl (fun targets pr =>
      let want := ex.expand pr
      let target := pr.nextID
      if want = [] ∨ target = "" then targets
      else Function.update targets target (targets target ++ want)) targets id ↔
    pfx ∈ targets id ∨ (id ≠ "" ∧ ∃ pr ∈ rules, pr.nextID = id ∧ pfx ∈ ex.expand pr) := by
  induction rules generalizing targets with
  | nil => simp
  | cons pr rules ih =>
    rw [List.foldl_cons, ih]
    split
    next hskip =>
      have hnot : ¬ (id ≠ "" ∧ pr.nextID = id ∧ pfx ∈ ex.expand pr) := by
        rintro ⟨hid, rfl, hpfx⟩
        rcases hskip with hnil | hempty
        · rw [hnil] at hpfx
          cases hpfx
        · exact hid hempty
      simp only [List.exists_mem_cons_iff, and_or_left, hnot, false_or]
    next hadd =>
      have hempty : pr.nextID ≠ "" := fun h => hadd (.inr h)
      by_cases hid : pr.nextID = id
      · subst hid
        simp [hempty, or_assoc]
      · simp [Function.update_of_ne (Ne.symm hid), hid]

theorem mem_egressTargets {ex : Expander} {node : Node} {id pfx : String} :
    pfx ∈ egressTargets ex node id ↔ node.Wants ex id pfx := by
  unfold egressTargets Node.Wants
  dsimp only
  split
  next hdefault =>
    by_cases hid : node.egressPeerID = id
    · subst hid
      rw [Function.update_self, List.mem_append, mem_ruleTargets]
      simp [hdefault.1, hdefault.2]
    · rw [Function.update_of_ne (Ne.symm hid), mem_ruleTargets]
      simp [hid]
  next hdefault =>
    have hnot : ¬ (id ≠ "" ∧ node.defaultRoute = true ∧ node.egressPeerID = id ∧ pfx = zeroPrefix) := by
      rintro ⟨hid, hflag, rfl, -⟩
      exact hdefault ⟨hflag, hid⟩
    rw [mem_ruleTargets, and_or_left]
    simp [hnot]

/-- A `[Peer]` section. -/
def renderPeer (node : Node) (p : Peer) : String :=
  let ep := match node.peerEndpoints.get? p.id with
    | some (_, override) => if override ≠ "" then override else p.endpoint
    | none => p.endpoint
  "[Peer]\n" ++ "PublicKey = " ++ p.publicKey ++ "\n" ++
    (if ep ≠ "" then "Endpoint = " ++ ep ++ "\n" else "") ++
    (if p.allowedIPs.length > 0 then "AllowedIPs = " ++ ", ".intercalate p.allowedIPs ++ "\n" else "") ++
    (if p.keepalive > 0 then "PersistentKeepalive = " ++ toString p.keepalive ++ "\n" else "") ++ "\n"

def renderConfig (node : Node) (peers : List Peer) (privateKey : String) : String :=
  "[Interface]\n" ++
    (if node.overlayIP ≠ "" then "Address = " ++ node.overlayIP ++ "\n" else "") ++
    (if node.listenPort > 0 then "ListenPort = " ++ toString node.listenPort ++ "\n" else "") ++
    (if privateKey ≠ "" then "PrivateKey = " ++ privateKey ++ "\n" else "") ++ "\n" ++
    String.join (peers.map (renderPeer node))

-- ---------------------------------------------------------------------------
-- FRR
-- ---------------------------------------------------------------------------

def stripMask (ip : String) : String := (beforeSlash ip).getD ip

def neighborOverlayIPs (peers : List Peer) : StrMap Int :=
  peers.foldl (fun res p => match p.allowedIPs with
    | [] => res
    | ip :: _ => res.put (ip, 0)) ∅

/-- The `ip route` statements: prefixes and next hops. -/
def bgpStatics (ex : Expander) (plan : Plan) : List (String × String) :=
  let nextHop := overlayForPeer plan.egressPeerID plan.peers
  (if plan.egressPeerID ≠ "" ∧ plan.peers.length > 0 ∧ nextHop ≠ "" then [(zeroPrefix, stripMask nextHop)]
    else []) ++
  plan.policyRules.flatMap fun pr =>
    if pr.viaNode = "" ∧ pr.path.length = 0 then []
    else
      let nh := stripMask (overlayForPeer pr.nextID plan.peers)
      if nh = "" then [] else (ex.expand pr).map fun t => (t, nh)

def renderBGP (ex : Expander) (o : MapOrder (String × Int)) (localASN : Int) (routerID sourceInterface : String)
    (neighbors : StrMap Int) (advertised : List String) (plan : Plan) : String :=
  let localASN := if localASN = 0 then 65000 else localASN
  let sourceInterface := if sourceInterface = "" then "wg0" else sourceInterface
  "router bgp " ++ toString localASN ++ "\n" ++
    (if routerID ≠ "" then " bgp router-id " ++ routerID ++ "\n" else "") ++
    String.join ((neighbors.range o).map fun (ip, asn) =>
      let asn := if asn = 0 then localASN else asn
      " neighbor " ++ ip ++ " remote-as " ++ toString asn ++ "\n" ++
        " neighbor " ++ ip ++ " update-source " ++ sourceInterface ++ "\n") ++
    String.join (advertised.map fun pfx => " network " ++ pfx ++ "\n") ++
    String.join ((bgpStatics ex plan).map fun (t, nh) => " ip route " ++ t ++ " " ++ nh ++ "\n") ++ "!\n"

-- ---------------------------------------------------------------------------
-- Commands
-- ---------------------------------------------------------------------------

inductive RouteTable where
  | main | t52 | t100
  deriving DecidableEq, Repr

structure RouteHop where
  via : Option String := none
  dev : String
  scopeLink : Bool := false
  deriving DecidableEq, Repr

inductive Selector where
  | all
  | source (cidr : String)
  | dest (pfx : String)
  deriving DecidableEq, Repr

structure IpRule where
  selector : Selector
  lookup : RouteTable
  priority : Nat
  deriving DecidableEq, Repr

inductive IpCmd where
  | routeReplace (pfx : String) (hop : RouteHop) (table : RouteTable)
  | routeDel (pfx dev : String) (table : RouteTable)
  | ruleAdd (rule : IpRule)
  | flushCache
  deriving DecidableEq, Repr

def RouteTable.name : RouteTable → String
  | .main => "main"
  | .t52 => "52"
  | .t100 => "100"

def RouteTable.args : RouteTable → List String
  | .main => []
  | t => ["table", t.name]

def IpCmd.args : IpCmd → List String
  | .routeReplace pfx hop table =>
    ["ip", "route", "replace", pfx] ++ (match hop.via with | some via => ["via", via] | none => []) ++
      ["dev", hop.dev] ++ (if hop.scopeLink then ["scope", "link"] else []) ++ table.args
  | .routeDel pfx dev table => ["ip", "route", "del", pfx, "dev", dev] ++ table.args
  | .ruleAdd ⟨.all, lookup, priority⟩ =>
    ["ip", "rule", "add", "priority", toString priority, "lookup", lookup.name]
  | .ruleAdd ⟨.source cidr, lookup, priority⟩ =>
    ["ip", "rule", "add", "from", cidr, "lookup", lookup.name, "priority", toString priority]
  | .ruleAdd ⟨.dest pfx, lookup, priority⟩ =>
    ["ip", "rule", "add", "to", pfx, "lookup", lookup.name, "priority", toString priority]
  | .flushCache => ["ip", "route", "flush", "cache"]

/-- The host that commands run on. A command says whether it succeeded; `ip
route show default` and `ip route show table 52 dev ...` print something, or
fail. -/
class IpHost (κ : Type) where
  exec : IpCmd → κ → Bool × κ
  showDefault : κ → Option String
  showTable52 : String → κ → Option String

variable {κ : Type} [IpHost κ]

def IpCmd.exec (c : IpCmd) (h : κ) : κ := (IpHost.exec c h).2

def execWhile : List IpCmd → κ → Bool × κ
  | [], h => (true, h)
  | c :: cs, h => match IpHost.exec c h with
    | (false, h) => (false, h)
    | (true, h) => execWhile cs h

-- ---------------------------------------------------------------------------
-- Routes to the peers
-- ---------------------------------------------------------------------------

/-- An IPv4 prefix that `syncPeerRoutes` takes up. -/
def isPeerPrefix (pref : String) : Bool :=
  pref ≠ "" && pref ≠ zeroPrefix && ((CIDR.parse pref).bind fun c => c.network.to4).isSome

def desiredPrefixes (peers : List Peer) : List String :=
  ((peers.flatMap (·.allowedIPs)).filter isPeerPrefix).dedup

/-- The loop over what table 52 shows: a prefix in 10. that is not wanted goes. -/
def pruneTable52 (desired : List String) (iface out : String) (h : κ) : κ :=
  (lines out).foldl (fun h line =>
    match fields line with
    | [] => h
    | pref :: _ =>
      if pref ∈ desired ∨ ¬ "10.".toList <+: pref.toList then h else IpCmd.exec (.routeDel pref iface .t52) h) h

/-- `o` gives the orders of the loops over the set of prefixes. -/
def syncPeerRoutes (o : RouteTable → MapOrder String) (peers : List Peer) (iface : String) (h : κ) : Bool × κ :=
  let iface := if iface = "" then "wg0" else iface
  let desired := desiredPrefixes peers
  let ensure (table : RouteTable) : List IpCmd :=
    ((o table).order desired).map fun pref => .routeReplace pref { dev := iface } table
  match execWhile (ensure .main) h with
  | (false, h) => (false, h)
  | (true, h) => match execWhile (ensure .t52) h with
    | (false, h) => (false, h)
    | (true, h) =>
      let h := match IpHost.showTable52 iface h with
        | some out => pruneTable52 desired iface out h
        | none => h
      (true, IpCmd.exec .flushCache h)

-- ---------------------------------------------------------------------------
-- Static routes
-- ---------------------------------------------------------------------------

/-- The gateway and the device of a line, as the loop over its fields finds
them: the last of each. -/
def lineRoute : List String → String × String → String × String
  | f :: g :: rest, (gw, dev) =>
    lineRoute (g :: rest) (if f = "via" then g else gw, if f = "dev" then g else dev)
  | _, found => found

/-- The primary route that `ip route show default` shows: the first one that is
not on a WireGuard interface. -/
def primaryRoute (out : String) : String × String :=
  ((lines (trimSpace out)).findSome? fun line =>
    let fs := fields line
    if fs.length < 5 ∨ fs.head? ≠ some "default" then none
    else
      let (gw, dev) := lineRoute fs.tail ("", "")
      if "wg".toList <+: dev.toList ∨ gw = "" ∨ dev = "" then none else some (gw, dev)).getD ("", "")

def detectPrimaryRoute (h : κ) : String × String :=
  match IpHost.showDefault h with
  | some out => primaryRoute out
  | none => ("", "")

/-- The closure `apply` of `applyStaticRoutes`. -/
def applyRoute (iface pfx nh : String) (h : κ) : Bool × κ :=
  if pfx = "" ∨ nh = "" then (true, h)
  else
    let nhIP := firstPart nh
    let h := IpCmd.exec (.routeReplace (nhIP ++ "/32") { dev := iface, scopeLink := true } .main) h
    execWhile [.routeReplace pfx { via := nhIP, dev := iface } .main,
      .routeReplace pfx { via := nhIP, dev := iface } .t100] h

def applyDefault (plan : Plan) (iface : String) (h : κ) : κ :=
  if plan.defaultRoute then
    let targetPeer := if plan.defaultRouteNextHop = "" then plan.egressPeerID else plan.defaultRouteNextHop
    let nh := frrOverlayForPeer targetPeer plan.peers
    if nh = "" then h
    else
      let h := IpCmd.exec (.routeReplace "default" { via := firstPart nh, dev := iface } .t100) h
      let h := plan.bypassCIDRs.foldl (fun h c => IpCmd.exec (.ruleAdd ⟨.source c, .main, 100⟩) h) h
      IpCmd.exec (.ruleAdd ⟨.all, .t100, 200⟩) h
  else h

def PolicyRule.isLocal (r : PolicyRule) : Bool := r.viaNode = "local" || r.viaNode = "main"

def applyLocal (primary : String × String) (pfx : String) (h : κ) : κ :=
  let h := IpCmd.exec (.ruleAdd ⟨.dest pfx, .main, 150⟩) h
  if primary.1 ≠ "" ∧ primary.2 ≠ "" then
    IpCmd.exec (.routeReplace pfx { via := primary.1, dev := primary.2 } .main) h
  else h

def applyVia (iface nextHop pfx : String) (h : κ) : κ :=
  match applyRoute iface pfx nextHop h with
  | (false, h) => h
  | (true, h) => IpCmd.exec (.ruleAdd ⟨.dest pfx, .main, 140⟩) h

def applyRule (ex : Expander) (primary : String × String) (peers : List Peer) (iface : String) (pr : PolicyRule)
    (h : κ) : κ :=
  if !pr.validate then h
  else if pr.isLocal then (ex.expand pr).foldl (fun h pfx => applyLocal primary pfx h) h
  else
    let nextHop := frrOverlayForPeer pr.nextID peers
    if nextHop = "" then h else (ex.expand pr).foldl (fun h pfx => applyVia iface nextHop pfx h) h

def applyStaticRoutes (ex : Expander) (o : RouteTable → MapOrder String) (plan : Plan) (iface : String)
    (h : κ) : κ :=
  let primary := detectPrimaryRoute h
  let (_, h) := syncPeerRoutes o plan.peers iface h
  let h := applyDefault plan iface h
  let h := plan.policyRules.foldl (fun h pr => applyRule ex primary plan.peers iface pr h) h
  IpCmd.exec .flushCache h

-- ---------------------------------------------------------------------------
-- The whole rendering
-- ---------------------------------------------------------------------------

structure FileErrors where
  mkdir : Option String := none
  writeWG : Option String := none
  writeBGP : Option String := none

/-- What has been written, and what the tunnels are started with. -/
structure Rendered where
  wg : Option String := none
  bgp : Option String := none
  tunnels : Option (StrMap Int × Int) := none

def RenderCall.listening (call : RenderCall) : Node :=
  if call.node.listenPort = 0 then { call.node with listenPort := 8082 } else call.node

def RenderCall.wgPeers (ex : Expander) (call : RenderCall) : List Peer :=
  let hostToLocal := allocateLocalPorts call.peers 30000
  augmentEgressAllowedIPs ex (call.peers.map (withLocalEndpoint hostToLocal)) call.listening

theorem withLocalEndpoint_keeps (hostToLocal : StrMap Int) (p : Peer) :
    (withLocalEndpoint hostToLocal p).id = p.id ∧ (withLocalEndpoint hostToLocal p).allowedIPs = p.allowedIPs ∧
      (withLocalEndpoint hostToLocal p).publicKey = p.publicKey := by
  unfold withLocalEndpoint
  dsimp only
  split
  · split <;> exact ⟨rfl, rfl, rfl⟩
  · exact ⟨rfl, rfl, rfl⟩

/-- The configuration has the peers of the call in their order, each with what it
has and what the node wants to send through it. -/
theorem RenderCall.wgPeers_eq (ex : Expander) (call : RenderCall) : ∃ f : Peer → Peer,
    call.wgPeers ex = call.peers.map f ∧
    (∀ p, (f p).id = p.id ∧ ∀ pfx, pfx ∈ (f p).allowedIPs ↔ pfx ∈ p.allowedIPs ∨ call.node.Wants ex p.id pfx) ∧
      ∀ p, (f p).publicKey = p.publicKey := by
  refine ⟨_, List.map_map, fun p => ?_, fun p => (withLocalEndpoint_keeps _ p).2.2⟩
  obtain ⟨hid, hallowed, -⟩ := withLocalEndpoint_keeps (allocateLocalPorts call.peers 30000) p
  refine ⟨hid, fun pfx => ?_⟩
  have hlistening : call.listening.Wants ex p.id pfx ↔ call.node.Wants ex p.id pfx := by
    unfold RenderCall.listening
    split <;> exact Iff.rfl
  show pfx ∈ addAllowed _ _ ↔ _
  rw [mem_addAllowed, mem_egressTargets, hid, hallowed, hlistening]

def RenderCall.plan (call : RenderCall) : Plan where
  nodeID := call.node.id
  egressPeerID := call.node.egressPeerID
  policyRules := call.node.policyRules
  peers := call.peers
  defaultRoute := call.node.defaultRoute
  bypassCIDRs := call.node.bypassCIDRs
  defaultRouteNextHop := call.node.defaultRouteNextHop

def renderAndWrite (ex : Expander) (o : RouteTable → MapOrder String) (neighborOrder : MapOrder (String × Int))
    (errs : FileErrors) (call : RenderCall) (h : κ) : Except String Unit × Rendered × κ :=
  match errs.mkdir with
  | some err => (.error ("mkdir output: " ++ err), {}, h)
  | none =>
    let node := call.listening
    let wgConf := renderConfig node (call.wgPeers ex) call.privateKey
    match errs.writeWG with
    | some err => (.error ("write wireguard config: " ++ err), {}, h)
    | none =>
      let routerID := if node.routerID = "" then node.overlayIP else node.routerID
      let bgpConf := renderBGP ex neighborOrder call.asn routerID call.iface (neighborOverlayIPs call.peers)
        node.cidrs call.plan
      match errs.writeBGP with
      | some err => (.error ("write bgp config: " ++ err), { wg := wgConf }, h)
      | none =>
        let h := applyStaticRoutes ex o call.plan call.iface h
        (.ok (), { wg := wgConf, bgp := bgpConf,
                   tunnels := some (allocateLocalPorts call.peers 30000, node.listenPort) }, h)

end PeerWan
