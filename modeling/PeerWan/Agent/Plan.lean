import PeerWan.Controller.Handlers
import PeerWan.Lib.Runs

/-!
# Plans at the agent

How `cmd/agent` starts a session and how `mergePlanIntoNode` takes a plan into
the record the agent renders from. The fields a plan enforces form a record of
registers, each with its own rule for what it takes, so that a sequence of
plans leaves in each the last value its rule accepts.
-/

namespace PeerWan

open Lib

-- ---------------------------------------------------------------------------
-- Starting the agent
-- ---------------------------------------------------------------------------

structure Flags where
  overlayIP : String := "10.10.1.1/32"
  listenPort : Int := 8082
  privateKey : String := "stub-private-key"
  outDir : String := "./out"
  iface : String := "wg0"
  asn : Int := 65000
  routerID : String := ""
  apply : Bool := false
  controller : String := "http://127.0.0.1:8080"
  authToken : String := ""
  provisionToken : String := ""
  deriving DecidableEq, Repr

/-- `wsCtx`, set once before the WebSocket client starts. -/
structure WsCtx where
  iface : String := "wg0"
  outDir : String := "./out"
  privateKey : String := ""
  asn : Int := 0
  apply : Bool := false
  controller : String := ""
  auth : String := ""
  provision : String := ""
  nodeID : String := ""
  deriving DecidableEq, Repr

def firstNonEmpty (vals : List String) : String := (vals.find? fun v => trimSpace v ≠ "").getD ""

def chooseInt (candidates : List Int) : Int := (candidates.find? (· > 0)).getD 0

def ipFromCIDR (cidr : String) : String := (beforeSlash cidr).getD cidr

def bootNode (flags : Flags) (cfg : NodeConfigResponse) : Node :=
  let selectedOverlay := firstNonEmpty [cfg.overlayIP, flags.overlayIP]
  { id := cfg.id
    cidrs := cfg.routes
    overlayIP := selectedOverlay
    listenPort := chooseInt [cfg.listenPort, flags.listenPort]
    asn := chooseInt [cfg.asn, flags.asn]
    routerID := firstNonEmpty [cfg.routerID, flags.routerID, ipFromCIDR selectedOverlay] }

def bootCtx (flags : Flags) (cfg : NodeConfigResponse) : WsCtx where
  iface := flags.iface
  outDir := flags.outDir
  privateKey := firstNonEmpty [cfg.privateKey, flags.privateKey]
  asn := chooseInt [cfg.asn, flags.asn]
  apply := flags.apply
  controller := flags.controller
  auth := flags.authToken
  provision := flags.provisionToken
  nodeID := cfg.id

-- ---------------------------------------------------------------------------
-- Merging a plan
-- ---------------------------------------------------------------------------

/-- `mergePlanIntoNode`, without the GeoIP sources it hands to `pkg/policy`. -/
def mergePlanIntoNode (node : Node) (cfg : NodeConfigResponse) (asn : Int) : Node × Int :=
  let n : Node := { node with
    overlayIP := if cfg.overlayIP ≠ "" then cfg.overlayIP else node.overlayIP
    listenPort :=
      if cfg.listenPort > 0 then cfg.listenPort
      else if node.listenPort = 0 then 8082
      else node.listenPort
    asn := if cfg.asn > 0 then cfg.asn else node.asn
    routerID := if cfg.routerID ≠ "" then cfg.routerID else node.routerID
    cidrs := if cfg.routes ≠ [] then cfg.routes else node.cidrs
    peerEndpoints := if cfg.peerEndpoints ≠ ∅ then cfg.peerEndpoints else node.peerEndpoints
    egressPeerID := if cfg.egressPeerID ≠ "" then cfg.egressPeerID else node.egressPeerID
    policyRules := if cfg.policyRules ≠ [] then cfg.policyRules else node.policyRules
    defaultRoute := cfg.defaultRoute
    bypassCIDRs := if cfg.bypassCIDRs ≠ [] then cfg.bypassCIDRs else node.bypassCIDRs
    defaultRouteNextHop :=
      if cfg.defaultRouteNextHop ≠ "" then cfg.defaultRouteNextHop else node.defaultRouteNextHop }
  (n, if n.asn > 0 then n.asn else asn)

def absorb (asn : Int) (cfg : NodeConfigResponse) (node : Node) : Node := (mergePlanIntoNode node cfg asn).1

def parseNumericVersion (cv : String) : Int :=
  let head := "dynamic-v".toList
  if head <+: cv.toList then (parseInt (String.ofList (cv.toList.drop head.length))).getD 0 else 0

-- ---------------------------------------------------------------------------
-- What a record enforces
-- ---------------------------------------------------------------------------

@[ext]
structure Enforced where
  egressPeerID : String := ""
  policyRules : List PolicyRule := []
  bypassCIDRs : List String := []
  defaultRoute : Bool := false
  defaultRouteNextHop : String := ""
  peerEndpoints : StrMap String := ∅
  cidrs : List String := []
  deriving DecidableEq, Repr

def Node.enforced (n : Node) : Enforced where
  egressPeerID := n.egressPeerID
  policyRules := n.policyRules
  bypassCIDRs := n.bypassCIDRs
  defaultRoute := n.defaultRoute
  defaultRouteNextHop := n.defaultRouteNextHop
  peerEndpoints := n.peerEndpoints
  cidrs := n.cidrs

def NodeConfigResponse.enforced (cfg : NodeConfigResponse) : Enforced where
  egressPeerID := cfg.egressPeerID
  policyRules := cfg.policyRules
  bypassCIDRs := cfg.bypassCIDRs
  defaultRoute := cfg.defaultRoute
  defaultRouteNextHop := cfg.defaultRouteNextHop
  peerEndpoints := cfg.peerEndpoints
  cidrs := cfg.routes

/-- A plan offered to the registers: the default-route flag is taken always,
any other field when it is not empty. -/
def Enforced.offer (x old : Enforced) : Enforced where
  egressPeerID := Lib.offer (· ≠ "") x.egressPeerID old.egressPeerID
  policyRules := Lib.offer (· ≠ []) x.policyRules old.policyRules
  bypassCIDRs := Lib.offer (· ≠ []) x.bypassCIDRs old.bypassCIDRs
  defaultRoute := x.defaultRoute
  defaultRouteNextHop := Lib.offer (· ≠ "") x.defaultRouteNextHop old.defaultRouteNextHop
  peerEndpoints := Lib.offer (· ≠ ∅) x.peerEndpoints old.peerEndpoints
  cidrs := Lib.offer (· ≠ []) x.cidrs old.cidrs

def Enforced.Full (x : Enforced) : Prop :=
  x.egressPeerID ≠ "" ∧ x.policyRules ≠ [] ∧ x.bypassCIDRs ≠ [] ∧ x.defaultRouteNextHop ≠ "" ∧
    x.peerEndpoints ≠ ∅ ∧ x.cidrs ≠ []

instance (x : Enforced) : Decidable x.Full := inferInstanceAs (Decidable (_ ∧ _))

def Enforced.lastOf (d : Enforced) (xs : List Enforced) : Enforced where
  egressPeerID := ((xs.map (·.egressPeerID)).filter (· ≠ "")).getLastD d.egressPeerID
  policyRules := ((xs.map (·.policyRules)).filter (· ≠ [])).getLastD d.policyRules
  bypassCIDRs := ((xs.map (·.bypassCIDRs)).filter (· ≠ [])).getLastD d.bypassCIDRs
  defaultRoute := (xs.map (·.defaultRoute)).getLastD d.defaultRoute
  defaultRouteNextHop := ((xs.map (·.defaultRouteNextHop)).filter (· ≠ "")).getLastD d.defaultRouteNextHop
  peerEndpoints := ((xs.map (·.peerEndpoints)).filter (· ≠ ∅)).getLastD d.peerEndpoints
  cidrs := ((xs.map (·.cidrs)).filter (· ≠ [])).getLastD d.cidrs

theorem absorb_enforced (asn : Int) (cfg : NodeConfigResponse) (node : Node) :
    (absorb asn cfg node).enforced = cfg.enforced.offer node.enforced := by
  simp only [absorb, mergePlanIntoNode, Node.enforced, NodeConfigResponse.enforced, Enforced.offer, offer_decide]

theorem Enforced.offer_offer (x old : Enforced) : x.offer (x.offer old) = x.offer old := by
  simp only [Enforced.offer, Lib.offer_offer]

theorem Enforced.run_offer (d : Enforced) (xs : List Enforced) : run Enforced.offer d xs = d.lastOf xs := by
  have hview {α : Type} (f : Enforced → α) (p : α → Bool)
      (h : ∀ old x, f (x.offer old) = Lib.offer p (f x) (f old)) :
      f (run Enforced.offer d xs) = ((xs.map f).filter p).getLastD (f d) :=
    (run_view f f h d xs).trans (Lib.run_offer p _ _)
  ext1
  case defaultRoute => simpa [lastOf] using hview (·.defaultRoute) (fun _ => true) fun _ _ => rfl
  all_goals exact hview _ _ fun _ _ => rfl

/-- The record enforces, field by field, the last value that was not empty. -/
theorem run_absorb_enforced (asn : Int) (node : Node) (cfgs : List NodeConfigResponse) :
    (run (absorb asn) node cfgs).enforced = node.enforced.lastOf (cfgs.map (·.enforced)) :=
  (run_view Node.enforced (·.enforced) (fun n c => absorb_enforced asn c n) node cfgs).trans
    (Enforced.run_offer _ _)

-- ---------------------------------------------------------------------------
-- When the latest plan decides alone
-- ---------------------------------------------------------------------------

theorem Enforced.Full.offer {x : Enforced} (h : x.Full) (old : Enforced) : x.offer old = x := by
  obtain ⟨hegress, hrules, hbypass, hnext, hends, hcidrs⟩ := h
  simp [Enforced.offer, Lib.offer, hegress, hrules, hbypass, hnext, hends, hcidrs]

def apart : Bool → NodeConfigResponse
  | true => {
      egressPeerID := "a", policyRules := [{ viaNode := "a" }], bypassCIDRs := ["a"], routes := ["a"],
      defaultRouteNextHop := "a", peerEndpoints := Table.ofList [("a", "a")] }
  | false => {
      egressPeerID := "b", policyRules := [{ viaNode := "b" }], bypassCIDRs := ["b"], routes := ["b"],
      defaultRouteNextHop := "b", peerEndpoints := Table.ofList [("b", "b")] }

theorem apart_full (b : Bool) : (apart b).enforced.Full := by cases b <;> decide

theorem full_of_offer_eq {x : Enforced}
    (h : x.offer (apart true).enforced = x.offer (apart false).enforced) : x.Full := by
  obtain ⟨hegress, hrules, hbypass, -, hnext, hends, hcidrs⟩ := Enforced.ext_iff.mp h
  have hne {α : Type} [DecidableEq α] {e y u v : α} (huv : u ≠ v)
      (h : Lib.offer (fun z => decide (z ≠ e)) y u = Lib.offer (fun z => decide (z ≠ e)) y v) : y ≠ e := by
    simpa using accepted_of_offer_eq huv h
  exact ⟨hne (by decide) hegress, hne (by decide) hrules, hne (by decide) hbypass, hne (by decide) hnext,
    hne (by decide) hends, hne (by decide) hcidrs⟩

/-- A plan decides alone what the agent enforces exactly when it leaves none
of the fields empty that the merge then keeps from an older plan. -/
theorem latest_plan_decides_iff (asn : Int) (node : Node) (cfg : NodeConfigResponse) :
    (∀ earlier earlier' : List NodeConfigResponse,
      (run (absorb asn) node (earlier ++ [cfg])).enforced =
        (run (absorb asn) node (earlier' ++ [cfg])).enforced) ↔ cfg.enforced.Full := by
  simp only [run_append, run_cons, run_nil, absorb_enforced]
  refine ⟨fun h => full_of_offer_eq ?_, fun h earlier earlier' => (h.offer _).trans (h.offer _).symm⟩
  have hrun := h [apart true] [apart false]
  simpa only [run_cons, run_nil, absorb_enforced, (apart_full _).offer] using hrun

/-- The controller clears a node's egress: its next plan sends none, and the
agent keeps the one of the plan before. -/
theorem cleared_egress_kept :
    ¬ ∀ (asn : Int) (node : Node) (earlier earlier' : List NodeConfigResponse) (cfg : NodeConfigResponse),
      (run (absorb asn) node (earlier ++ [cfg])).enforced =
        (run (absorb asn) node (earlier' ++ [cfg])).enforced := by
  intro h
  have hegress := congrArg Enforced.egressPeerID
    (h 65000 { id := "edge" }
      [{ id := "edge", configVersion := "dynamic-v1", egressPeerID := "hub", defaultRoute := true }] []
      { id := "edge", configVersion := "dynamic-v2" })
  revert hegress
  decide

end PeerWan
