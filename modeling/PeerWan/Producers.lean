import PeerWan.Controller.Effects

/-!
# Who produces plans

A plan is saved and pushed by the recomputation of all plans, by a health
report and by `GET /plan`. What the three save and push for one node from one
state is compared, up to the version, the signature and the time.
-/

namespace PeerWan

open Lib

structure PlanContent where
  peers : List Peer := []
  routes : List String := []
  egressPeerID : String := ""
  policyRules : List PolicyRule := []
  peerEndpoints : StrMap String := ∅
  defaultRoute : Bool := false
  bypassCIDRs : List String := []
  defaultRouteNextHop : String := ""
  deriving DecidableEq, Repr

/-- What a push says about the node beside the plan. -/
structure PushContent where
  plan : PlanContent
  overlayIP : String := ""
  listenPort : Int := 0
  asn : Int := 0
  routerID : String := ""
  deriving DecidableEq, Repr

def Plan.content (p : Plan) : PlanContent where
  peers := p.peers
  routes := p.routes
  egressPeerID := p.egressPeerID
  policyRules := p.policyRules
  peerEndpoints := p.peerEndpoints
  defaultRoute := p.defaultRoute
  bypassCIDRs := p.bypassCIDRs
  defaultRouteNextHop := p.defaultRouteNextHop

def NodeConfigResponse.content (cfg : NodeConfigResponse) : PlanContent where
  peers := cfg.wireGuardPeers
  routes := cfg.routes
  egressPeerID := cfg.egressPeerID
  policyRules := cfg.policyRules
  peerEndpoints := cfg.peerEndpoints
  defaultRoute := cfg.defaultRoute
  bypassCIDRs := cfg.bypassCIDRs
  defaultRouteNextHop := cfg.defaultRouteNextHop

def NodeConfigResponse.pushContent (cfg : NodeConfigResponse) : PushContent where
  plan := cfg.content
  overlayIP := cfg.overlayIP
  listenPort := cfg.listenPort
  asn := cfg.asn
  routerID := cfg.routerID

def Node.planContent (n : Node) (peers : List Peer) (rules : List PolicyRule) : PlanContent where
  peers := peers
  routes := n.cidrs
  egressPeerID := n.egressPeerID
  policyRules := rules
  peerEndpoints := n.peerEndpoints
  defaultRoute := n.defaultRoute
  bypassCIDRs := n.bypassCIDRs
  defaultRouteNextHop := n.defaultRouteNextHop

def Node.pushContent (n : Node) (peers : List Peer) (rules : List PolicyRule) : PushContent where
  plan := n.planContent peers rules
  overlayIP := n.overlayIP
  listenPort := if n.listenPort = 0 then 8082 else n.listenPort
  asn := n.asn
  routerID := n.routerID

@[simp] theorem planOf_content (host : Host) (env : Env) (version : Int) (n : Node) (peers : List Peer)
    (rules : List PolicyRule) : (planOf host env version n peers rules).content = n.planContent peers rules := rfl

def WSMessage.pushed (msg : WSMessage) : Option (String × PushContent) :=
  match msg.payload with
  | .plan cfg => some (msg.nodeID, cfg.pushContent)
  | .task .. => none

theorem pushOf_pushed (host : Host) (env : Env) (settings : Settings) (version : Int) (n : Node)
    (peers : List Peer) (rules : List PolicyRule) :
    (pushOf host env settings version n peers rules).pushed = some (n.id, n.pushContent peers rules) := by
  simp only [pushOf, WSMessage.pushed, NodeConfigResponse.pushContent, NodeConfigResponse.content, configOf,
    Node.pushContent, Node.planContent, withListenPort]
  split <;> rfl

def plansAdded (c c' : Controller MemoryStore) : List (String × PlanContent) :=
  (c'.saved.drop c.saved.length).map fun p => (p.nodeID, p.content)

def pushesAdded (c c' : Controller MemoryStore) : List (String × PushContent) :=
  (c'.sent.drop c.sent.length).filterMap WSMessage.pushed

-- ---------------------------------------------------------------------------
-- What the producers add
-- ---------------------------------------------------------------------------

section

variable (host : Host) (env : Env)

theorem savePlanWithRules_adds (node : Node) (peers : List Peer) (rules : List PolicyRule)
    (c : Controller MemoryStore) :
    plansAdded c (savePlanWithRules host env node peers rules c) = [(node.id, node.planContent peers rules)] ∧
    pushesAdded c (savePlanWithRules host env node peers rules c) = [(node.id, node.pushContent peers rules)] := by
  rw [savePlanWithRules_eq]
  simp only [plansAdded, pushesAdded, List.drop_left, List.map_cons, List.map_nil, List.filterMap_cons,
    pushOf_pushed, List.filterMap_nil, planOf_content]
  constructor <;> trivial

structure Extends (c c' : Controller MemoryStore) : Prop where
  saved : ∃ plans, c'.saved = c.saved ++ plans
  sent : ∃ msgs, c'.sent = c.sent ++ msgs

theorem Extends.adds {c c' c'' : Controller MemoryStore} (h : Extends c c') (h' : Extends c' c'') :
    plansAdded c c'' = plansAdded c c' ++ plansAdded c' c'' ∧
    pushesAdded c c'' = pushesAdded c c' ++ pushesAdded c' c'' := by
  obtain ⟨⟨plans, hp⟩, msgs, hm⟩ := h
  obtain ⟨⟨plans', hp'⟩, msgs', hm'⟩ := h'
  simp [plansAdded, pushesAdded, hp, hp', hm, hm', List.append_assoc]

theorem Extends.trans {c c' c'' : Controller MemoryStore} (h : Extends c c') (h' : Extends c' c'') :
    Extends c c'' := by
  obtain ⟨⟨plans, hp⟩, msgs, hm⟩ := h
  obtain ⟨⟨plans', hp'⟩, msgs', hm'⟩ := h'
  exact ⟨⟨plans ++ plans', by rw [hp', hp, List.append_assoc]⟩, msgs ++ msgs', by rw [hm', hm, List.append_assoc]⟩

theorem savePlanWithRules_extends (node : Node) (peers : List Peer) (rules : List PolicyRule)
    (c : Controller MemoryStore) : Extends c (savePlanWithRules host env node peers rules c) := by
  rw [savePlanWithRules_eq]
  exact ⟨⟨_, rfl⟩, _, rfl⟩

theorem savePlans_adds (nodes : List Node) (health : HealthMap) (l : List Node) (c : Controller MemoryStore) :
    Extends c (savePlans host env nodes health l c) ∧
    plansAdded c (savePlans host env nodes health l c) = l.map (fun n =>
      (n.id, n.planContent (buildPeerPlan n.id nodes health) (expandPolicyRules nodes n.id))) ∧
    pushesAdded c (savePlans host env nodes health l c) = l.map (fun n =>
      (n.id, n.pushContent (buildPeerPlan n.id nodes health) (expandPolicyRules nodes n.id))) := by
  induction l generalizing c with
  | nil => exact ⟨⟨⟨[], by simp⟩, [], by simp⟩, by simp [plansAdded], by simp [pushesAdded]⟩
  | cons n l ih =>
    have hx := savePlanWithRules_extends host env n (buildPeerPlan n.id nodes health)
      (expandPolicyRules nodes n.id) c
    obtain ⟨hp, hm⟩ := savePlanWithRules_adds host env n (buildPeerPlan n.id nodes health)
      (expandPolicyRules nodes n.id) c
    obtain ⟨hx', hp', hm'⟩ := ih (savePlanWithRules host env n (buildPeerPlan n.id nodes health)
      (expandPolicyRules nodes n.id) c)
    rw [savePlans_cons, (hx.adds hx').1, (hx.adds hx').2, hp, hm, hp', hm']
    exact ⟨hx.trans hx', rfl, rfl⟩

end

-- ---------------------------------------------------------------------------
-- The same plan from every producer
-- ---------------------------------------------------------------------------

/-- The plan the stored record of `nodeID` calls for, if there is one, with the
nodes listed in the order `o`. -/
def expectedPlans (m : MemoryStore) (o : MapOrder Node) (nodeID : String) : List (String × PlanContent) :=
  (m.nodes.get? nodeID).toList.map fun n => (nodeID,
    n.planContent (buildPeerPlan nodeID (m.nodes.range o) m.health) (expandPolicyRules (m.nodes.range o) nodeID))

def expectedPushes (m : MemoryStore) (o : MapOrder Node) (nodeID : String) : List (String × PushContent) :=
  (m.nodes.get? nodeID).toList.map fun n => (nodeID,
    n.pushContent (buildPeerPlan nodeID (m.nodes.range o) m.health) (expandPolicyRules (m.nodes.range o) nodeID))

/-- Each producer saves and pushes for `nodeID` what its record calls for, and a
request for it saves and pushes nothing else. -/
structure SamePlans (host : Host) (c : Controller MemoryStore) (o : MapOrder Node) (nodeID : String) : Prop where
  recompute : ∀ env : Env, (∀ k, env.nodeOrder k = o) → let c' := (recomputeAllPlans host env 1 c).2
    (plansAdded c c').filter (fun p => p.1 = nodeID) = expectedPlans c.store o nodeID ∧
    (pushesAdded c c').filter (fun p => p.1 = nodeID) = expectedPushes c.store o nodeID
  plan : ∀ (env : Env) auth, (∀ k, env.nodeOrder k = o) → Admits c.store auth nodeID →
    let c' := (getPlan host env auth nodeID c).2
    plansAdded c c' = expectedPlans c.store o nodeID ∧ pushesAdded c c' = expectedPushes c.store o nodeID
  health : ∀ (env : Env) auth report, (∀ k, env.nodeOrder k = o) → Admits c.store auth nodeID →
    report.nodeID = nodeID → let c' := (health host env auth (some report) c).2
    plansAdded c c' = expectedPlans c.store o nodeID ∧ pushesAdded c c' = expectedPushes c.store o nodeID

/-- The record is one that a bare node stands for, and the health of the other
nodes changes nothing about the plan. -/
structure Indifferent (m : MemoryStore) (o : MapOrder Node) (n : Node) : Prop where
  cidrs : n.cidrs = []
  policy : n.egressPeerID = "" ∧ n.defaultRoute = false ∧ n.bypassCIDRs = [] ∧ n.defaultRouteNextHop = ""
  peerEndpoints : n.peerEndpoints = ∅
  overlay : n.overlayIP = "" ∧ n.asn = 0 ∧ n.routerID = ""
  listenPort : n.listenPort = 0 ∨ n.listenPort = 8082
  up : ∀ k ∈ candidates n.id (m.nodes.range o), ¬ Down m.health k.id
  scores : (candidates n.id (m.nodes.range o)).Pairwise fun a b => scoreOf m.health a.id ≤ scoreOf m.health b.id

theorem buildPeerPlan_ownReport (report : HealthReport) (nodes : List Node) :
    buildPeerPlan report.nodeID nodes (healthMap [report]) =
      (candidates report.nodeID nodes).map Node.toPeer := by
  refine buildPeerPlan_unreported fun n _ hn => ?_
  rw [healthMap, Table.ofList, List.foldl_cons, List.foldl_nil, Table.get?_put, if_neg (Ne.symm hn)]
  rfl

section

variable (host : Host) {env : Env} {c : Controller MemoryStore} {o : MapOrder Node} {nodeID : String}

theorem recomputeAllPlans_adds (ho : env.nodeOrder 1 = o) :
    (plansAdded c (recomputeAllPlans host env 1 c).2).filter (fun p => p.1 = nodeID) =
        expectedPlans c.store o nodeID ∧
      (pushesAdded c (recomputeAllPlans host env 1 c).2).filter (fun p => p.1 = nodeID) =
        expectedPushes c.store o nodeID := by
  obtain ⟨-, hp, hm⟩ := savePlans_adds host env (c.store.nodes.range o) c.store.health (c.store.nodes.range o) c
  have hrow : ∀ n ∈ (c.store.nodes.get? nodeID).toList, n.id = nodeID := fun n hn =>
    Table.key_of_get? (by simpa using hn)
  rw [recomputeAllPlans_eq, ho, hp, hm, List.filter_map, List.filter_map]
  simp only [Function.comp_def, Table.filter_range, expectedPlans, expectedPushes]
  constructor
  · exact List.map_congr_left fun n hn => by rw [hrow n hn]
  · exact List.map_congr_left fun n hn => by rw [hrow n hn]

theorem getPlan_adds {auth : Credentials} (ho : env.nodeOrder 0 = o) (hid : nodeID ≠ "")
    (ha : Admits c.store auth nodeID) :
    let n := (c.store.nodes.get? nodeID).getD {}
    let peers := buildPeerPlan nodeID (c.store.nodes.range o) c.store.health
    let rules := expandPolicyRules (c.store.nodes.range o) nodeID
    plansAdded c (getPlan host env auth nodeID c).2 = [(n.id, n.planContent peers rules)] ∧
      pushesAdded c (getPlan host env auth nodeID c).2 = [(n.id, n.pushContent peers rules)] := by
  rw [getPlan_accepted host env hid ha, ← ho]
  exact savePlanWithRules_adds host env _ _ _ c

theorem health_adds {auth : Credentials} {report : HealthReport} (ho : env.nodeOrder 0 = o)
    (hid : report.nodeID ≠ "") (ha : Admits c.store auth report.nodeID) :
    let n : Node := { id := report.nodeID }
    let peers := (candidates report.nodeID (c.store.nodes.range o)).map Node.toPeer
    let rules := expandPolicyRules (c.store.nodes.range o) report.nodeID
    plansAdded c (health host env auth (some report) c).2 = [(n.id, n.planContent peers rules)] ∧
      pushesAdded c (health host env auth (some report) c).2 = [(n.id, n.pushContent peers rules)] := by
  have hacc : HealthAccepted c.store env auth (some report) { report with timestamp := env.now } :=
    ⟨⟨report, rfl, rfl⟩, hid, ha⟩
  obtain ⟨-, entry, hs⟩ := health_accepted host env hacc
  have hpeers := buildPeerPlan_ownReport { report with timestamp := env.now } (c.store.nodes.range o)
  rw [hs, ← hpeers, ← ho]
  exact savePlanWithRules_adds host env { id := report.nodeID } _ _
    { c with store := c.store.saveHealth env.now { report with timestamp := env.now } }

end

theorem bare_pushContent_iff {m : MemoryStore} {o : MapOrder Node} {n : Node} {r : List PolicyRule} :
    ({ id := n.id } : Node).pushContent ((candidates n.id (m.nodes.range o)).map Node.toPeer) r =
      n.pushContent (buildPeerPlan n.id (m.nodes.range o) m.health) r ↔ Indifferent m o n := by
  have hport : (8082 : Int) = (if n.listenPort = 0 then 8082 else n.listenPort) ↔
      n.listenPort = 0 ∨ n.listenPort = 8082 := by
    split
    · next h => simp [h]
    · next h => simp [h, eq_comm]
  have hpeers : (candidates n.id (m.nodes.range o)).map Node.toPeer =
      buildPeerPlan n.id (m.nodes.range o) m.health ↔ _ :=
    eq_comm.trans (buildPeerPlan_eq_candidates_iff (m.nodes.nodup_range o))
  simp only [Node.pushContent, Node.planContent, PushContent.mk.injEq, PlanContent.mk.injEq, hpeers, true_and,
    if_true, hport]
  constructor
  · rintro ⟨⟨⟨hup, hscores⟩, hc, he, hpe, hd, hb, hnh⟩, hov, hlp, hasn, hr⟩
    exact ⟨hc.symm, ⟨he.symm, hd.symm, hb.symm, hnh.symm⟩, hpe.symm, ⟨hov.symm, hasn.symm, hr.symm⟩, hlp, hup, hscores⟩
  · rintro ⟨hc, ⟨he, hd, hb, hnh⟩, hpe, ⟨hov, hasn, hr⟩, hlp, hup, hscores⟩
    exact ⟨⟨⟨hup, hscores⟩, hc.symm, he.symm, hpe.symm, hd.symm, hb.symm, hnh.symm⟩, hov.symm, hlp, hasn.symm, hr.symm⟩

/-- The producers agree on a node exactly when it is registered with a record
that the health handler's bare node stands for, and its peers are the node list
whatever the others report. -/
theorem samePlans_iff (host : Host) (c : Controller MemoryStore) (o : MapOrder Node) (nodeID : String)
    (hid : nodeID ≠ "") :
    SamePlans host c o nodeID ↔ ∃ n, c.store.nodes.get? nodeID = some n ∧ Indifferent c.store o n := by
  have hjwt : Admits c.store { jwt := true } nodeID := .inl rfl
  constructor
  · intro h
    cases hn : c.store.nodes.get? nodeID with
    | none =>
      have hp := (h.plan { nodeOrder := fun _ => o } _ (fun _ => rfl) hjwt).1
      rw [(getPlan_adds host rfl hid hjwt).1, expectedPlans, hn] at hp
      exact absurd hp (List.cons_ne_nil _ _)
    | some n =>
      obtain rfl := Table.key_of_get? hn
      have hp := (h.health { nodeOrder := fun _ => o } _ { nodeID := n.id } (fun _ => rfl) hjwt rfl).2
      rw [(health_adds host rfl hid hjwt).2, expectedPushes, hn] at hp
      have hc := congrArg Prod.snd (List.head_eq_of_cons_eq hp)
      exact ⟨n, rfl, bare_pushContent_iff.mp hc⟩
  · rintro ⟨n, hn, hi⟩
    obtain rfl := Table.key_of_get? hn
    refine ⟨fun env ho => recomputeAllPlans_adds host (ho 1), fun env auth ho ha => ?_, fun env auth report ho ha hr => ?_⟩
    · have hp := getPlan_adds host (ho 0) hid ha
      simp only [hn] at hp
      simp only [expectedPlans, expectedPushes, hn]
      exact hp
    · have ha' : Admits c.store auth report.nodeID := hr ▸ ha
      have hp := health_adds host (ho 0) (hr ▸ hid) ha'
      have hpush := (bare_pushContent_iff (r := expandPolicyRules (c.store.nodes.range o) n.id)).mpr hi
      rw [hr] at hp
      refine ⟨hp.1.trans ?_, hp.2.trans ?_⟩
      · simp only [expectedPlans, hn]
        exact congrArg (fun pc : PushContent => [(n.id, pc.plan)]) hpush
      · simp only [expectedPushes, hn]
        exact congrArg (fun pc => [(n.id, pc)]) hpush

def sampleRegistered (req : NodeRegistrationRequest) : Controller MemoryStore :=
  Request.step Host.sample ({}, .register { jwt := true } (some req)) (start MemoryStore.new)

/-- A node that announced nothing gets the same plan from everybody. -/
theorem samePlans_of_bare_register : SamePlans Host.sample (sampleRegistered { id := "a" }) default "a" := by
  refine (samePlans_iff Host.sample _ default "a" (by decide)).mpr ⟨_, rfl, ?_⟩
  exact ⟨rfl, ⟨rfl, rfl, rfl, rfl⟩, rfl, ⟨rfl, rfl, rfl⟩, .inl rfl, nofun, .nil⟩

/-- The plan of a health report announces no routes for a node that has them. -/
theorem health_plan_drops_routes :
    ¬ SamePlans Host.sample
      (sampleRegistered { id := "a", publicKey := "ka", cidrs := ["10.1.0.0/24"], overlayIP := "10.10.2.1/32" })
      default "a" := by
  intro h
  have hp := (h.health { nodeOrder := fun _ => default } { jwt := true } { nodeID := "a", status := "up" }
    (fun _ => rfl) (.inl rfl) rfl).1
  exact absurd hp (by decide)

end PeerWan
