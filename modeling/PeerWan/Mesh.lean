import PeerWan.PeerPlans
import PeerWan.Producers
import PeerWan.TelemetryKeys

/-!
# The mesh of a run

A plan leaves a node out whose latest report says `down`
(`pkg/topology/plan.go`), and no report of an agent does
(`pkg/agent/health.go`). So while all reports come from agents, every plan that
is saved, pushed or answered has every complete node: nothing that an agent
measures, and no silence of an agent either, takes a node out of the mesh. A
rollback goes back to a plan of an earlier time, with the nodes of that time.
-/

namespace PeerWan

open Lib

/-- One peer for each complete node but the target's own. -/
def IsMesh (m : MemoryStore) (id : String) (peers : List Peer) : Prop :=
  (∀ p, p ∈ peers ↔ ∃ n ∈ m.nodes.rows, n.id ≠ id ∧ n.Complete ∧ p = n.toPeer) ∧ (peers.map Peer.id).Nodup

/-- The report is one that an agent makes, whatever it probes and finds. -/
def FromAgent (report : HealthReport) : Prop :=
  ∃ ping nodeID peers frrState now, report = reportOnce ping nodeID peers frrState now

def ReportsFromAgents (e : Env × Event) : Prop :=
  ∀ auth report, e.2 = .request (.health auth (some report)) → FromAgent report

/-- Every plan that a step saves or pushes, and every one that a register or `GET /plan`
answers with, is the mesh of the records it leaves. -/
structure SendsMesh (host : Host) (c : Controller MemoryStore) (e : Env × Event) : Prop where
  saved : ∀ p ∈ plansAdded c (Event.step host e c), IsMesh (Event.step host e c).store p.1 p.2.peers
  pushed : ∀ p ∈ pushesAdded c (Event.step host e c), IsMesh (Event.step host e c).store p.1 p.2.plan.peers
  registered : ∀ auth body cfg, e.2 = .request (.register auth body) →
    (serve host e.1 (.register auth body) c).1.body = .config cfg →
      IsMesh (Event.step host e c).store cfg.id cfg.wireGuardPeers
  answered : ∀ auth nodeID cfg, e.2 = .request (.plan auth nodeID) →
    (serve host e.1 (.plan auth nodeID) c).1.body = .config cfg →
      IsMesh (Event.step host e c).store cfg.id cfg.wireGuardPeers

/-- Nobody is down, and no record is without an ID. -/
structure AllUp (m : MemoryStore) : Prop where
  up : ∀ r ∈ m.health.rows, r.status = "up"
  named : ∀ n ∈ m.nodes.rows, n.id ≠ ""

-- ---------------------------------------------------------------------------
-- Plans where nobody is down
-- ---------------------------------------------------------------------------

section

variable {m m' : MemoryStore} {id : String} {peers : List Peer}

theorem IsMesh.congr (hnodes : m'.nodes = m.nodes) (h : IsMesh m id peers) : IsMesh m' id peers := by
  rw [IsMesh, hnodes]
  exact h

theorem AllUp.not_down (h : AllUp m) (id : String) : ¬ Down m.health id := by
  rintro ⟨r, hr, hdown⟩
  have hup := h.up r (Table.get?_eq_some.mp hr).1
  rw [hup] at hdown
  exact absurd hdown (by decide)

theorem AllUp.congr (hnodes : m'.nodes = m.nodes) (hhealth : m'.health = m.health) (h : AllUp m) : AllUp m' :=
  ⟨hhealth ▸ h.up, hnodes ▸ h.named⟩

theorem isMesh_buildPeerPlan {health : HealthMap} (o : MapOrder Node) (id : String)
    (hup : ∀ n ∈ m.nodes.rows, n.id ≠ id → ¬ Down health n.id) :
    IsMesh m id (buildPeerPlan id (m.nodes.range o) health) := by
  refine ⟨fun p => ?_, ?once⟩
  case once =>
    rw [buildPeerPlan_eq, List.map_map]
    exact nodup_peerOrder (m.nodes.nodup_range o) id health
  rw [mem_buildPeerPlan]
  constructor
  · rintro ⟨n, hn, hid, hc, -, rfl⟩
    exact ⟨n, Table.mem_range.mp hn, hid, hc, rfl⟩
  · rintro ⟨n, hn, hid, hc, rfl⟩
    exact ⟨n, Table.mem_range.mpr hn, hid, hc, hup n hn hid, rfl⟩

theorem AllUp.isMesh (h : AllUp m) (o : MapOrder Node) (id : String) :
    IsMesh m id (buildPeerPlan id (m.nodes.range o) m.health) :=
  isMesh_buildPeerPlan o id fun n _ _ => h.not_down n.id

theorem isMesh_ownReport (o : MapOrder Node) (report : HealthReport) :
    IsMesh m report.nodeID (buildPeerPlan report.nodeID (m.nodes.range o) (healthMap [report])) := by
  refine isMesh_buildPeerPlan o report.nodeID fun n _ hid => ?_
  rintro ⟨r, hr, -⟩
  rw [healthMap, Table.ofList, List.foldl_cons, List.foldl_nil, Table.get?_put, if_neg (Ne.symm hid)] at hr
  cases hr

end

-- ---------------------------------------------------------------------------
-- What a step adds
-- ---------------------------------------------------------------------------

section

variable {host : Host} {env : Env} {c c' c'' : Controller MemoryStore}

/-- Every plan added between two states is the mesh of the second. -/
structure AddsMesh (c c' : Controller MemoryStore) : Prop where
  saved : ∀ p ∈ plansAdded c c', IsMesh c'.store p.1 p.2.peers
  pushed : ∀ p ∈ pushesAdded c c', IsMesh c'.store p.1 p.2.plan.peers

theorem AddsMesh.of_nothing (hsaved : c'.saved = c.saved) (hsent : c'.sent = c.sent) : AddsMesh c c' := by
  refine ⟨fun p hp => ?_, fun p hp => ?_⟩
  · rw [plansAdded, hsaved, List.drop_length] at hp
    cases hp
  · rw [pushesAdded, hsent, List.drop_length] at hp
    cases hp

theorem addsMesh_savePlanWithRules {node : Node} {peers : List Peer} (rules : List PolicyRule)
    (h : IsMesh c.store node.id peers) : AddsMesh c (savePlanWithRules host env node peers rules c) := by
  obtain ⟨hsaved, hpushed⟩ := savePlanWithRules_adds host env node peers rules c
  have hnodes := (savePlanWithRules_aside host env node peers rules c).nodes
  refine ⟨fun p hp => ?_, fun p hp => ?_⟩
  · rw [hsaved, List.mem_singleton] at hp
    subst hp
    exact h.congr hnodes
  · rw [hpushed, List.mem_singleton] at hp
    subst hp
    exact h.congr hnodes

theorem addsMesh_recomputed (k : Nat) (h : AllUp c.store) : AddsMesh c (recomputeAllPlans host env k c).2 := by
  rw [recomputeAllPlans_eq]
  dsimp only
  obtain ⟨-, hsaved, hpushed⟩ := savePlans_adds host env (c.store.nodes.range (env.nodeOrder k)) c.store.health
    (c.store.nodes.range (env.nodeOrder k)) c
  have hnodes := (savePlans_aside host env (c.store.nodes.range (env.nodeOrder k)) c.store.health
    (c.store.nodes.range (env.nodeOrder k)) c).nodes
  refine ⟨fun p hp => ?_, fun p hp => ?_⟩
  · rw [hsaved] at hp
    obtain ⟨n, -, rfl⟩ := List.mem_map.mp hp
    exact (h.isMesh (env.nodeOrder k) n.id).congr hnodes
  · rw [hpushed] at hp
    obtain ⟨n, -, rfl⟩ := List.mem_map.mp hp
    exact (h.isMesh (env.nodeOrder k) n.id).congr hnodes

theorem registered_answer (saved : Node) {cfg : NodeConfigResponse}
    (h : (registered host env saved c).1.body = .config cfg) : cfg.id = saved.id ∧
      cfg.wireGuardPeers = buildPeerPlan saved.id (c.store.nodes.range (env.nodeOrder 0)) c.store.health := by
  obtain rfl := Body.config.inj h
  refine ⟨rfl, ?_⟩
  exact buildPeerPlan_healthMap saved.id _ _ _

end

-- ---------------------------------------------------------------------------
-- Requests
-- ---------------------------------------------------------------------------

section

variable {host : Host} {env : Env} {c : Controller MemoryStore}

theorem AllUp.register {auth : Credentials} {body : Option NodeRegistrationRequest} {req : NodeRegistrationRequest}
    (h : AllUp c.store) (hacc : RegisterAccepted c.store auth body req) : AllUp (registerSave c.store req).2 := by
  unfold registerSave
  dsimp only
  split
  · refine ⟨h.up, fun n hn => ?_⟩
    rcases Table.mem_put.mp hn with ⟨hn, -⟩ | rfl
    · exact h.named n hn
    · exact (registeredNode_id _ req).symm ▸ hacc.named
  · exact h

theorem AllUp.health {auth : Credentials} {body : Option HealthReport} {report : HealthReport} (h : AllUp c.store)
    (hacc : HealthAccepted c.store env auth body report) (hagent : ∀ sent, body = some sent → FromAgent sent) :
    AllUp (c.store.saveHealth env.now report) := by
  obtain ⟨sent, hsent, rfl⟩ := hacc.body
  obtain ⟨ping, nodeID, peers, frrState, now, rfl⟩ := hagent sent hsent
  refine ⟨fun r hr => ?_, h.named⟩
  rcases Table.mem_put.mp hr with ⟨hr, -⟩ | rfl
  · exact h.up r hr
  · rfl

theorem AllUp.served (h : AllUp c.store) (r : Request)
    (hagent : ∀ auth report, r = .health auth (some report) → FromAgent report) :
    AllUp (serve host env r c).2.store ∧ AddsMesh c (serve host env r c).2 := by
  have hserved := PeerWan.served host env r c
  generalize serve host env r c = out at hserved
  cases hserved with
  | refused hr =>
    rw [hr.state]
    exact ⟨h, .of_nothing rfl rfl⟩
  | @register auth body req resp entry out hacc hcode hout =>
    subst hout
    have hregister := h.register hacc
    have hup : AllUp (Controller.audited { c with store := (registerSave c.store req).2 } entry).store :=
      ⟨hregister.up, hregister.named⟩
    have haside := recomputeAllPlans_aside host env 1
      (Controller.audited { c with store := (registerSave c.store req).2 } entry)
    obtain ⟨hsaved, hpushed⟩ := @addsMesh_recomputed host env
      (Controller.audited { c with store := (registerSave c.store req).2 } entry) 1 hup
    exact ⟨hup.congr haside.nodes haside.health, hsaved, hpushed⟩
  | prepareKeeps => exact ⟨h, .of_nothing rfl rfl⟩
  | prepareWrites hacc hcode =>
    refine ⟨⟨h.up, fun n hn => ?_⟩, .of_nothing rfl rfl⟩
    rcases Table.mem_put.mp hn with ⟨hn, -⟩ | rfl
    · exact h.named n hn
    · exact hacc.named
  | @policy auth body req n resp out hacc hcode hout =>
    subst hout
    refine ⟨⟨h.up, fun k hk => ?_⟩, fun p hp => ?_, fun p hp => ?_⟩
    · rcases Table.mem_put.mp hk with ⟨hk, -⟩ | rfl
      · exact h.named k hk
      · exact h.named n (Table.get?_eq_some.mp hacc.node).1
    · rw [plansAdded, List.drop_length] at hp
      cases hp
    · -- what a policy sends is a task
      rw [pushesAdded, List.drop_left] at hp
      cases hp
  | @health auth body report resp entry hacc hcode =>
    have hup : AllUp (c.store.saveHealth env.now report) := by
      refine h.health hacc ?_
      rintro sent rfl
      exact hagent auth sent rfl
    have haside := healthSave_aside host env report c
    have hkept := hup.congr haside.nodes haside.health
    obtain ⟨hsaved, hpushed⟩ : AddsMesh { c with store := c.store.saveHealth env.now report }
        (healthSave host env report c) := addsMesh_savePlanWithRules _ (isMesh_ownReport (env.nodeOrder 0) report)
    exact ⟨⟨hkept.up, hkept.named⟩, hsaved, hpushed⟩
  | @plan nodeID auth hid hauth =>
    have haside := @getPlanSave_aside host env nodeID c
    refine ⟨h.congr haside.nodes haside.health, addsMesh_savePlanWithRules _ ?_⟩
    have hmesh := h.isMesh (env.nodeOrder 0) nodeID
    cases hn : c.store.nodes.get? nodeID with
    | some n => exact (Table.key_of_get? hn : n.id = nodeID) ▸ hmesh
    | none =>
      -- without a record the plan is saved for the zero node, and neither ID is one of the mesh
      refine ⟨fun p => (hmesh.1 p).trans (exists_congr fun k => and_congr_right fun hk => ?_), hmesh.2⟩
      have hother : k.id ≠ nodeID := by
        rintro rfl
        exact Table.get?_eq_none.mp hn k hk rfl
      simp [hother, h.named k hk]
  | rollback | mismatch => exact ⟨⟨h.up, h.named⟩, .of_nothing rfl rfl⟩

theorem AllUp.registered (h : AllUp c.store) {auth : Credentials} {body : Option NodeRegistrationRequest}
    {cfg : NodeConfigResponse} (hcfg : (serve host env (.register auth body) c).1.body = .config cfg) :
    IsMesh (serve host env (.register auth body) c).2.store cfg.id cfg.wireGuardPeers := by
  by_cases hacc : ∃ req, RegisterAccepted c.store auth body req
  · obtain ⟨req, hacc⟩ := hacc
    rw [serve, register_accepted host env hacc] at hcfg ⊢
    obtain ⟨hid, hpeers⟩ := registered_answer _ hcfg
    rw [hid, hpeers]
    exact ((h.register hacc).isMesh (env.nodeOrder 0) _).congr (registered_nodes host env _ _)
  · obtain ⟨code, text, -, hout⟩ := register_refused host env fun req hr => hacc ⟨req, hr⟩
    rw [serve, hout] at hcfg
    cases hcfg

theorem AllUp.answered (h : AllUp c.store) {auth : Credentials} {nodeID : String} {cfg : NodeConfigResponse}
    (hcfg : (serve host env (.plan auth nodeID) c).1.body = .config cfg) :
    IsMesh (serve host env (.plan auth nodeID) c).2.store cfg.id cfg.wireGuardPeers := by
  by_cases hacc : nodeID ≠ "" ∧ Admits c.store auth nodeID
  · rw [serve, getPlan_accepted host env hacc.1 hacc.2] at hcfg ⊢
    obtain rfl := Body.config.inj hcfg
    exact (h.isMesh (env.nodeOrder 0) nodeID).congr (getPlanSave_aside host env c).nodes
  · obtain ⟨code, text, -, hout⟩ := getPlan_refused host env hacc
    rw [serve, hout] at hcfg
    cases hcfg

end

-- ---------------------------------------------------------------------------
-- Runs
-- ---------------------------------------------------------------------------

theorem AllUp.step {host : Host} {c : Controller MemoryStore} {e : Env × Event} (h : AllUp c.store)
    (hagents : ReportsFromAgents e) : AllUp (Event.step host e c).store ∧ SendsMesh host c e := by
  obtain ⟨env, e⟩ := e
  have hrecomputed : AllUp (recomputeAllPlans host env 1 c).2.store :=
    h.congr (recomputeAllPlans_aside host env 1 c).nodes (recomputeAllPlans_aside host env 1 c).health
  have hmesh : AddsMesh c (recomputeAllPlans host env 1 c).2 := addsMesh_recomputed 1 h
  cases e with
  | request r =>
    obtain ⟨hup, hadds⟩ := @AllUp.served host env c h r fun auth report hr => hagents auth report (hr ▸ rfl)
    refine ⟨hup, hadds.saved, hadds.pushed, ?_, ?_⟩
    · rintro auth body cfg ⟨⟩ hcfg
      exact h.registered hcfg
    · rintro auth nodeID cfg ⟨⟩ hcfg
      exact h.answered hcfg
  | tick => exact ⟨hrecomputed, hmesh.saved, hmesh.pushed, by rintro _ _ _ ⟨⟩, by rintro _ _ _ ⟨⟩⟩
  | watch =>
    exact ⟨⟨hrecomputed.up, hrecomputed.named⟩, hmesh.saved, hmesh.pushed, by rintro _ _ _ ⟨⟩, by rintro _ _ _ ⟨⟩⟩
  | restart =>
    have hnothing : AddsMesh c (restart c) := .of_nothing rfl rfl
    exact ⟨⟨by rintro _ ⟨⟩, by rintro _ ⟨⟩⟩, hnothing.saved, hnothing.pushed, by rintro _ _ _ ⟨⟩, by rintro _ _ _ ⟨⟩⟩

/-- While every health report is one that an agent makes, whatever the agents
measure and whichever of them fall silent, each plan of the run that is saved or
pushed, or answered to a register or `GET /plan`, has exactly one peer for each
complete node but its own. -/
theorem mesh_along (host : Host) (es : List (Env × Event)) (hagents : ∀ e ∈ es, ReportsFromAgents e) :
    Along (Event.step host) (SendsMesh host) (start MemoryStore.new) es := by
  have hstep : ∀ (c : Controller MemoryStore) (e : Env × Event), AllUp c.store → ReportsFromAgents e →
      AllUp (Event.step host e c).store ∧ SendsMesh host c e := fun c e hc he => AllUp.step hc he
  have hnew : AllUp (start MemoryStore.new).store := ⟨by rintro _ ⟨⟩, by rintro _ ⟨⟩⟩
  exact along_of_permitted (I := fun c : Controller MemoryStore => AllUp c.store)
    (fun c e hc he => (hstep c e hc he).1) (fun c e hc he => (hstep c e hc he).2) hnew hagents

def silentRun : List (Env × Event) := [
  ({}, .request (.register { jwt := true } (some { id := "a", publicKey := "key-a", cidrs := ["10.1.0.0/16"] }))),
  ({}, .request (.health { jwt := true } (some (reportOnce (fun _ => none) "a" [] ∅ 0)))),
  ({}, .request (.register { jwt := true } (some { id := "b", publicKey := "key-b", cidrs := ["10.2.0.0/16"] })))]

theorem mesh_along_silent :
    Along (Event.step Host.sample) (SendsMesh Host.sample) (start MemoryStore.new) silentRun := by
  refine mesh_along Host.sample silentRun fun e he auth report hr => ?_
  simp only [silentRun, List.mem_cons, List.not_mem_nil, or_false] at he
  rcases he with rfl | rfl | rfl
  · cases hr
  · cases hr
    exact ⟨_, _, _, _, _, rfl⟩
  · cases hr

end PeerWan
