import PeerWan.Agent.BgpAddresses
import PeerWan.Agent.Multihop
import PeerWan.Fleet

/-!
# Where the fleet sends a prefix

A path is configured at one node and walked by the kernels of many: the
controller hands each node on it a rule, the agents merge what they are sent
into what they have, and `applyStaticRoutes` turns the rules of a record into
routes. When the messages of a recomputation are through, the kernels send a
prefix from node to node as the rules of all records say, and so along the
paths wherever these do not get into each other's way.
-/

namespace PeerWan

open Lib

-- ---------------------------------------------------------------------------
-- Hosts and what they are to do
-- ---------------------------------------------------------------------------

def Node.address (n : Node) : String := firstPart n.overlayIP

/-- A host of the fleet: what `Expand` gives there, the orders of its loops over
prefixes, and its kernel. -/
structure Router where
  ex : Expander
  order : RouteTable → MapOrder String
  kernel : Kernel

def Router.heal (ctx : WsCtx) (r : Runtime) (m : Router) : Kernel :=
  match (exec (Act.step ctx) r [.healRead, .healWrite true]).bind (·.written) with
  | some w => applyStaticRoutes m.ex m.order w.call.plan w.call.iface m.kernel
  | none => m.kernel

/-- The node that a table sends a prefix to: the one whose address is the gateway. -/
def sendsTo (nodes : List Node) (t : RouteTable) (p : String) (k : Kernel) : Option String :=
  ((k.get? t p).bind (·.via)).bind fun gateway => (nodes.find? fun n => n.address = gateway).map (·.id)

/-- The prefix goes through nodes of the fleet, each with a public key, networks and an
address of its own, and is itself neither the default route nor one of the addresses. -/
structure Routable (nodes : List Node) (ids : Set String) (p : String) : Prop where
  hops : ∀ m v, next nodes p m = some v → m ∈ ids ∧ v ∈ ids ∧ v ≠ m ∧ v ≠ "local" ∧ v ≠ "main"
  complete : ∀ id ∈ ids, ∃ n ∈ nodes, n.id = id ∧ n.Complete
  overlay : ∀ n ∈ nodes, n.overlayIP ≠ ""
  distinct : (nodes.map Node.address).Nodup
  apart : p ≠ zeroPrefix ∧ ∀ n ∈ nodes, p ≠ n.address ++ "/32"

/-- The rules that expand to the prefix on this host are those written with it.
Where no rule sends it, neither do the host's tables, and if the agent is sent no
rules then those that it has already do not either. -/
structure Router.Fit (nodes : List Node) (p id : String) (old : Node) (m : Router) : Prop where
  reads : ∀ r ∈ expandPolicyRules nodes id, p ∈ m.ex.expand r ↔ r.pfx = p
  bare : next nodes p id = none → (∀ t, sendsTo nodes t p m.kernel = none) ∧
    (expandPolicyRules nodes id = [] → ∀ r ∈ old.policyRules, p ∉ m.ex.expand r)

/-- Every path of the prefix is walked to its end, and nobody's traffic to it runs in circles. -/
structure FollowsPaths (nodes : List Node) (ids : Set String) (p : String) (hop : String → Option String) : Prop where
  paths : ∀ n ∈ nodes, ∀ pr ∈ n.policyRules, pr.pfx = p → pr.path ≠ [] →
    ∀ i, follow hop i n.id = (n.id :: pr.path)[i]?
  once : ∀ id ∈ ids, ∀ i j x, follow hop i id = some x → follow hop j id = some x → i = j

-- ---------------------------------------------------------------------------
-- The routes of a record
-- ---------------------------------------------------------------------------

section

variable {ex : Expander} {primary : String × String} {peers : List Peer} {iface p : String} {t : RouteTable}
  {w : String × RouteHop}

theorem masked_slash32 (ip : String) : '/' ∈ (ip ++ "/32").toList := by
  rw [String.toList_append]
  exact List.mem_append_right _ (by decide)

theorem assigns_routeReplace {pfx : String} {hop : RouteHop} {t' : RouteTable}
    (h : (IpCmd.routeReplace pfx hop t').assigns t = some w) : w = (routeKey pfx, hop) := by
  rw [IpCmd.assigns] at h
  split at h
  · exact (Option.some.inj h).symm
  · cases h

theorem ruleCmds_assigns {r : PolicyRule}
    (hw : w ∈ (ruleCmds ex primary peers iface r).filterMap (IpCmd.assigns t)) :
    (w.1 ∈ ex.expand r ∧
      (r.isLocal = false → w.2 = { via := firstPart (overlayForPeer r.nextID peers), dev := iface })) ∨
    (overlayForPeer r.nextID peers ≠ "" ∧ w.1 = firstPart (overlayForPeer r.nextID peers) ++ "/32") := by
  obtain ⟨c, hc, hassigns⟩ := List.mem_filterMap.mp hw
  unfold ruleCmds at hc
  cases hlocal : r.isLocal with
  | true =>
    rw [hlocal] at hc
    obtain ⟨pfx, hpfx, hc⟩ := List.mem_flatMap.mp hc
    have hkey := routeKey_of_masked (ex.masked r pfx hpfx)
    refine .inl ⟨?_, by rintro ⟨⟩⟩
    unfold localCmds at hc
    rcases List.mem_cons.mp hc with rfl | hc
    · cases hassigns
    · split at hc
      · obtain rfl := List.mem_singleton.mp hc
        rw [assigns_routeReplace hassigns, hkey]
        exact hpfx
      · cases hc
  | false =>
    rw [hlocal] at hc
    dsimp only [frrOverlayForPeer] at hc
    rw [if_neg Bool.false_ne_true] at hc
    split at hc
    · cases hc
    next hnh =>
      obtain ⟨pfx, hpfx, hc⟩ := List.mem_flatMap.mp hc
      have hkey := routeKey_of_masked (ex.masked r pfx hpfx)
      have hlink := routeKey_of_masked (masked_slash32 (firstPart (overlayForPeer r.nextID peers)))
      simp only [viaCmds, List.mem_cons, List.not_mem_nil, or_false] at hc
      rcases hc with rfl | rfl | rfl | rfl
      · rw [assigns_routeReplace hassigns]
        exact .inr ⟨hnh, hlink⟩
      · rw [assigns_routeReplace hassigns, hkey]
        exact .inl ⟨hpfx, fun _ => rfl⟩
      · rw [assigns_routeReplace hassigns, hkey]
        exact .inl ⟨hpfx, fun _ => rfl⟩
      · cases hassigns

theorem defaultCmds_assigns {plan : Plan} (hw : w ∈ (defaultCmds plan iface).filterMap (IpCmd.assigns t)) :
    w.1 = zeroPrefix := by
  obtain ⟨c, hc, hassigns⟩ := List.mem_filterMap.mp hw
  unfold defaultCmds at hc
  dsimp only at hc
  generalize frrOverlayForPeer _ plan.peers = nh at hc
  split at hc
  · simp only [List.cons_append, List.mem_cons, List.mem_append, List.mem_map, List.not_mem_nil, or_false] at hc
    rcases hc with rfl | ⟨_, _, rfl⟩ | rfl
    · rw [assigns_routeReplace hassigns]
      rfl
    · cases hassigns
    · cases hassigns
  · cases hc

variable {plan : Plan} (hzero : p ≠ zeroPrefix)
  (hlinks : ∀ id, overlayForPeer id plan.peers ≠ "" → p ≠ firstPart (overlayForPeer id plan.peers) ++ "/32")

include hlinks

theorem lastAt_rules_none {rules : List PolicyRule} (h : ∀ r ∈ rules, p ∉ ex.expand r) :
    lastAt p ((rules.flatMap (ruleCmds ex primary plan.peers iface)).filterMap (IpCmd.assigns t)) = none := by
  rw [lastAt_eq_none]
  rintro w hw rfl
  rw [List.filterMap_flatMap] at hw
  obtain ⟨r, hr, hw⟩ := List.mem_flatMap.mp hw
  rcases ruleCmds_assigns hw with ⟨hpfx, -⟩ | ⟨hnh, hlink⟩
  · exact h r hr hpfx
  · exact hlinks r.nextID hnh hlink

include hzero

theorem planRoutes_none (h : ∀ r ∈ plan.policyRules, p ∉ ex.expand r) :
    lastAt p (planRoutes ex primary plan iface t) = none := by
  have hdefault : lastAt p ((defaultCmds plan iface).filterMap (IpCmd.assigns t)) = none := by
    rw [lastAt_eq_none]
    rintro w hw rfl
    exact hzero (defaultCmds_assigns hw)
  rw [planRoutes, policyCmds, List.filterMap_append, lastAt_append, lastAt_rules_none hlinks h, hdefault]
  rfl

theorem planRoutes_last (ht : t ≠ .t52) {before after : List PolicyRule} {r : PolicyRule}
    (hrules : plan.policyRules = before ++ r :: after) (hr : p ∈ ex.expand r) (hafter : ∀ r' ∈ after, p ∉ ex.expand r')
    (hlocal : r.isLocal = false) (hnh : overlayForPeer r.nextID plan.peers ≠ "") :
    lastAt p (planRoutes ex primary plan iface t) =
      some { via := firstPart (overlayForPeer r.nextID plan.peers), dev := iface } := by
  have hcmd : IpCmd.routeReplace p { via := firstPart (overlayForPeer r.nextID plan.peers), dev := iface } t ∈
      ruleCmds ex primary plan.peers iface r := by
    unfold ruleCmds
    dsimp only [frrOverlayForPeer]
    rw [hlocal, if_neg Bool.false_ne_true, if_neg hnh]
    refine List.mem_flatMap.mpr ⟨p, hr, ?_⟩
    cases t with
    | main => simp [viaCmds]
    | t52 => exact absurd rfl ht
    | t100 => simp [viaCmds]
  have hown : lastAt p ((ruleCmds ex primary plan.peers iface r).filterMap (IpCmd.assigns t)) =
      some { via := firstPart (overlayForPeer r.nextID plan.peers), dev := iface } := by
    refine lastAt_of_forall ⟨_, List.mem_filterMap.mpr ⟨_, hcmd, if_pos rfl⟩, ?_⟩ ?_
    · exact routeKey_of_masked (ex.masked r p hr)
    · rintro w hw rfl
      rcases ruleCmds_assigns hw with ⟨-, hhop⟩ | ⟨-, hlink⟩
      · exact hhop hlocal
      · exact absurd hlink (hlinks r.nextID hnh)
  rw [planRoutes, policyCmds, hrules, List.flatMap_append, List.flatMap_cons, List.filterMap_append,
    List.filterMap_append, List.filterMap_append, lastAt_append, lastAt_append, lastAt_append,
    lastAt_rules_none hlinks hafter, hown]
  rfl

end

-- ---------------------------------------------------------------------------
-- The overlay of a peer
-- ---------------------------------------------------------------------------

section

variable {m : MemoryStore} {id v : String} {peers : List Peer} {n : Node}

theorem IsMesh.overlay_eq (h : IsMesh m id peers) (hoverlay : ∀ n ∈ m.nodes.rows, n.overlayIP ≠ "")
    (hv : overlayForPeer v peers ≠ "") : ∃ n ∈ m.nodes.rows, overlayForPeer v peers = n.overlayIP := by
  obtain ⟨p, hp, heq⟩ := overlayForPeer_mem hv
  obtain ⟨n, hn, -, -, rfl⟩ := (h.1 p).mp hp
  refine ⟨n, hn, ?_⟩
  rw [← heq, Peer.overlay, List.headD_eq_head?_getD, Node.overlay_toPeer (hoverlay n hn)]
  rfl

theorem IsMesh.overlay (h : IsMesh m id peers) (hoverlay : ∀ n ∈ m.nodes.rows, n.overlayIP ≠ "")
    (hn : n ∈ m.nodes.rows) (hne : n.id ≠ id) (hc : n.Complete) : overlayForPeer n.id peers = n.overlayIP := by
  have hhead : n.toPeer.allowedIPs.head? = some n.overlayIP := Node.overlay_toPeer (hoverlay n hn)
  have hpeer : n.toPeer ∈ peers := (h.1 _).mpr ⟨n, hn, hne, hc, rfl⟩
  unfold overlayForPeer
  cases hfound : peers.findSome? fun p => if p.id = n.id then p.allowedIPs.head? else none with
  | none =>
    have habsent := List.findSome?_eq_none_iff.mp hfound n.toPeer hpeer
    rw [if_pos (show n.toPeer.id = n.id from rfl), hhead] at habsent
    cases habsent
  | some ip =>
    obtain ⟨p, hp, hip⟩ := List.exists_of_findSome?_eq_some hfound
    obtain ⟨a, ha, -, -, rfl⟩ := (h.1 p).mp hp
    split at hip
    next hid =>
      have hid' : a.id = n.id := hid
      have hsame : a = n := Option.some.inj ((Table.get?_of_mem ha).symm.trans (hid'.symm ▸ Table.get?_of_mem hn))
      rw [hsame, hhead] at hip
      exact (Option.some.inj hip).symm
    next => cases hip

end

-- ---------------------------------------------------------------------------
-- The record that is rendered
-- ---------------------------------------------------------------------------

section

variable {ctx : WsCtx} {cfg : NodeConfigResponse} {d : Enforced} {wire : List Job} {r r' : Runtime}

/-- Whatever the plan is merged into, the result is the same. -/
structure Absorbing (cfg : NodeConfigResponse) (d : Enforced) (r : Runtime) : Prop where
  latest : cfg.enforced.offer r.latestNode.enforced = d
  bases : EachThread (fun _ t => ∀ c base, t.phase = .based c base → cfg.enforced.offer base.enforced = d) r.threads

theorem Absorbing.advance (h : Absorbing cfg d r) {i : Nat} {p : Phase}
    (hp : ∀ c base, p = .based c base → cfg.enforced.offer base.enforced = d) : Absorbing cfg d (r.advance i p) :=
  ⟨h.latest, h.bases.advance fun _ _ _ => hp⟩

theorem Absorbing.deliver (h : Absorbing cfg d r) (job : Job) :
    Absorbing cfg d { r with threads := r.threads ++ [{ job := job }] } :=
  ⟨h.latest, h.bases.concat (by rintro _ _ ⟨⟩)⟩

theorem Absorbing.act (h : Absorbing cfg d r) (hsettling : Settling ctx cfg wire r) {a : Act}
    (ha : a.step ctx r = some r') : Absorbing cfg d r' := by
  cases moved ha with
  | @read i t _ _ =>
    refine h.advance fun c base hbased => ?_
    cases hjob : t.job with
    | plan p =>
      rw [hjob] at hbased
      obtain ⟨-, rfl⟩ := Phase.based.inj hbased
      exact h.latest
    | task taskID type =>
      rw [hjob, Job.read] at hbased
      split at hbased
      · obtain ⟨-, rfl⟩ := Phase.based.inj hbased
        exact h.latest
      · cases hbased
    | command action =>
      rw [hjob, Job.read] at hbased
      split at hbased <;> cases hbased
  | @update i c b hbased =>
    obtain ⟨t, ht, hphase⟩ := Option.map_eq_some_iff.mp hbased
    have hbase : cfg.enforced.offer b.enforced = d := h.bases i t ht c b hphase
    have hsame : c = cfg := hsettling.based hbased
    subst hsame
    have hmerged : Absorbing c d (r.advance i (.merged c b)) := h.advance (by rintro _ _ ⟨⟩)
    refine ⟨?_, hmerged.bases⟩
    show c.enforced.offer (absorb ctx.asn c b).enforced = d
    rw [absorb_enforced, Enforced.offer_offer]
    exact hbase
  | @write i c b _ =>
    have hwritten : Absorbing cfg d (r.advance i (.written c b)) := h.advance (by rintro _ _ ⟨⟩)
    exact ⟨hwritten.latest, hwritten.bases⟩
  | writeFails => exact h.advance (by rintro _ _ ⟨⟩)
  | finish => exact h.advance (by rintro _ _ ⟨⟩)
  | healRead => exact ⟨h.latest, h.bases⟩
  | healSkips => exact h
  | healWrite => exact ⟨h.latest, h.bases⟩
  | healFails => exact ⟨h.latest, h.bases⟩

end

-- ---------------------------------------------------------------------------
-- One kernel
-- ---------------------------------------------------------------------------

section

variable {ex : Expander} {o : RouteTable → MapOrder String} {plan : Plan} {iface p : String} {t : RouteTable}
  {k : Kernel} {nodes : List Node} {n : Node}

theorem sendsTo_gateway (hdistinct : (nodes.map Node.address).Nodup) (hn : n ∈ nodes) {dev : String}
    (hget : k.get? t p = some { via := some n.address, dev := dev }) : sendsTo nodes t p k = some n.id := by
  rw [sendsTo, hget]
  exact congrArg (Option.map (·.id)) ((Table.find?_eq_some hdistinct).mpr ⟨hn, rfl⟩)

theorem sendsTo_assigned (ht : t ≠ .t52) (hdistinct : (nodes.map Node.address).Nodup) (hn : n ∈ nodes)
    (h : ∀ primary, lastAt p (planRoutes ex primary plan iface t) = some { via := some n.address, dev := iface }) :
    sendsTo nodes t p (applyStaticRoutes ex o plan iface k) = some n.id := by
  have hget : (applyStaticRoutes ex o plan iface k).get? t p = some { via := some n.address, dev := iface } := by
    rw [Kernel.get?_applyStaticRoutes ex o plan iface k p ht, h]
    rfl
  exact sendsTo_gateway hdistinct hn hget

theorem sendsTo_unassigned (ht : t ≠ .t52) (h : ∀ primary, lastAt p (planRoutes ex primary plan iface t) = none)
    (hbare : sendsTo nodes t p k = none) : sendsTo nodes t p (applyStaticRoutes ex o plan iface k) = none := by
  cases t with
  | main =>
    rw [sendsTo, Kernel.get?_main, h, Option.none_or, Kernel.synced]
    split
    · rfl
    · exact hbare
  | t52 => exact absurd rfl ht
  | t100 =>
    rw [sendsTo, Kernel.get?_t100, h, Option.none_or]
    exact hbare

variable {c : MemoryStore} {nodeOrder : MapOrder Node} {ids : Set String} {id : String} {old : Node} {m : Router}

theorem path_of_expanded {r : PolicyRule} (h : r ∈ expandPolicyRules nodes id) : r.path = [] := by
  obtain ⟨-, -, -, -, -, -, rfl⟩ := mem_expandPolicyRules.mp h
  rfl

/-- A node has no rule for the prefix, or a last one, which says where it goes. -/
theorem next_cases (nodes : List Node) (p id : String) :
    (next nodes p id = none ∧ ∀ r ∈ expandPolicyRules nodes id, r.pfx ≠ p) ∨
    ∃ before r after, expandPolicyRules nodes id = before ++ r :: after ∧ r.pfx = p ∧
      (∀ r' ∈ after, r'.pfx ≠ p) ∧ next nodes p id = some r.nextID := by
  rcases last_picked (fun r : PolicyRule => decide (r.pfx = p)) (expandPolicyRules nodes id) with
    hnone | ⟨before, r, after, hsplit, hpfx, hafter⟩
  · have hempty : (expandPolicyRules nodes id).filter (·.pfx = p) = [] :=
      List.filter_eq_nil_iff.mpr fun r hr => Bool.not_eq_true _ ▸ hnone r hr
    refine .inl ⟨by rw [next, hempty]; rfl, fun r hr => ?_⟩
    simpa using hnone r hr
  · have hempty : after.filter (·.pfx = p) = [] :=
      List.filter_eq_nil_iff.mpr fun r hr => Bool.not_eq_true _ ▸ hafter r hr
    have hmem : r ∈ expandPolicyRules nodes id := by simp [hsplit]
    refine .inr ⟨before, r, after, hsplit, of_decide_eq_true hpfx, fun r' hr' => by simpa using hafter r' hr', ?_⟩
    rw [next, hsplit, List.filter_append, List.filter_cons, if_pos hpfx, hempty, List.getLast?_append,
      PolicyRule.nextID, path_of_expanded hmem]
    rfl

theorem Router.Fit.sends (hm : m.Fit (c.nodes.range nodeOrder) p id old) (hr : Routable (c.nodes.range nodeOrder) ids p)
    (hmesh : IsMesh c id plan.peers)
    (hrules : plan.policyRules = offer (· ≠ []) (expandPolicyRules (c.nodes.range nodeOrder) id) old.policyRules)
    (ht : t ≠ .t52) : sendsTo (c.nodes.range nodeOrder) t p (applyStaticRoutes m.ex m.order plan iface m.kernel) =
      next (c.nodes.range nodeOrder) p id := by
  have hoverlay : ∀ n ∈ c.nodes.rows, n.overlayIP ≠ "" := fun n hn => hr.overlay n (Table.mem_range.mpr hn)
  have hlinks : ∀ v, overlayForPeer v plan.peers ≠ "" → p ≠ firstPart (overlayForPeer v plan.peers) ++ "/32" := by
    intro v hv
    obtain ⟨n, hn, heq⟩ := hmesh.overlay_eq hoverlay hv
    rw [heq]
    exact hr.apart.2 n (Table.mem_range.mpr hn)
  rcases next_cases (c.nodes.range nodeOrder) p id with
    ⟨hnext, hnone⟩ | ⟨before, r, after, hsplit, hpfx, hafter, hnext⟩
  · -- what was there before stays
    obtain ⟨hbare, hstale⟩ := hm.bare hnext
    rw [hnext]
    refine sendsTo_unassigned ht (fun primary => planRoutes_none hr.apart.1 hlinks fun r hmem => ?_) (hbare t)
    rw [hrules, offer] at hmem
    split at hmem
    · rw [hm.reads r hmem]
      exact hnone r hmem
    next hempty => exact hstale (by simpa using hempty) r hmem
  · -- the last rule names a peer
    have hmem : ∀ r' ∈ r :: after, r' ∈ expandPolicyRules (c.nodes.range nodeOrder) id := fun r' hr' =>
      hsplit ▸ List.mem_append_right _ hr'
    have hrules' : plan.policyRules = before ++ r :: after := by
      rw [hrules, offer, if_pos (by simp [hsplit]), hsplit]
    obtain ⟨-, hvia, hne, hlocal, hmain⟩ := hr.hops id r.nextID hnext
    obtain ⟨n, hn, hnid, hcomplete⟩ := hr.complete r.nextID hvia
    have hpeer : overlayForPeer r.nextID plan.peers = n.overlayIP :=
      hnid ▸ hmesh.overlay hoverlay (Table.mem_range.mp hn) (hnid ▸ hne) hcomplete
    have hown : p ∈ m.ex.expand r := (hm.reads r (hmem r List.mem_cons_self)).mpr hpfx
    have hlater : ∀ r' ∈ after, p ∉ m.ex.expand r' := fun r' hr' hin =>
      hafter r' hr' ((hm.reads r' (hmem r' (List.mem_cons_of_mem r hr'))).mp hin)
    have hremote : r.isLocal = false := by
      have hvianode : r.viaNode = r.nextID := by
        rw [PolicyRule.nextID, path_of_expanded (hmem r List.mem_cons_self)]
        rfl
      simp [PolicyRule.isLocal, hvianode, hlocal, hmain]
    rw [hnext, ← hnid]
    refine sendsTo_assigned ht hr.distinct hn fun primary => ?_
    rw [planRoutes_last hr.apart.1 hlinks ht hrules' hown hlater hremote (hpeer ▸ hr.overlay n hn), hpeer]
    rfl

end

-- ---------------------------------------------------------------------------
-- Walks
-- ---------------------------------------------------------------------------

section

variable {nodes : List Node} {ids : Set String} {p id v : String} {hop : String → Option String}

theorem Routable.reached (hr : Routable nodes ids p) (hid : id ∈ ids) {i : Nat}
    (h : follow (next nodes p) i id = some v) : v ∈ ids := by
  cases i with
  | zero => exact Option.some.inj h ▸ hid
  | succ i =>
    rw [follow_add] at h
    obtain ⟨z, -, hz⟩ := Option.bind_eq_some_iff.mp h
    rw [follow_succ] at hz
    obtain ⟨y, hy, hv⟩ := Option.bind_eq_some_iff.mp hz
    exact Option.some.inj hv ▸ (hr.hops z y hy).2.1

theorem Routable.follow_eq (hr : Routable nodes ids p) (h : ∀ id ∈ ids, hop id = next nodes p id) (hid : id ∈ ids)
    (i : Nat) : follow hop i id = follow (next nodes p) i id :=
  follow_congr fun _ _ y hy => h y (hr.reached hid hy)

theorem Routable.followsPaths (hr : Routable nodes ids p) (hcompatible : Compatible nodes p)
    (h : ∀ id ∈ ids, hop id = next nodes p id) : FollowsPaths nodes ids p hop where
  paths n hn pr hpr hpfx hpath i := by
    have hroute : n.id :: pr.path ∈ routesFor nodes p := mem_routesFor.mpr ⟨n, hn, pr, hpr, hpfx, hpath, rfl⟩
    obtain ⟨first, rest, hfirst⟩ := List.exists_cons_of_ne_nil hpath
    have hlink : (n.id, first) ∈ links (n.id :: pr.path) := by
      rw [hfirst, links_cons_cons]
      exact List.mem_cons_self
    have hid : n.id ∈ ids := (hr.hops _ _ (hcompatible.next_link hroute hlink)).1
    rw [hr.follow_eq h hid]
    exact hcompatible.walks hroute i
  once id hid i j x hi hj := by
    rw [hr.follow_eq h hid] at hi hj
    exact acyclic_iff.mp hcompatible.not_cycle id i j x hi hj

end

-- ---------------------------------------------------------------------------
-- The fleet
-- ---------------------------------------------------------------------------

section

variable {host : Host} {ctx : String → WsCtx} {s : Fleet} {e : FleetEvent} {id : String} {ids : Set String}
  {cfg : NodeConfigResponse} {d : Enforced}

theorem Absorbing.fleet (h : Absorbing cfg d (s.agent id)) (hbrings : s.Brings ctx id cfg) (hid : id ∈ ids)
    (hcalm : Calm host ids s e) : Absorbing cfg d ((Fleet.step host ctx e s).agent id) := by
  cases e with
  | controller env e =>
    rw [(Fleet.controller_step host ctx env e s).2]
    exact h
  | operator | connect | disconnect => exact h
  | boot id' node =>
    have hother : id ≠ id' := by
      rintro rfl
      exact hcalm hid
    simp only [Fleet.step, Function.update_of_ne hother]
    exact h
  | deliver id' =>
    rw [Fleet.step]
    split
    · exact h
    next job wire _ =>
      by_cases hsame : id = id'
      · subst hsame
        simp only [Function.update_self]
        exact h.deliver job
      · simp only [Function.update_of_ne hsame]
        exact h
  | act id' a =>
    by_cases hsame : id = id'
    · subst hsame
      simp only [Fleet.step, Function.update_self]
      cases hact : a.step (ctx id) (s.agent id) with
      | none => exact h
      | some r' => exact h.act hbrings.2 hact
    · simp only [Fleet.step, Function.update_of_ne hsame]
      exact h

theorem Fleet.Ready.absorbing (h : s.Ready id) (cfg : NodeConfigResponse) :
    Absorbing cfg (cfg.enforced.offer (s.agent id).latestNode.enforced) (s.agent id) := by
  refine ⟨rfl, fun i t ht c base hbased => ?_⟩
  exact absurd (.inr ⟨c, base, hbased⟩) (h.threads t (List.mem_of_getElem? ht))

theorem received_enforced (ctx : WsCtx) (cfg : NodeConfigResponse) :
    (received ctx cfg).enforced = cfg.enforced := by
  unfold received
  split <;> rfl

/-- Once everything is through, the record has been offered the plan, whenever
and however often that was. -/
theorem Absorbing.rules {ctx : WsCtx} {r : Runtime} {old : Node}
    (h : Absorbing (received ctx cfg) ((received ctx cfg).enforced.offer old.enforced) r)
    (hlatest : r.latestCfg = received ctx cfg) :
    (renderCall ctx r.latestNode r.latestCfg).plan.policyRules =
      offer (· ≠ []) cfg.policyRules old.policyRules := by
  have hcall : (renderCall ctx r.latestNode r.latestCfg).plan.policyRules =
      (absorb ctx.asn r.latestCfg r.latestNode).enforced.policyRules := rfl
  rw [hcall, absorb_enforced, hlatest, h.latest, received_enforced]
  rfl

theorem Router.heal_eq {ctx : WsCtx} {r : Runtime} (m : Router) (happly : ctx.apply = true)
    (hfinished : r.finished = true) (hversion : r.latestCfg.configVersion ≠ "") :
    m.heal ctx r =
      applyStaticRoutes m.ex m.order (renderCall ctx r.latestNode r.latestCfg).plan ctx.iface m.kernel := by
  obtain ⟨r', hexec, hwritten⟩ := heals happly hfinished hversion
  rw [Router.heal, hexec, Option.bind_some, hwritten]
  rfl

end

def relayRequest (id overlayIP cidr : String) : Event :=
  .request (.register { jwt := true }
    (some { id := id, publicKey := "key-" ++ id, cidrs := [cidr], overlayIP := overlayIP }))

/-- The first of three nodes is to send a prefix over the second to the third. -/
def relayEvents : List FleetEvent := [
  .controller {} (relayRequest "a" "10.10.1.1/32" "10.1.0.0/16"),
  .controller {} (relayRequest "b" "10.10.1.2/32" "10.2.0.0/16"),
  .controller {} (.request (.policy { jwt := true }
    (some { nodeID := "a", policyRules := [{ pfx := "10.9.0.0/16", viaNode := "c", path := ["b", "c"] }] }))),
  .boot "a" { id := "a" }, .connect "a", .boot "b" { id := "b" }, .connect "b", .boot "c" { id := "c" }, .connect "c"]

def relayRegister : Event := relayRequest "c" "10.10.1.3/32" "10.3.0.0/16"

def relayMoves : List FleetEvent := [
  .deliver "c", .deliver "a", .act "a" (.read 0), .deliver "b", .act "b" (.read 0), .act "a" (.update 0),
  .act "c" (.read 0), .act "c" (.update 0), .disconnect "d", .act "c" (.write 0 true), .act "a" (.write 0 true),
  .act "b" (.update 0), .act "b" (.write 0 false), .act "a" (.finish 0 true), .act "c" (.finish 0 true)]

def relayIDs : Set String := {"a", "b", "c"}

def relayRouter (_ : String) : Router where
  ex := .literal
  order _ := default
  kernel := ⟨fun _ => ∅, ∅⟩

def relayNodes : List Node :=
  (Fleet.step .sample pairCtx (.controller {} relayRegister)
    (run (Fleet.step .sample pairCtx) .start relayEvents)).controller.store.nodes.range (Env.nodeOrder {} 1)

theorem relay_hops : hopsFor relayNodes "10.9.0.0/16" = [("a", ⟨"b", false⟩), ("b", ⟨"c", false⟩)] := by
  decide +kernel

theorem relay_next {m v : String} (h : next relayNodes "10.9.0.0/16" m = some v) :
    (m = "a" ∧ v = "b") ∨ (m = "b" ∧ v = "c") := by
  rw [next_eq_lastHop] at h
  obtain ⟨hop, hlast, rfl⟩ := Option.map_eq_some_iff.mp h
  have hmem := lastHop_mem hlast
  rw [relay_hops] at hmem
  simp only [List.mem_cons, Prod.mk.injEq, List.not_mem_nil, or_false] at hmem
  rcases hmem with ⟨rfl, rfl⟩ | ⟨rfl, rfl⟩
  · exact .inl ⟨rfl, rfl⟩
  · exact .inr ⟨rfl, rfl⟩

theorem relay_routable : Routable relayNodes relayIDs "10.9.0.0/16" where
  hops m v h := by
    rcases relay_next h with ⟨rfl, rfl⟩ | ⟨rfl, rfl⟩ <;> simp [relayIDs]
  complete := by
    rintro id (rfl | rfl | rfl) <;> decide +kernel
  overlay := by decide +kernel
  distinct := by decide +kernel
  apart := by decide +kernel

theorem relay_compatible : Compatible relayNodes "10.9.0.0/16" := by
  have hroutes : routesFor relayNodes "10.9.0.0/16" = [["a", "b", "c"]] := by decide +kernel
  have hlinks : links ["a", "b", "c"] = [("a", "b"), ("b", "c")] := by decide
  constructor
  case agree =>
    rw [hroutes]
    simp only [forall_eq, hlinks, List.mem_cons, List.not_mem_nil, or_false, Prod.mk.injEq]
    rintro x y z (⟨rfl, rfl⟩ | ⟨rfl, rfl⟩) (⟨hx, rfl⟩ | ⟨hx, rfl⟩)
    · rfl
    · exact absurd hx (by decide)
    · exact absurd hx (by decide)
    · rfl
  case direct =>
    intro r _ x y z _ hlast
    have hmem := lastHop_mem hlast
    rw [relay_hops] at hmem
    simp at hmem
  case ends =>
    rw [hroutes, relay_hops]
    decide
  case acyclic =>
    -- no rule is without a path
    have hnone : ∀ m, directNext relayNodes "10.9.0.0/16" m = none := by
      intro m
      rw [directNext, hroutes]
      split
      · rfl
      next hoff =>
        rw [← next_eq_lastHop]
        cases hnext : next relayNodes "10.9.0.0/16" m with
        | none => rfl
        | some v =>
          refine absurd ⟨_, List.mem_singleton.mpr rfl, ?_⟩ hoff
          rcases relay_next hnext with ⟨rfl, rfl⟩ | ⟨rfl, rfl⟩ <;> decide
    intro m n hcycle
    rw [follow_succ, hnone] at hcycle
    cases hcycle

theorem relay_fit : ∀ id ∈ relayIDs, (relayRouter id).Fit relayNodes "10.9.0.0/16" id
    ((run (Fleet.step .sample pairCtx) .start relayEvents).agent id).latestNode := by
  rintro id (rfl | rfl | rfl)
  · exact ⟨by decide +kernel, fun _ => ⟨fun _ => rfl, fun _ r hr => absurd hr List.not_mem_nil⟩⟩
  · exact ⟨by decide +kernel, fun _ => ⟨fun _ => rfl, fun _ r hr => absurd hr List.not_mem_nil⟩⟩
  · exact ⟨by decide +kernel, fun _ => ⟨fun _ => rfl, fun _ r hr => absurd hr List.not_mem_nil⟩⟩

end PeerWan
