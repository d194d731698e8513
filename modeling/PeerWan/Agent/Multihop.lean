import PeerWan.Agent.NextHops
import PeerWan.Lib.LongestPrefix
import PeerWan.PeerPlans
import PeerWan.PolicyPaths

/-!
# Traffic along a path

The rules of a path send a packet from hop to hop, and each hop takes it from
the peer before only if WireGuard's table gives the packet's source to that
peer. The table has all peers of the hop: what a peer is allowed are its own
prefixes and what is sent to it, and the origin is there too, with its own
address. So a hop takes the traffic of the origin only where something as long
leads back to the hop before.
-/

namespace PeerWan

open Lib

-- ---------------------------------------------------------------------------
-- The peers of a hop
-- ---------------------------------------------------------------------------

/-- The record that a node renders from: its own, with the rules expanded. -/
def Node.expanded (nodes : List Node) (n : Node) : Node := { n with policyRules := expandPolicyRules nodes n.id }

/-- The peers that a node configures for the plan made from these nodes. -/
def configuredPeers (ex : Expander) (nodes : List Node) (health : HealthMap) (n : Node) : List Peer :=
  augmentEgressAllowedIPs ex (buildPeerPlan n.id nodes health) (n.expanded nodes)

/-- The peers in their order with what each is allowed, where one takes the
place of an earlier one with its key. -/
def allowedTable (read : String → Option (List CIDR)) (peers : List Peer) : List (String × List CIDR) :=
  (Table.ofList peers : Table Peer.publicKey).rows.map fun p =>
    (p.publicKey, p.allowedIPs.flatMap fun text => (read text).getD [])

/-- WireGuard, of which the repository has no code. -/
structure WireGuard where
  /-- What an entry of allowed IPs stands for, if it can be read. -/
  read : String → Option (List CIDR)
  /-- The public key that has an address, when these peers are configured. -/
  owner : List Peer → Addr → Option String

namespace WireGuard

variable (wg : WireGuard)

def prefixes (text : String) : List CIDR := (wg.read text).getD []

/-- A prefix is read as it is, and a configuration is refused for an entry that
is not read. Of the peers that are allowed an address, the longest prefix
decides, and of equally long ones the last. -/
structure Documented : Prop where
  read : ∀ text c, CIDR.ofText text = some c → c.addr.zone = "" → wg.read text = some [c]
  owner : ∀ peers a k, wg.owner peers a = some k ↔
    (∀ p ∈ peers, ∀ text ∈ p.allowedIPs, (wg.read text).isSome) ∧ Owns (allowedTable wg.read peers) a k

/-- A packet of this source is taken from the peer: its allowed IPs have the
source, and so has the table, for its key. -/
def Accepts (peers : List Peer) (p : Peer) (overlayIP : String) : Prop :=
  ∃ own ∈ CIDR.ofText overlayIP, (∃ text ∈ p.allowedIPs, ∃ c ∈ wg.prefixes text, c.Contains own.addr) ∧
    wg.owner peers own.addr = some p.publicKey

instance (peers : List Peer) (p : Peer) (overlayIP : String) : Decidable (wg.Accepts peers p overlayIP) :=
  inferInstanceAs (Decidable (∃ own ∈ _, (∃ text ∈ _, ∃ c ∈ _, _) ∧ _))

end WireGuard

/-- Every hop of the path but the first has the one before it as a peer, and
takes the traffic of `s` from it. -/
def PathAccepted (wg : WireGuard) (ex : String → Expander) (nodes : List Node) (health : HealthMap) (s : Node)
    (path : List String) : Prop :=
  ∀ e ∈ links path, ∀ n ∈ nodes, n.id = e.2 →
    ∃ p ∈ configuredPeers (ex n.id) nodes health n, p.id = e.1 ∧
      wg.Accepts (configuredPeers (ex n.id) nodes health n) p s.overlayIP

instance (wg : WireGuard) (ex : String → Expander) (nodes : List Node) (health : HealthMap) (s : Node)
    (path : List String) : Decidable (PathAccepted wg ex nodes health s path) :=
  inferInstanceAs (Decidable (∀ e ∈ links path, ∀ n ∈ nodes, n.id = e.2 →
    ∃ p ∈ configuredPeers (ex n.id) nodes health n, p.id = e.1 ∧
      wg.Accepts (configuredPeers (ex n.id) nodes health n) p s.overlayIP))

/-- A rule of some node sends a prefix from the node `n` to the node `id`. -/
def Sends (nodes : List Node) (ex : Expander) (n id pfx : String) : Prop :=
  ∃ m ∈ nodes, ∃ pr ∈ m.policyRules, (∃ hop, (n, hop) ∈ pr.hops m.id ∧ hop.via = id) ∧ pfx ∈ ex.expand (pr.hop id)

/-- From `n` a prefix leads back to its peer `m`: one that `m` announces, or
one that a rule, or the default route of `n`, sends there. -/
def LeadsBack (ex : String → Expander) (nodes : List Node) (m n : Node) (pfx : String) : Prop :=
  pfx ∈ m.prefixes ∨ (m.id ≠ "" ∧ (Sends nodes (ex n.id) n.id m.id pfx ∨
    (n.defaultRoute = true ∧ n.egressPeerID = m.id ∧ pfx = zeroPrefix)))

/-- At `n` the address is given to `m`. All that leads back from `n` is read,
something with the address leads back to `m`, and among the peers of `n` in the
order of the plan, of one key the last, none before that with the key of `m` has
a longer prefix with the address, and none after it one as long. -/
structure GivenBack (wg : WireGuard) (ex : String → Expander) (nodes : List Node) (health : HealthMap) (m n : Node)
    (a : Addr) : Prop where
  read : ∀ w ∈ peerOrder n.id nodes health, ∀ pfx, LeadsBack ex nodes w n pfx → (wg.read pfx).isSome
  allowed : ∃ pfx, LeadsBack ex nodes m n pfx ∧ ∃ c ∈ wg.prefixes pfx, c.Contains a
  longest : ∃ before w after,
    (Table.ofList (peerOrder n.id nodes health) : Table Node.publicKey).rows = before ++ w :: after ∧
      w.publicKey = m.publicKey ∧ ∃ pfx, LeadsBack ex nodes w n pfx ∧ ∃ c ∈ wg.prefixes pfx, c.Contains a ∧
        (∀ w' ∈ before, ∀ pfx', LeadsBack ex nodes w' n pfx' → ∀ d ∈ wg.prefixes pfx', d.Contains a →
          d.length ≤ c.length) ∧
        ∀ w' ∈ after, ∀ pfx', LeadsBack ex nodes w' n pfx' → ∀ d ∈ wg.prefixes pfx', d.Contains a →
          d.length < c.length

-- ---------------------------------------------------------------------------
-- What a peer is allowed
-- ---------------------------------------------------------------------------

theorem ruleEntries_hop {nodeID : String} {pr : PolicyRule} {e : String × PolicyRule}
    (h : e ∈ ruleEntries nodeID pr) : e.2 = pr.hop e.2.viaNode := by
  unfold ruleEntries at h
  split at h
  next hpath =>
    obtain rfl := List.mem_singleton.mp h
    show pr = { pr with viaNode := pr.viaNode, path := [] }
    rw [← hpath]
  next =>
    rw [hopEntries_links, List.mem_cons, List.mem_map] at h
    obtain rfl | ⟨e', -, rfl⟩ := h <;> rfl

theorem mem_ruleEntries {nodeID n : String} {pr pr' : PolicyRule} :
    (n, pr') ∈ ruleEntries nodeID pr ↔ ∃ hop, (n, hop) ∈ pr.hops nodeID ∧ pr' = pr.hop hop.via := by
  have hvia : ∀ via, (∃ e ∈ ruleEntries nodeID pr, (e.1, e.2.viaNode) = (n, via)) ↔
      ∃ e ∈ pr.hops nodeID, (e.1, e.2.via) = (n, via) := by
    intro via
    rw [← List.mem_map, ← List.mem_map, ruleEntries_hops]
  constructor
  · intro hmem
    obtain ⟨e, he, heq⟩ := (hvia pr'.viaNode).mp ⟨(n, pr'), hmem, rfl⟩
    obtain ⟨rfl, hhop⟩ := Prod.mk.inj heq
    exact ⟨e.2, he, hhop ▸ ruleEntries_hop hmem⟩
  · rintro ⟨hop, hmem, rfl⟩
    obtain ⟨e, he, heq⟩ := (hvia hop.via).mpr ⟨(n, hop), hmem, rfl⟩
    obtain ⟨rfl, hhop⟩ := Prod.mk.inj heq
    rw [← hhop, ← ruleEntries_hop he]
    exact he

theorem mem_expandPolicyRules {nodes : List Node} {n : String} {pr' : PolicyRule} :
    pr' ∈ expandPolicyRules nodes n ↔
      ∃ m ∈ nodes, ∃ pr ∈ m.policyRules, ∃ hop, (n, hop) ∈ pr.hops m.id ∧ pr' = pr.hop hop.via := by
  rw [expandPolicyRules_apply, List.mem_flatMap]
  refine exists_congr fun m => and_congr_right fun _ => ?_
  rw [Node.contribution, entriesFor, List.mem_map]
  constructor
  · rintro ⟨⟨n', pr''⟩, hmem, rfl⟩
    obtain ⟨hentry, hn⟩ := List.mem_filter.mp hmem
    obtain rfl : n' = n := of_decide_eq_true hn
    obtain ⟨pr, hpr, hmem⟩ := List.mem_flatMap.mp hentry
    exact ⟨pr, hpr, mem_ruleEntries.mp hmem⟩
  · rintro ⟨pr, hpr, hop⟩
    exact ⟨(n, pr'), List.mem_filter.mpr ⟨List.mem_flatMap.mpr ⟨pr, hpr, mem_ruleEntries.mpr hop⟩, by simp⟩, rfl⟩

theorem wants_expanded {ex : Expander} {nodes : List Node} {n : Node} {id pfx : String} :
    (n.expanded nodes).Wants ex id pfx ↔ id ≠ "" ∧ (Sends nodes ex n.id id pfx ∨
      (n.defaultRoute = true ∧ n.egressPeerID = id ∧ pfx = zeroPrefix)) := by
  refine and_congr_right fun _ => or_congr ?_ Iff.rfl
  constructor
  · rintro ⟨pr', hpr', hid, hpfx⟩
    obtain ⟨m, hm, pr, hpr, hop, hmem, rfl⟩ := mem_expandPolicyRules.mp hpr'
    obtain rfl : hop.via = id := hid
    exact ⟨m, hm, pr, hpr, ⟨hop, hmem, rfl⟩, hpfx⟩
  · rintro ⟨m, hm, pr, hpr, ⟨hop, hmem, rfl⟩, hpfx⟩
    exact ⟨pr.hop hop.via, mem_expandPolicyRules.mpr ⟨m, hm, pr, hpr, hop, hmem, rfl⟩, rfl, hpfx⟩

def Node.configuredPeer (ex : Expander) (nodes : List Node) (n m : Node) : Peer :=
  { m.toPeer with allowedIPs := addAllowed m.toPeer.allowedIPs (egressTargets ex (n.expanded nodes) m.id) }

theorem configuredPeers_eq (ex : Expander) (nodes : List Node) (health : HealthMap) (n : Node) :
    configuredPeers ex nodes health n = (peerOrder n.id nodes health).map (n.configuredPeer ex nodes) := by
  rw [configuredPeers, augmentEgressAllowedIPs, buildPeerPlan_eq, List.map_map]
  rfl

section

variable {wg : WireGuard} {ex : String → Expander} {nodes : List Node} {health : HealthMap} {m n : Node}

theorem mem_configuredPeer {pfx : String} :
    pfx ∈ (n.configuredPeer (ex n.id) nodes m).allowedIPs ↔ LeadsBack ex nodes m n pfx := by
  show pfx ∈ addAllowed m.toPeer.allowedIPs _ ↔ _
  rw [m.peerOf_toPeer.allowedIPs, mem_addAllowed, mem_egressTargets, wants_expanded]
  exact Iff.rfl

theorem mem_prefixes_configuredPeer {c : CIDR} :
    c ∈ (n.configuredPeer (ex n.id) nodes m).allowedIPs.flatMap wg.prefixes ↔
      ∃ pfx, LeadsBack ex nodes m n pfx ∧ c ∈ wg.prefixes pfx := by
  simp only [List.mem_flatMap, mem_configuredPeer]

theorem table_configuredPeers : allowedTable wg.read (configuredPeers (ex n.id) nodes health n) =
    (Table.ofList (peerOrder n.id nodes health) : Table Node.publicKey).rows.map fun w =>
      (w.publicKey, (n.configuredPeer (ex n.id) nodes w).allowedIPs.flatMap wg.prefixes) := by
  rw [allowedTable, configuredPeers_eq,
    Table.rows_ofList_map Node.publicKey (n.configuredPeer (ex n.id) nodes) fun _ => rfl, List.map_map]
  rfl

theorem configured_accepts_iff (hwg : wg.Documented) {overlayIP : String} :
    wg.Accepts (configuredPeers (ex n.id) nodes health n) (n.configuredPeer (ex n.id) nodes m) overlayIP ↔
      ∃ own ∈ CIDR.ofText overlayIP, GivenBack wg ex nodes health m n own.addr := by
  refine exists_congr fun own => and_congr_right fun _ => ?_
  rw [hwg.owner, table_configuredPeers, owns_map]
  have hread : (∀ p ∈ configuredPeers (ex n.id) nodes health n, ∀ text ∈ p.allowedIPs, (wg.read text).isSome) ↔
      ∀ w ∈ peerOrder n.id nodes health, ∀ pfx, LeadsBack ex nodes w n pfx → (wg.read pfx).isSome := by
    simp only [configuredPeers_eq, List.forall_mem_map, mem_configuredPeer]
  rw [hread]
  simp only [mem_configuredPeer, mem_prefixes_configuredPeer]
  constructor
  · rintro ⟨hallowed, hreads, before, w, after, hrows, hkey, c, ⟨pfx, hback, hc⟩, hcontains, hbefore, hafter⟩
    exact ⟨hreads, hallowed, before, w, after, hrows, hkey, pfx, hback, c, hc, hcontains,
      fun w' hw' pfx' hback' d hd => hbefore w' hw' d ⟨pfx', hback', hd⟩,
      fun w' hw' pfx' hback' d hd => hafter w' hw' d ⟨pfx', hback', hd⟩⟩
  · rintro ⟨hreads, hallowed, before, w, after, hrows, hkey, pfx, hback, c, hc, hcontains, hbefore, hafter⟩
    refine ⟨hallowed, hreads, before, w, after, hrows, hkey, c, ⟨pfx, hback, hc⟩, hcontains, ?_, ?_⟩
    · rintro w' hw' d ⟨pfx', hback', hd⟩
      exact hbefore w' hw' pfx' hback' d hd
    · rintro w' hw' d ⟨pfx', hback', hd⟩
      exact hafter w' hw' pfx' hback' d hd

end

section

variable (flags : Flags) (boot : NodeConfigResponse) (ctx : WsCtx) (nodes : List Node) (health : HealthMap) (n : Node)
  (cv : String) (geoIP : GeoIPConfig) (interval : Int) (message : String)

/-- What an agent renders from the plan when it has started afresh. -/
def firstCall : RenderCall :=
  renderCall ctx (bootNode flags boot) (configOf n cv (buildPeerPlan n.id nodes health)
    (expandPolicyRules nodes n.id) geoIP interval message)

theorem wants_firstCall {ex : Expander} {id pfx : String} :
    (firstCall flags boot ctx nodes health n cv geoIP interval message).node.Wants ex id pfx ↔
      (n.expanded nodes).Wants ex id pfx := by
  have hrules : (if expandPolicyRules nodes n.id ≠ [] then expandPolicyRules nodes n.id else []) =
      expandPolicyRules nodes n.id := by
    split
    next => rfl
    next hnil => exact (not_not.mp hnil).symm
  have hegress : (if n.egressPeerID ≠ "" then n.egressPeerID else "") = n.egressPeerID := by
    split
    next => rfl
    next hnone => exact (not_not.mp hnone).symm
  show id ≠ "" ∧ ((∃ pr ∈ (if expandPolicyRules nodes n.id ≠ [] then expandPolicyRules nodes n.id else []), _) ∨
    (_ ∧ (if n.egressPeerID ≠ "" then n.egressPeerID else "") = id ∧ _)) ↔ _
  rw [hrules, hegress]
  exact Iff.rfl

theorem rendered_accepts_iff {wg : WireGuard} (hwg : wg.Documented) (ex : Expander) (id overlayIP : String) :
    (∃ p ∈ (firstCall flags boot ctx nodes health n cv geoIP interval message).wgPeers ex, p.id = id ∧
      wg.Accepts ((firstCall flags boot ctx nodes health n cv geoIP interval message).wgPeers ex) p overlayIP) ↔
      ∃ p ∈ configuredPeers ex nodes health n, p.id = id ∧
        wg.Accepts (configuredPeers ex nodes health n) p overlayIP := by
  obtain ⟨f, heq, hf, hkey⟩ :=
    RenderCall.wgPeers_eq ex (firstCall flags boot ctx nodes health n cv geoIP interval message)
  have hpeers : (firstCall flags boot ctx nodes health n cv geoIP interval message).peers =
      buildPeerPlan n.id nodes health := rfl
  let g : Peer → Peer := fun p =>
    { p with allowedIPs := addAllowed p.allowedIPs (egressTargets ex (n.expanded nodes) p.id) }
  have hsame : ∀ p text, text ∈ (f p).allowedIPs ↔ text ∈ (g p).allowedIPs := by
    intro p text
    rw [(hf p).2, wants_firstCall]
    exact (mem_addAllowed.trans (or_congr_right mem_egressTargets)).symm
  have howner : ∀ a k, wg.owner ((buildPeerPlan n.id nodes health).map f) a = some k ↔
      wg.owner ((buildPeerPlan n.id nodes health).map g) a = some k := by
    intro a k
    rw [hwg.owner, hwg.owner, allowedTable, allowedTable, Table.rows_ofList_map Peer.publicKey f hkey,
      Table.rows_ofList_map Peer.publicKey g fun _ => rfl, List.map_map, List.map_map]
    refine and_congr ?_ (owns_congr (fun p => hkey p) fun p c => ?_)
    · simp only [List.forall_mem_map, hsame]
    · simp only [Function.comp_apply, List.mem_flatMap, hsame]
  have hconfigured : configuredPeers ex nodes health n = (buildPeerPlan n.id nodes health).map g := rfl
  rw [heq, hpeers, hconfigured]
  simp only [List.mem_map, exists_exists_and_eq_and, (hf _).1, WireGuard.Accepts, hsame, howner, hkey]
  exact Iff.rfl

end

-- ---------------------------------------------------------------------------
-- A path
-- ---------------------------------------------------------------------------

def plainRead (text : String) : Option (List CIDR) :=
  ((CIDR.ofText text).filter fun c => c.addr.zone = "").map fun c => [c]

def plainWireGuard : WireGuard where
  read := plainRead
  owner peers a :=
    if ∀ p ∈ peers, ∀ text ∈ p.allowedIPs, (plainRead text).isSome then
      (longestMatch a (allowedTable plainRead peers)).map Prod.fst
    else none

theorem plainWireGuard_documented : plainWireGuard.Documented where
  read text c h hzone := by
    have hread : plainRead text = some [c] := by
      unfold plainRead
      rw [h, Option.filter_some, if_pos (decide_eq_true hzone), Option.map_some]
    exact hread
  owner peers a k := by
    rw [plainWireGuard]
    dsimp only
    split
    next hread => rw [longestMatch_iff, and_iff_right hread]
    next hread => exact iff_of_false (fun h => by cases h) fun h => hread h.1

/-- An office whose traffic to a prefix goes over a relay to an exit. -/
def pathNodes (relayCIDRs : List String) : List Node :=
  [{ id := "office", publicKey := "ko", overlayIP := "10.10.1.1/32", cidrs := ["192.168.1.0/24"],
     policyRules := [{ pfx := "198.51.100.0/24", path := ["relay", "exit"] }] },
   { id := "relay", publicKey := "kr", overlayIP := "10.10.1.2/32", cidrs := relayCIDRs },
   { id := "exit", publicKey := "ke", overlayIP := "10.10.1.3/32", cidrs := ["192.168.3.0/24"] }]

end PeerWan
