import PeerWan.Agent.DefaultRoute
import PeerWan.Lib.AddrText
import PeerWan.PeerPlans

/-!
# The addresses of the FRR configuration

`RenderBGP` names a peer twice: as a neighbor, by the first of its allowed IPs
as it is, and as a next hop, by the same without its mask. The router ID is
that of the node, or else its overlay address.
-/

namespace PeerWan

open Lib

-- ---------------------------------------------------------------------------
-- Statements
-- ---------------------------------------------------------------------------

inductive BgpStatement where
  | router (asn : Int)
  | routerID (id : String)
  | remoteAs (neighbor : String) (asn : Int)
  | updateSource (neighbor source : String)
  | network (pfx : String)
  | route (pfx nextHop : String)
  | done
  deriving DecidableEq, Repr

def BgpStatement.text : BgpStatement → String
  | router asn => "router bgp " ++ toString asn ++ "\n"
  | routerID id => " bgp router-id " ++ id ++ "\n"
  | remoteAs neighbor asn => " neighbor " ++ neighbor ++ " remote-as " ++ toString asn ++ "\n"
  | updateSource neighbor source => " neighbor " ++ neighbor ++ " update-source " ++ source ++ "\n"
  | network pfx => " network " ++ pfx ++ "\n"
  | route pfx nextHop => " ip route " ++ pfx ++ " " ++ nextHop ++ "\n"
  | done => "!\n"

/-- The address that a statement names. The others name prefixes, or none. -/
def BgpStatement.address? : BgpStatement → Option String
  | routerID id => some id
  | remoteAs neighbor _ => some neighbor
  | updateSource neighbor _ => some neighbor
  | route _ nextHop => some nextHop
  | _ => none

section

variable (ex : Expander) (o : MapOrder (String × Int)) (call : RenderCall)

def neighborStatements (localASN : Int) (source : String) (neighbor : String × Int) : List BgpStatement :=
  [.remoteAs neighbor.1 (if neighbor.2 = 0 then localASN else neighbor.2), .updateSource neighbor.1 source]

def RenderCall.routerID : String := if call.node.routerID = "" then call.node.overlayIP else call.node.routerID

def RenderCall.localASN : Int := if call.asn = 0 then 65000 else call.asn

def RenderCall.source : String := if call.iface = "" then "wg0" else call.iface

def bgpStatements : List BgpStatement :=
  [.router call.localASN] ++ (if call.routerID ≠ "" then [.routerID call.routerID] else []) ++
    ((neighborOverlayIPs call.peers).range o).flatMap (neighborStatements call.localASN call.source) ++
    call.node.cidrs.map .network ++ (bgpStatics ex call.plan).map (fun r => .route r.1 r.2) ++ [.done]

theorem join_flatMap {α β : Type} (text : β → String) (f : α → List β) (xs : List α) :
    String.join ((xs.flatMap f).map text) = String.join (xs.map fun x => String.join ((f x).map text)) := by
  induction xs with
  | nil => rfl
  | cons x xs ih => rw [List.flatMap_cons, List.map_append, String.join_append, ih, List.map_cons, String.join_cons]

theorem RenderCall.listening_keeps : call.listening.routerID = call.node.routerID ∧
    call.listening.overlayIP = call.node.overlayIP ∧ call.listening.cidrs = call.node.cidrs := by
  unfold listening
  split <;> exact ⟨rfl, rfl, rfl⟩

theorem renderBGP_eq : renderBGP ex o call.asn call.routerID call.iface (neighborOverlayIPs call.peers)
    call.node.cidrs call.plan = String.join ((bgpStatements ex o call).map BgpStatement.text) := by
  have hone : ∀ t : String, String.join [t] = t := fun t => by
    rw [String.join_cons, String.join_nil, String.append_empty]
  have hneighbor : ∀ n : String × Int,
      String.join ((neighborStatements call.localASN call.source n).map BgpStatement.text) =
        " neighbor " ++ n.1 ++ " remote-as " ++ toString (if n.2 = 0 then call.localASN else n.2) ++ "\n" ++
          " neighbor " ++ n.1 ++ " update-source " ++ call.source ++ "\n" := by
    intro n
    have htexts : (neighborStatements call.localASN call.source n).map BgpStatement.text =
        [" neighbor " ++ n.1 ++ " remote-as " ++ toString (if n.2 = 0 then call.localASN else n.2) ++ "\n",
          " neighbor " ++ n.1 ++ " update-source " ++ call.source ++ "\n"] := rfl
    simp only [htexts, String.join_cons, String.join_nil, String.append_empty, String.append_assoc]
  have hrouter : String.join ((if call.routerID ≠ "" then [BgpStatement.routerID call.routerID] else []).map
      BgpStatement.text) = if call.routerID ≠ "" then " bgp router-id " ++ call.routerID ++ "\n" else "" := by
    split
    · exact hone _
    · rfl
  have hfirst : String.join ([BgpStatement.router call.localASN].map BgpStatement.text) =
      "router bgp " ++ toString call.localASN ++ "\n" := hone _
  have hlast : String.join ([BgpStatement.done].map BgpStatement.text) = "!\n" := hone _
  simp only [bgpStatements, List.map_append, String.join_append, join_flatMap, hneighbor, hrouter, hfirst, hlast,
    List.map_map]
  rfl

theorem renderAndWrite_bgp {κ : Type} [IpHost κ] {routes : RouteTable → MapOrder String} {errs : FileErrors} {h : κ}
    {conf : String} (hconf : (renderAndWrite ex routes o errs call h).2.1.bgp = some conf) :
    conf = String.join ((bgpStatements ex o call).map BgpStatement.text) := by
  obtain ⟨hid, hoverlay, hcidrs⟩ := call.listening_keeps
  unfold renderAndWrite at hconf
  rw [← renderBGP_eq, RenderCall.routerID]
  split at hconf
  · cases hconf
  dsimp only at hconf
  split at hconf
  · cases hconf
  rw [hid, hoverlay, hcidrs] at hconf
  split at hconf
  · cases hconf
  · exact (Option.some.inj hconf).symm

end

-- ---------------------------------------------------------------------------
-- Bare addresses
-- ---------------------------------------------------------------------------

def Neighbors (stmts : List BgpStatement) (ip : String) : Prop :=
  (∃ asn, .remoteAs ip asn ∈ stmts) ∧ ∃ source, .updateSource ip source ∈ stmts

/-- Each peer is a neighbor by the address that is its next hop, its overlay
without the mask, and no address in a statement has a mask. -/
structure BareAddresses (ex : Expander) (o : MapOrder (String × Int)) (call : RenderCall) : Prop where
  nextHop : ∀ p ∈ call.peers, Neighbors (bgpStatements ex o call) (stripMask (overlayForPeer p.id call.peers))
  overlay : ∀ p ∈ call.peers, Neighbors (bgpStatements ex o call) (stripMask p.overlay)
  bare : ∀ s ∈ bgpStatements ex o call, ∀ a, s.address? = some a → '/' ∉ a.toList

section

variable {ex : Expander} {o : MapOrder (String × Int)} {call : RenderCall} {ip : String}

theorem get?_neighborOverlayIPs {peers : List Peer} :
    ((neighborOverlayIPs peers).get? ip).isSome ↔ ∃ p ∈ peers, p.allowedIPs.head? = some ip := by
  induction peers using List.reverseRecOn with
  | nil => simp [neighborOverlayIPs]
  | append_singleton peers p ih =>
    have hstep : neighborOverlayIPs (peers ++ [p]) = p.allowedIPs.head?.elim (neighborOverlayIPs peers) fun first =>
        (neighborOverlayIPs peers).put (first, 0) := by
      unfold neighborOverlayIPs
      rw [List.foldl_append, List.foldl_cons, List.foldl_nil]
      cases p.allowedIPs <;> rfl
    simp only [hstep, List.mem_append, List.mem_singleton, or_and_right, exists_or, exists_eq_left, ← ih]
    cases p.allowedIPs.head? with
    | none => simp
    | some first => by_cases hfirst : first = ip <;> simp [hfirst]

theorem mem_neighborOverlayIPs {peers : List Peer} : (∃ asn, (ip, asn) ∈ (neighborOverlayIPs peers).rows) ↔
    ∃ p ∈ peers, p.allowedIPs.head? = some ip := by
  rw [← get?_neighborOverlayIPs, Option.isSome_iff_exists]
  constructor
  · rintro ⟨asn, hrow⟩
    exact ⟨_, Table.get?_of_mem hrow⟩
  · rintro ⟨⟨key, asn⟩, hget⟩
    obtain ⟨hrow, rfl⟩ := Table.get?_eq_some.mp hget
    exact ⟨asn, hrow⟩

theorem mem_bgpStatements {s : BgpStatement} : s ∈ bgpStatements ex o call ↔
    s = .router call.localASN ∨ (call.routerID ≠ "" ∧ s = .routerID call.routerID) ∨
      (∃ n ∈ (neighborOverlayIPs call.peers).rows, s ∈ neighborStatements call.localASN call.source n) ∨
      (∃ pfx ∈ call.node.cidrs, .network pfx = s) ∨ (∃ r ∈ bgpStatics ex call.plan, .route r.1 r.2 = s) ∨
      s = .done := by
  simp only [bgpStatements, List.mem_append, List.mem_singleton, List.mem_flatMap, List.mem_map, Table.mem_range,
    List.mem_ite_nil_right, or_assoc]

theorem neighbors_iff : Neighbors (bgpStatements ex o call) ip ↔ ∃ p ∈ call.peers, p.allowedIPs.head? = some ip := by
  have hremote : (∃ asn, .remoteAs ip asn ∈ bgpStatements ex o call) ↔
      ∃ asn, (ip, asn) ∈ (neighborOverlayIPs call.peers).rows := by
    simp [mem_bgpStatements, neighborStatements]
  have hsource : (∃ source, .updateSource ip source ∈ bgpStatements ex o call) ↔
      ∃ asn, (ip, asn) ∈ (neighborOverlayIPs call.peers).rows := by
    simp [mem_bgpStatements, neighborStatements]
  rw [Neighbors, hremote, hsource, and_self, mem_neighborOverlayIPs]

theorem hop_of_static {pfx nh : String} (h : (pfx, nh) ∈ bgpStatics ex call.plan) :
    ∃ p ∈ call.peers, p.overlay ≠ "" ∧ nh = stripMask p.overlay := by
  have hhop : ∀ id, overlayForPeer id call.peers ≠ "" →
      ∃ p ∈ call.peers, p.overlay ≠ "" ∧ stripMask (overlayForPeer id call.peers) = stripMask p.overlay := by
    intro id hne
    obtain ⟨p, hp, heq⟩ := overlayForPeer_mem hne
    exact ⟨p, hp, heq ▸ hne, by rw [heq]⟩
  unfold bgpStatics at h
  dsimp only at h
  rcases List.mem_append.mp h with h | h
  · split at h
    next hegress =>
      obtain ⟨-, rfl⟩ := Prod.mk.inj (List.mem_singleton.mp h)
      exact hhop _ hegress.2.2
    next => cases h
  · obtain ⟨pr, -, h⟩ := List.mem_flatMap.mp h
    split at h
    · cases h
    split at h
    · cases h
    next hne =>
      obtain ⟨t, -, heq⟩ := List.mem_map.mp h
      obtain ⟨-, rfl⟩ := Prod.mk.inj heq
      exact hhop _ fun hempty => hne (stripMask_eq_empty.mpr hempty)

theorem address_mem {a : String} : (∃ s ∈ bgpStatements ex o call, s.address? = some a) ↔
    (call.routerID ≠ "" ∧ call.routerID = a) ∨ (∃ p ∈ call.peers, p.allowedIPs.head? = some a) ∨
      ∃ pfx, (pfx, a) ∈ bgpStatics ex call.plan := by
  rw [← mem_neighborOverlayIPs]
  constructor
  · rintro ⟨s, hs, ha⟩
    rcases mem_bgpStatements.mp hs with rfl | ⟨hid, rfl⟩ | ⟨n, hn, hs⟩ | ⟨pfx, -, rfl⟩ | ⟨r, hr, rfl⟩ | rfl
    · cases ha
    · exact .inl ⟨hid, Option.some.inj ha⟩
    · have hname : n.1 = a := by
        rcases List.mem_pair.mp hs with rfl | rfl <;> exact Option.some.inj ha
      exact .inr (.inl ⟨n.2, hname ▸ hn⟩)
    · cases ha
    · exact .inr (.inr ⟨r.1, Option.some.inj ha ▸ hr⟩)
    · cases ha
  · rintro (⟨hid, rfl⟩ | ⟨asn, hrow⟩ | ⟨pfx, hroute⟩)
    · exact ⟨_, mem_bgpStatements.mpr (.inr (.inl ⟨hid, rfl⟩)), rfl⟩
    · exact ⟨_, mem_bgpStatements.mpr (.inr (.inr (.inl ⟨_, hrow, List.mem_cons_self⟩))), rfl⟩
    · exact ⟨_, mem_bgpStatements.mpr (.inr (.inr (.inr (.inr (.inl ⟨_, hroute, rfl⟩))))), rfl⟩

end

-- ---------------------------------------------------------------------------
-- Plans
-- ---------------------------------------------------------------------------

/-- An IPv4 address, with a mask or without. -/
def IsIPv4 (s : String) : Prop := ∃ bits len, CIDR.ofText s = some ⟨.v4 bits, len⟩

theorem IsIPv4.addrText_ne_empty {s : String} (h : IsIPv4 s) : CIDR.addrText s ≠ "" := by
  obtain ⟨bits, len, htext⟩ := h
  have hdot := Addr.dot_mem_of_parseIPv4 (CIDR.ipv4_text htext).1
  intro hempty
  rw [hempty] at hdot
  cases hdot

theorem IsIPv4.ne_empty {s : String} (h : IsIPv4 s) : s ≠ "" := by
  rintro rfl
  exact h.addrText_ne_empty rfl

theorem IsIPv4.slash_not_mem_stripMask {s : String} (h : IsIPv4 s) : '/' ∉ (stripMask s).toList := by
  have hfront : s.toList.takeWhile (· ≠ '/') ≠ [] := fun hnil => h.addrText_ne_empty (congrArg String.ofList hnil)
  unfold stripMask beforeSlash
  dsimp only
  split
  next => exact CIDR.slash_not_mem_addrText s
  next hwhole =>
    have hlength : ¬ (s.toList.takeWhile (· ≠ '/')).length < s.toList.length := fun hlt => hwhole ⟨hlt, hfront⟩
    have hself : s.toList.takeWhile (· ≠ '/') = s.toList :=
      (List.takeWhile_prefix _).eq_of_length_le (Nat.le_of_not_lt hlength)
    rw [Option.getD_none, ← hself]
    exact fun hmem => absurd (List.mem_takeWhile_imp hmem) (by decide)

theorem stripMask_eq_self {s : String} (h : '/' ∉ s.toList) : stripMask s = s := ipWithoutMask_eq_self h

theorem Node.overlay_toPeer {n : Node} (h : n.overlayIP ≠ "") : n.toPeer.allowedIPs.head? = some n.overlayIP := by
  rw [n.peerOf_toPeer.allowedIPs, Node.prefixes, if_neg h, List.singleton_append, List.eraseDups_cons, List.head?_cons]

section

variable {ex : Expander} {o : MapOrder (String × Int)} {call : RenderCall}

def OnOverlay (peers : List Peer) : Prop := ∀ p ∈ peers, IsIPv4 p.overlay ∧ p.allowedIPs.head? = some p.overlay

theorem OnOverlay.overlayForPeer {peers : List Peer} (h : OnOverlay peers) {p : Peer} (hp : p ∈ peers) :
    ∃ q ∈ peers, overlayForPeer p.id peers = q.overlay := by
  unfold PeerWan.overlayForPeer
  cases hfind : peers.findSome? fun q => if q.id = p.id then q.allowedIPs.head? else none with
  | none =>
    have hnone := List.findSome?_eq_none_iff.mp hfind p hp
    rw [if_pos rfl, (h p hp).2] at hnone
    cases hnone
  | some ip =>
    obtain ⟨q, hq, hip⟩ := List.exists_of_findSome?_eq_some hfind
    split at hip
    next =>
      rw [(h q hq).2] at hip
      exact ⟨q, hq, (Option.some.inj hip).symm⟩
    next => cases hip

theorem bare_iff_of_overlays (hpeers : OnOverlay call.peers) :
    BareAddresses ex o call ↔ (∀ p ∈ call.peers, '/' ∉ p.overlay.toList) ∧ '/' ∉ call.routerID.toList := by
  constructor
  · intro h
    have hbare : ∀ a, (∃ s ∈ bgpStatements ex o call, s.address? = some a) → '/' ∉ a.toList :=
      fun a ⟨s, hs, ha⟩ => h.bare s hs a ha
    refine ⟨fun p hp => hbare _ (address_mem.mpr (.inr (.inl ⟨p, hp, (hpeers p hp).2⟩))), ?_⟩
    by_cases hid : call.routerID = ""
    · rw [hid]
      exact List.not_mem_nil
    · exact hbare _ (address_mem.mpr (.inl ⟨hid, rfl⟩))
  · rintro ⟨hoverlays, hid⟩
    have hneighbor : ∀ p ∈ call.peers, Neighbors (bgpStatements ex o call) (stripMask p.overlay) := by
      intro p hp
      rw [stripMask_eq_self (hoverlays p hp)]
      exact neighbors_iff.mpr ⟨p, hp, (hpeers p hp).2⟩
    refine ⟨fun p hp => ?_, hneighbor, fun s hs a ha => ?_⟩
    · obtain ⟨q, hq, hnext⟩ := hpeers.overlayForPeer hp
      rw [hnext]
      exact hneighbor q hq
    · rcases address_mem.mp ⟨s, hs, ha⟩ with ⟨-, rfl⟩ | ⟨p, hp, hhead⟩ | ⟨pfx, hroute⟩
      · exact hid
      · obtain rfl := Option.some.inj ((hpeers p hp).2.symm.trans hhead)
        exact hoverlays p hp
      · obtain ⟨p, hp, -, rfl⟩ := hop_of_static hroute
        exact (hpeers p hp).1.slash_not_mem_stripMask

end

theorem mem_buildPeerPlan_peered {targetID : String} {nodes : List Node} {health : HealthMap} {p : Peer} :
    p ∈ buildPeerPlan targetID nodes health ↔ ∃ n ∈ peered targetID health nodes, p = n.toPeer := by
  simp only [mem_buildPeerPlan, peered, List.mem_filter, decide_eq_true_eq, and_assoc]

theorem bareAddresses_iff (ex : Expander) (o : MapOrder (String × Int)) (call : RenderCall) (targetID : String)
    (nodes : List Node) (health : HealthMap) (hpeers : call.peers = buildPeerPlan targetID nodes health)
    (hoverlay : ∀ n ∈ nodes, IsIPv4 n.overlayIP) : BareAddresses ex o call ↔
      (∀ n ∈ peered targetID health nodes, '/' ∉ n.overlayIP.toList) ∧ '/' ∉ call.routerID.toList := by
  have hipv4 : ∀ n ∈ peered targetID health nodes, IsIPv4 n.overlayIP :=
    fun n hn => hoverlay n (List.mem_of_mem_filter hn)
  have hpeer : ∀ n ∈ peered targetID health nodes, n.toPeer.overlay = n.overlayIP := by
    intro n hn
    rw [Peer.overlay, List.headD_eq_head?_getD, n.overlay_toPeer (hipv4 n hn).ne_empty, Option.getD_some]
  have hplan : ∀ p ∈ call.peers, ∃ n ∈ peered targetID health nodes, p = n.toPeer :=
    fun p hp => mem_buildPeerPlan_peered.mp (hpeers ▸ hp)
  have hon : OnOverlay call.peers := by
    intro p hp
    obtain ⟨n, hn, rfl⟩ := hplan p hp
    rw [hpeer n hn]
    exact ⟨hipv4 n hn, n.overlay_toPeer (hipv4 n hn).ne_empty⟩
  rw [bare_iff_of_overlays hon]
  refine and_congr_left fun _ => ⟨fun h n hn => ?_, fun h p hp => ?_⟩
  · rw [← hpeer n hn]
    exact h _ (hpeers ▸ mem_buildPeerPlan_peered.mpr ⟨n, hn, rfl⟩)
  · obtain ⟨n, hn, rfl⟩ := hplan p hp
    rw [hpeer n hn]
    exact h n hn

def meshPeer (overlayIP : String) : Node :=
  { id := "b", publicKey := "key", overlayIP := overlayIP, cidrs := ["10.7.0.0/16"] }

def meshCall (overlayIP peerOverlayIP : String) : RenderCall where
  outputDir := "/etc/peer-wan"
  iface := "wg0"
  node := { id := "a", overlayIP := overlayIP }
  peers := buildPeerPlan "a" [meshPeer peerOverlayIP] ∅
  privateKey := ""
  asn := 0

theorem bareAddresses_unmasked : BareAddresses .literal default (meshCall "10.10.1.1" "10.10.2.1") := by
  refine (bareAddresses_iff .literal default (meshCall "10.10.1.1" "10.10.2.1") "a" [meshPeer "10.10.2.1"] ∅ rfl
    fun n hn => ?_).mpr ⟨by decide, by decide⟩
  obtain rfl := List.mem_singleton.mp hn
  exact ⟨0x0a0a0201, 32, by decide⟩

/-- The overlay addresses as the controller hands them out. -/
theorem bareAddresses_counterexample :
    IsIPv4 "10.10.2.1/32" ∧ ¬ BareAddresses .literal default (meshCall "10.10.1.1/32" "10.10.2.1/32") := by
  refine ⟨⟨0x0a0a0201, 32, by decide⟩, fun h => ?_⟩
  exact absurd (h.bare (.remoteAs "10.10.2.1/32" 65000) (by decide) "10.10.2.1/32" rfl) (by decide)

end PeerWan
