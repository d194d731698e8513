import PeerWan.Agent.Kernel

/-!
# The next hop in the kernel and in WireGuard

The commands of a plan follow the rules in their order, and the last rule for a
prefix decides. WireGuard gives a prefix to the last peer that lists it, and the
peers stand in an order of their own.
-/

namespace PeerWan

open Lib

def lastRule (ex : Expander) (rules : List PolicyRule) (pfx : String) : Option PolicyRule :=
  (rules.filter fun pr => pfx ∈ ex.expand pr).getLast?

/-- The last peer whose allowed IPs have the prefix: the one WireGuard sends to. -/
def lastClaiming (peers : List Peer) (pfx : String) : Option Peer :=
  (peers.filter fun p => pfx ∈ p.allowedIPs).getLast?

/-- The commands of the rule route the prefix through the overlay of the peer
that it names next. -/
def RoutesThrough (ex : Expander) (call : RenderCall) (pr : PolicyRule) (pfx : String) (p : Peer) : Prop :=
  p.id = pr.nextID ∧ ∀ primary, ∀ t ∈ [RouteTable.main, .t100],
    .routeReplace pfx { via := firstPart (p.allowedIPs.headD ""), dev := call.iface } t ∈
      ruleCmds ex primary call.peers call.iface pr

/-- For each prefix, WireGuard sends to the peer that the last rule routes it
through; and a prefix whose last rule is local is given to no peer. -/
def NextHopsAgree (ex : Expander) (call : RenderCall) : Prop :=
  ∀ pfx pr, lastRule ex call.node.policyRules pfx = some pr →
    (∀ p ∈ call.peers, RoutesThrough ex call pr pfx p →
      (lastClaiming (call.wgPeers ex) pfx).map (·.id) = some p.id) ∧
    (pr.isLocal = true → ∀ (i : Nat) p q, call.peers[i]? = some p → (call.wgPeers ex)[i]? = some q →
      pfx ∈ q.allowedIPs → pfx ∈ p.allowedIPs)

/-- No peer after the next hop lists the prefix or is wanted for it as well, and
a prefix whose last rule is local is wanted of no peer. -/
def OneHopEach (ex : Expander) (call : RenderCall) : Prop :=
  ∀ pfx pr, lastRule ex call.node.policyRules pfx = some pr →
    (pr.isLocal = false → ∀ before p after, call.peers = before ++ p :: after → p.id = pr.nextID →
      p.allowedIPs.headD "" ≠ "" → (p.id ≠ "" ∨ pfx ∈ p.allowedIPs) ∧
        ∀ q ∈ after, pfx ∉ q.allowedIPs ∧ ¬ call.node.Wants ex q.id pfx) ∧
    (pr.isLocal = true → ∀ p ∈ call.peers, call.node.Wants ex p.id pfx → pfx ∈ p.allowedIPs)

theorem mem_of_lastRule {ex : Expander} {rules : List PolicyRule} {pfx : String} {pr : PolicyRule}
    (h : lastRule ex rules pfx = some pr) : pr ∈ rules ∧ pfx ∈ ex.expand pr := by
  have hmem := List.mem_filter.mp (List.mem_of_getLast? h)
  exact ⟨hmem.1, of_decide_eq_true hmem.2⟩

/-- Where the IDs are distinct, a peer is the last one to claim a prefix exactly
when it claims it and none after it does. -/
theorem lastClaiming_iff {before after : List Peer} {p : Peer} {pfx : String}
    (hids : ((before ++ p :: after).map (·.id)).Nodup) :
    (lastClaiming (before ++ p :: after) pfx).map (·.id) = some p.id ↔
      pfx ∈ p.allowedIPs ∧ ∀ q ∈ after, pfx ∉ q.allowedIPs := by
  have hother : ∀ q ∈ before ++ after, q.id ≠ p.id := by
    have hperm : (before ++ p :: after).Perm (p :: (before ++ after)) := List.perm_middle
    have hnodup := ((hperm.map (·.id)).nodup_iff.mp hids)
    rw [List.map_cons, List.nodup_cons] at hnodup
    intro q hq hid
    exact hnodup.1 (List.mem_map.mpr ⟨q, hq, hid⟩)
  unfold lastClaiming
  rw [List.filter_append, List.getLast?_append, List.filter_cons]
  cases hlast : (after.filter fun q => pfx ∈ q.allowedIPs).getLast? with
  | some q =>
    obtain ⟨hq, hclaims⟩ := List.mem_filter.mp (List.mem_of_getLast? hlast)
    have hne := hother q (List.mem_append_right _ hq)
    have hnot : ¬ (pfx ∈ p.allowedIPs ∧ ∀ q ∈ after, pfx ∉ q.allowedIPs) :=
      fun h => h.2 q hq (of_decide_eq_true hclaims)
    split <;> simp [List.getLast?_cons, hlast, hne, hnot]
  | none =>
    have hnone : ∀ q ∈ after, pfx ∉ q.allowedIPs := by simpa using hlast
    split
    next hp =>
      have hp : pfx ∈ p.allowedIPs := by simpa using hp
      simpa [List.getLast?_cons, hlast, hp] using hnone
    next hp =>
      have hp : pfx ∉ p.allowedIPs := by simpa using hp
      have hbefore : ∀ q, (before.filter fun q => pfx ∈ q.allowedIPs).getLast? = some q → q.id ≠ p.id := fun q hq =>
        hother q (List.mem_append_left _ (List.mem_filter.mp (List.mem_of_getLast? hq)).1)
      cases hbeforelast : (before.filter fun q => pfx ∈ q.allowedIPs).getLast? with
      | none => simp [hlast, hp]
      | some q => simp [hlast, hp, hbefore q hbeforelast]

theorem overlayForPeer_of_mem {peers : List Peer} (hids : (peers.map (·.id)).Nodup) {p : Peer} (hp : p ∈ peers) :
    overlayForPeer p.id peers = p.allowedIPs.headD "" := by
  have hfind : ∀ q ∈ peers, q.id = p.id → q = p := fun q hq hid => List.inj_on_of_nodup_map hids hq hp hid
  unfold overlayForPeer
  cases hhead : p.allowedIPs.head? with
  | none =>
    have hnone : (peers.findSome? fun q => if q.id = p.id then q.allowedIPs.head? else none) = none := by
      rw [List.findSome?_eq_none_iff]
      intro q hq
      split
      next hid => rw [hfind q hq hid, hhead]
      next => rfl
    rw [hnone, List.headD_eq_head?_getD, hhead]
  | some ip =>
    cases hsome : peers.findSome? fun q => if q.id = p.id then q.allowedIPs.head? else none with
    | none =>
      have habsent := List.findSome?_eq_none_iff.mp hsome p hp
      rw [if_pos rfl, hhead] at habsent
      cases habsent
    | some ip' =>
      obtain ⟨q, hq, hip⟩ := List.exists_of_findSome?_eq_some hsome
      split at hip
      next hid =>
        rw [hfind q hq hid] at hip
        rw [List.headD_eq_head?_getD, hip]
      next => cases hip

/-- A rule routes its prefix through the peer that it names next, unless it is
local or the peer has no overlay. -/
theorem routesThrough_iff {ex : Expander} {call : RenderCall} (hids : (call.peers.map (·.id)).Nodup)
    {pr : PolicyRule} {pfx : String} (hpfx : pfx ∈ ex.expand pr) {p : Peer} (hp : p ∈ call.peers) :
    RoutesThrough ex call pr pfx p ↔ p.id = pr.nextID ∧ pr.isLocal = false ∧ p.allowedIPs.headD "" ≠ "" := by
  refine and_congr_right fun hid => ?_
  have hoverlay : frrOverlayForPeer pr.nextID call.peers = p.allowedIPs.headD "" :=
    hid ▸ overlayForPeer_of_mem hids hp
  unfold ruleCmds
  simp only [hoverlay]
  cases pr.isLocal with
  | true =>
    have hnot : ∀ hop, IpCmd.routeReplace pfx hop .t100 ∉ (ex.expand pr).flatMap (localCmds ("", "")) := by
      simp [localCmds]
    simp only [if_true, reduceCtorEq, false_and, iff_false]
    exact fun h => hnot _ (h ("", "") .t100 (by simp))
  | false =>
    simp only [Bool.false_eq_true, if_false, true_and]
    split
    next hempty =>
      refine iff_of_false (fun h => ?_) (fun h => h hempty)
      exact absurd (h ("", "") .main (by simp)) List.not_mem_nil
    next hsome =>
      refine iff_of_true (fun _ t ht => List.mem_flatMap.mpr ⟨pfx, hpfx, ?_⟩) hsome
      simp only [List.mem_cons, List.not_mem_nil, or_false] at ht
      rcases ht with rfl | rfl <;> simp [viaCmds]

/-- WireGuard sends to a peer that has the prefix or is wanted for it, if no later
peer has it or is wanted for it. -/
theorem lastClaiming_wgPeers {ex : Expander} {call : RenderCall} (hids : (call.peers.map (·.id)).Nodup)
    {before after : List Peer} {p : Peer} (hsplit : call.peers = before ++ p :: after) (pfx : String) :
    (lastClaiming (call.wgPeers ex) pfx).map (·.id) = some p.id ↔
      (pfx ∈ p.allowedIPs ∨ call.node.Wants ex p.id pfx) ∧
        ∀ q ∈ after, pfx ∉ q.allowedIPs ∧ ¬ call.node.Wants ex q.id pfx := by
  obtain ⟨f, hf, hpeer, -⟩ := call.wgPeers_eq ex
  have hmap : call.wgPeers ex = before.map f ++ f p :: after.map f := by
    rw [hf, hsplit, List.map_append, List.map_cons]
  have hnodup : ((before.map f ++ f p :: after.map f).map (·.id)).Nodup := by
    rw [← hmap, hf, List.map_map]
    exact (List.map_congr_left fun p _ => (hpeer p).1) ▸ hids
  have hlast : (lastClaiming (before.map f ++ f p :: after.map f) pfx).map (·.id) = some (f p).id ↔ _ :=
    lastClaiming_iff hnodup
  rw [(hpeer p).1, (hpeer p).2] at hlast
  rw [hmap, hlast]
  simp [(hpeer _).2]

theorem gains_iff {ex : Expander} {call : RenderCall} (pfx : String) :
    (∀ (i : Nat) p q, call.peers[i]? = some p → (call.wgPeers ex)[i]? = some q →
        pfx ∈ q.allowedIPs → pfx ∈ p.allowedIPs) ↔
      ∀ p ∈ call.peers, call.node.Wants ex p.id pfx → pfx ∈ p.allowedIPs := by
  obtain ⟨f, hf, hpeer, -⟩ := call.wgPeers_eq ex
  rw [hf]
  constructor
  · intro h p hp hwants
    obtain ⟨i, hi⟩ := List.mem_iff_getElem?.mp hp
    exact h i p (f p) hi (by rw [List.getElem?_map, hi]; rfl) (((hpeer p).2 pfx).mpr (.inr hwants))
  · intro h i p q hp hq hpfx
    rw [List.getElem?_map, hp] at hq
    cases hq
    rcases ((hpeer p).2 pfx).mp hpfx with hown | hwants
    · exact hown
    · exact h p (List.mem_of_getElem? hp) hwants

/-- The two choices of a next hop are the same exactly when no later peer and no
other rule comes in between. -/
theorem nextHops_agree_iff (ex : Expander) (call : RenderCall) (hids : (call.peers.map (·.id)).Nodup) :
    NextHopsAgree ex call ↔ OneHopEach ex call := by
  refine forall_congr' fun pfx => forall_congr' fun pr => imp_congr_right fun hlast => and_congr ?_ ?_
  · obtain ⟨hpr, hpfx⟩ := mem_of_lastRule hlast
    constructor
    · intro h hlocal before p after hsplit hid hoverlay
      have hp : p ∈ call.peers := hsplit ▸ by simp
      obtain ⟨hclaims, hafter⟩ := (lastClaiming_wgPeers hids hsplit pfx).mp
        (h p hp ((routesThrough_iff hids hpfx hp).mpr ⟨hid, hlocal, hoverlay⟩))
      exact ⟨hclaims.symm.imp_left And.left, hafter⟩
    · intro h p hp hroutes
      obtain ⟨hid, hlocal, hoverlay⟩ := (routesThrough_iff hids hpfx hp).mp hroutes
      obtain ⟨before, after, hsplit⟩ := List.append_of_mem hp
      obtain ⟨hclaims, hafter⟩ := h hlocal before p after hsplit hid hoverlay
      refine (lastClaiming_wgPeers hids hsplit pfx).mpr ⟨?_, hafter⟩
      rcases hclaims with hne | hown
      · exact .inr ⟨hne, .inl ⟨pr, hpr, hid.symm, hpfx⟩⟩
      · exact .inl hown
  · exact imp_congr_right fun _ => gains_iff pfx

def sampleCall (rules : List PolicyRule) : RenderCall where
  outputDir := "/etc/peer-wan"
  iface := "wg0"
  node := { id := "n", policyRules := rules }
  peers := [{ id := "a", allowedIPs := ["10.10.1.2/32"] }, { id := "b", allowedIPs := ["10.10.1.3/32"] }]
  privateKey := ""
  asn := 0

theorem nextHops_agree_for_one_rule :
    NextHopsAgree .literal (sampleCall [{ pfx := "10.9.0.0/16", viaNode := "b" }]) := by
  refine (nextHops_agree_iff .literal _ (by decide)).mpr fun pfx pr hlast => ?_
  obtain ⟨hpr, hpfx⟩ := mem_of_lastRule hlast
  obtain rfl := List.mem_singleton.mp hpr
  refine ⟨fun _ before p after hsplit hid _ => ?_, fun hlocal => absurd hlocal (by decide)⟩
  refine ⟨.inl (hid ▸ by decide), fun q hq => ?_⟩
  -- the peer is the last one
  match before with
  | [] =>
    obtain ⟨rfl, -⟩ := List.cons.inj hsplit
    exact absurd hid (by decide)
  | [_] =>
    obtain ⟨-, rfl⟩ := List.cons.inj (List.cons.inj hsplit).2
    cases hq
  | _ :: _ :: _ => simp [sampleCall] at hsplit

/-- Two rules have the prefix. The last one names the first peer, and WireGuard
gives it to the second. -/
theorem last_peer_is_not_last_rule : ¬ NextHopsAgree .literal
    (sampleCall [{ pfx := "10.9.0.0/16", viaNode := "b" }, { pfx := "10.9.0.0/16", viaNode := "a" }]) := by
  intro h
  have hlast := (h "10.9.0.0/16" { pfx := "10.9.0.0/16", viaNode := "a" } (by decide)).1
    { id := "a", allowedIPs := ["10.10.1.2/32"] } (by decide)
    ((routesThrough_iff (by decide) (by decide) (by decide)).mpr ⟨rfl, by decide, by decide⟩)
  revert hlast
  decide

end PeerWan
