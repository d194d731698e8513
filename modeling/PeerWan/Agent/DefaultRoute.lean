import PeerWan.Agent.Kernel

/-!
# Three renderings of the default route

The kernel routes, the WireGuard configuration and the FRR configuration each
find out on their own where the default route goes: from the flag with the next
hop or else the egress peer, from the flag with the egress peer, and from the
egress peer alone. A rule may have the zero prefix as well.
-/

namespace PeerWan

open Lib

-- ---------------------------------------------------------------------------
-- Agreement
-- ---------------------------------------------------------------------------

def Peer.overlay (p : Peer) : String := p.allowedIPs.headD ""

section

variable (ex : Expander) (call : RenderCall)

/-- What the commands leave of a default route in a table 100 that had none. -/
def InstallsDefault (hop : Option RouteHop) : Prop :=
  ∀ o (k : Kernel), k.get? .t100 zeroPrefix = none →
    (applyStaticRoutes ex o call.plan call.iface k).get? .t100 zeroPrefix = hop

def InstalledThrough (p : Peer) : Prop :=
  p.overlay ≠ "" ∧ InstallsDefault ex call (some { via := firstPart p.overlay, dev := call.iface })

/-- The `i`-th peer of the WireGuard configuration has the zero prefix, and no
other has. -/
def GivenTo (i : Nat) : Prop :=
  (∃ q, (call.wgPeers ex)[i]? = some q ∧ zeroPrefix ∈ q.allowedIPs) ∧
    ∀ (j : Nat) q, (call.wgPeers ex)[j]? = some q → j ≠ i → zeroPrefix ∉ q.allowedIPs

def EmittedThrough (p : Peer) : Prop :=
  p.overlay ≠ "" ∧ (zeroPrefix, stripMask p.overlay) ∈ bgpStatics ex call.plan

structure DefaultsAgree : Prop where
  wireGuard : ∀ (i : Nat) p, call.peers[i]? = some p → (InstalledThrough ex call p ↔ GivenTo ex call i)
  bgp : ∀ (i : Nat) p, call.peers[i]? = some p → (InstalledThrough ex call p ↔ EmittedThrough ex call p)
  unset : InstallsDefault ex call none →
    (∀ (i : Nat) p q, call.peers[i]? = some p → (call.wgPeers ex)[i]? = some q → zeroPrefix ∈ q.allowedIPs →
      zeroPrefix ∈ p.allowedIPs) ∧ ∀ nh, (zeroPrefix, nh) ∉ bgpStatics ex call.plan

-- ---------------------------------------------------------------------------
-- What the settings say
-- ---------------------------------------------------------------------------

def hopTo (id : String) : Option String :=
  if overlayForPeer id call.peers = "" then none else some (overlayForPeer id call.peers)

/-- The next hops of the default route in the order of the commands: with the
flag the next hop or else the egress peer, then the rules that are not local. -/
def kernelHops : List String :=
  (if call.node.defaultRoute then
    hopTo call (if call.node.defaultRouteNextHop = "" then call.node.egressPeerID else call.node.defaultRouteNextHop)
    else none).toList ++
  call.node.policyRules.filterMap fun pr =>
    if pr.isLocal = false ∧ zeroPrefix ∈ ex.expand pr then hopTo call pr.nextID else none

/-- The next hops of the statements: the egress peer, then the rules. -/
def bgpHops : List String :=
  (if call.node.egressPeerID ≠ "" then hopTo call call.node.egressPeerID else none).toList ++
  call.node.policyRules.filterMap fun pr => if zeroPrefix ∈ ex.expand pr then hopTo call pr.nextID else none

/-- Nobody is named for the default route; or there is one peer that the
commands name last, that is wanted for it and that the statements name, and no
other peer is wanted, is named by a statement or has that overlay address. -/
def SettingsAgree : Prop :=
  (kernelHops ex call = [] ∧ bgpHops ex call = [] ∧ ∀ p ∈ call.peers, ¬ call.node.Wants ex p.id zeroPrefix) ∨
  ∃ (i : Nat) (p : Peer), call.peers[i]? = some p ∧ p.overlay ≠ "" ∧ (kernelHops ex call).getLast? = some p.overlay ∧
    call.node.Wants ex p.id zeroPrefix ∧ (∃ nh ∈ bgpHops ex call, stripMask nh = stripMask p.overlay) ∧
    ∀ (j : Nat) q, call.peers[j]? = some q → j ≠ i → ¬ call.node.Wants ex q.id zeroPrefix ∧
      (q.overlay ≠ "" → firstPart q.overlay ≠ firstPart p.overlay ∧
        ∀ nh ∈ bgpHops ex call, stripMask nh ≠ stripMask q.overlay)

end

variable {ex : Expander} {call : RenderCall}

theorem overlayForPeer_mem {id : String} {peers : List Peer} (h : overlayForPeer id peers ≠ "") :
    ∃ p ∈ peers, p.overlay = overlayForPeer id peers := by
  unfold overlayForPeer at h ⊢
  cases hfind : peers.findSome? fun p => if p.id = id then p.allowedIPs.head? else none with
  | none => simp [hfind] at h
  | some ip =>
    obtain ⟨p, hp, hip⟩ := List.exists_of_findSome?_eq_some hfind
    split at hip
    next => exact ⟨p, hp, by rw [Peer.overlay, List.headD_eq_head?_getD, hip]⟩
    next => cases hip

theorem hopTo_mem {id nh : String} (h : hopTo call id = some nh) : nh ≠ "" ∧ ∃ p ∈ call.peers, p.overlay = nh := by
  unfold hopTo at h
  split at h
  · cases h
  next hne =>
    cases h
    exact ⟨hne, overlayForPeer_mem hne⟩

theorem kernelHops_mem {nh : String} (h : nh ∈ kernelHops ex call) :
    nh ≠ "" ∧ ∃ p ∈ call.peers, p.overlay = nh := by
  unfold kernelHops at h
  rcases List.mem_append.mp h with h | h
  · split at h
    · exact hopTo_mem (Option.mem_toList.mp h)
    · cases h
  · obtain ⟨pr, -, hpr⟩ := List.mem_filterMap.mp h
    split at hpr
    · exact hopTo_mem hpr
    · cases hpr

theorem stripMask_eq_empty {ip : String} : stripMask ip = "" ↔ ip = "" := by
  unfold stripMask beforeSlash
  dsimp only
  split
  next h =>
    have hne : String.ofList (ip.toList.takeWhile (· ≠ '/')) ≠ "" := by
      intro heq
      exact h.2 (by simpa using congrArg String.toList heq)
    refine iff_of_false hne ?_
    rintro rfl
    exact absurd h.2 (by decide)
  next => rfl

-- ---------------------------------------------------------------------------
-- The commands
-- ---------------------------------------------------------------------------

theorem routeKey_of_masked {pfx : String} (h : '/' ∈ pfx.toList) : routeKey pfx = pfx := by
  unfold routeKey
  split
  next heq =>
    subst heq
    exact absurd h (by decide)
  next => rfl

theorem lastAt_defaultCmds (plan : Plan) (iface : String) :
    lastAt zeroPrefix ((defaultCmds plan iface).filterMap (IpCmd.assigns .t100)) =
      let nh := frrOverlayForPeer (if plan.defaultRouteNextHop = "" then plan.egressPeerID
        else plan.defaultRouteNextHop) plan.peers
      if plan.defaultRoute ∧ nh ≠ "" then some { via := firstPart nh, dev := iface } else none := by
  unfold defaultCmds
  dsimp only
  generalize frrOverlayForPeer _ plan.peers = nh
  split
  next => simp [List.filterMap_cons, IpCmd.assigns, routeKey, lastAt, Function.comp_def]
  next => rfl

theorem lastAt_map (pfxs : List String) (key : String) (hop : RouteHop) :
    lastAt key (pfxs.map fun pfx => (pfx, hop)) = if key ∈ pfxs then some hop else none := by
  split
  next h =>
    exact lastAt_of_forall ⟨(key, hop), List.mem_map.mpr ⟨key, h, rfl⟩, rfl⟩ fun w hw _ => by
      obtain ⟨_, _, rfl⟩ := List.mem_map.mp hw
      rfl
  next h =>
    rw [lastAt_eq_none]
    rintro w hw rfl
    obtain ⟨pfx, hpfx, rfl⟩ := List.mem_map.mp hw
    exact h hpfx

theorem lastAt_ruleCmds (primary : String × String) (peers : List Peer) (iface key : String) (pr : PolicyRule) :
    lastAt key ((ruleCmds ex primary peers iface pr).filterMap (IpCmd.assigns .t100)) =
      let nh := frrOverlayForPeer pr.nextID peers
      if pr.isLocal = false ∧ nh ≠ "" ∧ key ∈ ex.expand pr then some { via := firstPart nh, dev := iface }
      else none := by
  unfold ruleCmds
  dsimp only
  cases pr.isLocal with
  | true =>
    have hnone : ((ex.expand pr).flatMap (localCmds primary)).filterMap (IpCmd.assigns .t100) = [] := by
      rw [List.filterMap_flatMap, List.flatMap_eq_nil_iff]
      exact fun pfx _ => (localCmds_primary primary pfx).2
    rw [if_pos rfl, hnone]
    rfl
  | false =>
    by_cases hnh : frrOverlayForPeer pr.nextID peers = ""
    · simp [hnh]
    · have hvia : ((ex.expand pr).flatMap (viaCmds iface (frrOverlayForPeer pr.nextID peers))).filterMap
          (IpCmd.assigns .t100) = (ex.expand pr).map fun pfx =>
            (pfx, { via := firstPart (frrOverlayForPeer pr.nextID peers), dev := iface }) := by
        rw [List.filterMap_flatMap, List.map_eq_flatMap]
        refine List.flatMap_congr fun pfx hpfx => ?_
        simp [viaCmds, IpCmd.assigns, routeKey_of_masked (ex.masked pr pfx hpfx)]
      simp only [Bool.false_eq_true, if_false, hnh, hvia, lastAt_map, ne_eq, not_false_eq_true, true_and]

theorem lastAt_zero : lastAt zeroPrefix (planRoutes ex ("", "") call.plan call.iface .t100) =
    (kernelHops ex call).getLast?.map fun nh => { via := firstPart nh, dev := call.iface } := by
  unfold planRoutes policyCmds kernelHops
  rw [List.filterMap_append, List.filterMap_flatMap, lastAt_append, lastAt_flatMap, lastAt_defaultCmds,
    List.getLast?_append, Option.map_or, ← List.getLast?_map, List.map_filterMap]
  congr 1
  · congr 2
    funext pr
    rw [lastAt_ruleCmds]
    dsimp only [hopTo, frrOverlayForPeer, RenderCall.plan]
    cases pr.isLocal <;> by_cases hpfx : zeroPrefix ∈ ex.expand pr <;>
      by_cases hnh : overlayForPeer pr.nextID call.peers = "" <;> simp [hpfx, hnh]
  · have htarget : frrOverlayForPeer (if call.plan.defaultRouteNextHop = "" then call.plan.egressPeerID
        else call.plan.defaultRouteNextHop) call.plan.peers =
        overlayForPeer (if call.node.defaultRouteNextHop = "" then call.node.egressPeerID
          else call.node.defaultRouteNextHop) call.peers := rfl
    dsimp only
    rw [htarget, hopTo]
    generalize overlayForPeer _ call.peers = nh
    show (if call.node.defaultRoute = true ∧ nh ≠ "" then _ else _) = _
    by_cases hflag : call.node.defaultRoute = true <;> by_cases hnh : nh = "" <;> simp [hflag, hnh]

theorem installsDefault_iff (hop : Option RouteHop) : InstallsDefault ex call hop ↔
    ((kernelHops ex call).getLast?.map fun nh => { via := firstPart nh, dev := call.iface }) = hop := by
  unfold InstallsDefault
  simp only [Kernel.get?_t100, lastAt_zero]
  constructor
  · intro h
    have hbare := h (fun _ => default) ⟨fun _ => ∅, ∅⟩ rfl
    rwa [show (⟨fun _ => ∅, ∅⟩ : Kernel).get? .t100 zeroPrefix = none from rfl, Option.or_none] at hbare
  · intro h o k hk
    rw [hk, Option.or_none, h]

theorem mem_ruleStatics {nh : String} (pr : PolicyRule) :
    (zeroPrefix, nh) ∈ (if pr.viaNode = "" ∧ pr.path.length = 0 then []
      else if stripMask (overlayForPeer pr.nextID call.peers) = "" then []
      else (ex.expand pr).map fun t => (t, stripMask (overlayForPeer pr.nextID call.peers))) ↔
    ∃ hop, (if zeroPrefix ∈ ex.expand pr then hopTo call pr.nextID else none) = some hop ∧ nh = stripMask hop := by
  by_cases hpfx : zeroPrefix ∈ ex.expand pr
  · have htarget : ¬ (pr.viaNode = "" ∧ pr.path.length = 0) := by
      rintro ⟨hvia, hpath⟩
      have hinvalid : pr.validate = false := by simp [PolicyRule.validate, hvia, hpath]
      rw [ex.invalid pr hinvalid] at hpfx
      cases hpfx
    rw [if_neg htarget, if_pos hpfx]
    simp only [stripMask_eq_empty, hopTo]
    split <;> simp [hpfx, eq_comm]
  · rw [if_neg hpfx]
    split
    · simp
    · split <;> simp [hpfx]

theorem mem_egressStatics {nh : String} :
    (zeroPrefix, nh) ∈ (if call.node.egressPeerID ≠ "" ∧ call.peers.length > 0 ∧
      overlayForPeer call.node.egressPeerID call.peers ≠ "" then
        [(zeroPrefix, stripMask (overlayForPeer call.node.egressPeerID call.peers))] else []) ↔
    ∃ hop ∈ (if call.node.egressPeerID ≠ "" then hopTo call call.node.egressPeerID else none),
      nh = stripMask hop := by
  have hpeers : overlayForPeer call.node.egressPeerID call.peers ≠ "" → call.peers.length > 0 := by
    intro hne
    obtain ⟨p, hp, -⟩ := overlayForPeer_mem hne
    exact List.length_pos_of_mem hp
  unfold hopTo
  by_cases hid : call.node.egressPeerID = "" <;>
    by_cases hne : overlayForPeer call.node.egressPeerID call.peers = "" <;> simp_all

theorem mem_bgpStatics {nh : String} :
    (zeroPrefix, nh) ∈ bgpStatics ex call.plan ↔ ∃ hop ∈ bgpHops ex call, nh = stripMask hop := by
  unfold bgpStatics bgpHops
  rw [List.mem_append, List.mem_flatMap]
  simp only [List.mem_append, Option.mem_toList, List.mem_filterMap, or_and_right, exists_or]
  refine or_congr mem_egressStatics ?_
  constructor
  · rintro ⟨pr, hpr, hmem⟩
    obtain ⟨hop, hhop, hnh⟩ := (mem_ruleStatics pr).mp hmem
    exact ⟨hop, ⟨pr, hpr, hhop⟩, hnh⟩
  · rintro ⟨hop, ⟨pr, hpr, hhop⟩, hnh⟩
    exact ⟨pr, hpr, (mem_ruleStatics pr).mpr ⟨hop, hhop, hnh⟩⟩

-- ---------------------------------------------------------------------------
-- The three together
-- ---------------------------------------------------------------------------

theorem installedThrough_iff {p : Peer} : InstalledThrough ex call p ↔
    p.overlay ≠ "" ∧ ∃ nh, (kernelHops ex call).getLast? = some nh ∧ firstPart nh = firstPart p.overlay := by
  unfold InstalledThrough
  rw [installsDefault_iff]
  simp

theorem emittedThrough_iff {p : Peer} : EmittedThrough ex call p ↔
    p.overlay ≠ "" ∧ ∃ nh ∈ bgpHops ex call, stripMask nh = stripMask p.overlay := by
  unfold EmittedThrough
  rw [mem_bgpStatics]
  simp only [eq_comm]

theorem hasZero_iff (hown : ∀ p ∈ call.peers, zeroPrefix ∉ p.allowedIPs) {i : Nat} {p : Peer}
    (hp : call.peers[i]? = some p) :
    (∃ q, (call.wgPeers ex)[i]? = some q ∧ zeroPrefix ∈ q.allowedIPs) ↔ call.node.Wants ex p.id zeroPrefix := by
  obtain ⟨f, hf, hpeer, -⟩ := call.wgPeers_eq ex
  have hno := hown p (List.mem_of_getElem? hp)
  rw [hf, List.getElem?_map, hp]
  simp [(hpeer p).2, hno]

theorem givenTo_iff (hown : ∀ p ∈ call.peers, zeroPrefix ∉ p.allowedIPs) {i : Nat} {p : Peer}
    (hp : call.peers[i]? = some p) : GivenTo ex call i ↔ call.node.Wants ex p.id zeroPrefix ∧
      ∀ (j : Nat) q, call.peers[j]? = some q → j ≠ i → ¬ call.node.Wants ex q.id zeroPrefix := by
  refine and_congr (hasZero_iff hown hp) ?_
  obtain ⟨f, hf, -⟩ := call.wgPeers_eq ex
  constructor
  · intro h j q hq hj hwants
    obtain ⟨q', hq', hzero⟩ := (hasZero_iff hown hq).mpr hwants
    exact h j q' hq' hj hzero
  · intro h j q' hq' hj hzero
    rw [hf, List.getElem?_map, Option.map_eq_some_iff] at hq'
    obtain ⟨q, hq, rfl⟩ := hq'
    exact h j q hq hj ((hasZero_iff hown hq).mp ⟨f q, by rw [hf, List.getElem?_map, hq]; rfl, hzero⟩)

theorem installedThrough_of_last {p : Peer} (hne : p.overlay ≠ "")
    (hlast : (kernelHops ex call).getLast? = some p.overlay) : InstalledThrough ex call p :=
  installedThrough_iff.mpr ⟨hne, p.overlay, hlast, rfl⟩

theorem DefaultsAgree.settings (hown : ∀ p ∈ call.peers, zeroPrefix ∉ p.allowedIPs) (h : DefaultsAgree ex call) :
    SettingsAgree ex call := by
  cases hlast : (kernelHops ex call).getLast? with
  | none =>
    obtain ⟨hwg, hbgp⟩ := h.unset ((installsDefault_iff none).mpr (by rw [hlast]; rfl))
    refine .inl ⟨List.getLast?_eq_none_iff.mp hlast, ?_, fun p hp hwants => ?_⟩
    · rw [List.eq_nil_iff_forall_not_mem]
      exact fun nh hnh => hbgp (stripMask nh) (mem_bgpStatics.mpr ⟨nh, hnh, rfl⟩)
    · obtain ⟨i, hi⟩ := List.mem_iff_getElem?.mp hp
      obtain ⟨q, hq, hzero⟩ := (hasZero_iff hown hi).mpr hwants
      exact hown p hp (hwg i p q hi hq hzero)
  | some nh =>
    obtain ⟨hne, p, hp, rfl⟩ := kernelHops_mem (List.mem_of_getLast? hlast)
    obtain ⟨i, hi⟩ := List.mem_iff_getElem?.mp hp
    have hthrough := installedThrough_of_last hne hlast
    obtain ⟨hwants, honly⟩ := (givenTo_iff hown hi).mp ((h.wireGuard i p hi).mp hthrough)
    -- nothing goes through another peer, or WireGuard would have to give the prefix to it
    have hother : ∀ (j : Nat) q, call.peers[j]? = some q → j ≠ i → ¬ InstalledThrough ex call q := by
      intro j q hq hj hq'
      exact honly j q hq hj ((givenTo_iff hown hq).mp ((h.wireGuard j q hq).mp hq')).1
    refine .inr ⟨i, p, hi, hne, hlast, hwants, (emittedThrough_iff.mp ((h.bgp i p hi).mp hthrough)).2,
      fun j q hq hj => ⟨honly j q hq hj, fun hoverlay => ⟨fun heq => ?_, fun nh hnh heq => ?_⟩⟩⟩
    · exact hother j q hq hj (installedThrough_iff.mpr ⟨hoverlay, p.overlay, hlast, heq.symm⟩)
    · exact hother j q hq hj ((h.bgp j q hq).mpr (emittedThrough_iff.mpr ⟨hoverlay, nh, hnh, heq⟩))

theorem defaults_agree_of_unnamed (hown : ∀ p ∈ call.peers, zeroPrefix ∉ p.allowedIPs)
    (hkernel : kernelHops ex call = []) (hbgp : bgpHops ex call = [])
    (hwg : ∀ p ∈ call.peers, ¬ call.node.Wants ex p.id zeroPrefix) : DefaultsAgree ex call := by
  have hnot : ∀ p, ¬ InstalledThrough ex call p := by
    intro p hp
    obtain ⟨-, nh, hnh, -⟩ := installedThrough_iff.mp hp
    simp [hkernel] at hnh
  constructor
  case wireGuard =>
    intro i p hi
    exact iff_of_false (hnot p) fun hgiven =>
      hwg p (List.mem_of_getElem? hi) ((givenTo_iff hown hi).mp hgiven).1
  case bgp =>
    intro i p hi
    refine iff_of_false (hnot p) fun hemitted => ?_
    obtain ⟨-, nh, hnh, -⟩ := emittedThrough_iff.mp hemitted
    simp [hbgp] at hnh
  case unset =>
    refine fun _ => ⟨fun i p q hi hq hzero => ?_, fun nh hnh => ?_⟩
    · exact absurd ((hasZero_iff hown hi).mp ⟨q, hq, hzero⟩) (hwg p (List.mem_of_getElem? hi))
    · obtain ⟨hop, hhop, -⟩ := mem_bgpStatics.mp hnh
      simp [hbgp] at hhop

theorem defaults_agree_of_named (hown : ∀ p ∈ call.peers, zeroPrefix ∉ p.allowedIPs) {i : Nat} {p : Peer}
    (hi : call.peers[i]? = some p) (hne : p.overlay ≠ "") (hlast : (kernelHops ex call).getLast? = some p.overlay)
    (hwants : call.node.Wants ex p.id zeroPrefix)
    (hemit : ∃ nh ∈ bgpHops ex call, stripMask nh = stripMask p.overlay)
    (hother : ∀ (j : Nat) q, call.peers[j]? = some q → j ≠ i → ¬ call.node.Wants ex q.id zeroPrefix ∧
      (q.overlay ≠ "" → firstPart q.overlay ≠ firstPart p.overlay ∧
        ∀ nh ∈ bgpHops ex call, stripMask nh ≠ stripMask q.overlay)) : DefaultsAgree ex call := by
  have hthrough := installedThrough_of_last hne hlast
  have hgiven : GivenTo ex call i := (givenTo_iff hown hi).mpr ⟨hwants, fun j q hq hj => (hother j q hq hj).1⟩
  have hnot : ∀ (j : Nat) q, call.peers[j]? = some q → j ≠ i → ¬ InstalledThrough ex call q := by
    intro j q hq hj hq'
    obtain ⟨hoverlay, nh, hnh, heq⟩ := installedThrough_iff.mp hq'
    obtain rfl : p.overlay = nh := Option.some.inj (hlast.symm.trans hnh)
    exact ((hother j q hq hj).2 hoverlay).1 heq.symm
  constructor
  case wireGuard =>
    intro j q hq
    by_cases hj : j = i
    · subst hj
      obtain rfl : p = q := Option.some.inj (hi.symm.trans hq)
      exact iff_of_true hthrough hgiven
    · exact iff_of_false (hnot j q hq hj) fun h => (hother j q hq hj).1 ((givenTo_iff hown hq).mp h).1
  case bgp =>
    intro j q hq
    by_cases hj : j = i
    · subst hj
      obtain rfl : p = q := Option.some.inj (hi.symm.trans hq)
      exact iff_of_true hthrough (emittedThrough_iff.mpr ⟨hne, hemit⟩)
    · refine iff_of_false (hnot j q hq hj) fun h => ?_
      obtain ⟨hoverlay, nh, hnh, heq⟩ := emittedThrough_iff.mp h
      exact ((hother j q hq hj).2 hoverlay).2 nh hnh heq
  case unset =>
    intro h
    have hnone := (installsDefault_iff none).mp h
    rw [hlast] at hnone
    cases hnone

/-- The three renderings agree exactly when the settings name one peer, or none. -/
theorem defaults_agree_iff (ex : Expander) (call : RenderCall)
    (hown : ∀ p ∈ call.peers, zeroPrefix ∉ p.allowedIPs) : DefaultsAgree ex call ↔ SettingsAgree ex call := by
  constructor
  · exact DefaultsAgree.settings hown
  · rintro (⟨hkernel, hbgp, hwg⟩ | ⟨i, p, hi, hne, hlast, hwants, hemit, hother⟩)
    · exact defaults_agree_of_unnamed hown hkernel hbgp hwg
    · exact defaults_agree_of_named hown hi hne hlast hwants hemit hother

/-- What is rendered for a node with an egress peer, with the flag or without. -/
def egressCall (defaultRoute : Bool) : RenderCall where
  outputDir := "/etc/peer-wan"
  iface := "wg0"
  node := { id := "n", egressPeerID := "a", defaultRoute := defaultRoute }
  peers := [{ id := "a", allowedIPs := ["10.10.1.2/32"] }]
  privateKey := ""
  asn := 0

theorem defaults_agree_with_flag : DefaultsAgree .literal (egressCall true) := by
  refine (defaults_agree_iff .literal (egressCall true) (by decide)).mpr <| .inr
    ⟨0, { id := "a", allowedIPs := ["10.10.1.2/32"] }, rfl, by decide, by decide,
      ⟨by decide, .inr ⟨rfl, rfl, rfl⟩⟩, ⟨"10.10.1.2/32", by decide, rfl⟩, fun j q hq hj => ?_⟩
  cases j with
  | zero => exact absurd rfl hj
  | succ j => simp [egressCall] at hq

/-- Without the flag there is no default route, but the statement is there. -/
theorem statement_without_flag : ¬ DefaultsAgree .literal (egressCall false) := by
  intro h
  have hunset : InstallsDefault .literal (egressCall false) none := by
    intro o k hk
    rw [Kernel.get?_t100, hk]
    decide
  exact (h.unset hunset).2 "10.10.1.2" (by decide)

end PeerWan
