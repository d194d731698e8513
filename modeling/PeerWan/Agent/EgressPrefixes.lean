import PeerWan.Agent.Render

/-!
# What the peers are given to carry

`augmentEgressAllowedIPs` collects the prefixes of all rules by their next hop,
and then gives each peer the collected ones that it does not have. The result,
peer by peer, with nothing said of the collecting.
-/

namespace PeerWan

-- ---------------------------------------------------------------------------
-- Lists without repetitions
-- ---------------------------------------------------------------------------

theorem addAllowed_eq (allowed want : List String) :
    addAllowed allowed want = allowed ++ (want.filter (· ∉ allowed)).eraseDups := by
  unfold addAllowed
  induction want generalizing allowed with
  | nil => simp
  | cons pref want ih =>
    rw [List.foldl_cons, ih]
    by_cases hold : pref ∈ allowed
    · rw [if_pos hold, List.filter_cons_of_neg (by simpa using hold)]
    · have hlater : want.filter (· ∉ allowed ++ [pref]) = (want.filter (· ∉ allowed)).filter fun b => !b == pref := by
        rw [List.filter_filter]
        refine List.filter_congr fun b _ => ?_
        by_cases hb : b = pref <;> simp [hb]
      rw [if_neg hold, List.filter_cons_of_pos (by simpa using hold), List.eraseDups_cons, hlater, List.append_assoc]
      rfl

theorem addAllowed_append (allowed want more : List String) :
    addAllowed allowed (want ++ more) = addAllowed (addAllowed allowed want) more := List.foldl_append ..

theorem addAllowed_of_subset {allowed want : List String} (h : ∀ pref ∈ want, pref ∈ allowed) :
    addAllowed allowed want = allowed := by
  have hnone : want.filter (· ∉ allowed) = [] := by
    refine List.filter_eq_nil_iff.mpr fun pref hpref => ?_
    simpa using h pref hpref
  rw [addAllowed_eq, hnone, List.eraseDups_nil, List.append_nil]

-- ---------------------------------------------------------------------------
-- The targets
-- ---------------------------------------------------------------------------

section

variable (ex : Expander) (node : Node)

/-- The prefixes of the rules whose next hop is the peer, in the order of the rules. -/
def rulePrefixes (id : String) : List String :=
  (node.policyRules.filter fun pr => pr.nextID = id).flatMap ex.expand

def defaultPrefix (id : String) : List String :=
  if node.defaultRoute = true ∧ node.egressPeerID = id then [zeroPrefix] else []

theorem ruleTargets_eq (rules : List PolicyRule) (targets : String → List String) {id : String} (hid : id ≠ "") :
    rules.foldl (fun targets pr =>
      let pfx := ex.expand pr
      let target := pr.nextID
      if pfx = [] ∨ target = "" then targets
      else Function.update targets target (targets target ++ pfx)) targets id =
    targets id ++ (rules.filter fun pr => pr.nextID = id).flatMap ex.expand := by
  induction rules generalizing targets with
  | nil => simp
  | cons pr rules ih =>
    rw [List.foldl_cons, ih]
    by_cases htarget : pr.nextID = id
    · subst htarget
      rw [List.filter_cons_of_pos (by simp), List.flatMap_cons, ← List.append_assoc]
      refine congrArg (· ++ _) ?_
      split
      next hskip => rw [hskip.resolve_right hid, List.append_nil]
      next => exact Function.update_self ..
    · rw [List.filter_cons_of_neg (by simpa using htarget)]
      refine congrArg (· ++ _) ?_
      split
      next => rfl
      next => exact Function.update_of_ne (Ne.symm htarget) ..

theorem egressTargets_eq {id : String} (hid : id ≠ "") :
    egressTargets ex node id = rulePrefixes ex node id ++ defaultPrefix node id := by
  unfold egressTargets
  dsimp only
  have hrules := ruleTargets_eq ex node.policyRules (fun _ => []) hid
  rw [List.nil_append] at hrules
  split
  next hdefault =>
    by_cases hegress : node.egressPeerID = id
    · subst hegress
      rw [Function.update_self, hrules, defaultPrefix, if_pos ⟨hdefault.1, rfl⟩]
      rfl
    · rw [Function.update_of_ne (Ne.symm hegress), hrules, defaultPrefix, if_neg fun h => hegress h.2, List.append_nil]
      rfl
  next hdefault =>
    have hno : ¬ (node.defaultRoute = true ∧ node.egressPeerID = id) := fun h => hdefault ⟨h.1, h.2 ▸ hid⟩
    rw [hrules, defaultPrefix, if_neg hno, List.append_nil]
    rfl

-- ---------------------------------------------------------------------------
-- The peers
-- ---------------------------------------------------------------------------

/-- The prefixes of its rules that the peer does not have, once each. -/
def newPrefixes (p : Peer) : List String :=
  ((rulePrefixes ex node p.id).filter (· ∉ p.allowedIPs)).eraseDups

def newDefault (p : Peer) : List String :=
  if node.defaultRoute = true ∧ node.egressPeerID = p.id ∧ zeroPrefix ∉ p.allowedIPs ++ newPrefixes ex node p then
    [zeroPrefix]
  else []

def carrying (p : Peer) : Peer := { p with allowedIPs := p.allowedIPs ++ newPrefixes ex node p ++ newDefault ex node p }

theorem augmentEgressAllowedIPs_eq {peers : List Peer} (hids : ∀ p ∈ peers, p.id ≠ "") :
    augmentEgressAllowedIPs ex peers node = peers.map (carrying ex node) := by
  refine List.map_congr_left fun p hp => ?_
  have hrules : addAllowed p.allowedIPs (rulePrefixes ex node p.id) = p.allowedIPs ++ newPrefixes ex node p :=
    addAllowed_eq ..
  have hdefault : addAllowed (p.allowedIPs ++ newPrefixes ex node p) (defaultPrefix node p.id) =
      p.allowedIPs ++ newPrefixes ex node p ++ newDefault ex node p := by
    rw [addAllowed_eq, defaultPrefix, newDefault]
    by_cases hegress : node.defaultRoute = true ∧ node.egressPeerID = p.id
    · by_cases hzero : zeroPrefix ∈ p.allowedIPs ++ newPrefixes ex node p
      · rw [if_pos hegress, if_neg fun h => h.2.2 hzero, List.filter_cons_of_neg (by simpa only [decide_eq_true_eq, not_not] using hzero)]
        rfl
      · rw [if_pos hegress, if_pos ⟨hegress.1, hegress.2, hzero⟩, List.filter_cons_of_pos (by simpa only [decide_eq_true_eq] using hzero)]
        rfl
    · rw [if_neg hegress, if_neg fun h => hegress ⟨h.1, h.2.1⟩]
      rfl
  rw [carrying, egressTargets_eq ex node (hids p hp), addAllowed_append, hrules, hdefault]

theorem augment_again (peers : List Peer) : augmentEgressAllowedIPs ex (augmentEgressAllowedIPs ex peers node) node =
    augmentEgressAllowedIPs ex peers node := by
  unfold augmentEgressAllowedIPs
  rw [List.map_map]
  refine List.map_congr_left fun p _ => ?_
  have hsame : addAllowed (addAllowed p.allowedIPs (egressTargets ex node p.id)) (egressTargets ex node p.id) =
      addAllowed p.allowedIPs (egressTargets ex node p.id) :=
    addAllowed_of_subset fun pref hpref => mem_addAllowed.mpr (.inr hpref)
  exact congrArg (fun allowed => { p with allowedIPs := allowed }) hsame

theorem carrying_of_no_target {p : Peer} (hrules : ∀ pr ∈ node.policyRules, pr.nextID ≠ p.id)
    (hegress : ¬ (node.defaultRoute = true ∧ node.egressPeerID = p.id)) : carrying ex node p = p := by
  have hnone : node.policyRules.filter (fun pr => pr.nextID = p.id) = [] :=
    List.filter_eq_nil_iff.mpr fun pr hpr => by simpa using hrules pr hpr
  have hprefixes : newPrefixes ex node p = [] := by
    rw [newPrefixes, rulePrefixes, hnone]
    rfl
  have hdefault : newDefault ex node p = [] := if_neg fun h => hegress ⟨h.1, h.2.1⟩
  rw [carrying, hprefixes, hdefault, List.append_nil, List.append_nil]

/-- The peers are the same but for their allowed IPs, which are extended. Who is
nobody's next hop stays as it is, and doing it again changes nothing. -/
theorem augmentEgressAllowedIPs_exact {peers : List Peer} (hids : ∀ p ∈ peers, p.id ≠ "") :
    augmentEgressAllowedIPs ex peers node = (peers.map fun p => { p with
      allowedIPs := p.allowedIPs ++ newPrefixes ex node p ++ newDefault ex node p }) ∧
    (∀ (i : Nat) (p : Peer), peers[i]? = some p → (∀ pr ∈ node.policyRules, pr.nextID ≠ p.id) →
      ¬ (node.defaultRoute = true ∧ node.egressPeerID = p.id) →
        (augmentEgressAllowedIPs ex peers node)[i]? = some p) ∧
    augmentEgressAllowedIPs ex (augmentEgressAllowedIPs ex peers node) node =
      augmentEgressAllowedIPs ex peers node := by
  refine ⟨augmentEgressAllowedIPs_eq ex node hids, fun i p hp hrules hegress => ?_, augment_again ex node peers⟩
  rw [augmentEgressAllowedIPs_eq ex node hids, List.getElem?_map, hp]
  exact congrArg some (carrying_of_no_target ex node hrules hegress)

/-- A peer that two rules go through, and the default route. -/
theorem augmentEgressAllowedIPs_gateway :
    let node : Node := {
      policyRules := [{ pfx := "10.7.0.0/16", viaNode := "gw" }, { pfx := "10.8.0.0/16", path := ["gw", "hub"] },
        { pfx := "10.7.0.0/16", viaNode := "gw" }]
      defaultRoute := true
      egressPeerID := "gw" }
    let peers : List Peer := [{ id := "gw", allowedIPs := ["10.10.1.2/32"] },
      { id := "hub", allowedIPs := ["10.10.1.3/32"] }]
    (augmentEgressAllowedIPs .literal peers node).map (·.allowedIPs) =
        [["10.10.1.2/32", "10.7.0.0/16", "10.8.0.0/16", "0.0.0.0/0"], ["10.10.1.3/32"]] ∧
      augmentEgressAllowedIPs .literal (augmentEgressAllowedIPs .literal peers node) node =
        augmentEgressAllowedIPs .literal peers node := by
  intro node peers
  exact ⟨by decide, (augmentEgressAllowedIPs_exact .literal node (by decide : ∀ p ∈ peers, p.id ≠ "")).2.2⟩

end

end PeerWan
