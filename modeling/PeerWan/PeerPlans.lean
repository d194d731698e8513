import Mathlib.Order.Bounds.Basic
import Mathlib.Order.MinMax
import PeerWan.Lib.StableSort
import PeerWan.Topology

/-!
# What a peer plan is

The plan of a target without its code: which nodes it has, what it says of
each, and the one order they stand in. `BuildPeerPlan` gives that plan and no
other. As equal scores stay in the order of the node list, the list shows
through wherever two peers have one score, as all have before any report.
-/

namespace PeerWan

open Lib

-- ---------------------------------------------------------------------------
-- The plan of a target
-- ---------------------------------------------------------------------------

instance (health : HealthMap) (id : String) : Decidable (Down health id) :=
  decidable_of_iff ((health.get? id).any fun h => h.status = "down")
    (by simp [Down, Option.any_eq_true])

/-- The nodes that are peers of the target, in the order of the list. -/
def peered (targetID : String) (health : HealthMap) (nodes : List Node) : List Node :=
  nodes.filter fun n => n.id ≠ targetID ∧ n.Complete ∧ ¬ Down health n.id

/-- The prefixes of a node: its overlay address, if any, and then its CIDRs,
each where it first occurs. -/
def Node.prefixes (n : Node) : List String :=
  ((if n.overlayIP = "" then [] else [n.overlayIP]) ++ n.cidrs).eraseDups

structure PeerOf (n : Node) (p : Peer) : Prop where
  id : p.id = n.id
  publicKey : p.publicKey = n.publicKey
  endpoint : p.endpoint = n.endpoints.head?.getD ""
  allowedIPs : p.allowedIPs = n.prefixes
  keepalive : p.keepalive = 25

/-- The score of a node by its latest report: the least of the default and the
latencies it measured, and 10000 for each neighbor that is not up. -/
def HasScore : Option HealthReport → Int → Prop
  | none, score => score = 100000
  | some h, score => ∃ least,
      IsLeast (insert 100000 {ms | ∃ host, (host, ms) ∈ h.latencyMs.rows}) least ∧
      score = least + 10000 * (h.frrState.rows.countP fun st => st.2 ≠ "Established")

/-- One peer for each peered node, in order of score; equal scores in the order
of the list. -/
def IsPeerPlan (targetID : String) (nodes : List Node) (health : HealthMap) (peers : List Peer) : Prop :=
  ∃ (score : Node → Int) (ordered : List Node), (∀ n, HasScore (health.get? n.id) (score n)) ∧
    StableSort score (peered targetID health nodes) ordered ∧ List.Forall₂ PeerOf ordered peers

-- ---------------------------------------------------------------------------
-- Peers
-- ---------------------------------------------------------------------------

theorem foldl_firsts [DecidableEq α] (l acc : List α) (h : acc.eraseDups = acc) :
    l.foldl (fun acc a => if a ∈ acc then acc else acc ++ [a]) acc = (acc ++ l).eraseDups := by
  induction l generalizing acc with
  | nil => simp [h]
  | cons a l ih =>
    rw [List.foldl_cons, List.append_cons acc a l]
    split
    next ha =>
      have hskip : (acc ++ [a]).eraseDups = acc := by simp [List.eraseDups_append, h, List.removeAll, ha]
      rw [ih acc h, @List.eraseDups_append _ _ _ (acc ++ [a]), hskip, List.eraseDups_append, h]
      congr 2
      refine List.filter_congr fun b _ => ?_
      by_cases hb : b = a
      · simp [hb, ha]
      · simp [hb]
    next ha =>
      refine ih (acc ++ [a]) ?_
      simp [List.eraseDups_append, h, List.removeAll, ha, List.eraseDups_cons]

theorem Node.allowedIPs_eq (n : Node) : n.allowedIPs = n.prefixes := by
  unfold Node.allowedIPs Node.prefixes
  by_cases ho : n.overlayIP = ""
  · simpa [ho] using foldl_firsts n.cidrs [] rfl
  · simpa [ho] using foldl_firsts n.cidrs [n.overlayIP] rfl

theorem Node.peerOf_toPeer (n : Node) : PeerOf n n.toPeer where
  id := rfl
  publicKey := rfl
  endpoint := List.headD_eq_head?_getD
  allowedIPs := n.allowedIPs_eq
  keepalive := rfl

theorem PeerOf.eq_toPeer (h : PeerOf n p) : p = n.toPeer := by
  obtain ⟨hid, hkey, hendpoint, hallowed, hkeepalive⟩ := h
  have hto := n.peerOf_toPeer
  cases p
  simp only [Node.toPeer, Peer.mk.injEq]
  exact ⟨hid, hkey, hendpoint.trans hto.endpoint.symm, hallowed.trans hto.allowedIPs.symm, hkeepalive⟩

theorem nodup_eraseDups [DecidableEq α] (l : List α) : l.eraseDups.Nodup := by
  induction h : l.length using Nat.strongRecOn generalizing l with
  | ind n ih =>
    cases l with
    | nil => exact List.nodup_nil
    | cons a l =>
      rw [List.eraseDups_cons, List.nodup_cons]
      refine ⟨by simp, ih _ ?_ _ rfl⟩
      rw [← h]
      exact Nat.lt_succ_of_le (List.length_filter_le _ _)

theorem Node.overlayIP_mem_prefixes {n : Node} (h : n.overlayIP ≠ "") : n.overlayIP ∈ n.prefixes := by
  rw [prefixes, if_neg h]
  simp

theorem Node.prefixes_ne_nil {n : Node} (h : n.cidrs ≠ []) : n.prefixes ≠ [] := by
  obtain ⟨cidr, hcidr⟩ := List.exists_mem_of_ne_nil _ h
  have hmem : cidr ∈ n.prefixes := List.mem_eraseDups.mpr (List.mem_append_right _ hcidr)
  exact List.ne_nil_of_mem hmem

-- ---------------------------------------------------------------------------
-- Scores
-- ---------------------------------------------------------------------------

theorem isLeast_latencies (rows : List (String × Int)) (d : Int) :
    IsLeast (insert d {ms | ∃ host, (host, ms) ∈ rows})
      (rows.foldl (fun score ms => if ms.2 < score then ms.2 else score) d) := by
  induction rows generalizing d with
  | nil => simp
  | cons row rows ih =>
    obtain ⟨host, ms⟩ := row
    have hset : insert d {m | ∃ host', (host', m) ∈ (host, ms) :: rows} =
        insert d (insert ms {m | ∃ host', (host', m) ∈ rows}) := by
      ext m
      simp only [List.mem_cons, Prod.mk.injEq, Set.mem_insert_iff, Set.mem_ofPred_eq]
      constructor
      · rintro (rfl | ⟨_, ⟨-, rfl⟩ | hm⟩)
        · exact .inl rfl
        · exact .inr (.inl rfl)
        · exact .inr (.inr ⟨_, hm⟩)
      · rintro (rfl | rfl | ⟨_, hm⟩)
        · exact .inl rfl
        · exact .inr ⟨host, .inl ⟨rfl, rfl⟩⟩
        · exact .inr ⟨_, .inr hm⟩
    have hmin : (if ms < d then ms else d) = min d ms := by split <;> omega
    rw [List.foldl_cons, hset, hmin]
    obtain ⟨hmem, hle⟩ := ih (min d ms)
    refine ⟨?_, ?_⟩
    · rcases hmem with h | h
      · rw [h]
        rcases min_choice d ms with h | h <;> simp [h]
      · exact .inr (.inr h)
    · rintro m (rfl | rfl | hm)
      · exact (hle (Set.mem_insert _ _)).trans (min_le_left _ _)
      · exact (hle (Set.mem_insert _ _)).trans (min_le_right _ _)
      · exact hle (Set.mem_insert_of_mem _ hm)

theorem foldl_penalties (rows : List (String × String)) (score : Int) :
    rows.foldl (fun score st => if st.2 ≠ "Established" then score + 10000 else score) score =
      score + 10000 * (rows.countP fun st => st.2 ≠ "Established") := by
  induction rows generalizing score with
  | nil => simp
  | cons st rows ih =>
    rw [List.foldl_cons, ih, List.countP_cons]
    by_cases h : st.2 = "Established" <;> simp [h]
    omega

theorem hasScore_scoreOf (health : HealthMap) (id : String) : HasScore (health.get? id) (scoreOf health id) := by
  unfold scoreOf
  cases health.get? id with
  | none => rfl
  | some h =>
    exact ⟨_, isLeast_latencies h.latencyMs.rows defaultScore, foldl_penalties h.frrState.rows _⟩

theorem HasScore.unique (h : HasScore r score) (h' : HasScore r score') : score = score' := by
  cases r with
  | none => exact Eq.trans h (Eq.symm h')
  | some r =>
    obtain ⟨least, hl, rfl⟩ := h
    obtain ⟨least', hl', rfl⟩ := h'
    rw [hl.unique hl']

-- ---------------------------------------------------------------------------
-- The plan
-- ---------------------------------------------------------------------------

theorem filterMap_scoredPeer_eq (targetID : String) (nodes : List Node) (health : HealthMap) :
    nodes.filterMap (scoredPeer targetID health) =
      (peered targetID health nodes).map fun n => ⟨n.toPeer, scoreOf health n.id⟩ := by
  induction nodes with
  | nil => rfl
  | cons n nodes ih =>
    rw [peered, List.filter_cons]
    split
    next hn =>
      have hs := scoredPeer_eq_some.mpr ⟨(of_decide_eq_true hn).1, (of_decide_eq_true hn).2.1,
        (of_decide_eq_true hn).2.2, rfl⟩
      rw [List.filterMap_cons_some hs, ih]
      rfl
    next hn =>
      have hs : scoredPeer targetID health n = none := by
        rw [Option.eq_none_iff_forall_ne_some]
        intro s hs
        obtain ⟨ht, hc, hd, -⟩ := scoredPeer_eq_some.mp hs
        exact hn (decide_eq_true ⟨ht, hc, hd⟩)
      rw [List.filterMap_cons_none hs, ih]
      rfl

def peerOrder (targetID : String) (nodes : List Node) (health : HealthMap) : List Node :=
  (peered targetID health nodes).insertionSort fun a b => scoreOf health a.id ≤ scoreOf health b.id

theorem buildPeerPlan_eq (targetID : String) (nodes : List Node) (health : HealthMap) :
    buildPeerPlan targetID nodes health = (peerOrder targetID nodes health).map Node.toPeer := by
  rw [buildPeerPlan, filterMap_scoredPeer_eq, peerOrder]
  rw [← List.map_insertionSort (r := fun a b : Node => scoreOf health a.id ≤ scoreOf health b.id) (s := Scored.le)
    _ _ fun a _ b _ => Iff.rfl]
  rw [List.map_map]
  rfl

theorem peerOrder_stableSort (targetID : String) (nodes : List Node) (health : HealthMap) :
    StableSort (fun n => scoreOf health n.id) (peered targetID health nodes) (peerOrder targetID nodes health) :=
  stableSort_insertionSort (fun n : Node => scoreOf health n.id) (peered targetID health nodes)

theorem mem_peerOrder {targetID : String} {nodes : List Node} {health : HealthMap} {n : Node} :
    n ∈ peerOrder targetID nodes health ↔ n ∈ nodes ∧ n.id ≠ targetID ∧ n.Complete ∧ ¬ Down health n.id := by
  rw [(peerOrder_stableSort targetID nodes health).perm.mem_iff, peered, List.mem_filter, decide_eq_true_eq]

theorem isPeerPlan_buildPeerPlan (targetID : String) (nodes : List Node) (health : HealthMap) :
    IsPeerPlan targetID nodes health (buildPeerPlan targetID nodes health) := by
  refine ⟨fun n => scoreOf health n.id, peerOrder targetID nodes health, fun n => hasScore_scoreOf health n.id,
    peerOrder_stableSort targetID nodes health, ?_⟩
  rw [buildPeerPlan_eq, List.forall₂_map_right_iff]
  exact List.forall₂_same.mpr fun n _ => n.peerOf_toPeer

theorem eq_map_of_forall₂ {R : α → β → Prop} {f : α → β} (hf : ∀ a b, R a b → b = f a) {l : List α} {m : List β}
    (h : List.Forall₂ R l m) : m = l.map f := by
  induction h with
  | nil => rfl
  | cons hab _ ih => rw [List.map_cons, hf _ _ hab, ih]

theorem IsPeerPlan.unique {health : HealthMap} (h : IsPeerPlan targetID nodes health peers)
    (h' : IsPeerPlan targetID nodes health peers') : peers = peers' := by
  obtain ⟨score, ordered, hscore, hsort, hpeers⟩ := h
  obtain ⟨score', ordered', hscore', hsort', hpeers'⟩ := h'
  obtain rfl : score = score' := funext fun n => (hscore n).unique (hscore' n)
  obtain rfl := hsort.unique hsort'
  have hmap : ∀ peers, List.Forall₂ PeerOf ordered peers → peers = ordered.map Node.toPeer := fun _ =>
    eq_map_of_forall₂ fun _ _ h => h.eq_toPeer
  rw [hmap peers hpeers, hmap peers' hpeers']

theorem buildPeerPlan_announces (targetID : String) (nodes : List Node) (health : HealthMap) :
    ∀ p ∈ buildPeerPlan targetID nodes health, p.allowedIPs.Nodup ∧ p.allowedIPs ≠ [] := by
  intro p hp
  obtain ⟨n, -, -, hc, -, rfl⟩ := mem_buildPeerPlan.mp hp
  have hprefixes : n.toPeer.allowedIPs = n.prefixes := n.allowedIPs_eq
  rw [hprefixes]
  exact ⟨nodup_eraseDups _, Node.prefixes_ne_nil hc.1⟩

/-- `BuildPeerPlan` gives the plan of the target, and in it every peer announces
something and nothing twice. -/
theorem buildPeerPlan_correct (targetID : String) (nodes : List Node) (health : HealthMap) :
    (∀ peers, peers = buildPeerPlan targetID nodes health ↔ IsPeerPlan targetID nodes health peers) ∧
      ∀ p ∈ buildPeerPlan targetID nodes health, p.allowedIPs.Nodup ∧ p.allowedIPs ≠ [] := by
  refine ⟨fun peers => ?_, buildPeerPlan_announces targetID nodes health⟩
  constructor
  · rintro rfl
    exact isPeerPlan_buildPeerPlan targetID nodes health
  · intro h
    exact h.unique (isPeerPlan_buildPeerPlan targetID nodes health)

-- ---------------------------------------------------------------------------
-- The order of the node list
-- ---------------------------------------------------------------------------

/-- The plan does not depend on the order in which the nodes are listed. -/
def OrderFree (targetID : String) (nodes : List Node) (health : HealthMap) : Prop :=
  ∀ nodes' : List Node, nodes'.Perm nodes →
    buildPeerPlan targetID nodes' health = buildPeerPlan targetID nodes health

theorem nodup_map_toPeer {l : List Node} (h : (l.map Node.id).Nodup) : (l.map Node.toPeer).Nodup := by
  refine List.Nodup.of_map Peer.id ?_
  rwa [List.map_map]

theorem nodup_peerOrder (h : (nodes.map Node.id).Nodup) (targetID : String) (health : HealthMap) :
    ((peerOrder targetID nodes health).map Node.id).Nodup := by
  have hperm := (peerOrder_stableSort targetID nodes health).perm.map Node.id
  rw [hperm.nodup_iff]
  exact h.sublist (List.filter_sublist.map Node.id)

/-- Two lists of the same nodes have one plan exactly when they have the peers
of each score in one order. -/
theorem buildPeerPlan_eq_iff {health : HealthMap} (hn : (nodes.map Node.id).Nodup) (hp : nodes'.Perm nodes) :
    buildPeerPlan targetID nodes' health = buildPeerPlan targetID nodes health ↔
      ∀ score, (peered targetID health nodes').filter (fun n => scoreOf health n.id = score) =
        (peered targetID health nodes).filter (fun n => scoreOf health n.id = score) := by
  have hsort := peerOrder_stableSort targetID nodes health
  have hsort' := peerOrder_stableSort targetID nodes' health
  rw [buildPeerPlan_eq, buildPeerPlan_eq, ← hsort'.eq_iff hsort]
  constructor
  · intro h
    have hperm : (peerOrder targetID nodes' health).Perm (peerOrder targetID nodes health) :=
      hsort'.perm.trans ((hp.filter _).trans hsort.perm.symm)
    exact eq_of_perm_of_map_eq hperm h (nodup_map_toPeer (nodup_peerOrder hn targetID health))
  · intro h
    rw [h]

theorem orderFree_iff {targetID : String} {nodes : List Node} {health : HealthMap}
    (hn : (nodes.map Node.id).Nodup) :
    OrderFree targetID nodes health ↔
      ((peered targetID health nodes).map fun n => scoreOf health n.id).Nodup := by
  have hsort := peerOrder_stableSort targetID nodes health
  constructor
  · intro h
    have hclass := (buildPeerPlan_eq_iff hn (List.reverse_perm nodes)).mp (h _ (List.reverse_perm nodes))
    have hreverse : peered targetID health nodes.reverse = (peered targetID health nodes).reverse :=
      List.filter_reverse
    rw [hreverse] at hclass
    refine StableSort.nodup_of_reverse hsort ?_ (hn.of_map.filter _)
    exact ⟨hsort.sorted, fun k => (hsort.stable k).trans (hclass k).symm⟩
  · intro h nodes' hp
    rw [buildPeerPlan_eq, buildPeerPlan_eq]
    exact congrArg (List.map Node.toPeer)
      (hsort.eq_of_perm (peerOrder_stableSort targetID nodes' health) (hp.filter _) h)

/-- A list of nodes with two scores, one of them reported. -/
theorem orderFree_reported :
    OrderFree "a" [{ id := "b", publicKey := "kb", cidrs := ["10.1.0.0/16"] },
        { id := "c", publicKey := "kc", cidrs := ["10.2.0.0/16"] }]
      (Table.empty.put { nodeID := "c", status := "up", latencyMs := Table.empty.put ("10.10.1.1", 20) }) :=
  (orderFree_iff (by decide)).mpr (by decide)

/-- Before any report the nodes come in the order of the list. -/
theorem orderFree_counterexample : ¬ ∀ (targetID : String) (nodes : List Node) (health : HealthMap),
    (nodes.map Node.id).Nodup → OrderFree targetID nodes health := by
  intro h
  have hsame := h "a" [{ id := "b", publicKey := "kb", cidrs := ["10.1.0.0/16"] },
    { id := "c", publicKey := "kc", cidrs := ["10.2.0.0/16"] }] ∅ (by decide) _ (.swap _ _ [])
  revert hsame
  decide

end PeerWan
