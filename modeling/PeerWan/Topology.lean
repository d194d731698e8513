import Mathlib.Data.List.Sort
import PeerWan.Model

/-!
# Peer plans

`buildPeerPlan` is `BuildPeerPlan` of `pkg/topology/plan.go`: a full mesh over
the other nodes, without the incomplete ones and those reported down, in order
of score. Which peers appear does not depend on the order of the node list or
on the target's own report; the order of equal scores does follow the list.
-/

namespace PeerWan

open Lib

abbrev HealthMap := Table HealthReport.nodeID

structure Scored where
  peer : Peer
  score : Int

def defaultScore : Int := 100000

def reportScore (h : HealthReport) : Int :=
  let score := h.latencyMs.rows.foldl (fun score ms => if ms.2 < score then ms.2 else score) defaultScore
  h.frrState.rows.foldl (fun score st => if st.2 ≠ "Established" then score + 10000 else score) score

def Node.allowedIPs (n : Node) : List String :=
  let allowed := if n.overlayIP ≠ "" then [n.overlayIP] else []
  n.cidrs.foldl (fun allowed cidr => if cidr ∈ allowed then allowed else allowed ++ [cidr]) allowed

def Node.toPeer (n : Node) : Peer where
  id := n.id
  publicKey := n.publicKey
  endpoint := n.endpoints.headD ""
  allowedIPs := n.allowedIPs
  keepalive := 25

def scoredPeer (targetID : String) (health : HealthMap) (n : Node) : Option Scored :=
  if n.id = targetID then none
  else if n.cidrs = [] ∨ n.publicKey = "" then none
  else match health.get? n.id with
    | some h => if h.status = "down" then none else some ⟨n.toPeer, reportScore h⟩
    | none => some ⟨n.toPeer, defaultScore⟩

def Scored.le (a b : Scored) : Prop := a.score ≤ b.score

instance : DecidableRel Scored.le := fun a b => inferInstanceAs (Decidable (a.score ≤ b.score))

instance : IsTrans Scored Scored.le := ⟨fun a b c (h : a.score ≤ b.score) (h' : b.score ≤ c.score) =>
  (h.trans h' : a.score ≤ c.score)⟩

instance : Std.Total Scored.le := ⟨fun a b => Int.le_total a.score b.score⟩

/-- `sort.SliceStable` on the score; insertion sort is stable. -/
def buildPeerPlan (targetID : String) (nodes : List Node) (health : HealthMap) : List Peer :=
  ((nodes.filterMap (scoredPeer targetID health)).insertionSort Scored.le).map Scored.peer

-- ---------------------------------------------------------------------------
-- Which peers a plan has
-- ---------------------------------------------------------------------------

/-- The node can be a peer at all: it announces something and has a key. -/
def Node.Complete (n : Node) : Prop := n.cidrs ≠ [] ∧ n.publicKey ≠ ""

instance (n : Node) : Decidable n.Complete := inferInstanceAs (Decidable (_ ∧ _))

def Down (health : HealthMap) (id : String) : Prop := ∃ h, health.get? id = some h ∧ h.status = "down"

def scoreOf (health : HealthMap) (id : String) : Int := ((health.get? id).map reportScore).getD defaultScore

theorem scoredPeer_eq_some {targetID : String} {health : HealthMap} {n : Node} {s : Scored} :
    scoredPeer targetID health n = some s ↔
      n.id ≠ targetID ∧ n.Complete ∧ ¬ Down health n.id ∧ s = ⟨n.toPeer, scoreOf health n.id⟩ := by
  unfold scoredPeer Node.Complete Down scoreOf
  by_cases ht : n.id = targetID
  · simp [ht]
  by_cases hc : n.cidrs = [] ∨ n.publicKey = ""
  · rcases hc with hc | hc <;> simp [ht, hc]
  rw [not_or] at hc
  cases hh : health.get? n.id with
  | none => simp [ht, hc, eq_comm (a := s)]
  | some h =>
    by_cases hd : h.status = "down"
    · simp [ht, hc, hd]
    · simp [ht, hc, hd, eq_comm (a := s)]

theorem mem_buildPeerPlan {targetID : String} {nodes : List Node} {health : HealthMap} {p : Peer} :
    p ∈ buildPeerPlan targetID nodes health ↔
      ∃ n ∈ nodes, n.id ≠ targetID ∧ n.Complete ∧ ¬ Down health n.id ∧ p = n.toPeer := by
  simp only [buildPeerPlan, List.mem_map, List.mem_insertionSort, List.mem_filterMap,
    scoredPeer_eq_some]
  constructor
  · rintro ⟨s, ⟨n, hn, ht, hc, hd, rfl⟩, rfl⟩
    exact ⟨n, hn, ht, hc, hd, rfl⟩
  · rintro ⟨n, hn, ht, hc, hd, rfl⟩
    exact ⟨_, ⟨n, hn, ht, hc, hd, rfl⟩, rfl⟩

theorem buildPeerPlan_perm {nodes nodes' : List Node} (h : nodes.Perm nodes') (targetID : String)
    (health : HealthMap) :
    (buildPeerPlan targetID nodes health).Perm (buildPeerPlan targetID nodes' health) := by
  refine List.Perm.map _ ?_
  exact (List.perm_insertionSort _ _).trans
    ((h.filterMap _).trans (List.perm_insertionSort _ _).symm)

/-- What a plan reads of a report. -/
def SameHealth (h h' : Option HealthReport) : Prop :=
  h.map (fun r => (r.status, r.latencyMs, r.frrState)) =
    h'.map (fun r => (r.status, r.latencyMs, r.frrState))

theorem scoredPeer_congr {targetID : String} {health health' : HealthMap} {n : Node}
    (h : n.id ≠ targetID → SameHealth (health.get? n.id) (health'.get? n.id)) :
    scoredPeer targetID health n = scoredPeer targetID health' n := by
  unfold scoredPeer
  split
  · rfl
  · next ht =>
    have hs := h ht
    cases hh : health.get? n.id with
    | none =>
      cases hh' : health'.get? n.id with
      | none => rfl
      | some r' => simp [SameHealth, hh, hh'] at hs
    | some r =>
      cases hh' : health'.get? n.id with
      | none => simp [SameHealth, hh, hh'] at hs
      | some r' =>
        simp only [SameHealth, hh, hh', Option.map_some, Option.some.injEq, Prod.mk.injEq] at hs
        simp only [hs.1, reportScore, hs.2.1, hs.2.2]

theorem buildPeerPlan_congr {targetID : String} {nodes : List Node} {health health' : HealthMap}
    (h : ∀ n ∈ nodes, n.id ≠ targetID → SameHealth (health.get? n.id) (health'.get? n.id)) :
    buildPeerPlan targetID nodes health = buildPeerPlan targetID nodes health' := by
  unfold buildPeerPlan
  rw [List.filterMap_congr fun n hn => scoredPeer_congr (h n hn)]

-- ---------------------------------------------------------------------------
-- The order of a plan
-- ---------------------------------------------------------------------------

/-- The nodes that would be peers of the target if nothing were reported. -/
def candidates (targetID : String) (nodes : List Node) : List Node :=
  nodes.filter fun n => n.id ≠ targetID ∧ n.Complete

theorem mem_candidates {targetID : String} {nodes : List Node} {n : Node} :
    n ∈ candidates targetID nodes ↔ n ∈ nodes ∧ n.id ≠ targetID ∧ n.Complete := by
  simp [candidates]

theorem filterMap_scoredPeer {targetID : String} {nodes : List Node} {health : HealthMap}
    (hd : ∀ n ∈ candidates targetID nodes, ¬ Down health n.id) :
    nodes.filterMap (scoredPeer targetID health) =
      (candidates targetID nodes).map fun n => ⟨n.toPeer, scoreOf health n.id⟩ := by
  induction nodes with
  | nil => rfl
  | cons n nodes ih =>
    by_cases hn : n.id ≠ targetID ∧ n.Complete
    · have hc : candidates targetID (n :: nodes) = n :: candidates targetID nodes := by
        simp [candidates, hn.1, hn.2]
      rw [hc] at hd
      have hs : scoredPeer targetID health n = some ⟨n.toPeer, scoreOf health n.id⟩ :=
        scoredPeer_eq_some.mpr ⟨hn.1, hn.2, hd n (by simp), rfl⟩
      rw [List.filterMap_cons_some hs, hc, List.map_cons]
      rw [ih fun m hm => hd m (List.mem_cons_of_mem _ hm)]
    · have hc : candidates targetID (n :: nodes) = candidates targetID nodes :=
        List.filter_cons_of_neg (by simpa using hn)
      have hs : scoredPeer targetID health n = none := by
        rw [Option.eq_none_iff_forall_ne_some]
        intro s hs
        rw [scoredPeer_eq_some] at hs
        exact hn ⟨hs.1, hs.2.1⟩
      rw [List.filterMap_cons_none hs, hc]
      exact ih (hc ▸ hd)

theorem buildPeerPlan_unreported {targetID : String} {nodes : List Node} {health : HealthMap}
    (h : ∀ n ∈ nodes, n.id ≠ targetID → health.get? n.id = none) :
    buildPeerPlan targetID nodes health = (candidates targetID nodes).map Node.toPeer := by
  have hn : ∀ n ∈ candidates targetID nodes, health.get? n.id = none := fun n hn =>
    h n (mem_candidates.mp hn).1 (mem_candidates.mp hn).2.1
  rw [buildPeerPlan, filterMap_scoredPeer fun n hc => by simp [Down, hn n hc]]
  rw [List.Pairwise.insertionSort_eq, List.map_map]
  · rfl
  · rw [List.pairwise_map]
    refine List.pairwise_of_forall_mem_list fun a ha b hb => ?_
    simp [Scored.le, scoreOf, hn a ha, hn b hb]

theorem eq_of_perm_of_map_eq {f : α → β} {l l' : List α} (hp : l.Perm l') (hm : l.map f = l'.map f)
    (hn : (l'.map f).Nodup) : l = l' := by
  refine List.ext_getElem hp.length_eq fun i hi hi' => ?_
  refine List.inj_on_of_nodup_map hn (hp.subset (List.getElem_mem hi)) (List.getElem_mem hi') ?_
  have h : (l.map f)[i]? = (l'.map f)[i]? := by rw [hm]
  simpa [hi, hi'] using h

/-- The plan is the list of candidates exactly when nobody is down and the
scores already rise along the list. -/
theorem buildPeerPlan_eq_candidates_iff {targetID : String} {nodes : List Node} {health : HealthMap}
    (hn : (nodes.map Node.id).Nodup) :
    buildPeerPlan targetID nodes health = (candidates targetID nodes).map Node.toPeer ↔
      (∀ n ∈ candidates targetID nodes, ¬ Down health n.id) ∧
      (candidates targetID nodes).Pairwise fun a b => scoreOf health a.id ≤ scoreOf health b.id := by
  constructor
  · intro h
    have hd : ∀ n ∈ candidates targetID nodes, ¬ Down health n.id := by
      intro n hc
      have hp : n.toPeer ∈ buildPeerPlan targetID nodes health := h ▸ List.mem_map_of_mem hc
      obtain ⟨m, -, -, -, hm, he⟩ := mem_buildPeerPlan.mp hp
      have hid : n.id = m.id := congrArg Peer.id he
      exact hid ▸ hm
    refine ⟨hd, ?_⟩
    rw [buildPeerPlan, filterMap_scoredPeer hd] at h
    have hids : (((candidates targetID nodes).map
        fun n => (⟨n.toPeer, scoreOf health n.id⟩ : Scored)).map Scored.peer).Nodup := by
      rw [List.map_map]
      refine List.Nodup.of_map Peer.id ?_
      rw [List.map_map]
      exact hn.sublist (List.filter_sublist.map _)
    -- a stable sort that leaves the peers in place leaves the scored list in place
    have hs := eq_of_perm_of_map_eq (List.perm_insertionSort Scored.le _)
      (h.trans (by rw [List.map_map]; rfl)) hids
    have hp := List.pairwise_insertionSort Scored.le
      ((candidates targetID nodes).map fun n => ⟨n.toPeer, scoreOf health n.id⟩)
    rw [hs, List.pairwise_map] at hp
    exact hp
  · rintro ⟨hd, hp⟩
    rw [buildPeerPlan, filterMap_scoredPeer hd, List.Pairwise.insertionSort_eq, List.map_map]
    · rfl
    · exact List.pairwise_map.mpr hp

end PeerWan
