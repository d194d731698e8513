import PeerWan.Controller.Plans
import PeerWan.Lib.Pairs

/-!
# The links of the mesh

`buildLinkStatuses` of `pkg/api/status.go` has one link for each pair of nodes.
A link is measured from both ends, and the verdict is the one of the node that
comes first, when that node has measured it.
-/

namespace PeerWan

open Lib

structure LinkStatus where
  fromID : String
  toID : String
  ok : Bool := false
  latencyMs : Int := 0
  packetLoss : Rat := 0
  probeIP : String := ""
  reason : String := ""
  deriving DecidableEq, Repr

/-- What a node has reported of an address. An address without a loss counts as
one without losses. -/
def measured (health : HealthMap) (nodeID ip : String) : Option (Int × Rat) :=
  (health.get? nodeID).bind fun h => (h.latencyMs.get? ip).map fun ms =>
    (ms.2, ((h.packetLoss.get? ip).map Prod.snd).getD 0)

def LinkStatus.judge (status : LinkStatus) (probeIP : String) (seen : Int × Rat) : LinkStatus :=
  { status with
    latencyMs := seen.1
    packetLoss := seen.2
    probeIP := probeIP
    ok := seen.2 < 100
    reason := if seen.2 < 100 then "" else "packet loss 100%" }

def linkStatus (health : HealthMap) (a b : Node) : LinkStatus :=
  let status : LinkStatus := { fromID := a.id, toID := b.id }
  let aip := ipWithoutMask a.overlayIP
  let bip := ipWithoutMask b.overlayIP
  if a.endpoints = [] ∨ b.endpoints = [] then { status with reason := "missing endpoint" }
  else match measured health a.id bip with
    | some seen => status.judge bip seen
    | none => match measured health b.id aip with
      | some seen => status.judge aip seen
      | none => { status with reason := "no telemetry" }

def buildLinkStatuses (nodes : List Node) (reports : List HealthReport) : List LinkStatus :=
  (pairs nodes).map fun (a, b) => linkStatus (healthMap reports) a b

-- ---------------------------------------------------------------------------
-- One link for each pair
-- ---------------------------------------------------------------------------

/-- The two nodes of the link, without which is which. -/
def LinkStatus.ends (l : LinkStatus) : Sym2 String := s(l.fromID, l.toID)

/-- The links are the unordered pairs of different nodes, each once. -/
def OnePerPair (nodes : List Node) (links : List LinkStatus) : Prop :=
  (links.map LinkStatus.ends).Nodup ∧
    ∀ e, e ∈ links.map LinkStatus.ends ↔ ∃ a ∈ nodes, ∃ b ∈ nodes, a.id ≠ b.id ∧ e = s(a.id, b.id)

section

variable {health : HealthMap} {a b : Node} {nodes : List Node} {reports : List HealthReport}

@[simp] theorem linkStatus_fromID : (linkStatus health a b).fromID = a.id := by
  unfold linkStatus LinkStatus.judge
  dsimp only
  split
  · rfl
  · split
    · rfl
    · split <;> rfl

@[simp] theorem linkStatus_toID : (linkStatus health a b).toID = b.id := by
  unfold linkStatus LinkStatus.judge
  dsimp only
  split
  · rfl
  · split
    · rfl
    · split <;> rfl

theorem mem_buildLinkStatuses {l : LinkStatus} : l ∈ buildLinkStatuses nodes reports ↔
    ∃ a b, (a, b) ∈ pairs nodes ∧ l = linkStatus (healthMap reports) a b := by
  simp only [buildLinkStatuses, List.mem_map, Prod.exists, eq_comm]

theorem ends_buildLinkStatuses (nodes : List Node) (reports : List HealthReport) :
    (buildLinkStatuses nodes reports).map LinkStatus.ends = edges (nodes.map Node.id) := by
  rw [buildLinkStatuses, edges, pairs_map, List.map_map, List.map_map]
  refine List.map_congr_left fun p _ => ?_
  simp [LinkStatus.ends]

theorem onePerPair (h : (nodes.map Node.id).Nodup) (reports : List HealthReport) :
    OnePerPair nodes (buildLinkStatuses nodes reports) := by
  rw [OnePerPair, ends_buildLinkStatuses]
  refine ⟨nodup_edges h, fun e => ?_⟩
  rw [mem_edges h]
  simp only [List.mem_map, exists_exists_and_eq_and]

end

-- ---------------------------------------------------------------------------
-- The verdict on a pair
-- ---------------------------------------------------------------------------

def LinkStatus.verdict (l : LinkStatus) : Bool × Int × Rat × String := (l.ok, l.latencyMs, l.packetLoss, l.reason)

/-- If both ends have measured the link, they have measured the same. -/
def MeasuredAlike (health : HealthMap) (a b : Node) : Prop :=
  a.endpoints ≠ [] → b.endpoints ≠ [] → ∀ x y, measured health a.id (ipWithoutMask b.overlayIP) = some x →
    measured health b.id (ipWithoutMask a.overlayIP) = some y → x = y

theorem MeasuredAlike.symm {health : HealthMap} {a b : Node} (h : MeasuredAlike health a b) :
    MeasuredAlike health b a := fun hb ha x y hx hy => (h ha hb y x hy hx).symm

theorem verdict_judge (status : LinkStatus) (ip : String) (seen : Int × Rat) :
    (status.judge ip seen).verdict =
      (decide (seen.2 < 100), seen.1, seen.2, if seen.2 < 100 then "" else "packet loss 100%") := rfl

theorem verdict_swap_iff {health : HealthMap} {a b : Node} :
    (linkStatus health a b).verdict = (linkStatus health b a).verdict ↔ MeasuredAlike health a b := by
  unfold linkStatus MeasuredAlike
  dsimp only
  by_cases h : a.endpoints = [] ∨ b.endpoints = []
  · rw [if_pos h, if_pos h.symm]
    exact iff_of_true rfl fun ha hb => (h.elim ha hb).elim
  rw [if_neg h, if_neg fun hb => h hb.symm]
  obtain ⟨ha, hb⟩ := not_or.mp h
  cases hx : measured health a.id (ipWithoutMask b.overlayIP) with
  | none => cases measured health b.id (ipWithoutMask a.overlayIP) <;> simp [LinkStatus.verdict, LinkStatus.judge]
  | some x =>
    cases hy : measured health b.id (ipWithoutMask a.overlayIP) with
    | none => simp [LinkStatus.verdict, LinkStatus.judge]
    | some y =>
      simp only [verdict_judge, Prod.mk.injEq, Option.some.injEq]
      constructor
      · rintro ⟨-, hms, hloss, -⟩ - - _ _ rfl rfl
        exact Prod.ext hms hloss
      · intro halike
        obtain rfl := halike ha hb x y rfl rfl
        exact ⟨rfl, rfl, rfl, rfl⟩

/-- In every order of the nodes there is one link for each pair, and its verdict
is that of this order. -/
def LinksOrderFree (nodes : List Node) (reports : List HealthReport) : Prop :=
  ∀ nodes', nodes'.Perm nodes → OnePerPair nodes (buildLinkStatuses nodes' reports) ∧
    ∀ l ∈ buildLinkStatuses nodes reports, ∀ l' ∈ buildLinkStatuses nodes' reports,
      l'.ends = l.ends → l'.verdict = l.verdict

theorem OnePerPair.perm {nodes nodes' : List Node} {links : List LinkStatus} (h : OnePerPair nodes' links)
    (hperm : nodes'.Perm nodes) : OnePerPair nodes links := by
  refine ⟨h.1, fun e => (h.2 e).trans ?_⟩
  simp only [hperm.mem_iff]

theorem verdict_of_ends {health : HealthMap} {a b a' b' : Node} {nodes : List Node}
    (hids : (nodes.map Node.id).Nodup) (halike : MeasuredAlike health a b) (ha : a ∈ nodes) (hb : b ∈ nodes)
    (ha' : a' ∈ nodes) (hb' : b' ∈ nodes) (h : (linkStatus health a' b').ends = (linkStatus health a b).ends) :
    (linkStatus health a' b').verdict = (linkStatus health a b).verdict := by
  have hsame : ∀ {c d : Node}, c ∈ nodes → d ∈ nodes → c.id = d.id → c = d := fun hc hd heq =>
    List.inj_on_of_nodup_map hids hc hd heq
  simp only [LinkStatus.ends, linkStatus_fromID, linkStatus_toID, Sym2.eq_iff] at h
  rcases h with ⟨h, h'⟩ | ⟨h, h'⟩
  · rw [hsame ha' ha h, hsame hb' hb h']
  · rw [hsame ha' hb h, hsame hb' ha h']
    exact verdict_swap_iff.mpr halike.symm

/-- The order of the nodes shows in no verdict exactly when no pair of nodes
has measured its link differently from its two ends. -/
theorem linksOrderFree_iff {nodes : List Node} (h : (nodes.map Node.id).Nodup) (reports : List HealthReport) :
    LinksOrderFree nodes reports ↔
      ∀ a ∈ nodes, ∀ b ∈ nodes, a.id ≠ b.id → MeasuredAlike (healthMap reports) a b := by
  constructor
  · intro hfree a ha b hb hab
    have hpair : ∀ {a b : Node}, [a, b].Sublist nodes → MeasuredAlike (healthMap reports) a b := by
      intro a b hsub
      have hp := mem_pairs.mpr hsub
      refine verdict_swap_iff.mp ((hfree nodes.reverse nodes.reverse_perm).2 _
        (mem_buildLinkStatuses.mpr ⟨a, b, hp, rfl⟩) _
        (mem_buildLinkStatuses.mpr ⟨b, a, mem_pairs_reverse.mpr hp, rfl⟩) ?_).symm
      simp only [LinkStatus.ends, linkStatus_fromID, linkStatus_toID]
      exact Sym2.eq_swap
    rcases pair_sublist_or (fun heq => hab (congrArg Node.id heq)) ha hb with hsub | hsub
    · exact hpair hsub
    · exact (hpair hsub).symm
  · intro halike nodes' hperm
    refine ⟨(onePerPair ((hperm.map Node.id).nodup_iff.mpr h) reports).perm hperm, ?_⟩
    intro l hl l' hl' hends
    obtain ⟨a, b, hp, rfl⟩ := mem_buildLinkStatuses.mp hl
    obtain ⟨a', b', hp', rfl⟩ := mem_buildLinkStatuses.mp hl'
    obtain ⟨ha, hb⟩ := mem_of_mem_pairs hp
    obtain ⟨ha', hb'⟩ := mem_of_mem_pairs hp'
    have hab : a.id ≠ b.id := ne_of_mem_pairs h (by
      rw [pairs_map]
      exact List.mem_map_of_mem hp)
    exact verdict_of_ends h (halike a ha b hb hab) ha hb (hperm.subset ha') (hperm.subset hb') hends

def sampleMesh : List Node :=
  [{ id := "a", endpoints := ["192.0.2.1:51820"], overlayIP := "10.10.1.1/32" },
   { id := "b", endpoints := ["192.0.2.2:51820"], overlayIP := "10.10.2.1/32" }]

/-- `a` reaches `b` in 20 ms and `b` has lost all it sent to `a`. -/
def sampleMeshReports : List HealthReport :=
  [{ nodeID := "a", latencyMs := (∅ : StrMap Int).put ("10.10.2.1", 20) },
   { nodeID := "b", latencyMs := (∅ : StrMap Int).put ("10.10.1.1", 0),
     packetLoss := (∅ : StrMap Rat).put ("10.10.1.1", 100) }]

theorem linksOrderFree_unreported : LinksOrderFree sampleMesh [] :=
  (linksOrderFree_iff (by decide) []).mpr fun _ _ _ _ _ _ _ _ _ hx => by cases hx

theorem linksOrderFree_counterexample : ¬ ∀ (nodes : List Node) (reports : List HealthReport),
    (nodes.map Node.id).Nodup → LinksOrderFree nodes reports := by
  intro h
  obtain ⟨-, hverdict⟩ := h sampleMesh sampleMeshReports (by decide) sampleMesh.reverse sampleMesh.reverse_perm
  have heq := hverdict _ (mem_buildLinkStatuses.mpr ⟨_, _, List.mem_singleton_self _, rfl⟩) _
    (mem_buildLinkStatuses.mpr ⟨_, _, List.mem_singleton_self _, rfl⟩) Sym2.eq_swap
  exact absurd heq (by decide)

end PeerWan
