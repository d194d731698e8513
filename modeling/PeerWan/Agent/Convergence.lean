import PeerWan.Agent.Kernel

/-!
# One plan after another

`applyStaticRoutes` only adds to the kernel. What an earlier plan has left is
gone after a later one where that one writes over it, and nowhere else.
-/

namespace PeerWan

open Lib

-- ---------------------------------------------------------------------------
-- The primary route
-- ---------------------------------------------------------------------------

def primaryOf (hop : Option RouteHop) : String × String :=
  primaryRoute (String.join (hop.toList.map fun hop => Kernel.showRoute ⟨zeroPrefix, hop⟩))

theorem detectPrimaryRoute_eq (k : Kernel) : detectPrimaryRoute k = primaryOf (k.get? .main zeroPrefix) := by
  show primaryRoute _ = primaryRoute _
  congr 2
  rw [Table.filter_key, Kernel.get?]
  cases h : (k.routes .main).get? zeroPrefix with
  | none => rfl
  | some r =>
    have hpfx : r.pfx = zeroPrefix := Table.key_of_get? h
    simp [← hpfx]

-- ---------------------------------------------------------------------------
-- Two plans
-- ---------------------------------------------------------------------------

def PolicyPrefix (ex : Expander) (plan : Plan) (pfx : String) : Prop := ∃ pr ∈ plan.policyRules, pfx ∈ ex.expand pr

/-- The kernels agree on the policy routes of two plans, on table 100 with its
default route, and on the rules. -/
structure SameRouting (ex : Expander) (p₁ p₂ : Plan) (k k' : Kernel) : Prop where
  main : ∀ pfx, PolicyPrefix ex p₁ pfx ∨ PolicyPrefix ex p₂ pfx → k'.get? .main pfx = k.get? .main pfx
  t100 : ∀ pfx, k'.get? .t100 pfx = k.get? .t100 pfx
  rules : k'.rules = k.rules

section

variable (ex : Expander) (p₁ p₂ : Plan) (iface : String) (k : Kernel)

/-- What the first plan leaves at a prefix of the main table. -/
def mainAfter (pfx : String) : Option RouteHop :=
  (lastAt pfx (planRoutes ex (detectPrimaryRoute k) p₁ iface .main)).or (k.get? .main pfx)

/-- The last assignment of the second plan to a prefix of the main table, with
the primary route that it detects on its own and after the first plan. -/
def mainAlone (pfx : String) : Option RouteHop := lastAt pfx (planRoutes ex (detectPrimaryRoute k) p₂ iface .main)

def mainSecond (pfx : String) : Option RouteHop :=
  lastAt pfx (planRoutes ex (primaryOf (mainAfter ex p₁ iface k zeroPrefix)) p₂ iface .main)

/-- The second plan does the same at the prefix as it would alone, or what it
leaves out was there before. -/
def OverwritesMain (pfx : String) : Prop :=
  match mainSecond ex p₁ p₂ iface k pfx, mainAlone ex p₂ iface k pfx with
  | some hop, some hop' => hop = hop'
  | some hop, none => k.synced p₂.peers iface pfx = some hop
  | none, some hop => pfx ∉ desiredPrefixes p₂.peers ∧ mainAfter ex p₁ iface k pfx = some hop ∨
      pfx ∈ desiredPrefixes p₂.peers ∧ hop = { dev := syncDevice iface }
  | none, none => pfx ∈ desiredPrefixes p₂.peers ∨ mainAfter ex p₁ iface k pfx = k.get? .main pfx

/-- The second plan writes over all that the first has done, or it was there
before. -/
structure Overwrites : Prop where
  rules : ∀ r ∈ planRules ex p₁ iface, r ∈ k.rules ∨ r ∈ planRules ex p₂ iface
  t100 : ∀ pfx hop, lastAt pfx (planRoutes ex ("", "") p₁ iface .t100) = some hop →
    (∃ hop', (pfx, hop') ∈ planRoutes ex ("", "") p₂ iface .t100) ∨ k.get? .t100 pfx = some hop
  main : ∀ pfx, PolicyPrefix ex p₁ pfx ∨ PolicyPrefix ex p₂ pfx → OverwritesMain ex p₁ p₂ iface k pfx

end

variable {ex : Expander} {p₁ p₂ : Plan} {iface : String} {k : Kernel}

theorem main_iff (o₁ o₂ o₂' : RouteTable → MapOrder String) (hpeers : p₁.peers = p₂.peers) (pfx : String) :
    (applyStaticRoutes ex o₂ p₂ iface (applyStaticRoutes ex o₁ p₁ iface k)).get? .main pfx =
      (applyStaticRoutes ex o₂' p₂ iface k).get? .main pfx ↔ OverwritesMain ex p₁ p₂ iface k pfx := by
  have hafter : ∀ key, key ∉ desiredPrefixes p₁.peers →
      (applyStaticRoutes ex o₁ p₁ iface k).get? .main key = mainAfter ex p₁ iface k key := by
    intro key hkey
    rw [Kernel.get?_main, Kernel.synced, if_neg hkey, mainAfter]
  have hprimary : detectPrimaryRoute (applyStaticRoutes ex o₁ p₁ iface k) =
      primaryOf (mainAfter ex p₁ iface k zeroPrefix) := by
    rw [detectPrimaryRoute_eq, hafter]
    intro hzero
    exact absurd (isPeerPrefix_of_desired hzero) (by decide)
  rw [Kernel.get?_main, Kernel.get?_main, hprimary]
  change (mainSecond ex p₁ p₂ iface k pfx).or _ = (mainAlone ex p₂ iface k pfx).or _ ↔ _
  unfold OverwritesMain Kernel.synced
  by_cases hpfx : pfx ∈ desiredPrefixes p₂.peers
  · cases mainSecond ex p₁ p₂ iface k pfx <;> cases mainAlone ex p₂ iface k pfx <;> simp [hpfx, eq_comm]
  · rw [← hafter pfx (hpeers ▸ hpfx)]
    cases mainSecond ex p₁ p₂ iface k pfx <;> cases mainAlone ex p₂ iface k pfx <;> simp [hpfx, eq_comm]

theorem t100_iff (o₁ o₂ o₂' : RouteTable → MapOrder String) (pfx : String) :
    (applyStaticRoutes ex o₂ p₂ iface (applyStaticRoutes ex o₁ p₁ iface k)).get? .t100 pfx =
      (applyStaticRoutes ex o₂' p₂ iface k).get? .t100 pfx ↔
    ∀ hop, lastAt pfx (planRoutes ex ("", "") p₁ iface .t100) = some hop →
      (∃ hop', (pfx, hop') ∈ planRoutes ex ("", "") p₂ iface .t100) ∨ k.get? .t100 pfx = some hop := by
  have hwritten : (∃ hop', (pfx, hop') ∈ planRoutes ex ("", "") p₂ iface .t100) ↔
      lastAt pfx (planRoutes ex ("", "") p₂ iface .t100) ≠ none := by
    rw [Ne, lastAt_eq_none]
    constructor
    · rintro ⟨hop', h⟩ hnone
      exact hnone _ h rfl
    · intro h
      push Not at h
      obtain ⟨w, hw, rfl⟩ := h
      exact ⟨w.2, hw⟩
  rw [hwritten]
  simp only [Kernel.get?_t100]
  cases lastAt pfx (planRoutes ex ("", "") p₂ iface .t100) with
  | some hop => simp
  | none =>
    cases lastAt pfx (planRoutes ex ("", "") p₁ iface .t100) with
    | none => simp
    | some hop => simp [eq_comm]

theorem rules_iff (o₁ o₂ o₂' : RouteTable → MapOrder String) :
    (applyStaticRoutes ex o₂ p₂ iface (applyStaticRoutes ex o₁ p₁ iface k)).rules =
      (applyStaticRoutes ex o₂' p₂ iface k).rules ↔
    ∀ r ∈ planRules ex p₁ iface, r ∈ k.rules ∨ r ∈ planRules ex p₂ iface := by
  simp only [Kernel.rules_applyStaticRoutes]
  rw [Finset.union_assoc, Finset.union_comm (planRules ex p₁ iface).toFinset, ← Finset.union_assoc,
    Finset.union_eq_left]
  simp [Finset.subset_iff]

/-- A second plan leaves nothing of the first exactly when it writes over all of
it. -/
theorem converges_iff (ex : Expander) (o₁ o₂ o₂' : RouteTable → MapOrder String) (p₁ p₂ : Plan) (iface : String)
    (k : Kernel) (hpeers : p₁.peers = p₂.peers) :
    SameRouting ex p₁ p₂ (applyStaticRoutes ex o₂' p₂ iface k)
      (applyStaticRoutes ex o₂ p₂ iface (applyStaticRoutes ex o₁ p₁ iface k)) ↔
    Overwrites ex p₁ p₂ iface k := by
  constructor
  · intro h
    exact ⟨(rules_iff o₁ o₂ o₂').mp h.rules, fun pfx => (t100_iff o₁ o₂ o₂' pfx).mp (h.t100 pfx),
      fun pfx hpfx => (main_iff o₁ o₂ o₂' hpeers pfx).mp (h.main pfx hpfx)⟩
  · intro h
    exact ⟨fun pfx hpfx => (main_iff o₁ o₂ o₂' hpeers pfx).mpr (h.main pfx hpfx),
      fun pfx => (t100_iff o₁ o₂ o₂' pfx).mpr (h.t100 pfx), (rules_iff o₁ o₂ o₂').mpr h.rules⟩

def Kernel.bare : Kernel := ⟨fun _ => ∅, ∅⟩

def samplePlan (viaNode : String) : Plan where
  peers := [{ id := "a", allowedIPs := ["10.10.1.2/32"] }, { id := "b", allowedIPs := ["10.10.1.3/32"] }]
  policyRules := [{ pfx := "10.9.0.0/16", viaNode := viaNode }]

/-- The second plan has the prefix of the first, through the other peer. -/
theorem converges_for_new_hop : SameRouting .literal (samplePlan "a") (samplePlan "b")
    (applyStaticRoutes .literal (fun _ => default) (samplePlan "b") "wg0" .bare)
    (applyStaticRoutes .literal (fun _ => default) (samplePlan "b") "wg0"
      (applyStaticRoutes .literal (fun _ => default) (samplePlan "a") "wg0" .bare)) := by
  refine (converges_iff .literal _ _ _ (samplePlan "a") (samplePlan "b") "wg0" .bare rfl).mpr
    ⟨?_, fun pfx hop h => ?_, fun pfx h => ?_⟩
  · exact fun r hr => .inr (by revert r; decide)
  · have hroutes : planRoutes .literal ("", "") (samplePlan "a") "wg0" .t100 =
        [("10.9.0.0/16", { via := some "10.10.1.2", dev := "wg0" })] := by decide
    have hmem := mem_of_lastAt h
    rw [hroutes, List.mem_singleton, Prod.mk.injEq] at hmem
    exact .inl ⟨{ via := some "10.10.1.3", dev := "wg0" }, hmem.1 ▸ by decide⟩
  · obtain rfl : pfx = "10.9.0.0/16" := by
      rcases h with ⟨pr, hpr, hpfx⟩ | ⟨pr, hpr, hpfx⟩ <;> simp only [samplePlan, List.mem_singleton] at hpr <;>
        subst hpr <;> simpa [Expander.literal, PolicyRule.validate] using hpfx
    have hsecond : mainSecond .literal (samplePlan "a") (samplePlan "b") "wg0" .bare "10.9.0.0/16" =
        some { via := some "10.10.1.3", dev := "wg0" } := by decide
    have halone : mainAlone .literal (samplePlan "b") "wg0" .bare "10.9.0.0/16" =
        some { via := some "10.10.1.3", dev := "wg0" } := by decide
    rw [OverwritesMain, hsecond, halone]

/-- A rule that the second plan has dropped keeps its routes. -/
theorem dropped_rule_stays : ¬ SameRouting .literal (samplePlan "a") { samplePlan "a" with policyRules := [] }
    (applyStaticRoutes .literal (fun _ => default) { samplePlan "a" with policyRules := [] } "wg0" .bare)
    (applyStaticRoutes .literal (fun _ => default) { samplePlan "a" with policyRules := [] } "wg0"
      (applyStaticRoutes .literal (fun _ => default) (samplePlan "a") "wg0" .bare)) := by
  intro h
  have hroute := h.t100 "10.9.0.0/16"
  rw [Kernel.get?_t100, Kernel.get?_t100, Kernel.get?_t100] at hroute
  revert hroute
  decide

end PeerWan
