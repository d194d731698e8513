import Mathlib.Data.List.Basic
import Mathlib.Data.List.Perm.Basic
import Mathlib.Logic.Function.Basic
import PeerWan.Model

/-!
# Expanded policy rules

`expandPolicyRules` of `pkg/api/controller.go` hands each node the rules it has
to apply: its own, and the hop rules of the paths it lies on. A node's list is
the concatenation, over the node list, of what each node contributes to it.
-/

namespace PeerWan

/-- `map[string][]PolicyRule`: an absent key is an empty list. -/
abbrev RuleMap := String → List PolicyRule

def RuleMap.append (out : RuleMap) (nodeID : String) (pr : PolicyRule) : RuleMap :=
  Function.update out nodeID (out nodeID ++ [pr])

/-- The rule with one next hop in place of its path. -/
def PolicyRule.hop (pr : PolicyRule) (via : String) : PolicyRule := { pr with viaNode := via, path := [] }

/-- The loop over the intermediate hops: each forwards to the next one. -/
def appendHops (pr : PolicyRule) : List String → RuleMap → RuleMap
  | a :: b :: hops, out => appendHops pr (b :: hops) (out.append a (pr.hop b))
  | _, out => out

def expandRule (nodeID : String) (out : RuleMap) (pr : PolicyRule) : RuleMap :=
  match pr.path with
  | [] => out.append nodeID pr
  | first :: rest =>
    let pr := if pr.viaNode = "" then { pr with viaNode := (first :: rest).getLastD "" } else pr
    appendHops pr (first :: rest) (out.append nodeID (pr.hop first))

def expandPolicyRules (nodes : List Node) : RuleMap :=
  nodes.foldl (fun out n => n.policyRules.foldl (expandRule n.id) out) fun _ => []

-- ---------------------------------------------------------------------------
-- What one rule and one node contribute
-- ---------------------------------------------------------------------------

def hopEntries (pr : PolicyRule) : List String → List (String × PolicyRule)
  | a :: b :: hops => (a, pr.hop b) :: hopEntries pr (b :: hops)
  | _ => []

def ruleEntries (nodeID : String) (pr : PolicyRule) : List (String × PolicyRule) :=
  match pr.path with
  | [] => [(nodeID, pr)]
  | first :: rest => (nodeID, pr.hop first) :: hopEntries pr (first :: rest)

def entriesFor (m : String) (es : List (String × PolicyRule)) : List PolicyRule :=
  (es.filter fun e => e.1 = m).map Prod.snd

/-- The rules of `n` that node `m` has to apply. -/
def Node.contribution (m : String) (n : Node) : List PolicyRule :=
  entriesFor m (n.policyRules.flatMap (ruleEntries n.id))

@[simp] theorem entriesFor_nil : entriesFor m [] = [] := rfl

@[simp] theorem entriesFor_cons :
    entriesFor m (e :: es) = if e.1 = m then e.2 :: entriesFor m es else entriesFor m es := by
  by_cases h : e.1 = m <;> simp [entriesFor, h]

theorem entriesFor_append : entriesFor m (es ++ fs) = entriesFor m es ++ entriesFor m fs := by
  simp [entriesFor]

theorem RuleMap.append_apply (out : RuleMap) (nodeID : String) (pr : PolicyRule) (m : String) :
    out.append nodeID pr m = out m ++ entriesFor m [(nodeID, pr)] := by
  by_cases h : nodeID = m
  · subst h
    simp [append]
  · simp [append, h, Function.update_of_ne (Ne.symm h)]

theorem appendHops_apply (pr : PolicyRule) (hops : List String) (out : RuleMap) (m : String) :
    appendHops pr hops out m = out m ++ entriesFor m (hopEntries pr hops) := by
  induction hops generalizing out with
  | nil => simp [appendHops, hopEntries]
  | cons a hops ih =>
    cases hops with
    | nil => simp [appendHops, hopEntries]
    | cons b hops =>
      rw [appendHops, ih, RuleMap.append_apply, List.append_assoc, ← entriesFor_append]
      rfl

theorem hopEntries_congr (pr pr' : PolicyRule) (hp : pr.pfx = pr'.pfx) (hd : pr.domains = pr'.domains)
    (hops : List String) : hopEntries pr hops = hopEntries pr' hops := by
  induction hops with
  | nil => rfl
  | cons a hops ih =>
    cases hops with
    | nil => rfl
    | cons b hops => simp [hopEntries, PolicyRule.hop, hp, hd, ih]

theorem expandRule_apply (nodeID : String) (out : RuleMap) (pr : PolicyRule) (m : String) :
    expandRule nodeID out pr m = out m ++ entriesFor m (ruleEntries nodeID pr) := by
  unfold expandRule ruleEntries
  cases pr.path with
  | nil => exact RuleMap.append_apply out nodeID pr m
  | cons first rest =>
    simp only
    rw [appendHops_apply, RuleMap.append_apply, List.append_assoc, ← entriesFor_append]
    refine congrArg (out m ++ entriesFor m ·) ?_
    split
    · refine congrArg ((nodeID, pr.hop first) :: ·) ?_
      apply hopEntries_congr <;> rfl
    · rfl

theorem foldl_expandRule_apply (nodeID : String) (rules : List PolicyRule) (out : RuleMap) (m : String) :
    rules.foldl (expandRule nodeID) out m =
      out m ++ entriesFor m (rules.flatMap (ruleEntries nodeID)) := by
  induction rules generalizing out with
  | nil => simp
  | cons pr rules ih =>
    rw [List.foldl_cons, ih, expandRule_apply, List.append_assoc, ← entriesFor_append,
      List.flatMap_cons]

theorem expandPolicyRules_apply (nodes : List Node) (m : String) :
    expandPolicyRules nodes m = nodes.flatMap (Node.contribution m) := by
  suffices h : ∀ out : RuleMap, nodes.foldl
      (fun out n => n.policyRules.foldl (expandRule n.id) out) out m =
        out m ++ nodes.flatMap (Node.contribution m) by
    exact h fun _ => []
  induction nodes with
  | nil => simp
  | cons n nodes ih =>
    intro out
    rw [List.foldl_cons, ih, foldl_expandRule_apply, List.append_assoc, List.flatMap_cons]
    rfl

theorem expandPolicyRules_perm {nodes nodes' : List Node} (h : nodes.Perm nodes') (m : String) :
    (expandPolicyRules nodes m).Perm (expandPolicyRules nodes' m) := by
  rw [expandPolicyRules_apply, expandPolicyRules_apply]
  exact h.flatMap_right _

-- ---------------------------------------------------------------------------
-- The whole map
-- ---------------------------------------------------------------------------

theorem flatMap_filter_perm {α κ : Type} [DecidableEq κ] {keys : List κ} {key : α → κ} {l : List α}
    (hnodup : keys.Nodup) (hkeys : ∀ a ∈ l, key a ∈ keys) :
    (keys.flatMap fun k => l.filter fun a => key a = k).Perm l := by
  induction keys generalizing l with
  | nil =>
    obtain rfl : l = [] := List.eq_nil_iff_forall_not_mem.mpr fun a ha => List.not_mem_nil (hkeys a ha)
    rfl
  | cons k keys ih =>
    obtain ⟨hk, hnodup⟩ := List.nodup_cons.mp hnodup
    have hothers : (keys.flatMap fun k' => l.filter fun a => key a = k') =
        keys.flatMap fun k' => (l.filter fun a => ! decide (key a = k)).filter fun a => key a = k' := by
      refine List.flatMap_congr fun k' hk' => ?_
      rw [List.filter_filter]
      refine List.filter_congr fun a _ => ?_
      by_cases ha : key a = k'
      · have hne : k' ≠ k := fun h => hk (h ▸ hk')
        simp [ha, hne]
      · simp [ha]
    rw [List.flatMap_cons, hothers]
    refine .trans (.append_left _ (ih hnodup fun a ha => ?_)) (List.filter_append_perm _ l)
    obtain ⟨ha, hne⟩ := List.mem_filter.mp ha
    exact (List.mem_cons.mp (hkeys a ha)).resolve_left (by simpa using hne)

/-- What a rule of a node stands for: itself if it has no path, or the next hop
at the node and at each hop of the path but the last. -/
def contributed (nodeID : String) (pr : PolicyRule) : List (String × PolicyRule) :=
  if pr.path = [] then [(nodeID, pr)]
  else List.zipWith (fun holder via => (holder, pr.hop via)) (nodeID :: pr.path) pr.path

theorem hopEntries_eq_zipWith (pr : PolicyRule) (hops : List String) :
    hopEntries pr hops = List.zipWith (fun holder via => (holder, pr.hop via)) hops hops.tail := by
  induction hops with
  | nil => rfl
  | cons a hops ih =>
    cases hops with
    | nil => rfl
    | cons b hops =>
      rw [hopEntries, ih]
      rfl

theorem ruleEntries_eq_contributed (nodeID : String) (pr : PolicyRule) :
    ruleEntries nodeID pr = contributed nodeID pr := by
  unfold ruleEntries contributed
  cases pr.path with
  | nil => rfl
  | cons first rest =>
    rw [if_neg (List.cons_ne_nil first rest)]
    simp only
    rw [hopEntries_eq_zipWith]
    rfl

def contributions (nodes : List Node) : List (String × PolicyRule) :=
  nodes.flatMap fun n => n.policyRules.flatMap (contributed n.id)

theorem expandPolicyRules_eq (nodes : List Node) (m : String) :
    expandPolicyRules nodes m = entriesFor m (contributions nodes) := by
  rw [expandPolicyRules_apply]
  unfold contributions
  induction nodes with
  | nil => rfl
  | cons n nodes ih =>
    have hrules : ruleEntries n.id = contributed n.id := funext (ruleEntries_eq_contributed n.id)
    rw [List.flatMap_cons, List.flatMap_cons, entriesFor_append, ih, Node.contribution, hrules]

/-- The map has the contributions of all rules of all nodes and nothing else, and
under one node they are in the order of nodes, rules and hops. -/
theorem expandPolicyRules_exact (nodes : List Node) :
    (∀ m, expandPolicyRules nodes m = entriesFor m (contributions nodes)) ∧
    (∀ keys : List String, keys.Nodup → (∀ m, expandPolicyRules nodes m ≠ [] → m ∈ keys) →
      (keys.flatMap fun m => (expandPolicyRules nodes m).map fun pr => (m, pr)).Perm (contributions nodes)) ∧
    (∀ nodeID (pr : PolicyRule), pr.path = [] → contributed nodeID pr = [(nodeID, pr)]) ∧
    ∀ nodeID (pr : PolicyRule), pr.path ≠ [] → (contributed nodeID pr).length = pr.path.length ∧
      ∀ (i : Nat) (holder via : String), (nodeID :: pr.path)[i]? = some holder → pr.path[i]? = some via →
        (contributed nodeID pr)[i]? =
          some (holder, ({ pfx := pr.pfx, domains := pr.domains, viaNode := via, path := [] } : PolicyRule)) := by
  refine ⟨expandPolicyRules_eq nodes, fun keys hnodup hkeys => ?_, fun nodeID pr h => if_pos h, fun nodeID pr h => ?_⟩
  · have hcovered : ∀ e ∈ contributions nodes, e.1 ∈ keys := by
      intro e he
      refine hkeys e.1 fun hnil => ?_
      rw [expandPolicyRules_eq, entriesFor, List.map_eq_nil_iff, List.filter_eq_nil_iff] at hnil
      exact hnil e he (decide_eq_true rfl)
    have hpairs : ∀ m, (expandPolicyRules nodes m).map (fun pr => (m, pr)) =
        (contributions nodes).filter fun e => e.1 = m := by
      intro m
      rw [expandPolicyRules_eq, entriesFor, List.map_map]
      refine (List.map_congr_left fun e he => ?_).trans (List.map_id _)
      exact Prod.ext (of_decide_eq_true (List.mem_filter.mp he).2).symm rfl
    simp only [hpairs]
    exact flatMap_filter_perm hnodup hcovered
  · rw [contributed, if_neg h]
    refine ⟨by simp, fun i holder via hholder hvia => ?_⟩
    rw [List.getElem?_zipWith]
    simp only [hholder, hvia]
    rfl
end PeerWan
