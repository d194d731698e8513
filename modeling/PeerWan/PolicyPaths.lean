import PeerWan.Lib.Follow
import PeerWan.PolicyRules

/-!
# Paths of a prefix

A rule with a path is to send the traffic of its prefix from hop to hop to the
last one, and no traffic is to run in circles. Each node decides by one table
for all rules of a prefix, in which the rule applied last wins.
-/

namespace PeerWan

open Lib

/-- Where a node sends a prefix: `ip route replace` leaves the last rule. -/
def next (nodes : List Node) (p : String) (m : String) : Option String :=
  ((expandPolicyRules nodes m).filter (·.pfx = p)).getLast?.map (·.viaNode)

/-- Every path is walked to its end, and no walk visits a node twice. -/
structure Delivers (nodes : List Node) (p : String) : Prop where
  paths : ∀ n ∈ nodes, ∀ pr ∈ n.policyRules, pr.pfx = p → pr.path ≠ [] →
    ∀ i, follow (next nodes p) i n.id = (n.id :: pr.path)[i]?
  once : ∀ m i j x, follow (next nodes p) i m = some x → follow (next nodes p) j m = some x → i = j

-- ---------------------------------------------------------------------------
-- The hops of a prefix
-- ---------------------------------------------------------------------------

structure Hop where
  via : String
  direct : Bool
  deriving DecidableEq, Repr

def PolicyRule.route (nodeID : String) (pr : PolicyRule) : List String := nodeID :: pr.path

/-- What a rule sends where: its own node directly, or each node of its route
to the one after it. -/
def PolicyRule.hops (nodeID : String) (pr : PolicyRule) : List (String × Hop) :=
  if pr.path = [] then [(nodeID, ⟨pr.viaNode, true⟩)]
  else (links (pr.route nodeID)).map fun e => (e.1, ⟨e.2, false⟩)

def rulesFor (nodes : List Node) (p : String) : List (String × PolicyRule) :=
  nodes.flatMap fun n => (n.policyRules.filter (·.pfx = p)).map (n.id, ·)

def hopsFor (nodes : List Node) (p : String) : List (String × Hop) :=
  (rulesFor nodes p).flatMap fun e => e.2.hops e.1

/-- The routes of the rules with a path. -/
def routesFor (nodes : List Node) (p : String) : List (List String) :=
  ((rulesFor nodes p).filter (·.2.path ≠ [])).map fun e => e.2.route e.1

def lastHop (nodes : List Node) (p : String) (m : String) : Option Hop :=
  ((hopsFor nodes p).filter (·.1 = m)).getLast?.map (·.2)

/-- The rules without a path, where no route says otherwise. -/
def directNext (nodes : List Node) (p : String) (m : String) : Option String :=
  if ∃ r ∈ routesFor nodes p, ∃ e ∈ links r, e.1 = m then none else (lastHop nodes p m).map (·.via)

/-- The rules of a prefix do not get into each other's way. -/
structure Compatible (nodes : List Node) (p : String) : Prop where
  /-- Routes that share a node go on from it alike. -/
  agree : ∀ r ∈ routesFor nodes p, ∀ r' ∈ routesFor nodes p, ∀ x y z,
    (x, y) ∈ links r → (x, z) ∈ links r' → y = z
  /-- No rule without a path, listed last at a node of a route, leads elsewhere. -/
  direct : ∀ r ∈ routesFor nodes p, ∀ x y z, (x, y) ∈ links r → lastHop nodes p x = some ⟨z, true⟩ → z = y
  /-- No rule starts at the end of a route, and no route goes on from there. -/
  ends : ∀ r ∈ routesFor nodes p, ∀ x ∈ r.getLast?, ∀ e ∈ hopsFor nodes p, e.1 ≠ x
  /-- The other rules without a path make no circle. -/
  acyclic : Acyclic (directNext nodes p)

-- ---------------------------------------------------------------------------
-- The last rule is the last hop
-- ---------------------------------------------------------------------------

theorem hopEntries_links (pr : PolicyRule) (hops : List String) :
    hopEntries pr hops = (links hops).map fun e => (e.1, pr.hop e.2) := by
  induction hops with
  | nil => rfl
  | cons a hops ih =>
    cases hops with
    | nil => rfl
    | cons b hops => simp [hopEntries, ih]

theorem ruleEntries_hops (nodeID : String) (pr : PolicyRule) :
    (ruleEntries nodeID pr).map (fun e => (e.1, e.2.viaNode)) = (pr.hops nodeID).map fun e => (e.1, e.2.via) := by
  unfold ruleEntries PolicyRule.hops PolicyRule.route
  cases hpath : pr.path with
  | nil => rfl
  | cons first rest =>
    simp only [hopEntries_links, reduceCtorEq, if_false, links_cons_cons, List.map_cons, List.map_map]
    rfl

theorem ruleEntries_pfx {nodeID : String} {pr : PolicyRule} {e : String × PolicyRule}
    (h : e ∈ ruleEntries nodeID pr) : e.2.pfx = pr.pfx := by
  unfold ruleEntries at h
  split at h
  · rw [List.mem_singleton.mp h]
  · rw [hopEntries_links, List.mem_cons, List.mem_map] at h
    obtain rfl | ⟨e', -, rfl⟩ := h <;> rfl

theorem entriesFor_ruleEntries (p m nodeID : String) (pr : PolicyRule) :
    ((entriesFor m (ruleEntries nodeID pr)).filter (·.pfx = p)).map (·.viaNode) =
      if pr.pfx = p then ((pr.hops nodeID).filter (·.1 = m)).map (·.2.via) else [] := by
  have hpfx : ∀ e ∈ entriesFor m (ruleEntries nodeID pr), e.pfx = pr.pfx := by
    intro e he
    obtain ⟨e', he', rfl⟩ := List.mem_map.mp he
    exact ruleEntries_pfx (List.mem_filter.mp he').1
  split
  next h =>
    rw [List.filter_eq_self.mpr fun e he => by simp [hpfx e he, h]]
    have hvia := congrArg (fun l => (l.filter (·.1 = m)).map Prod.snd) (ruleEntries_hops nodeID pr)
    simpa [entriesFor, List.filter_map, Function.comp_def] using hvia
  next h =>
    rw [List.filter_eq_nil_iff.mpr fun e he => by simp [hpfx e he, h]]
    rfl

theorem next_eq_lastHop (nodes : List Node) (p m : String) : next nodes p m = (lastHop nodes p m).map (·.via) := by
  have hlists : ((expandPolicyRules nodes m).filter (·.pfx = p)).map (·.viaNode) =
      ((hopsFor nodes p).filter (·.1 = m)).map (·.2.via) := by
    simp only [expandPolicyRules_apply, hopsFor, rulesFor, List.filter_flatMap, List.map_flatMap, List.flatMap_assoc,
      List.flatMap_map]
    refine List.flatMap_congr fun n _ => ?_
    unfold Node.contribution
    induction n.policyRules with
    | nil => rfl
    | cons pr rules ih =>
      rw [List.flatMap_cons, entriesFor_append, List.filter_append, List.map_append, entriesFor_ruleEntries, ih]
      by_cases h : pr.pfx = p <;> simp [h]
  rw [next, lastHop, ← List.getLast?_map, hlists, List.getLast?_map, Option.map_map]
  rfl

-- ---------------------------------------------------------------------------
-- Compatible rules deliver
-- ---------------------------------------------------------------------------

section

variable {nodes : List Node} {p : String}

theorem mem_rulesFor {e : String × PolicyRule} :
    e ∈ rulesFor nodes p ↔ ∃ n ∈ nodes, ∃ pr ∈ n.policyRules, pr.pfx = p ∧ e = (n.id, pr) := by
  simp only [rulesFor, List.mem_flatMap, List.mem_map, List.mem_filter, decide_eq_true_eq]
  grind

theorem mem_routesFor {r : List String} :
    r ∈ routesFor nodes p ↔ ∃ n ∈ nodes, ∃ pr ∈ n.policyRules, pr.pfx = p ∧ pr.path ≠ [] ∧ r = n.id :: pr.path := by
  simp only [routesFor, List.mem_map, List.mem_filter, mem_rulesFor, PolicyRule.route, decide_eq_true_eq]
  grind

theorem mem_hopsFor_route {x y : String} :
    (x, ⟨y, false⟩) ∈ hopsFor nodes p ↔ ∃ r ∈ routesFor nodes p, (x, y) ∈ links r := by
  simp only [hopsFor, routesFor, List.mem_flatMap, List.mem_map, List.mem_filter, decide_eq_true_eq]
  constructor
  · rintro ⟨e, he, hmem⟩
    unfold PolicyRule.hops at hmem
    split at hmem
    · simp at hmem
    next hpath =>
      obtain ⟨link, hlink, heq⟩ := List.mem_map.mp hmem
      cases heq
      exact ⟨_, ⟨e, ⟨he, hpath⟩, rfl⟩, hlink⟩
  · rintro ⟨_, ⟨e, ⟨he, hpath⟩, rfl⟩, hlink⟩
    refine ⟨e, he, ?_⟩
    rw [PolicyRule.hops, if_neg hpath]
    exact List.mem_map.mpr ⟨_, hlink, rfl⟩

theorem lastHop_mem {x : String} {h : Hop} (hx : lastHop nodes p x = some h) : (x, h) ∈ hopsFor nodes p := by
  obtain ⟨⟨x', h'⟩, hlast, rfl⟩ := Option.map_eq_some_iff.mp hx
  obtain ⟨hmem, hkey⟩ := List.mem_filter.mp (List.mem_of_getLast? hlast)
  exact of_decide_eq_true hkey ▸ hmem

theorem lastHop_eq_none {x : String} : lastHop nodes p x = none ↔ ∀ e ∈ hopsFor nodes p, e.1 ≠ x := by
  simp [lastHop]

theorem Compatible.next_link (h : Compatible nodes p) {r : List String} {x y : String} (hr : r ∈ routesFor nodes p)
    (hlink : (x, y) ∈ links r) : next nodes p x = some y := by
  rw [next_eq_lastHop]
  cases hlast : lastHop nodes p x with
  | none => exact absurd rfl (lastHop_eq_none.mp hlast _ (mem_hopsFor_route.mpr ⟨r, hr, hlink⟩))
  | some hop =>
    obtain ⟨z, direct⟩ := hop
    cases direct with
    | true => exact congrArg some (h.direct r hr x y z hlink hlast)
    | false =>
      obtain ⟨r', hr', hlink'⟩ := mem_hopsFor_route.mp (lastHop_mem hlast)
      exact congrArg some (h.agree r' hr' r hr x z y hlink' hlink)

theorem Compatible.next_end (h : Compatible nodes p) {r : List String} {x : String} (hr : r ∈ routesFor nodes p)
    (hx : x ∈ r.getLast?) : next nodes p x = none := by
  rw [next_eq_lastHop, lastHop_eq_none.mpr (h.ends r hr x hx)]
  rfl

theorem Compatible.walks (h : Compatible nodes p) {n : String} {path : List String}
    (hr : n :: path ∈ routesFor nodes p) (i : Nat) : follow (next nodes p) i n = (n :: path)[i]? :=
  (follow_list_iff n path).mpr ⟨fun _ he => h.next_link hr he, fun _ hz => h.next_end hr hz⟩ i

theorem directNext_of_next {x : String} (hx : ¬ ∃ r ∈ routesFor nodes p, ∃ e ∈ links r, e.1 = x) :
    directNext nodes p x = next nodes p x := by
  rw [directNext, if_neg hx, next_eq_lastHop]

theorem next_of_directNext {x y : String} (hx : directNext nodes p x = some y) : next nodes p x = some y := by
  by_cases hon : ∃ r ∈ routesFor nodes p, ∃ e ∈ links r, e.1 = x
  · rw [directNext, if_pos hon] at hx
    cases hx
  · rwa [directNext_of_next hon] at hx

theorem Compatible.not_cycle (h : Compatible nodes p) : Acyclic (next nodes p) := by
  intro x n hcycle
  -- a node of a route on the cycle would lead to the end of the route
  have hoff : ∀ i y, follow (next nodes p) i x = some y → ¬ ∃ r ∈ routesFor nodes p, ∃ e ∈ links r, e.1 = y := by
    rintro i y hy ⟨r, hr, e, he, rfl⟩
    obtain ⟨m, -, pr, -, -, -, rfl⟩ := mem_routesFor.mp hr
    exact not_cycle_of_mem_list (h.walks hr) (List.of_mem_zip he).1 n (cycle_of_follow hcycle hy)
  refine h.acyclic x n ?_
  rw [← hcycle]
  exact follow_congr fun i _ y hy => directNext_of_next (hoff i y hy)

/-- The rules of a prefix carry the traffic of every path to its end and none
in a circle if and only if they are compatible. -/
theorem delivers_iff_compatible (nodes : List Node) (p : String) : Delivers nodes p ↔ Compatible nodes p := by
  constructor
  · intro h
    have hwalk : ∀ r ∈ routesFor nodes p, (∀ e ∈ links r, next nodes p e.1 = some e.2) ∧
        ∀ z ∈ r.getLast?, next nodes p z = none := by
      intro r hr
      obtain ⟨n, hn, pr, hpr, hpfx, hpath, rfl⟩ := mem_routesFor.mp hr
      exact (follow_list_iff n.id pr.path).mp (h.paths n hn pr hpr hpfx hpath)
    constructor
    · intro r hr r' hr' x y z hy hz
      exact Option.some.inj (((hwalk r hr).1 _ hy).symm.trans ((hwalk r' hr').1 _ hz))
    · intro r hr x y z hy hlast
      have hx := (hwalk r hr).1 _ hy
      rw [next_eq_lastHop, hlast] at hx
      exact Option.some.inj hx
    · intro r hr x hx
      have hnone := (hwalk r hr).2 x hx
      rw [next_eq_lastHop, Option.map_eq_none_iff] at hnone
      exact lastHop_eq_none.mp hnone
    · intro x n hcycle
      exact acyclic_iff.mpr h.once x n (follow_mono (fun _ _ => next_of_directNext) hcycle)
  · intro h
    refine ⟨fun n hn pr hpr hpfx hpath => ?_, acyclic_iff.mp h.not_cycle⟩
    exact h.walks (mem_routesFor.mpr ⟨n, hn, pr, hpr, hpfx, hpath, rfl⟩)

end

/-- Two sources share their first hop, and the later one decides where it sends
the prefix. -/
theorem later_path_diverts_earlier :
    ¬ ∀ (nodes : List Node) (p : String), (nodes.map (·.id)).Nodup → Delivers nodes p := by
  intro h
  have hpaths := (h [{ id := "n1", policyRules := [{ pfx := "10.9.0.0/16", path := ["a", "b"] }] },
    { id := "n2", policyRules := [{ pfx := "10.9.0.0/16", path := ["a", "c"] }] }] "10.9.0.0/16" (by decide)).paths
  exact absurd (hpaths _ List.mem_cons_self _ List.mem_cons_self rfl (by decide) 2) (by decide)

end PeerWan
