import Mathlib.Data.Finset.Lattice.Lemmas
import PeerWan.Agent.Render
import PeerWan.Lib.Overwrite

/-!
# What the commands leave in the kernel

A kernel on which every `ip` command succeeds: each routing table has one route
for a prefix, and the rules are a set. The commands of a plan then come down to
assignments to tables and additions to the rules, and what is left at a prefix
is the last assignment to it.
-/

namespace PeerWan

open Lib

structure Route where
  pfx : String
  hop : RouteHop
  deriving DecidableEq, Repr

structure Kernel where
  routes : RouteTable → Table Route.pfx
  rules : Finset IpRule

/-- The prefix of a route: `default` is another word for the zero prefix. -/
def routeKey (pfx : String) : String := if pfx = "default" then zeroPrefix else pfx

namespace Kernel

def get? (k : Kernel) (t : RouteTable) (pfx : String) : Option RouteHop := ((k.routes t).get? pfx).map (·.hop)

/-- A prefix as `ip route show` prints it. -/
def showPrefix (pfx : String) : String :=
  if pfx = zeroPrefix then "default"
  else if "/32".toList <:+ pfx.toList then String.ofList (pfx.toList.take (pfx.toList.length - 3))
  else pfx

def showRoute (r : Route) : String :=
  showPrefix r.pfx ++ (match r.hop.via with | some via => " via " ++ via | none => "") ++ " dev " ++ r.hop.dev ++
    (if r.hop.scopeLink then " scope link" else "") ++ "\n"

instance : IpHost Kernel where
  exec c k := match c with
    | .routeReplace pfx hop t =>
      (true, { k with routes := Function.update k.routes t ((k.routes t).put ⟨routeKey pfx, hop⟩) })
    | .routeDel pfx dev t =>
      (true, if (k.get? t (routeKey pfx)).any (·.dev = dev) then
        { k with routes := Function.update k.routes t ((k.routes t).erase (routeKey pfx)) } else k)
    | .ruleAdd rule => (true, { k with rules := insert rule k.rules })
    | .flushCache => (true, k)
  showDefault k := some (String.join (((k.routes .main).rows.filter fun r => r.pfx = zeroPrefix).map showRoute))
  showTable52 dev k := some (String.join (((k.routes .t52).rows.filter fun r => r.hop.dev = dev).map showRoute))

variable (k : Kernel) (c : IpCmd) (t : RouteTable) (key : String)

@[simp] theorem exec_succeeds : (IpHost.exec c k).1 = true := by
  cases c <;> rfl

theorem execWhile_eq (cs : List IpCmd) : execWhile cs k = (true, run IpCmd.exec k cs) := by
  induction cs generalizing k with
  | nil => rfl
  | cons c cs ih =>
    have hc : IpHost.exec c k = (true, IpCmd.exec c k) := Prod.ext (exec_succeeds k c) rfl
    rw [execWhile, hc]
    exact ih (IpCmd.exec c k)

end Kernel

-- ---------------------------------------------------------------------------
-- Assignments
-- ---------------------------------------------------------------------------

def IpCmd.assigns (t : RouteTable) : IpCmd → Option (String × RouteHop)
  | .routeReplace pfx hop t' => if t' = t then some (routeKey pfx, hop) else none
  | _ => none

def IpCmd.addsRule : IpCmd → Option IpRule
  | .ruleAdd rule => some rule
  | _ => none

/-- The command takes no route out of a table. -/
def IpCmd.Adds (t : RouteTable) : IpCmd → Prop
  | .routeDel _ _ t' => t' ≠ t
  | _ => True

namespace Kernel

variable {t : RouteTable} (k : Kernel) (key : String)

theorem get?_update (t t' : RouteTable) (table : Table Route.pfx) :
    ({ k with routes := Function.update k.routes t' table } : Kernel).get? t key =
      if t' = t then (table.get? key).map (·.hop) else k.get? t key := by
  unfold get?
  by_cases h : t' = t
  · subst h
    simp
  · simp [h, Function.update_of_ne (Ne.symm h)]

theorem get?_exec {c : IpCmd} (hc : c.Adds t) :
    (IpCmd.exec c k).get? t key = (lastAt key (c.assigns t).toList).or (k.get? t key) := by
  cases c with
  | routeReplace pfx hop t' =>
    show ({ k with routes := Function.update k.routes t' _ } : Kernel).get? t key = _
    rw [get?_update, IpCmd.assigns]
    split
    next ht =>
      subst ht
      rw [Table.get?_put]
      by_cases hkey : routeKey pfx = key <;> simp [hkey, lastAt, get?]
    next => rfl
  | routeDel pfx dev t' =>
    show Kernel.get? (if _ then _ else _) t key = _
    split
    · rw [get?_update, if_neg hc]
      rfl
    · rfl
  | ruleAdd rule => rfl
  | flushCache => rfl

theorem get?_run {cs : List IpCmd} (hcs : ∀ c ∈ cs, c.Adds t) :
    (run IpCmd.exec k cs).get? t key = (lastAt key (cs.filterMap (IpCmd.assigns t))).or (k.get? t key) :=
  get_run (f := IpCmd.exec) (g := fun k key => Kernel.get? k t key) (w := IpCmd.assigns t)
    (fun c hc k => get?_exec k key (hcs c hc)) k

theorem rules_run (cs : List IpCmd) :
    (run IpCmd.exec k cs).rules = k.rules ∪ (cs.filterMap IpCmd.addsRule).toFinset := by
  induction cs generalizing k with
  | nil => simp
  | cons c cs ih =>
    rw [run_cons, ih]
    cases c with
    | ruleAdd rule =>
      show insert rule k.rules ∪ _ = k.rules ∪ (rule :: cs.filterMap IpCmd.addsRule).toFinset
      rw [List.toFinset_cons, Finset.insert_union, Finset.union_insert]
    | routeDel pfx dev t =>
      have hrules : (IpCmd.exec (.routeDel pfx dev t) k).rules = k.rules := by
        show Kernel.rules (if _ then _ else _) = _
        split <;> rfl
      rw [hrules]
      rfl
    | routeReplace pfx hop t => rfl
    | flushCache => rfl

end Kernel

-- ---------------------------------------------------------------------------
-- The commands of a plan
-- ---------------------------------------------------------------------------

def defaultCmds (plan : Plan) (iface : String) : List IpCmd :=
  let nh := frrOverlayForPeer (if plan.defaultRouteNextHop = "" then plan.egressPeerID else plan.defaultRouteNextHop)
    plan.peers
  if plan.defaultRoute ∧ nh ≠ "" then
    .routeReplace "default" { via := firstPart nh, dev := iface } .t100 ::
      plan.bypassCIDRs.map (fun c => .ruleAdd ⟨.source c, .main, 100⟩) ++ [.ruleAdd ⟨.all, .t100, 200⟩]
  else []

def localCmds (primary : String × String) (pfx : String) : List IpCmd :=
  .ruleAdd ⟨.dest pfx, .main, 150⟩ ::
    if primary.1 ≠ "" ∧ primary.2 ≠ "" then [.routeReplace pfx { via := primary.1, dev := primary.2 } .main] else []

def viaCmds (iface nextHop pfx : String) : List IpCmd :=
  [.routeReplace (firstPart nextHop ++ "/32") { dev := iface, scopeLink := true } .main,
    .routeReplace pfx { via := firstPart nextHop, dev := iface } .main,
    .routeReplace pfx { via := firstPart nextHop, dev := iface } .t100,
    .ruleAdd ⟨.dest pfx, .main, 140⟩]

def ruleCmds (ex : Expander) (primary : String × String) (peers : List Peer) (iface : String) (pr : PolicyRule) :
    List IpCmd :=
  let nextHop := frrOverlayForPeer pr.nextID peers
  if pr.isLocal then (ex.expand pr).flatMap (localCmds primary)
  else if nextHop = "" then [] else (ex.expand pr).flatMap (viaCmds iface nextHop)

def policyCmds (ex : Expander) (primary : String × String) (plan : Plan) (iface : String) : List IpCmd :=
  defaultCmds plan iface ++ plan.policyRules.flatMap (ruleCmds ex primary plan.peers iface)

namespace Kernel

variable (k : Kernel)

theorem applyDefault_eq (plan : Plan) (iface : String) :
    applyDefault plan iface k = run IpCmd.exec k (defaultCmds plan iface) := by
  unfold applyDefault defaultCmds
  dsimp only
  generalize frrOverlayForPeer _ plan.peers = nh
  cases plan.defaultRoute with
  | false => rfl
  | true =>
    by_cases hnh : nh = ""
    · simp [hnh]
    · have hbypass : ∀ h : Kernel,
          plan.bypassCIDRs.foldl (fun h c => IpCmd.exec (.ruleAdd ⟨.source c, .main, 100⟩) h) h =
            run IpCmd.exec h (plan.bypassCIDRs.map fun c => .ruleAdd ⟨.source c, .main, 100⟩) := by
        intro h
        rw [run, List.foldl_map]
      simp only [if_true, hnh, if_false, ne_eq, not_false_eq_true, and_self, List.cons_append, run_cons, run_append,
        hbypass]
      rfl

theorem applyLocal_eq (primary : String × String) (pfx : String) :
    applyLocal primary pfx k = run IpCmd.exec k (localCmds primary pfx) := by
  unfold applyLocal localCmds
  split <;> rfl

theorem applyVia_eq (iface : String) {nextHop pfx : String} (hpfx : pfx ≠ "") (hnh : nextHop ≠ "") :
    applyVia iface nextHop pfx k = run IpCmd.exec k (viaCmds iface nextHop pfx) := by
  unfold applyVia applyRoute
  simp only [hpfx, hnh, or_self, if_false, execWhile_eq]
  rfl

theorem applyRule_eq (ex : Expander) (primary : String × String) (peers : List Peer) (iface : String)
    (pr : PolicyRule) :
    applyRule ex primary peers iface pr k = run IpCmd.exec k (ruleCmds ex primary peers iface pr) := by
  unfold applyRule ruleCmds
  cases hvalid : pr.validate with
  | false => simp [ex.invalid pr hvalid]
  | true =>
    simp only [Bool.not_true, Bool.false_eq_true, if_false]
    split
    · simp only [applyLocal_eq]
      exact foldl_run _ k _
    · split
      · rfl
      next hnh =>
        rw [← foldl_run]
        refine List.foldl_ext _ _ _ fun k pfx hpfx => applyVia_eq k iface ?_ hnh
        rintro rfl
        exact absurd (ex.masked pr "" hpfx) (by decide)

theorem applyPolicy_eq (ex : Expander) (primary : String × String) (plan : Plan) (iface : String) :
    plan.policyRules.foldl (fun h pr => applyRule ex primary plan.peers iface pr h) (applyDefault plan iface k) =
      run IpCmd.exec k (policyCmds ex primary plan iface) := by
  rw [policyCmds, run_append, ← applyDefault_eq]
  simp only [applyRule_eq]
  exact foldl_run _ _ _

end Kernel

-- ---------------------------------------------------------------------------
-- The routes to the peers
-- ---------------------------------------------------------------------------

def syncDevice (iface : String) : String := if iface = "" then "wg0" else iface

def ensureCmds (o : MapOrder String) (peers : List Peer) (iface : String) (table : RouteTable) : List IpCmd :=
  (o.order (desiredPrefixes peers)).map fun pref => .routeReplace pref { dev := syncDevice iface } table

theorem isPeerPrefix_of_desired {peers : List Peer} {pref : String} (h : pref ∈ desiredPrefixes peers) :
    isPeerPrefix pref := by
  rw [desiredPrefixes, List.mem_dedup, List.mem_filter] at h
  exact h.2

theorem routeKey_of_desired {peers : List Peer} {pref : String} (h : pref ∈ desiredPrefixes peers) :
    routeKey pref = pref := by
  have hpref := isPeerPrefix_of_desired h
  unfold routeKey
  split
  next heq =>
    subst heq
    revert hpref
    decide
  next => rfl

def firstWords (out : String) : List String := (lines out).filterMap fun line => (fields line).head?

def pruneCmds (desired : List String) (iface out : String) : List IpCmd :=
  ((firstWords out).filter fun pref => pref ∉ desired ∧ "10.".toList <+: pref.toList).map fun pref =>
    .routeDel pref iface .t52

theorem pruneTable52_eq {κ : Type} [IpHost κ] (desired : List String) (iface out : String) (h : κ) :
    pruneTable52 desired iface out h = run IpCmd.exec h (pruneCmds desired iface out) := by
  unfold pruneTable52 pruneCmds firstWords
  generalize lines out = ls
  induction ls generalizing h with
  | nil => rfl
  | cons line ls ih =>
    rw [List.foldl_cons, ih, List.filterMap_cons]
    cases fields line with
    | nil => rfl
    | cons pref rest =>
      dsimp only [List.head?_cons]
      rw [List.filter_cons]
      by_cases hkept : pref ∈ desired ∨ ¬ "10.".toList <+: pref.toList
      · rw [if_pos hkept, if_neg]
        simp only [decide_eq_true_eq]
        exact fun hgone => hkept.elim hgone.1 (fun hother => hother hgone.2)
      · rw [if_neg hkept, if_pos]
        · rfl
        · rw [not_or, not_not] at hkept
          exact decide_eq_true hkept

/-- The sync, once both tables have the wanted prefixes. What cannot be shown is
not pruned. -/
theorem syncPeerRoutes_of_ensured {κ : Type} [IpHost κ] {o : RouteTable → MapOrder String} {peers : List Peer}
    {iface : String} {h h₁ h₂ : κ} (hmain : execWhile (ensureCmds (o .main) peers iface .main) h = (true, h₁))
    (ht52 : execWhile (ensureCmds (o .t52) peers iface .t52) h₁ = (true, h₂)) :
    syncPeerRoutes o peers iface h = (true, IpCmd.exec .flushCache (run IpCmd.exec h₂ (pruneCmds
      (desiredPrefixes peers) (syncDevice iface) ((IpHost.showTable52 (syncDevice iface) h₂).getD "")))) := by
  unfold ensureCmds at hmain ht52
  unfold syncPeerRoutes
  rw [← syncDevice]
  simp only [hmain, ht52, pruneTable52_eq]
  cases IpHost.showTable52 (syncDevice iface) h₂ <;> rfl

theorem ensured_of_syncPeerRoutes {κ : Type} [IpHost κ] {o : RouteTable → MapOrder String} {peers : List Peer}
    {iface : String} {h : κ} (hok : (syncPeerRoutes o peers iface h).1 = true) : ∃ h₁ h₂,
      execWhile (ensureCmds (o .main) peers iface .main) h = (true, h₁) ∧
        execWhile (ensureCmds (o .t52) peers iface .t52) h₁ = (true, h₂) := by
  unfold syncPeerRoutes at hok
  rw [← syncDevice] at hok
  unfold ensureCmds
  dsimp only at hok
  split at hok
  next => cases hok
  next h₁ hmain =>
    split at hok
    next => cases hok
    next h₂ ht52 => exact ⟨h₁, h₂, hmain, ht52⟩

namespace Kernel

variable (k : Kernel)

/-- The sync puts the wanted prefixes into two tables, and takes routes out of
table 52 only. -/
theorem syncPeerRoutes_eq (o : RouteTable → MapOrder String) (peers : List Peer) (iface : String) :
    ∃ cs : List IpCmd, (∀ c ∈ cs, (∃ pref, c = .routeDel pref (syncDevice iface) .t52) ∨ c = .flushCache) ∧
      syncPeerRoutes o peers iface k = (true, run IpCmd.exec k
        (ensureCmds (o .main) peers iface .main ++ ensureCmds (o .t52) peers iface .t52 ++ cs)) := by
  have hsync := syncPeerRoutes_of_ensured (execWhile_eq k (ensureCmds (o .main) peers iface .main))
    (execWhile_eq _ (ensureCmds (o .t52) peers iface .t52))
  generalize hprune : pruneCmds (desiredPrefixes peers) (syncDevice iface) _ = prune at hsync
  refine ⟨prune ++ [.flushCache], ?_, ?_⟩
  · intro c hc
    rcases List.mem_append.mp hc with hc | hc
    · rw [← hprune] at hc
      obtain ⟨pref, -, rfl⟩ := List.mem_map.mp hc
      exact .inl ⟨pref, rfl⟩
    · exact .inr (List.mem_singleton.mp hc)
  · rw [hsync, run_append, run_append, run_append]
    rfl

end Kernel

-- ---------------------------------------------------------------------------
-- What a plan leaves
-- ---------------------------------------------------------------------------

/-- The assignments of a plan to a table, beside the routes to its peers. -/
def planRoutes (ex : Expander) (primary : String × String) (plan : Plan) (iface : String) (t : RouteTable) :
    List (String × RouteHop) :=
  (policyCmds ex primary plan iface).filterMap (IpCmd.assigns t)

def planRules (ex : Expander) (plan : Plan) (iface : String) : List IpRule :=
  (policyCmds ex ("", "") plan iface).filterMap IpCmd.addsRule

theorem localCmds_primary (primary : String × String) (pfx : String) :
    (localCmds primary pfx).filterMap IpCmd.addsRule = [⟨.dest pfx, .main, 150⟩] ∧
      (localCmds primary pfx).filterMap (IpCmd.assigns .t100) = [] := by
  unfold localCmds
  split <;> exact ⟨rfl, rfl⟩

theorem ruleCmds_primary (ex : Expander) (primary primary' : String × String) (peers : List Peer) (iface : String)
    (pr : PolicyRule) :
    (ruleCmds ex primary peers iface pr).filterMap IpCmd.addsRule =
        (ruleCmds ex primary' peers iface pr).filterMap IpCmd.addsRule ∧
      (ruleCmds ex primary peers iface pr).filterMap (IpCmd.assigns .t100) =
        (ruleCmds ex primary' peers iface pr).filterMap (IpCmd.assigns .t100) := by
  unfold ruleCmds
  split
  · simp only [List.filterMap_flatMap, localCmds_primary, and_self]
  · exact ⟨rfl, rfl⟩

theorem planRules_eq (ex : Expander) (primary : String × String) (plan : Plan) (iface : String) :
    (policyCmds ex primary plan iface).filterMap IpCmd.addsRule = planRules ex plan iface := by
  simp only [planRules, policyCmds, List.filterMap_append, List.filterMap_flatMap,
    (ruleCmds_primary ex primary ("", "") plan.peers iface _).1]

theorem planRoutes_t100 (ex : Expander) (primary primary' : String × String) (plan : Plan) (iface : String) :
    planRoutes ex primary plan iface .t100 = planRoutes ex primary' plan iface .t100 := by
  simp only [planRoutes, policyCmds, List.filterMap_append, List.filterMap_flatMap,
    (ruleCmds_primary ex primary primary' plan.peers iface _).2]

theorem policyCmds_adds (ex : Expander) (primary : String × String) (plan : Plan) (iface : String) (t : RouteTable) :
    ∀ c ∈ policyCmds ex primary plan iface, c.Adds t := by
  intro c hc
  rw [policyCmds, List.mem_append, List.mem_flatMap] at hc
  rcases hc with hc | ⟨pr, -, hc⟩
  · unfold defaultCmds at hc
    dsimp only at hc
    generalize frrOverlayForPeer _ plan.peers = nh at hc
    split at hc
    · simp only [List.cons_append, List.mem_cons, List.mem_append, List.mem_map, List.not_mem_nil, or_false] at hc
      rcases hc with rfl | ⟨_, _, rfl⟩ | rfl <;> trivial
    · cases hc
  · unfold ruleCmds at hc
    dsimp only at hc
    split at hc
    · obtain ⟨pfx, -, hc⟩ := List.mem_flatMap.mp hc
      unfold localCmds at hc
      split at hc <;> simp only [List.mem_cons, List.not_mem_nil, or_false] at hc
      · rcases hc with rfl | rfl <;> trivial
      · subst hc
        trivial
    · split at hc
      · cases hc
      · obtain ⟨pfx, -, hc⟩ := List.mem_flatMap.mp hc
        simp only [viaCmds, List.mem_cons, List.not_mem_nil, or_false] at hc
        rcases hc with rfl | rfl | rfl | rfl <;> trivial

namespace Kernel

variable (ex : Expander) (o : RouteTable → MapOrder String) (plan : Plan) (iface : String) (k : Kernel) (key : String)

theorem applyStaticRoutes_eq : ∃ cs : List IpCmd,
    (∀ c ∈ cs, (∃ pref, c = .routeDel pref (syncDevice iface) .t52) ∨ c = .flushCache) ∧
    applyStaticRoutes ex o plan iface k = run IpCmd.exec k (ensureCmds (o .main) plan.peers iface .main ++
      ensureCmds (o .t52) plan.peers iface .t52 ++ cs ++ policyCmds ex (detectPrimaryRoute k) plan iface) := by
  obtain ⟨cs, hcs, hsync⟩ := syncPeerRoutes_eq k o plan.peers iface
  refine ⟨cs, hcs, ?_⟩
  rw [run_append, ← applyPolicy_eq]
  unfold applyStaticRoutes
  rw [hsync]
  rfl

theorem assigns_ensure (m : MapOrder String) (peers : List Peer) (t t' : RouteTable) :
    (ensureCmds m peers iface t').filterMap (IpCmd.assigns t) =
      if t' = t then (m.order (desiredPrefixes peers)).map fun pref => (pref, { dev := syncDevice iface })
      else [] := by
  unfold ensureCmds
  rw [List.filterMap_map]
  split
  next ht =>
    rw [← List.filterMap_eq_map]
    refine List.filterMap_congr fun pref hpref => ?_
    have hkey := routeKey_of_desired ((m.perm _).mem_iff.mp hpref)
    simp [IpCmd.assigns, ht, hkey]
  next ht => simp [IpCmd.assigns, ht]

theorem get?_applyStaticRoutes {t : RouteTable} (ht : t ≠ .t52) :
    (applyStaticRoutes ex o plan iface k).get? t key =
      (lastAt key (planRoutes ex (detectPrimaryRoute k) plan iface t)).or
        ((lastAt key ((ensureCmds (o .main) plan.peers iface .main).filterMap (IpCmd.assigns t))).or
          (k.get? t key)) := by
  obtain ⟨cs, hcs, heq⟩ := applyStaticRoutes_eq ex o plan iface k
  have hadds : ∀ c ∈ ensureCmds (o .main) plan.peers iface .main ++
      ensureCmds (o .t52) plan.peers iface .t52 ++ cs ++ policyCmds ex (detectPrimaryRoute k) plan iface,
      c.Adds t := by
    intro c hc
    simp only [List.mem_append, ensureCmds, List.mem_map] at hc
    rcases hc with ((⟨_, _, rfl⟩ | ⟨_, _, rfl⟩) | hc) | hc
    · trivial
    · trivial
    · rcases hcs c hc with ⟨pref, rfl⟩ | rfl
      · exact Ne.symm ht
      · trivial
    · exact policyCmds_adds ex _ plan iface t c hc
  have hnone : cs.filterMap (IpCmd.assigns t) = [] := by
    rw [List.filterMap_eq_nil_iff]
    intro c hc
    rcases hcs c hc with ⟨pref, rfl⟩ | rfl <;> rfl
  rw [heq, get?_run k key hadds, List.filterMap_append, List.filterMap_append, List.filterMap_append, hnone,
    assigns_ensure, assigns_ensure iface (o .t52), if_neg (Ne.symm ht)]
  simp [lastAt_append, planRoutes, Option.or_assoc]

theorem get?_t100 : (applyStaticRoutes ex o plan iface k).get? .t100 key =
    (lastAt key (planRoutes ex ("", "") plan iface .t100)).or (k.get? .t100 key) := by
  rw [get?_applyStaticRoutes ex o plan iface k key (by decide), assigns_ensure, if_neg (by decide),
    planRoutes_t100 ex _ ("", "")]
  rfl

/-- The main table at a prefix once the routes to the peers are in. -/
def synced (k : Kernel) (peers : List Peer) (iface key : String) : Option RouteHop :=
  if key ∈ desiredPrefixes peers then some { dev := syncDevice iface } else k.get? .main key

theorem get?_main : (applyStaticRoutes ex o plan iface k).get? .main key =
    (lastAt key (planRoutes ex (detectPrimaryRoute k) plan iface .main)).or (k.synced plan.peers iface key) := by
  rw [get?_applyStaticRoutes ex o plan iface k key (by decide), assigns_ensure, if_pos rfl, synced]
  have hmem : ∀ w, w ∈ ((o .main).order (desiredPrefixes plan.peers)).map
      (fun pref => (pref, ({ dev := syncDevice iface } : RouteHop))) ↔
      w.1 ∈ desiredPrefixes plan.peers ∧ w.2 = { dev := syncDevice iface } := by
    rintro ⟨pref, hop⟩
    simp only [List.mem_map, ((o .main).perm _).mem_iff, Prod.mk.injEq]
    constructor
    · rintro ⟨_, h, rfl, rfl⟩
      exact ⟨h, rfl⟩
    · rintro ⟨h, rfl⟩
      exact ⟨pref, h, rfl, rfl⟩
  split
  next hkey =>
    rw [lastAt_of_forall (v := { dev := syncDevice iface }) ⟨(key, _), (hmem _).mpr ⟨hkey, rfl⟩, rfl⟩
      fun w hw _ => ((hmem w).mp hw).2, Option.some_or]
  next hkey =>
    have hnone : lastAt key (((o .main).order (desiredPrefixes plan.peers)).map
        fun pref => (pref, ({ dev := syncDevice iface } : RouteHop))) = none := by
      rw [lastAt_eq_none]
      rintro w hw rfl
      exact hkey ((hmem w).mp hw).1
    rw [hnone, Option.none_or]

theorem rules_applyStaticRoutes :
    (applyStaticRoutes ex o plan iface k).rules = k.rules ∪ (planRules ex plan iface).toFinset := by
  obtain ⟨cs, hcs, heq⟩ := applyStaticRoutes_eq ex o plan iface k
  have hnone : cs.filterMap IpCmd.addsRule = [] := by
    rw [List.filterMap_eq_nil_iff]
    intro c hc
    rcases hcs c hc with ⟨pref, rfl⟩ | rfl <;> rfl
  have hensure : ∀ m t, (ensureCmds m plan.peers iface t).filterMap IpCmd.addsRule = [] := by
    intro m t
    simp [ensureCmds, IpCmd.addsRule]
  rw [heq, rules_run]
  simp only [List.filterMap_append, hnone, hensure, List.nil_append, planRules_eq]

end Kernel

end PeerWan
