import PeerWan.Lib.Runs
import PeerWan.Controller.Effects

/-!
# Fresh plans

A stored plan is fresh when the node list, the policies and the health reports
still give its peers and its rules. Only a register saves every plan again, so
the other requests keep the plans fresh as long as they change nothing that a
plan they do not save was computed from.
-/

namespace PeerWan

open Lib

/-- The plan has the peers and, for some order of the node list, the rules that
the store gives for the node `id`. -/
def FreshPlan (m : MemoryStore) (id : String) (p : Plan) : Prop :=
  (∀ q, q ∈ p.peers ↔ q ∈ buildPeerPlan id m.nodes.rows m.health) ∧
  ∃ l, l.Perm m.nodes.rows ∧ p.policyRules = expandPolicyRules l id

def Fresh (m : MemoryStore) : Prop :=
  ∀ n ∈ m.nodes.rows, ∀ p, m.plans n.id = some p → FreshPlan m n.id p

def HasPlan (m : MemoryStore) (n : Node) : Prop := n ∈ m.nodes.rows ∧ (m.plans n.id).isSome

/-- What a prepare may write over without any plan noticing: a new id whose old
plan, if any, fits, or a record that is in no plan of another node and gives no
rule to any. -/
def PrepareStaysFresh (m : MemoryStore) (id : String) : Prop :=
  match m.nodes.get? id with
  | none => ∀ p, m.plans id = some p → FreshPlan m id p
  | some n => ∀ n', HasPlan m n' → n.contribution n'.id = [] ∧
      (n'.id ≠ id → ¬ (n.Complete ∧ ¬ Down m.health id))

/-- The new policy gives every node with a plan the same rules as the old one. -/
def PolicyStaysFresh (m : MemoryStore) (req : PolicyRequest) (n : Node) : Prop :=
  ∀ n', HasPlan m n' → (n.withPolicy req).contribution n'.id = n.contribution n'.id

/-- No other node is down, which the reporter's own plan would miss, and the
reporter does not go down or come up, which the other plans would miss. -/
def HealthStaysFresh (m : MemoryStore) (report : HealthReport) : Prop :=
  ∀ n, m.nodes.get? report.nodeID = some n →
    (∀ n' ∈ m.nodes.rows, n'.id ≠ n.id → n'.Complete → ¬ Down m.health n'.id) ∧
    (n.Complete → (∃ n', HasPlan m n' ∧ n'.id ≠ n.id) → (report.status = "down" ↔ Down m.health n.id))

def StaysFresh (c : Controller MemoryStore) (e : Env × Request) : Prop :=
  match e.2 with
  | .prepare auth _ body => ∀ id priv, PrepareWrites c.store e.1 auth body id priv → PrepareStaysFresh c.store id
  | .policy auth body => ∀ req n, PolicyAccepted c.store auth body req n → PolicyStaysFresh c.store req n
  | .health auth body => ∀ report, HealthAccepted c.store e.1 auth body report → HealthStaysFresh c.store report
  | _ => True

-- ---------------------------------------------------------------------------
-- What a plan sees of a change
-- ---------------------------------------------------------------------------

variable {id : String} {p : Plan}

theorem FreshPlan.congr {m m' : MemoryStore} (hn : m'.nodes = m.nodes) (hh : m'.health = m.health)
    (h : FreshPlan m id p) : FreshPlan m' id p := by
  rw [FreshPlan, hn, hh]
  exact h

theorem Fresh.congr {m m' : MemoryStore} (hn : m'.nodes = m.nodes) (hh : m'.health = m.health)
    (hp : m'.plans = m.plans) (h : Fresh m) : Fresh m' := by
  intro n hn' p hp'
  rw [hn] at hn'
  rw [hp] at hp'
  exact (h n hn' p hp').congr hn hh

theorem freshPlan_planOf {m : MemoryStore} {l : List Node} (hl : l.Perm m.nodes.rows) (host : Host)
    (env : Env) (version : Int) (n : Node) (id : String) :
    FreshPlan m id (planOf host env version n (buildPeerPlan id l m.health) (expandPolicyRules l id)) :=
  ⟨fun _ => (buildPeerPlan_perm hl id m.health).mem_iff, l, hl, rfl⟩

theorem recomputeAllPlans_fresh (host : Host) (env : Env) (k : Nat) (c : Controller MemoryStore) :
    Fresh (recomputeAllPlans host env k c).2.store := by
  have haside := recomputeAllPlans_aside host env k c
  intro n hn p hp
  rw [haside.nodes] at hn
  rw [recomputeAllPlans_eq] at hp
  rcases savePlans_plans host env (c.store.nodes.range (env.nodeOrder k)) c.store.health
    (c.store.nodes.range (env.nodeOrder k)) c n.id with ⟨hid, -⟩ | ⟨n', -, -, version, hp'⟩
  · exact absurd (List.mem_map_of_mem (Table.mem_range.mpr hn)) hid
  · obtain rfl := Option.some.inj (hp.symm.trans hp')
    exact (freshPlan_planOf (Table.range_perm ..) host env version n' n.id).congr haside.nodes haside.health

theorem contribution_of_noPolicy {n : Node} (h : n.policyFields = {}) (m : String) : n.contribution m = [] := by
  have hr : n.policyRules = [] := congrArg PolicyFields.policyRules h
  rw [Node.contribution, hr]
  rfl

theorem flatMap_filter_of_nil {f : α → List β} {P : α → Bool} {l : List α}
    (h : ∀ a ∈ l, P a = false → f a = []) : (l.filter P).flatMap f = l.flatMap f := by
  induction l with
  | nil => rfl
  | cons a l ih =>
    have ih := ih fun b hb => h b (List.mem_cons_of_mem _ hb)
    cases ha : P a with
    | true => rw [List.filter_cons_of_pos ha, List.flatMap_cons, List.flatMap_cons, ih]
    | false =>
      rw [List.filter_cons_of_neg (by simp [ha]), List.flatMap_cons, ih, h a (by simp) ha, List.nil_append]

theorem FreshPlan.putBare {m m' : MemoryStore} {a : Node} (ha : ¬ a.Complete) (hp : a.policyFields = {})
    (hn : m'.nodes = m.nodes.put a) (hh : m'.health = m.health)
    (hunseen : ∀ k ∈ m.nodes.rows, k.id = a.id → k.contribution id = [] ∧
      (id ≠ a.id → ¬ (k.Complete ∧ ¬ Down m.health a.id)))
    (h : FreshPlan m id p) : FreshPlan m' id p := by
  obtain ⟨hpeers, l, hl, hrules⟩ := h
  refine ⟨fun q => (hpeers q).trans ?_, l.filter (fun k => k.id ≠ a.id) ++ [a], ?_, ?_⟩
  · rw [mem_buildPeerPlan, mem_buildPeerPlan, hn, hh]
    constructor
    · rintro ⟨k, hk, hid, hc, hd, rfl⟩
      refine ⟨k, Table.mem_put.mpr (.inl ⟨hk, fun hka => ?_⟩), hid, hc, hd, rfl⟩
      exact (hunseen k hk hka).2 (fun hi => hid (hka.trans hi.symm)) ⟨hc, hka ▸ hd⟩
    · rintro ⟨k, hk, hid, hc, hd, rfl⟩
      rcases Table.mem_put.mp hk with ⟨hk, -⟩ | rfl
      · exact ⟨k, hk, hid, hc, hd, rfl⟩
      · exact absurd hc ha
  · rw [hn]
    exact (hl.filter _).append_right _
  · rw [hrules, expandPolicyRules_apply, expandPolicyRules_apply, List.flatMap_append,
      flatMap_filter_of_nil fun k hk hka => (hunseen k (hl.subset hk) (by simpa using hka)).1]
    simp [contribution_of_noPolicy hp]

theorem FreshPlan.putSame {m m' : MemoryStore} {a n : Node} (hget : m.nodes.get? a.id = some n)
    (hn : m'.nodes = m.nodes.put a) (hh : m'.health = m.health) (hc : a.Complete ↔ n.Complete)
    (hpeer : a.toPeer = n.toPeer) (hrule : a.contribution id = n.contribution id)
    (h : FreshPlan m id p) : FreshPlan m' id p := by
  obtain ⟨hpeers, l, hl, hrules⟩ := h
  have hid : n.id = a.id := Table.key_of_get? hget
  have hrow : n ∈ m.nodes.rows := (Table.get?_eq_some.mp hget).1
  have hrepl : ∀ k ∈ m.nodes.rows, k.id = a.id → k = n := fun k hk hka =>
    List.inj_on_of_nodup_map m.nodes.nodup hk hrow (hka.trans hid.symm)
  refine ⟨fun q => (hpeers q).trans ?_, l.map (fun k => if k.id = a.id then a else k), ?_, ?_⟩
  · rw [mem_buildPeerPlan, mem_buildPeerPlan, hn, hh]
    constructor
    · rintro ⟨k, hk, hkid, hkc, hkd, rfl⟩
      by_cases hka : k.id = a.id
      · obtain rfl := hrepl k hk hka
        exact ⟨a, Table.mem_put.mpr (.inr rfl), hka ▸ hkid, hc.mpr hkc, hka ▸ hkd, hpeer.symm⟩
      · exact ⟨k, Table.mem_put.mpr (.inl ⟨hk, hka⟩), hkid, hkc, hkd, rfl⟩
    · rintro ⟨k, hk, hkid, hkc, hkd, rfl⟩
      rcases Table.mem_put.mp hk with ⟨hk, -⟩ | rfl
      · exact ⟨k, hk, hkid, hkc, hkd, rfl⟩
      · exact ⟨n, hrow, hid ▸ hkid, hc.mp hkc, hid ▸ hkd, hpeer⟩
  · rw [hn]
    exact (hl.map _).trans (Table.put_perm_map hget).symm
  · rw [hrules, expandPolicyRules_apply, expandPolicyRules_apply, List.flatMap_map]
    refine List.flatMap_congr fun k hk => ?_
    split
    · next hka => rw [hrepl k (hl.subset hk) hka, hrule]
    · rfl

theorem down_put (health : HealthMap) (report : HealthReport) (k : String) :
    Down (health.put report) k ↔ if report.nodeID = k then report.status = "down" else Down health k := by
  simp only [Down, Table.get?_put]
  split <;> simp

theorem FreshPlan.putHealth {m m' : MemoryStore} {report : HealthReport} (hn : m'.nodes = m.nodes)
    (hh : m'.health = m.health.put report)
    (hd : ∀ n ∈ m.nodes.rows, n.id = report.nodeID → n.Complete → (report.status = "down" ↔ Down m.health n.id))
    (h : FreshPlan m id p) : FreshPlan m' id p := by
  obtain ⟨hpeers, l, hl, hrules⟩ := h
  refine ⟨fun q => (hpeers q).trans ?_, l, hn ▸ hl, hrules⟩
  have hdown : ∀ k ∈ m.nodes.rows, k.Complete → (Down m'.health k.id ↔ Down m.health k.id) := by
    intro k hk hkc
    rw [hh, down_put]
    split
    · next hkr => exact hd k hk hkr.symm hkc
    · rfl
  rw [mem_buildPeerPlan, mem_buildPeerPlan, hn]
  constructor
  · rintro ⟨k, hk, hid, hc, hkd, rfl⟩
    exact ⟨k, hk, hid, hc, (hdown k hk hc).not.mpr hkd, rfl⟩
  · rintro ⟨k, hk, hid, hc, hkd, rfl⟩
    exact ⟨k, hk, hid, hc, (hdown k hk hc).not.mp hkd, rfl⟩

-- ---------------------------------------------------------------------------
-- Requests
-- ---------------------------------------------------------------------------

theorem Fresh.prepareWrites {env : Env} {auth : Credentials} {body : Option String} {id priv : String}
    (host : Host) {c : Controller MemoryStore} (h : Fresh c.store)
    (hw : PrepareWrites c.store env auth body id priv) (hs : PrepareStaysFresh c.store id) :
    Fresh (c.store.upsertNode (prepareNode host env c.store id priv)).2 := by
  let a := (c.store.upsertNode (prepareNode host env c.store id priv)).1
  have ha : ¬ a.Complete := fun hc => hc.1 rfl
  have fresh : ∀ n, n.id = id ∨ n ∈ c.store.nodes.rows → ∀ p, c.store.plans n.id = some p →
      FreshPlan c.store n.id p →
      FreshPlan (c.store.upsertNode (prepareNode host env c.store id priv)).2 n.id p := by
    intro n hn p hp hf
    refine FreshPlan.putBare (a := a) ha rfl rfl rfl (fun k hk hka => ?_) hf
    have hget : c.store.nodes.get? id = some k := Table.get?_eq_some.mpr ⟨hk, hka⟩
    simp only [PrepareStaysFresh, hget] at hs
    rcases hn with rfl | hn
    · have := hs k ⟨hk, by rw [show k.id = n.id from hka, hp]; rfl⟩
      exact ⟨(show k.id = n.id from hka) ▸ this.1, fun hne => absurd rfl hne⟩
    · exact hs n ⟨hn, by rw [hp]; rfl⟩
  intro n hn p hp
  rcases Table.mem_put.mp hn with ⟨hn, -⟩ | rfl
  · exact fresh n (.inr hn) p hp (h n hn p hp)
  · refine fresh a (.inl rfl) p hp ?_
    cases hget : c.store.nodes.get? id with
    | none =>
      simp only [PrepareStaysFresh, hget] at hs
      exact hs p hp
    | some k =>
      obtain ⟨hk, rfl⟩ := Table.get?_eq_some.mp hget
      exact h k hk p hp

theorem Fresh.policySave {env : Env} {auth : Credentials} {body : Option PolicyRequest}
    {req : PolicyRequest} {n : Node} {m : MemoryStore} (h : Fresh m) (ha : PolicyAccepted m auth body req n)
    (hs : PolicyStaysFresh m req n) : Fresh (policySave env m req n) := by
  have hid : n.id = req.nodeID := Table.key_of_get? ha.node
  have hget : m.nodes.get? (n.withPolicy req).id = some n := by
    rw [show (n.withPolicy req).id = req.nodeID from hid]
    exact ha.node
  have fresh : ∀ k p, k ∈ m.nodes.rows → m.plans k.id = some p →
      FreshPlan (PeerWan.policySave env m req n) k.id p := by
    intro k p hk hp
    exact FreshPlan.putSame hget rfl rfl .rfl rfl (hs k ⟨hk, by rw [hp]; rfl⟩) (h k hk p hp)
  intro k hk p hp
  rcases Table.mem_put.mp hk with ⟨hk, -⟩ | rfl
  · exact fresh k p hk hp
  · exact fresh n p (Table.get?_eq_some.mp ha.node).1 hp

theorem mem_healthPlan {report : HealthReport} {nodes : List Node} {q : Peer} :
    q ∈ buildPeerPlan report.nodeID nodes (healthMap [report]) ↔
      ∃ k ∈ nodes, k.id ≠ report.nodeID ∧ k.Complete ∧ q = k.toPeer := by
  have hdown : ∀ k : Node, k.id ≠ report.nodeID → ¬ Down (healthMap [report]) k.id := by
    intro k hk
    rw [show healthMap [report] = (∅ : HealthMap).put report from rfl, down_put, if_neg (Ne.symm hk)]
    simp [Down]
  rw [mem_buildPeerPlan]
  constructor
  · rintro ⟨k, hk, hid, hc, -, rfl⟩
    exact ⟨k, hk, hid, hc, rfl⟩
  · rintro ⟨k, hk, hid, hc, rfl⟩
    exact ⟨k, hk, hid, hc, hdown k hid, rfl⟩

theorem Fresh.healthSave {env : Env} {report : HealthReport} (host : Host) {c : Controller MemoryStore}
    (h : Fresh c.store) (hs : HealthStaysFresh c.store report) : Fresh (healthSave host env report c).store := by
  have haside := healthSave_aside host env report c
  intro n hn p hp
  rw [haside.nodes] at hn
  have hn : n ∈ c.store.nodes.rows := hn
  have hhealth : (PeerWan.healthSave host env report c).store.health = c.store.health.put report := haside.health
  have hplans : (PeerWan.healthSave host env report c).store.plans n.id = some p := hp
  rw [PeerWan.healthSave, savePlanWithRules_eq] at hplans
  dsimp only [MemoryStore.savePlan, MemoryStore.saveHealth] at hplans
  by_cases hid : n.id = report.nodeID
  · rw [hid] at hplans
    have hpeq := Option.some.inj ((Function.update_self (f := c.store.plans) ..).symm.trans hplans)
    have hget : c.store.nodes.get? report.nodeID = some n := Table.get?_eq_some.mpr ⟨hn, hid⟩
    subst hpeq
    refine ⟨fun q => ?_, _, haside.nodes ▸ Table.range_perm c.store.nodes (env.nodeOrder 0), by rw [hid]; rfl⟩
    have hdown : ∀ k ∈ c.store.nodes.rows, k.id ≠ report.nodeID → k.Complete →
        ¬ Down (c.store.health.put report) k.id := by
      intro k hk hne hc
      rw [down_put, if_neg (Ne.symm hne)]
      exact (hs n hget).1 k hk (fun he => hne (he.trans hid)) hc
    refine mem_healthPlan.trans ?_
    rw [mem_buildPeerPlan, haside.nodes, hhealth, hid]
    constructor
    · rintro ⟨k, hk, hne, hc, rfl⟩
      have hk := Table.mem_range.mp hk
      exact ⟨k, hk, hne, hc, hdown k hk hne hc, rfl⟩
    · rintro ⟨k, hk, hne, hc, -, rfl⟩
      exact ⟨k, Table.mem_range.mpr hk, hne, hc, rfl⟩
  · rw [Function.update_of_ne (by exact hid)] at hplans
    refine FreshPlan.putHealth (m := c.store) haside.nodes hhealth (fun k hk hkr hkc => ?_) (h n hn p hplans)
    have hget : c.store.nodes.get? report.nodeID = some k := Table.get?_eq_some.mpr ⟨hk, hkr⟩
    exact (hs k hget).2 hkc ⟨n, ⟨hn, by rw [hplans]; rfl⟩, fun he => hid (he.trans hkr)⟩

def Request.ChangesInputs : Request → Prop
  | .register .. | .prepare .. | .policy .. | .health .. => True
  | .plan .. | .rollback .. => False

theorem Fresh.step {host : Host} {c : Controller MemoryStore} {e : Env × Request} (h : Fresh c.store)
    (hr : e.2.ChangesInputs) (hs : StaysFresh c e) : Fresh (Request.step host e c).store := by
  obtain ⟨env, r⟩ := e
  rw [Request.step]
  have hserved := served host env r c
  generalize serve host env r c = out at hserved
  cases hserved with
  | refused hrefused => exact hrefused.state ▸ h
  | register _ _ hout =>
    subst hout
    exact recomputeAllPlans_fresh host env 1 _
  | prepareKeeps => exact h
  | prepareWrites hw => exact h.prepareWrites host hw (hs _ _ hw)
  | policy ha _ hout =>
    subst hout
    exact h.policySave ha (hs _ _ ha)
  | health ha => exact Fresh.congr rfl rfl rfl (h.healthSave host (hs _ ha))
  | plan => exact hr.elim
  | rollback => exact hr.elim
  | mismatch => exact hr.elim

/-- Every plan is fresh throughout a run of registers, prepares, policies and
reports that keeps to `StaysFresh`. -/
theorem fresh_throughout (host : Host) (es : List (Env × Request))
    (h : Along (Request.step host) (fun c e => e.2.ChangesInputs ∧ StaysFresh c e)
      (start MemoryStore.new) es) :
    Throughout (Request.step host) (fun c => Fresh c.store) (start MemoryStore.new) es :=
  throughout_of_along (fun _ _ hf he => hf.step he.1 he.2) (fun _ hn => absurd hn List.not_mem_nil) h

def samplePolicyPost : List (Env × Request) :=
  [({}, .register { jwt := true } (some { id := "a", publicKey := "ka", cidrs := ["10.1.0.0/24"] })),
   ({}, .policy { jwt := true } (some
     { nodeID := "a", policyRules := [{ pfx := "10.9.0.0/16", viaNode := "b" }] }))]

/-- The policy is stored, and the plan of the node is still the one without it. -/
theorem policy_leaves_plan_stale :
    ¬ Throughout (Request.step Host.sample) (fun c => Fresh c.store) (start MemoryStore.new)
      samplePolicyPost := by
  intro h
  obtain ⟨-, l, hl, hrules⟩ := h.final _ (List.mem_singleton_self _) _ rfl
  rw [List.perm_singleton.mp hl] at hrules
  exact absurd hrules (by decide)

theorem fresh_throughout_egress :
    Throughout (Request.step Host.sample) (fun c => Fresh c.store) (start MemoryStore.new)
      [({}, .register { jwt := true } (some { id := "a", publicKey := "ka", cidrs := ["10.1.0.0/24"] })),
       ({}, .policy { jwt := true } (some { nodeID := "a", egressPeer := "b", defaultRoute := true })),
       ({}, .health { jwt := true } (some { nodeID := "a", status := "up" }))] := by
  refine fresh_throughout Host.sample _ ⟨⟨trivial, trivial⟩, ⟨trivial, ?_⟩, ⟨trivial, ?_⟩, trivial⟩
  · rintro req n ⟨-, ⟨sent, ⟨⟩, rfl⟩, -, -, hn⟩ n' -
    obtain rfl := Option.some.inj (Eq.trans (Eq.symm hn) rfl)
    rfl
  · rintro report ⟨⟨sent, ⟨⟩, rfl⟩, -, -⟩ n hn
    obtain rfl := Option.some.inj (Eq.trans (Eq.symm hn) rfl)
    refine ⟨fun n' hn' hne => ?_, ?_⟩
    · exact absurd (congrArg Node.id (List.mem_singleton.mp hn')) hne
    · rintro - ⟨n', ⟨hn', -⟩, hne⟩
      exact absurd (congrArg Node.id (List.mem_singleton.mp hn')) hne

end PeerWan
