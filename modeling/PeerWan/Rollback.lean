import PeerWan.Lib.Runs
import PeerWan.Producers

/-!
# What a rollback is worth

A rollback installs an old plan in the store and sends nothing. While node
records, policies and health stay as they are, plans for the node still come
from the producers, and none of them looks at the stored plan.
-/

namespace PeerWan

open Lib

/-- What a rollback is to bring back: all of a plan but the endpoint overrides. -/
def PlanContent.restored (pc : PlanContent) : PlanContent := { pc with peerEndpoints := ∅ }

/-- A report that repeats the last one of its node. -/
def Repeats (m : MemoryStore) (report : HealthReport) : Prop :=
  ∃ r, m.health.get? report.nodeID = some r ∧ { report with timestamp := r.timestamp } = r

/-- The event changes no node record, no policy and no health. -/
def Quiet (c : Controller MemoryStore) (e : Env × Event) : Prop :=
  match e.2 with
  | .tick | .watch | .request (.plan ..) => True
  | .request (.health _ (some report)) => Repeats c.store report
  | _ => False

def answers (host : Host) (c : Controller MemoryStore) (e : Env × Event) (nodeID : String) : List PlanContent :=
  match e.2 with
  | .request (.plan auth id) => match (getPlan host e.1 auth id c).1.body with
    | .config cfg => if id = nodeID then [cfg.content] else []
    | _ => []
  | _ => []

def reaching (host : Host) (c : Controller MemoryStore) (e : Env × Event) (nodeID : String) : List PlanContent :=
  ((pushesAdded c (Event.step host e c)).filter (fun p => p.1 = nodeID)).map (fun p => p.2.plan) ++
    answers host c e nodeID

def Carries (p : Plan) (pc : PlanContent) : Prop := pc.restored = p.content.restored

instance (p : Plan) (pc : PlanContent) : Decidable (Carries p pc) :=
  inferInstanceAs (Decidable (pc.restored = p.content.restored))

def Stored (c : Controller MemoryStore) (nodeID : String) (p : Plan) : Prop :=
  ∃ q, c.store.plans nodeID = some q ∧ Carries p q.content

/-- However long nothing changes, what reaches the node and what is stored for
it carry the plan rolled back to. -/
def RollbackHolds (host : Host) (nodeID : String) (p : Plan) (c : Controller MemoryStore) : Prop :=
  ∀ es, Along (Event.step host) Quiet c es →
    Along (Event.step host) (fun c e => ∀ pc ∈ reaching host c e nodeID, Carries p pc) c es ∧
    Stored (run (Event.step host) c es) nodeID p

/-- What the stored record of the node calls for, or the zero node without one. -/
def recordContent (m : MemoryStore) (o : MapOrder Node) (nodeID : String) : PlanContent :=
  ((m.nodes.get? nodeID).getD {}).planContent (buildPeerPlan nodeID (m.nodes.range o) m.health)
    (expandPolicyRules (m.nodes.range o) nodeID)

def bareContent (m : MemoryStore) (o : MapOrder Node) (nodeID : String) : PlanContent :=
  ({ id := nodeID } : Node).planContent ((candidates nodeID (m.nodes.range o)).map Node.toPeer)
    (expandPolicyRules (m.nodes.range o) nodeID)

/-- The old plan is what the producers would give for the node anyway. -/
structure StillCurrent (m : MemoryStore) (nodeID : String) (p : Plan) : Prop where
  record : ∀ o, Carries p (recordContent m o nodeID)
  health : (m.health.get? nodeID).isSome → ∀ o, Carries p (bareContent m o nodeID)

-- ---------------------------------------------------------------------------
-- Quiet steps
-- ---------------------------------------------------------------------------

structure SameInputs (m m' : MemoryStore) : Prop where
  nodes : m'.nodes = m.nodes
  health : ∀ id, SameHealth (m.health.get? id) (m'.health.get? id)

theorem SameInputs.refl (m : MemoryStore) : SameInputs m m := ⟨rfl, fun _ => rfl⟩

theorem SameInputs.trans (h : SameInputs a b) (h' : SameInputs b c) : SameInputs a c :=
  ⟨h'.nodes.trans h.nodes, fun id => (h.health id).trans (h'.health id)⟩

theorem SameInputs.symm (h : SameInputs a b) : SameInputs b a :=
  ⟨h.nodes.symm, fun id => (h.health id).symm⟩

theorem SamePlansAside.sameInputs {m m' : MemoryStore} (h : SamePlansAside m m') : SameInputs m m' :=
  ⟨h.nodes, fun id => by rw [h.health]; rfl⟩

theorem SameInputs.recordContent_eq {m m' : MemoryStore} (h : SameInputs m m') (o : MapOrder Node)
    (nodeID : String) : recordContent m' o nodeID = recordContent m o nodeID := by
  rw [recordContent, recordContent, h.nodes, buildPeerPlan_congr fun n _ _ => (h.health n.id).symm]

theorem SameInputs.bareContent_eq {m m' : MemoryStore} (h : SameInputs m m') (o : MapOrder Node)
    (nodeID : String) : bareContent m' o nodeID = bareContent m o nodeID := by
  rw [bareContent, bareContent, h.nodes]

theorem SameHealth.isSome_eq {h h' : Option HealthReport} (hs : SameHealth h h') : h'.isSome = h.isSome := by
  have := congrArg Option.isSome hs
  simpa using this.symm

theorem StillCurrent.congr {m m' : MemoryStore} (hs : SameInputs m m') (h : StillCurrent m nodeID p) :
    StillCurrent m' nodeID p where
  record o := by rw [hs.recordContent_eq]; exact h.record o
  health hh o := by
    rw [hs.bareContent_eq]
    exact h.health ((hs.health nodeID).isSome_eq ▸ hh) o

theorem Stored.savePlanWithRules {c : Controller MemoryStore} {p : Plan} {nodeID : String} (host : Host)
    (env : Env) {node : Node} {peers : List Peer} {rules : List PolicyRule}
    (hc : node.id = nodeID → Carries p (node.planContent peers rules)) (h : Stored c nodeID p) :
    Stored (savePlanWithRules host env node peers rules c) nodeID p := by
  rw [savePlanWithRules_eq]
  by_cases hid : nodeID = node.id
  · refine ⟨planOf host env (int64 (c.planVersion + 1)) node peers rules, ?_, hc hid.symm⟩
    rw [hid]
    exact Function.update_self ..
  · obtain ⟨q, hq, hqc⟩ := h
    exact ⟨q, (Function.update_of_ne hid _ _).trans hq, hqc⟩

section

variable {host : Host} {env : Env} {c : Controller MemoryStore} {nodeID : String} {p : Plan}

theorem StillCurrent.recompute (hcur : StillCurrent c.store nodeID p) (hst : Stored c nodeID p) :
    (∀ q ∈ (pushesAdded c (recomputeAllPlans host env 1 c).2).filter (fun q => q.1 = nodeID),
      Carries p q.2.plan) ∧ Stored (recomputeAllPlans host env 1 c).2 nodeID p := by
  constructor
  · rw [(recomputeAllPlans_adds host rfl).2, expectedPushes]
    intro q hq
    obtain ⟨n, hn, rfl⟩ := List.mem_map.mp hq
    have hr := hcur.record (env.nodeOrder 1)
    rw [recordContent, Option.mem_toList.mp hn] at hr
    exact hr
  · rw [recomputeAllPlans_eq]
    rcases savePlans_plans host env (c.store.nodes.range (env.nodeOrder 1)) c.store.health
      (c.store.nodes.range (env.nodeOrder 1)) c nodeID with ⟨-, hp⟩ | ⟨n, hn, rfl, version, hp⟩
    · obtain ⟨q, hq, hqc⟩ := hst
      exact ⟨q, hp.trans hq, hqc⟩
    · have hr := hcur.record (env.nodeOrder 1)
      rw [recordContent, Table.get?_of_mem (Table.mem_range.mp hn)] at hr
      exact ⟨_, hp, hr⟩

theorem id_of_record {m : MemoryStore} {id : String} (hid : nodeID ≠ "")
    (h : ((m.nodes.get? id).getD {}).id = nodeID) : id = nodeID := by
  cases hn : m.nodes.get? id with
  | none =>
    rw [hn] at h
    exact absurd h.symm hid
  | some n =>
    rw [hn] at h
    exact (Table.key_of_get? hn).symm.trans h

theorem answers_plan {auth : Credentials} {id : String} (hid : id ≠ "") (ha : Admits c.store auth id) :
    answers host c (env, .request (.plan auth id)) nodeID =
      if id = nodeID then [recordContent c.store (env.nodeOrder 0) id] else [] := by
  simp only [answers, getPlan_accepted host env hid ha]
  rfl

theorem StillCurrent.plan {auth : Credentials} {id : String} (hid : nodeID ≠ "")
    (hcur : StillCurrent c.store nodeID p) (hst : Stored c nodeID p) :
    (∀ pc ∈ reaching host c (env, .request (.plan auth id)) nodeID, Carries p pc) ∧
      Stored (getPlan host env auth id c).2 nodeID p := by
  have hr := hcur.record (env.nodeOrder 0)
  by_cases ha : id ≠ "" ∧ Admits c.store auth id
  · constructor
    · intro pc hpc
      simp only [reaching, answers_plan ha.1 ha.2, Event.step, serve, (getPlan_adds host rfl ha.1 ha.2).2] at hpc
      rcases List.mem_append.mp hpc with hpc | hpc
      · obtain ⟨q, hq, rfl⟩ := List.mem_map.mp hpc
        obtain ⟨hq, hqid⟩ := List.mem_filter.mp hq
        obtain rfl := List.mem_singleton.mp hq
        obtain rfl := id_of_record hid (of_decide_eq_true hqid)
        exact hr
      · split at hpc
        · next he =>
          obtain rfl := List.mem_singleton.mp hpc
          exact he ▸ hr
        · exact absurd hpc List.not_mem_nil
    · rw [getPlan_accepted host env ha.1 ha.2]
      refine hst.savePlanWithRules host env fun hn => ?_
      obtain rfl := id_of_record hid hn
      exact hr
  · have hrefused := getPlan_refused host env ha
    obtain ⟨code, text, -, hout⟩ := hrefused
    refine ⟨fun pc hpc => ?_, by rw [hout]; exact hst⟩
    simp [reaching, answers, hout, Response.error, Event.step, serve, pushesAdded] at hpc

theorem StillCurrent.report {auth : Credentials} {report : HealthReport}
    (hcur : StillCurrent c.store nodeID p) (hst : Stored c nodeID p) (hrep : Repeats c.store report) :
    SameInputs c.store (PeerWan.health host env auth (some report) c).2.store ∧
    (∀ pc ∈ reaching host c (env, .request (.health auth (some report))) nodeID, Carries p pc) ∧
      Stored (PeerWan.health host env auth (some report) c).2 nodeID p := by
  obtain ⟨r, hr, hrep⟩ := hrep
  by_cases ha : ∃ report', HealthAccepted c.store env auth (some report) report'
  · obtain ⟨report', ha⟩ := ha
    obtain ⟨sent, ⟨⟩, rfl⟩ := ha.body
    obtain ⟨-, entry, hs⟩ := health_accepted host env ha
    have hid : report.nodeID ≠ "" := ha.named
    have hauth : Admits c.store auth report.nodeID := ha.auth
    have hb : report.nodeID = nodeID → Carries p (bareContent c.store (env.nodeOrder 0) report.nodeID) := by
      rintro rfl
      exact hcur.health (by rw [hr]; rfl) _
    refine ⟨?_, fun pc hpc => ?_, ?_⟩
    · have haside := healthSave_aside host env { report with timestamp := env.now } c
      rw [hs]
      refine ⟨haside.nodes, fun id => ?_⟩
      have hput : SameHealth (c.store.health.get? id)
          ((c.store.health.put { report with timestamp := env.now }).get? id) → SameHealth
          (c.store.health.get? id) ((healthSave host env { report with timestamp := env.now } c).store.health.get? id) :=
        fun h => haside.health ▸ h
      refine hput ?_
      rw [Table.get?_put]
      split
      · next hk =>
        obtain rfl : report.nodeID = id := hk
        rw [hr, ← hrep]
        rfl
      · rfl
    · simp only [reaching, Event.step, serve, answers, (health_adds host rfl hid hauth).2,
        List.append_nil] at hpc
      obtain ⟨q, hq, rfl⟩ := List.mem_map.mp hpc
      obtain ⟨hq, hqid⟩ := List.mem_filter.mp hq
      obtain rfl := List.mem_singleton.mp hq
      exact hb (of_decide_eq_true hqid)
    · rw [hs]
      have hst' : Stored { c with store := c.store.saveHealth env.now { report with timestamp := env.now } } nodeID p :=
        hst
      refine hst'.savePlanWithRules host env fun hn => ?_
      rw [buildPeerPlan_ownReport]
      exact hb hn
  · have hrefused := health_refused host env fun report' h => ha ⟨report', h⟩
    obtain ⟨code, text, -, hout⟩ := hrefused
    refine ⟨by rw [hout]; exact .refl _, fun pc hpc => ?_, by rw [hout]; exact hst⟩
    simp [reaching, answers, hout, Event.step, serve, pushesAdded] at hpc

theorem StillCurrent.step (host : Host) {e : Env × Event} (hid : nodeID ≠ "") (hq : Quiet c e)
    (hcur : StillCurrent c.store nodeID p) (hst : Stored c nodeID p) :
    SameInputs c.store (Event.step host e c).store ∧ (∀ pc ∈ reaching host c e nodeID, Carries p pc) ∧
      Stored (Event.step host e c) nodeID p := by
  obtain ⟨env, ev⟩ := e
  have recomputed : SameInputs c.store (recomputeAllPlans host env 1 c).2.store :=
    (recomputeAllPlans_aside host env 1 c).sameInputs
  have pushed : ∀ pc ∈ ((pushesAdded c (recomputeAllPlans host env 1 c).2).filter
      (fun q => q.1 = nodeID)).map (fun q => q.2.plan) ++ [], Carries p pc := by
    intro pc hpc
    obtain ⟨q, hq, rfl⟩ := List.mem_map.mp (List.append_nil _ ▸ hpc)
    exact (hcur.recompute hst).1 q hq
  cases ev with
  | tick => exact ⟨recomputed, pushed, (hcur.recompute hst).2⟩
  | watch => exact ⟨recomputed, pushed, (hcur.recompute hst).2⟩
  | restart => exact hq.elim
  | request r =>
    cases r with
    | plan auth id =>
      refine ⟨?_, hcur.plan hid hst⟩
      by_cases ha : id ≠ "" ∧ Admits c.store auth id
      · simp only [Event.step, serve, getPlan_accepted host env ha.1 ha.2]
        exact (getPlanSave_aside host env c).sameInputs
      · simp only [Event.step, serve, (getPlan_refused host env ha).state]
        exact .refl _
    | health auth body =>
      cases body with
      | none => exact hq.elim
      | some report => exact hcur.report hst hq
    | register => exact hq.elim
    | prepare => exact hq.elim
    | policy => exact hq.elim
    | rollback => exact hq.elim

theorem StillCurrent.holds (hid : nodeID ≠ "") (hcur : StillCurrent c.store nodeID p)
    (hst : Stored c nodeID p) : RollbackHolds host nodeID p c := by
  intro es hq
  induction es generalizing c with
  | nil => exact ⟨trivial, hst⟩
  | cons e es ih =>
    obtain ⟨hsame, hreach, hst'⟩ := hcur.step host hid hq.1 hst
    obtain ⟨halong, hfinal⟩ := ih (hcur.congr hsame) hst' hq.2
    exact ⟨⟨hreach, halong⟩, hfinal⟩

/-- The next `GET /plan` and, after a first report, the next report give the
plan away. -/
theorem RollbackHolds.stillCurrent (hid : nodeID ≠ "") (h : RollbackHolds host nodeID p c) :
    StillCurrent c.store nodeID p where
  record o := by
    obtain ⟨⟨hreach, -⟩, -⟩ := h
      [({ nodeOrder := fun _ => o }, .request (.plan { jwt := true } nodeID))] ⟨trivial, trivial⟩
    refine hreach _ (List.mem_append_right _ ?_)
    rw [answers_plan hid (.inl rfl), if_pos rfl]
    exact List.mem_singleton_self _
  health hsome o := by
    obtain ⟨r, hr⟩ := Option.isSome_iff_exists.mp hsome
    obtain rfl := Table.key_of_get? hr
    obtain ⟨⟨hreach, -⟩, -⟩ := h
      [({ nodeOrder := fun _ => o }, .request (.health { jwt := true } (some r)))] ⟨⟨r, hr, rfl⟩, trivial⟩
    refine hreach _ (List.mem_append_left _ (List.mem_map_of_mem (f := fun q => q.2.plan) (a := (r.nodeID,
      ({ id := r.nodeID } : Node).pushContent ((candidates r.nodeID (c.store.nodes.range o)).map Node.toPeer)
        (expandPolicyRules (c.store.nodes.range o) r.nodeID))) ?_))
    have hjwt : Admits c.store { jwt := true } r.nodeID := .inl rfl
    have hadds := (health_adds host (rfl : ({ nodeOrder := fun _ => o } : Env).nodeOrder 0 = o) hid hjwt).2
    simp only [Event.step, serve, hadds]
    simp

end

/-- After an accepted rollback the node gets the old plan, as long as nothing
changes, exactly when it would have got the same without the rollback. -/
theorem rollback_holds_iff (host : Host) (env : Env) (auth : Credentials) (body : Option (String × Int))
    (c : Controller MemoryStore) (nodeID : String) (version : Int) (p : Plan)
    (h : RollbackFinds c.store auth body nodeID version p) (hs : p.signatureValid host = true) :
    RollbackHolds host nodeID p (rollback host env auth body c).2 ↔ StillCurrent c.store nodeID p := by
  obtain ⟨-, entry, hr⟩ := rollback_accepted host env h hs
  have hsame : SameInputs c.store (rollback host env auth body c).2.store := by
    rw [hr]
    exact ⟨rfl, fun _ => rfl⟩
  have hst : Stored (rollback host env auth body c).2 nodeID p := by
    rw [hr]
    exact ⟨p, Function.update_self .., rfl⟩
  exact ⟨fun hh => (hh.stillCurrent h.named).congr hsame.symm, fun hcur => (hcur.congr hsame).holds h.named hst⟩

def samplePlanRun (cidrs : List (List String)) : Controller MemoryStore :=
  run (Event.step Host.sample) (start MemoryStore.new) (cidrs.map fun cs =>
    ({}, .request (.register { jwt := true } (some { id := "a", publicKey := "ka", cidrs := cs }))))

def sampleRollback : Credentials × Option (String × Int) := ({ jwt := true }, some ("a", 1))

/-- The node has announced another network since: the next plan announces it again. -/
theorem rollback_lost : ∃ p,
    RollbackFinds (samplePlanRun [["10.1.0.0/24"], ["10.2.0.0/24"]]).store sampleRollback.1 sampleRollback.2 "a" 1 p ∧
    p.signatureValid Host.sample = true ∧
    ¬ RollbackHolds Host.sample "a" p (rollback Host.sample {} sampleRollback.1 sampleRollback.2
      (samplePlanRun [["10.1.0.0/24"], ["10.2.0.0/24"]])).2 := by
  refine ⟨_, ⟨rfl, rfl, by decide, rfl⟩, by decide, fun h => ?_⟩
  exact absurd ((h.stillCurrent (by decide)).record default) (by decide)

theorem rollback_holds_unchanged : ∃ p,
    RollbackFinds (samplePlanRun [["10.1.0.0/24"]]).store sampleRollback.1 sampleRollback.2 "a" 1 p ∧
    RollbackHolds Host.sample "a" p (rollback Host.sample {} sampleRollback.1 sampleRollback.2
      (samplePlanRun [["10.1.0.0/24"]])).2 := by
  refine ⟨_, ⟨rfl, rfl, by decide, rfl⟩, ?_⟩
  refine (rollback_holds_iff Host.sample {} _ _ _ "a" 1 _ ⟨rfl, rfl, by decide, rfl⟩ (by decide)).mpr ?_
  refine ⟨fun o => ?_, nofun⟩
  have ho : (samplePlanRun [["10.1.0.0/24"]]).store.nodes.range o =
      (samplePlanRun [["10.1.0.0/24"]]).store.nodes.rows := List.perm_singleton.mp (Table.range_perm _ o)
  rw [recordContent, ho]
  decide

end PeerWan
