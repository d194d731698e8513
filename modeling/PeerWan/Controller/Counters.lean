import PeerWan.Controller.Handlers

/-!
# The two version counters

The controller counts plans in memory and stores the count beside the plans.
`Counters` is that pair with the versions issued so far; five operations move
it. Over any store that keeps what it is given, each request moves the counters
of the controller by the operations `RequestOps` lists for it, and no others.
-/

namespace PeerWan

open Lib

structure Counters where
  plan : Int
  stored : Int
  issued : List Int

inductive CounterOp where
  | save
  | bump
  | rollback (version : Int)
  /-- A rollback that is answered with an error after the store has made it. -/
  | store (version : Int)
  /-- A new process on the stored version. -/
  | restart (stored : Int)
  deriving DecidableEq, Repr

def CounterOp.apply (s : Counters) : CounterOp → Counters
  | .save =>
    let version := int64 (s.plan + 1)
    ⟨version, version, s.issued ++ [version]⟩
  | .bump => { s with plan := int64 (s.plan + 1) }
  | .rollback version => { s with plan := version, stored := version }
  | .store version => { s with stored := version }
  | .restart stored => { s with plan := 0, stored := stored }

def Counters.after (s : Counters) (ops : List CounterOp) : Counters := ops.foldl CounterOp.apply s

@[simp] theorem Counters.after_nil (s : Counters) : s.after [] = s := rfl

@[simp] theorem Counters.after_cons (s : Counters) (op : CounterOp) (ops : List CounterOp) :
    s.after (op :: ops) = (op.apply s).after ops := rfl

theorem Counters.after_append (s : Counters) (ops ops' : List CounterOp) :
    s.after (ops ++ ops') = (s.after ops).after ops' := List.foldl_append

/-- What the requests may do to the counters: the request, whether it is
answered with 200, and the operations, with at most `n` nodes listed before. -/
inductive RequestOps (n : Nat) : Request → Bool → List CounterOp → Prop
  | refused : RequestOps n r false []
  | unlisted : RequestOps n (.register auth body) true []
  | register (h : k ≤ n + 1) : RequestOps n (.register auth body) true (.replicate k .save ++ [.bump])
  | prepare : RequestOps n (.prepare auth httpAddr body) true [.bump]
  | policy : RequestOps n (.policy auth body) true [.bump]
  | health : RequestOps n (.health auth body) true [.save, .bump]
  | plan : RequestOps n (.plan auth nodeID) true [.save]
  | mismatch : RequestOps n (.rollback auth body) false [.store version]
  | rollback : RequestOps n (.rollback auth (some (nodeID, version))) true [.rollback version]

-- ---------------------------------------------------------------------------
-- Stores
-- ---------------------------------------------------------------------------

structure StoreView where
  globalPlanVersion : Int
  nodeCount : Nat

/-- What the counters need of a store: it answers with the version it was given
last, a rollback answers with the version it was asked for, and only
`upsertNode` adds a node to the listing. -/
class CountingStore (σ : Type) [NodeStore σ] where
  view : σ → StoreView
  setGlobalPlanVersion (v : Int) (st : σ) :
    view (NodeStore.setGlobalPlanVersion v st).2 = { view st with globalPlanVersion := v }
  getGlobalPlanVersion (st : σ) :
    (NodeStore.getGlobalPlanVersion st).1 = .ok (view st).globalPlanVersion
  rollbackPlan_version {st : σ} (h : (NodeStore.rollbackPlan nodeID v st).1 = .ok p) : p.version = v
  rollbackPlan_count (nodeID : String) (v : Int) (st : σ) :
    (view (NodeStore.rollbackPlan nodeID v st).2).nodeCount = (view st).nodeCount
  rollbackPlan_error {st : σ} (h : (NodeStore.rollbackPlan nodeID v st).1 = .error e) :
    view (NodeStore.rollbackPlan nodeID v st).2 = view st
  listNodes_length {st : σ} (h : (NodeStore.listNodes o st).1 = .ok l) : l.length ≤ (view st).nodeCount
  listNodes (o : MapOrder Node) (st : σ) : view (NodeStore.listNodes o st).2 = view st
  upsertNode (n : Node) (st : σ) :
    (view (NodeStore.upsertNode n st).2).globalPlanVersion = (view st).globalPlanVersion ∧
    (view (NodeStore.upsertNode n st).2).nodeCount ≤ (view st).nodeCount + 1
  savePlan (p : Plan) (st : σ) : view (NodeStore.savePlan p st).2 = view st
  getNode (id : String) (st : σ) : view (NodeStore.getNode id st).2 = view st
  updatePolicy (req : PolicyRequest) (st : σ) :
    (view (NodeStore.updatePolicy req st).2).globalPlanVersion = (view st).globalPlanVersion ∧
    (view (NodeStore.updatePolicy req st).2).nodeCount ≤ (view st).nodeCount
  saveTask (now : Int) (t : Task) (st : σ) : view (NodeStore.saveTask now t st).2 = view st
  saveHealth (now : Int) (h : HealthReport) (st : σ) : view (NodeStore.saveHealth now h st).2 = view st
  listHealth (o : MapOrder HealthReport) (st : σ) : view (NodeStore.listHealth o st).2 = view st
  appendAudit (entry : AuditEntry) (st : σ) : view (NodeStore.appendAudit entry st).2 = view st
  getSettings (st : σ) : view (NodeStore.getSettings st).2 = view st

attribute [simp] CountingStore.setGlobalPlanVersion CountingStore.listNodes CountingStore.savePlan
  CountingStore.getNode CountingStore.saveTask CountingStore.saveHealth CountingStore.listHealth
  CountingStore.appendAudit CountingStore.getSettings

/-- What the versions of plans need of a store, whether or not its calls fail: it
answers a rollback with the version it was asked for, and only `upsertNode` adds
a node to the listing. -/
class CountedStore (σ : Type) [NodeStore σ] where
  nodeCount : σ → Nat
  rollbackPlan_version {st : σ} (h : (NodeStore.rollbackPlan nodeID v st).1 = .ok p) : p.version = v
  rollbackPlan (nodeID : String) (v : Int) (st : σ) :
    nodeCount (NodeStore.rollbackPlan nodeID v st).2 = nodeCount st
  setGlobalPlanVersion (v : Int) (st : σ) : nodeCount (NodeStore.setGlobalPlanVersion v st).2 = nodeCount st
  listNodes_length {st : σ} (h : (NodeStore.listNodes o st).1 = .ok l) : l.length ≤ nodeCount st
  listNodes (o : MapOrder Node) (st : σ) : nodeCount (NodeStore.listNodes o st).2 = nodeCount st
  upsertNode (n : Node) (st : σ) : nodeCount (NodeStore.upsertNode n st).2 ≤ nodeCount st + 1
  savePlan (p : Plan) (st : σ) : nodeCount (NodeStore.savePlan p st).2 = nodeCount st
  getNode (id : String) (st : σ) : nodeCount (NodeStore.getNode id st).2 = nodeCount st
  updatePolicy (req : PolicyRequest) (st : σ) : nodeCount (NodeStore.updatePolicy req st).2 ≤ nodeCount st
  saveTask (now : Int) (t : Task) (st : σ) : nodeCount (NodeStore.saveTask now t st).2 = nodeCount st
  saveHealth (now : Int) (h : HealthReport) (st : σ) : nodeCount (NodeStore.saveHealth now h st).2 = nodeCount st
  listHealth (o : MapOrder HealthReport) (st : σ) : nodeCount (NodeStore.listHealth o st).2 = nodeCount st
  appendAudit (entry : AuditEntry) (st : σ) : nodeCount (NodeStore.appendAudit entry st).2 = nodeCount st
  getSettings (st : σ) : nodeCount (NodeStore.getSettings st).2 = nodeCount st

instance CountingStore.counted {σ : Type} [NodeStore σ] [CountingStore σ] : CountedStore σ where
  nodeCount st := (view st).nodeCount
  rollbackPlan_version := rollbackPlan_version
  rollbackPlan := rollbackPlan_count
  setGlobalPlanVersion v st := by rw [CountingStore.setGlobalPlanVersion]
  listNodes_length := listNodes_length
  listNodes o st := congrArg StoreView.nodeCount (listNodes o st)
  upsertNode n st := (upsertNode n st).2
  savePlan p st := congrArg StoreView.nodeCount (savePlan p st)
  getNode id st := congrArg StoreView.nodeCount (getNode id st)
  updatePolicy req st := (updatePolicy req st).2
  saveTask now t st := congrArg StoreView.nodeCount (saveTask now t st)
  saveHealth now h st := congrArg StoreView.nodeCount (saveHealth now h st)
  listHealth o st := congrArg StoreView.nodeCount (listHealth o st)
  appendAudit entry st := congrArg StoreView.nodeCount (appendAudit entry st)
  getSettings st := congrArg StoreView.nodeCount (getSettings st)

instance : CountingStore MemoryStore where
  view m := ⟨m.globalPlanVersion, m.nodes.rows.length⟩
  setGlobalPlanVersion v m := rfl
  getGlobalPlanVersion m := rfl
  rollbackPlan_version h := by
    rw [MemoryStore.store_rollbackPlan, MemoryStore.rollbackPlan] at h
    split at h
    · next q hq =>
      cases h
      simpa using List.find?_some hq
    · exact nomatch h
  rollbackPlan_count nodeID v m := by
    rw [MemoryStore.store_rollbackPlan, MemoryStore.rollbackPlan]
    split <;> rfl
  rollbackPlan_error h := by
    rw [MemoryStore.store_rollbackPlan, MemoryStore.rollbackPlan] at h ⊢
    split at h
    · exact nomatch h
    · rfl
  listNodes_length h := by
    cases h
    exact (Table.range_perm ..).length_eq.le
  listNodes o m := rfl
  upsertNode n m := by
    refine ⟨rfl, ?_⟩
    simp only [MemoryStore.store_upsertNode, MemoryStore.upsertNode, Table.put, List.length_append,
      List.length_singleton]
    exact Nat.add_le_add_right (List.length_filter_le _ _) 1
  savePlan p m := rfl
  getNode id m := rfl
  updatePolicy req m := by
    rw [MemoryStore.store_updatePolicy, MemoryStore.updatePolicy]
    split
    · next n hn => exact ⟨rfl, Table.length_put_le (a := n.withPolicy req) ((Table.key_of_get? hn) ▸ hn)⟩
    · exact ⟨rfl, le_rfl⟩
  saveTask now t m := rfl
  saveHealth now h m := rfl
  listHealth o m := rfl
  appendAudit entry m := rfl
  getSettings m := rfl

-- ---------------------------------------------------------------------------
-- Requests move the counters
-- ---------------------------------------------------------------------------

variable {σ : Type} [NodeStore σ] [CountingStore σ]

open CountingStore (view)

def Controller.counters (c : Controller σ) : Counters where
  plan := c.planVersion
  stored := (view c.store).globalPlanVersion
  issued := c.saved.map Plan.version

theorem counters_store (c : Controller σ) {st : σ}
    (h : (view st).globalPlanVersion = (view c.store).globalPlanVersion) :
    Controller.counters { c with store := st } = c.counters := by
  simp only [Controller.counters, h]

@[simp] theorem view_loadSettingsOrDefault (st : σ) : view (loadSettingsOrDefault st).2 = view st :=
  loadSettingsOrDefault_leaves CountingStore.getSettings st

@[simp] theorem view_diagIntervalSeconds (host : Host) (st : σ) :
    view (diagIntervalSeconds host st).2 = view st := view_loadSettingsOrDefault st

theorem savePlanWithRules_counters (host : Host) (env : Env) (node : Node) (peers : List Peer)
    (rules : List PolicyRule) (c : Controller σ) :
    (savePlanWithRules host env node peers rules c).counters = CounterOp.save.apply c.counters := by
  simp [savePlanWithRules, Controller.counters, CounterOp.apply, planOf]

theorem bumpPlanVersion_counters (c : Controller σ) :
    (bumpPlanVersion c).counters = CounterOp.bump.apply c.counters := rfl

theorem foldl_savePlanWithRules_counters (host : Host) (env : Env) (peers : Node → List Peer)
    (rules : Node → List PolicyRule) (l : List Node) (c : Controller σ) :
    (l.foldl (fun c n => savePlanWithRules host env n (peers n) (rules n) c) c).counters =
      c.counters.after (.replicate l.length .save) := by
  induction l generalizing c with
  | nil => rfl
  | cons n l ih =>
    rw [List.foldl_cons, ih, savePlanWithRules_counters, List.length_cons, List.replicate_succ]
    rfl

theorem recomputeAllPlans_counters (host : Host) (env : Env) (k : Nat) (c : Controller σ) :
    (∃ e, (recomputeAllPlans host env k c).1 = .error e ∧
      (recomputeAllPlans host env k c).2.counters = c.counters) ∨
    ∃ n ≤ (view c.store).nodeCount, (recomputeAllPlans host env k c).1 = .ok () ∧
      (recomputeAllPlans host env k c).2.counters = c.counters.after (.replicate n .save) := by
  have hview := CountingStore.listNodes (env.nodeOrder k) c.store
  unfold recomputeAllPlans
  rcases hl : NodeStore.listNodes (env.nodeOrder k) c.store with ⟨reply, st⟩
  rw [hl] at hview
  cases reply with
  | error e => exact .inl ⟨e, rfl, counters_store c (by rw [hview])⟩
  | ok nodes =>
    refine .inr ⟨nodes.length, CountingStore.listNodes_length (congrArg Prod.fst hl), rfl, ?_⟩
    refine (foldl_savePlanWithRules_counters host env _ _ nodes _).trans ?_
    simp only [Controller.counters, CountingStore.listHealth, hview]

/-- An answer to `r` that moved the counters as the request may, `n` nodes
being listed before. -/
def Moves (n : Nat) (r : Request) (c : Controller σ) (out : Response × Controller σ) : Prop :=
  ∃ ops, RequestOps n r (out.1.code = 200) ops ∧ out.2.counters = c.counters.after ops

theorem Moves.refused {c : Controller σ} {st : σ} (hc : code ≠ 200)
    (hst : (view st).globalPlanVersion = (view c.store).globalPlanVersion) :
    Moves n r c (Response.error code text, { c with store := st }) := by
  refine ⟨[], ?_, counters_store c hst⟩
  rw [show decide ((Response.error code text).code = 200) = false from decide_eq_false hc]
  exact .refused

theorem Moves.refused_here {c : Controller σ} (hc : code ≠ 200) :
    Moves n r c (Response.error code text, c) := Moves.refused hc rfl

theorem registered_counters (host : Host) (env : Env) (saved : Node) (c : Controller σ) :
    (registered host env saved c).1.code = 200 ∧
      ((registered host env saved c).2.counters = c.counters ∨ ∃ k ≤ (view c.store).nodeCount,
        (registered host env saved c).2.counters = c.counters.after (.replicate k .save ++ [.bump])) := by
  refine ⟨rfl, ?_⟩
  simp only [registered]
  generalize hst : Prod.snd (NodeStore.listHealth (env.healthOrder 0) (_ : σ)) = st
  have hview : view st = view c.store := by simp [← hst]
  have hc := counters_store c (congrArg StoreView.globalPlanVersion hview)
  rcases recomputeAllPlans_counters host env 1 { c with store := st } with ⟨e, hr, hm⟩ | ⟨k, hk, hr, hm⟩
  · rcases hrec : recomputeAllPlans host env 1 { c with store := st } with ⟨reply, c'⟩
    rw [hrec] at hr hm
    obtain rfl : reply = .error e := hr
    refine .inl ?_
    simpa only [Controller.counters, view_diagIntervalSeconds, view_loadSettingsOrDefault] using hm.trans hc
  · rcases hrec : recomputeAllPlans host env 1 { c with store := st } with ⟨reply, c'⟩
    rw [hrec] at hr hm
    obtain rfl : reply = .ok () := hr
    refine .inr ⟨k, hview ▸ hk, ?_⟩
    rw [Counters.after_append, ← hc, ← hm]
    simp only [Controller.counters, view_diagIntervalSeconds, view_loadSettingsOrDefault]
    rfl

theorem register_moves (host : Host) (env : Env) (auth : Credentials)
    (body : Option NodeRegistrationRequest) (c : Controller σ) :
    Moves (view c.store).nodeCount (.register auth body) c (register host env auth body c) := by
  -- the record is saved, or stays, and with it at most one node more is listed
  have saved : ∀ (n : Node) (st : σ), (view st).globalPlanVersion = (view c.store).globalPlanVersion →
      (view st).nodeCount ≤ (view c.store).nodeCount + 1 →
      Moves (view c.store).nodeCount (.register auth body) c (registered host env n { c with store := st }) := by
    intro n st hg hn
    have hc := counters_store c hg
    obtain ⟨hcode, hm⟩ := registered_counters host env n { c with store := st }
    rw [Moves, hcode]
    rcases hm with hm | ⟨k, hk, hm⟩
    · exact ⟨[], .unlisted, hm.trans hc⟩
    · exact ⟨_, .register (hk.trans hn), by rw [hm, hc]⟩
  unfold register
  cases body with
  | none => exact .refused_here (by decide)
  | some sent =>
    dsimp only
    split
    · exact .refused_here (by decide)
    split
    · exact .refused_here (by decide)
    rcases hget : NodeStore.getNode (sent.withToken auth.token).id c.store with ⟨got, st⟩
    have hview : view st = view c.store := by rw [← CountingStore.getNode _ c.store, hget]
    dsimp only
    split
    · exact .refused (by decide) (by rw [hview])
    split
    · rcases hup : NodeStore.upsertNode (registeredNode (Reply.getD got none) (sent.withToken auth.token)) st
        with ⟨reply, st'⟩
      obtain ⟨hg, hn⟩ := CountingStore.upsertNode (registeredNode (Reply.getD got none) (sent.withToken auth.token)) st
      rw [hup, hview] at hg hn
      cases reply with
      | error e => exact .refused (by decide) hg
      | ok n => exact saved n st' hg hn
    · exact saved _ _ (by rw [hview]) (by rw [hview]; omega)

theorem view_assignOverlay (env : Env) (st : σ) : view (assignOverlay env st).2 = view st :=
  assignOverlay_leaves (CountingStore.listNodes _) st

theorem prepare_moves (host : Host) (env : Env) (auth : Credentials) (httpAddr : String)
    (body : Option String) (c : Controller σ) :
    Moves (view c.store).nodeCount (.prepare auth httpAddr body) c
      (prepare host env auth httpAddr body c) := by
  have done : ∀ (id : String) (n : Node) (st : σ),
      (view st).globalPlanVersion = (view c.store).globalPlanVersion →
      Moves (view c.store).nodeCount (.prepare auth httpAddr body) c
        (prepared host httpAddr id n { c with store := st }) := by
    intro id n st hg
    refine ⟨[.bump], .prepare, ?_⟩
    simp only [prepared, Controller.counters, bumpPlanVersion, hg]
    rfl
  unfold prepare
  split
  · exact .refused_here (by decide)
  cases body with
  | none => exact .refused_here (by decide)
  | some id =>
    dsimp only
    split
    · exact .refused_here (by decide)
    rcases hget : NodeStore.getNode id c.store with ⟨got, st⟩
    have hview : view st = view c.store := by rw [← CountingStore.getNode _ c.store, hget]
    dsimp only
    split
    · exact done id _ st (by rw [hview])
    cases env.privateKey with
    | none => exact .refused (by decide) (by rw [hview])
    | some priv =>
      rcases hover : assignOverlay env st with ⟨overlay, st₁⟩
      have hview₁ : view st₁ = view st := by rw [← view_assignOverlay env st, hover]
      dsimp only
      rcases hup : NodeStore.upsertNode (preparedNode host env id priv overlay) st₁ with ⟨reply, st₂⟩
      have hg := (CountingStore.upsertNode (preparedNode host env id priv overlay) st₁).1
      rw [hup, hview₁, hview] at hg
      cases reply with
      | error e => exact .refused (by decide) hg
      | ok n => exact done id _ st₂ hg

theorem policy_moves (env : Env) (auth : Credentials) (body : Option PolicyRequest) (c : Controller σ) :
    Moves (view c.store).nodeCount (.policy auth body) c (policy env auth body c) := by
  unfold policy
  split
  · exact .refused_here (by decide)
  cases body with
  | none => exact .refused_here (by decide)
  | some req =>
    dsimp only
    split
    · exact .refused_here (by decide)
    split
    · exact .refused_here (by decide)
    have hg := (CountingStore.updatePolicy req.normalize c.store).1
    rcases hup : NodeStore.updatePolicy req.normalize c.store with ⟨reply, st⟩
    rw [hup] at hg
    cases reply with
    | error e => exact .refused (by decide) hg
    | ok u =>
      refine ⟨[.bump], .policy, ?_⟩
      simp only [Controller.counters, CountingStore.getNode, CountingStore.saveTask, bumpPlanVersion, hg]
      rfl

theorem view_admitted (auth : Credentials) (nodeID : String) (st : σ) :
    view (admitted auth nodeID st).2 = view st := admitted_leaves CountingStore.getNode auth nodeID st

theorem health_moves (host : Host) (env : Env) (auth : Credentials) (body : Option HealthReport)
    (c : Controller σ) :
    Moves (view c.store).nodeCount (.health auth body) c (health host env auth body c) := by
  unfold health
  cases body with
  | none => exact .refused_here (by decide)
  | some report =>
    dsimp only
    split
    · exact .refused_here (by decide)
    rcases hadm : admitted auth report.nodeID c.store with ⟨ok, st⟩
    have hview : view st = view c.store := by rw [← view_admitted auth report.nodeID c.store, hadm]
    cases ok with
    | false => exact .refused (by decide) (by rw [hview])
    | true =>
      dsimp only
      rcases hsave : NodeStore.saveHealth env.now { report with timestamp := env.now } st with ⟨reply, st₁⟩
      have hview₁ : view st₁ = view st := by rw [← CountingStore.saveHealth env.now _ st, hsave]
      cases reply with
      | error e => exact .refused (by decide) (by rw [hview₁, hview])
      | ok u =>
        refine ⟨[.save, .bump], .health, ?_⟩
        refine (counters_store _ (by rw [CountingStore.appendAudit])).trans ?_
        rw [bumpPlanVersion_counters, savePlanWithRules_counters, counters_store c]
        · rfl
        · rw [CountingStore.listNodes, hview₁, hview]

theorem getPlan_moves (host : Host) (env : Env) (auth : Credentials) (nodeID : String)
    (c : Controller σ) :
    Moves (view c.store).nodeCount (.plan auth nodeID) c (getPlan host env auth nodeID c) := by
  unfold getPlan
  split
  · exact .refused_here (by decide)
  rcases hadm : admitted auth nodeID c.store with ⟨ok, st⟩
  have hview : view st = view c.store := by rw [← view_admitted auth nodeID c.store, hadm]
  cases ok with
  | false => exact .refused (by decide) (by rw [hview])
  | true =>
    dsimp only
    rcases hlist : NodeStore.listNodes (env.nodeOrder 0) st with ⟨reply, st₁⟩
    have hview₁ : view st₁ = view st := by rw [← CountingStore.listNodes (env.nodeOrder 0) st, hlist]
    cases reply with
    | error e => exact .refused (by decide) (by rw [hview₁, hview])
    | ok nodes =>
      refine ⟨[.save], .plan, ?_⟩
      refine (counters_store _ (by rw [view_diagIntervalSeconds, view_loadSettingsOrDefault])).trans ?_
      rw [savePlanWithRules_counters, counters_store c]
      · rfl
      · rw [CountingStore.listHealth, hview₁, hview]

theorem rollback_moves (host : Host) (env : Env) (auth : Credentials) (body : Option (String × Int))
    (c : Controller σ) :
    Moves (view c.store).nodeCount (.rollback auth body) c (rollback host env auth body c) := by
  unfold rollback
  split
  · exact .refused_here (by decide)
  cases body with
  | none => exact .refused_here (by decide)
  | some b =>
    obtain ⟨nodeID, version⟩ := b
    dsimp only
    split
    · exact .refused_here (by decide)
    rcases hr : NodeStore.rollbackPlan nodeID version c.store with ⟨reply, st⟩
    cases reply with
    | error e =>
      have hview : view st = view c.store := by
        rw [← CountingStore.rollbackPlan_error (congrArg Prod.fst hr), hr]
      exact .refused (by decide) (by rw [hview])
    | ok p =>
      obtain rfl : p.version = version := CountingStore.rollbackPlan_version (congrArg Prod.fst hr)
      dsimp only
      split
      · exact ⟨[.store (view st).globalPlanVersion], .mismatch, rfl⟩
      · refine ⟨[.rollback p.version], .rollback, ?_⟩
        simp only [Controller.counters, CountingStore.appendAudit, CountingStore.setGlobalPlanVersion]
        rfl

theorem serve_moves (host : Host) (env : Env) (r : Request) (c : Controller σ) :
    Moves (view c.store).nodeCount r c (serve host env r c) := by
  cases r with
  | register auth body => exact register_moves host env auth body c
  | prepare auth httpAddr body => exact prepare_moves host env auth httpAddr body c
  | policy auth body => exact policy_moves env auth body c
  | health auth body => exact health_moves host env auth body c
  | plan auth nodeID => exact getPlan_moves host env auth nodeID c
  | rollback auth body => exact rollback_moves host env auth body c

end PeerWan
