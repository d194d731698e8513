import PeerWan.Controller.Handlers

/-!
# What requests do to an in-memory store

One law for each handler over `MemoryStore`: either the request is refused and
the controller stays as it was, or the state it leaves is written out. What
holds over runs is proved from these and does not open the handlers again.
-/

namespace PeerWan

open Lib

-- ---------------------------------------------------------------------------
-- One plan
-- ---------------------------------------------------------------------------

@[simp] theorem loadSettingsOrDefault_store (m : MemoryStore) :
    loadSettingsOrDefault m = (m.settings.orDefault, m) := rfl

@[simp] theorem diagIntervalSeconds_store (host : Host) (m : MemoryStore) :
    diagIntervalSeconds host m = (m.settings.orDefault.intervalSeconds host, m) := rfl

def pushOf (host : Host) (env : Env) (settings : Settings) (version : Int) (node : Node)
    (peers : List Peer) (rules : List PolicyRule) : WSMessage where
  type := "plan"
  nodeID := node.id
  payload := .plan (configOf (withListenPort node) (planConfigVersion env version) peers rules
    settings.geoIP (settings.intervalSeconds host) "ws plan push")

@[simp] theorem withListenPort_id (node : Node) : (withListenPort node).id = node.id := by
  unfold withListenPort
  split <;> rfl

theorem planOf_withListenPort (host : Host) (env : Env) (version : Int) (node : Node)
    (peers : List Peer) (rules : List PolicyRule) :
    planOf host env version (withListenPort node) peers rules =
      planOf host env version node peers rules := by
  unfold withListenPort
  split <;> rfl

theorem savePlanWithRules_eq (host : Host) (env : Env) (node : Node) (peers : List Peer)
    (rules : List PolicyRule) (c : Controller MemoryStore) :
    savePlanWithRules host env node peers rules c =
      let version := int64 (c.planVersion + 1)
      let p := planOf host env version node peers rules
      { store := { c.store.savePlan p with globalPlanVersion := version }
        planVersion := version
        sent := c.sent ++ [pushOf host env c.store.settings.orDefault version node peers rules]
        saved := c.saved ++ [p] } := by
  simp only [savePlanWithRules, planOf_withListenPort, withListenPort_id]
  rfl

-- ---------------------------------------------------------------------------
-- All plans
-- ---------------------------------------------------------------------------

/-- The loop of `recomputeAllPlans` over the nodes `l`. -/
def savePlans (host : Host) (env : Env) (nodes : List Node) (health : HealthMap) (l : List Node)
    (c : Controller MemoryStore) : Controller MemoryStore :=
  l.foldl (fun c n => savePlanWithRules host env n (buildPeerPlan n.id nodes health)
    (expandPolicyRules nodes n.id) c) c

@[simp] theorem get?_healthMap (t : HealthMap) (o : MapOrder HealthReport) (id : String) :
    (healthMap (t.range o)).get? id = t.get? id := Table.get?_ofList_range t o id

theorem buildPeerPlan_healthMap (targetID : String) (nodes : List Node) (t : HealthMap)
    (o : MapOrder HealthReport) :
    buildPeerPlan targetID nodes (healthMap (t.range o)) = buildPeerPlan targetID nodes t :=
  buildPeerPlan_congr fun _ _ _ => by rw [SameHealth, get?_healthMap]

theorem recomputeAllPlans_eq (host : Host) (env : Env) (k : Nat) (c : Controller MemoryStore) :
    recomputeAllPlans host env k c = (.ok (),
      savePlans host env (c.store.nodes.range (env.nodeOrder k)) c.store.health
        (c.store.nodes.range (env.nodeOrder k)) c) := by
  simp only [recomputeAllPlans, MemoryStore.store_listNodes, MemoryStore.store_listHealth,
    Reply.getD_ok, buildPeerPlan_healthMap, savePlans]

section savePlans

variable (host : Host) (env : Env) (nodes : List Node) (health : HealthMap)

@[simp] theorem savePlans_nil (c : Controller MemoryStore) :
    savePlans host env nodes health [] c = c := rfl

@[simp] theorem savePlans_cons (n : Node) (l : List Node) (c : Controller MemoryStore) :
    savePlans host env nodes health (n :: l) c =
      savePlans host env nodes health l (savePlanWithRules host env n
        (buildPeerPlan n.id nodes health) (expandPolicyRules nodes n.id) c) := rfl

structure SamePlansAside (m m' : MemoryStore) : Prop where
  nodes : m'.nodes = m.nodes
  version : m'.version = m.version
  health : m'.health = m.health
  healthHistory : m'.healthHistory = m.healthHistory
  tasks : m'.tasks = m.tasks
  audit : m'.audit = m.audit
  settings : m'.settings = m.settings

theorem SamePlansAside.trans (h : SamePlansAside a b) (h' : SamePlansAside b c) :
    SamePlansAside a c where
  nodes := h'.nodes.trans h.nodes
  version := h'.version.trans h.version
  health := h'.health.trans h.health
  healthHistory := h'.healthHistory.trans h.healthHistory
  tasks := h'.tasks.trans h.tasks
  audit := h'.audit.trans h.audit
  settings := h'.settings.trans h.settings

theorem savePlanWithRules_aside (node : Node) (peers : List Peer) (rules : List PolicyRule)
    (c : Controller MemoryStore) :
    SamePlansAside c.store (savePlanWithRules host env node peers rules c).store := by
  rw [savePlanWithRules_eq]
  exact ⟨rfl, rfl, rfl, rfl, rfl, rfl, rfl⟩

theorem savePlans_aside (l : List Node) (c : Controller MemoryStore) :
    SamePlansAside c.store (savePlans host env nodes health l c).store := by
  induction l generalizing c with
  | nil => exact ⟨rfl, rfl, rfl, rfl, rfl, rfl, rfl⟩
  | cons n l ih => exact (savePlanWithRules_aside host env n _ _ c).trans (ih _)

theorem savePlans_plans (l : List Node) (c : Controller MemoryStore) (id : String) :
    (id ∉ l.map Node.id ∧ (savePlans host env nodes health l c).store.plans id = c.store.plans id) ∨
    ∃ n ∈ l, n.id = id ∧ ∃ version, (savePlans host env nodes health l c).store.plans id =
      some (planOf host env version n (buildPeerPlan id nodes health) (expandPolicyRules nodes id)) := by
  induction l generalizing c with
  | nil => exact .inl ⟨by simp, rfl⟩
  | cons n l ih =>
    rw [savePlans_cons]
    rcases ih (savePlanWithRules host env n (buildPeerPlan n.id nodes health)
      (expandPolicyRules nodes n.id) c) with ⟨hid, hp⟩ | ⟨n', hn', rfl, version, hp⟩
    · rw [hp, savePlanWithRules_eq]
      by_cases h : n.id = id
      · subst h
        refine .inr ⟨n, by simp, rfl, int64 (c.planVersion + 1), ?_⟩
        simp [MemoryStore.savePlan, planOf]
      · refine .inl ⟨by simpa [Ne.symm h] using hid, ?_⟩
        simp [MemoryStore.savePlan, planOf, Function.update_of_ne (Ne.symm h)]
    · exact .inr ⟨n', by simp [hn'], rfl, version, hp⟩

end savePlans

theorem int64_int64_add (a b : Int) : int64 (int64 a + b) = int64 (a + b) := by
  simp [int64]

-- ---------------------------------------------------------------------------
-- Requests
-- ---------------------------------------------------------------------------

def Refused (c : Controller MemoryStore) (r : Response × Controller MemoryStore) : Prop :=
  ∃ code text, code ≠ 200 ∧ r = (.error code text, c)

theorem Refused.state (h : Refused c r) : r.2 = c := by
  obtain ⟨code, text, -, rfl⟩ := h
  rfl

theorem Refused.code (h : Refused c r) : r.1.code ≠ 200 := by
  obtain ⟨code, text, hc, rfl⟩ := h
  exact hc

@[simp] theorem agentAuthorized_store (nodeID token : String) (m : MemoryStore) :
    agentAuthorized nodeID token m =
      (decide (nodeID ≠ "" ∧ token ≠ "" ∧ ∃ n, m.nodes.get? nodeID = some n ∧
        n.provisionToken ≠ "" ∧ n.provisionToken = token), m) := by
  unfold agentAuthorized
  by_cases h : nodeID = "" ∨ token = ""
  · rcases h with rfl | rfl <;> simp
  · rw [if_neg h]
    rw [not_or] at h
    cases hn : m.nodes.get? nodeID with
    | none => simp [hn]
    | some n => simp [hn, h]

def Admits (m : MemoryStore) (auth : Credentials) (nodeID : String) : Prop :=
  auth.jwt ∨ (nodeID ≠ "" ∧ auth.token ≠ "" ∧ ∃ n, m.nodes.get? nodeID = some n ∧
    n.provisionToken ≠ "" ∧ n.provisionToken = auth.token)

theorem admitted_store (m : MemoryStore) (auth : Credentials) (nodeID : String) [Decidable (Admits m auth nodeID)] :
    admitted auth nodeID m = (decide (Admits m auth nodeID), m) := by
  cases h : auth.jwt <;> simp [admitted, Admits, h]

section requests

variable (host : Host) (env : Env) {auth : Credentials} {c : Controller MemoryStore}

section register

variable {body : Option NodeRegistrationRequest}

/-- The checks of a register, with the request as the handler goes on to read it. -/
structure RegisterAccepted (m : MemoryStore) (auth : Credentials) (body : Option NodeRegistrationRequest)
    (req : NodeRegistrationRequest) : Prop where
  body : ∃ sent, body = some sent ∧ req = sent.withToken auth.token
  named : req.id ≠ ""
  auth : if req.provisionToken = "" then auth.jwt = true
    else validToken (m.nodes.get? req.id) req.provisionToken = true

theorem RegisterAccepted.unique {m m' : MemoryStore} (h : RegisterAccepted m auth body req)
    (h' : RegisterAccepted m' auth body req') : req = req' := by
  obtain ⟨⟨sent, hb, hr⟩, -, -⟩ := h
  obtain ⟨⟨sent', hb', hr'⟩, -, -⟩ := h'
  rw [hr, hr', Option.some.inj (hb.symm.trans hb')]

def registerSave (m : MemoryStore) (req : NodeRegistrationRequest) : Node × MemoryStore :=
  let existing := m.nodes.get? req.id
  if registerWrites existing req then m.upsertNode (registeredNode existing req)
  else (existing.getD {}, m)

theorem register_accepted (h : RegisterAccepted c.store auth body req) :
    register host env auth body c =
      registered host env (registerSave c.store req).1 { c with store := (registerSave c.store req).2 } := by
  obtain ⟨⟨sent, rfl, rfl⟩, hid, hauth⟩ := h
  simp only [register, MemoryStore.store_getNode, MemoryStore.store_upsertNode, Reply.getD_ok,
    if_neg hid, registerSave]
  by_cases ht : (sent.withToken auth.token).provisionToken = ""
  · rw [if_pos ht] at hauth
    simp only [ht, hauth]
    by_cases hw : registerWrites (c.store.nodes.get? (sent.withToken auth.token).id)
        (sent.withToken auth.token) <;> simp [hw]
  · rw [if_neg ht] at hauth
    simp only [ht, hauth]
    by_cases hw : registerWrites (c.store.nodes.get? (sent.withToken auth.token).id)
        (sent.withToken auth.token) <;> simp [hw]

theorem register_refused (h : ∀ req, ¬ RegisterAccepted c.store auth body req) :
    Refused c (register host env auth body c) := by
  cases body with
  | none => exact ⟨400, "invalid payload", by decide, rfl⟩
  | some sent =>
    simp only [register, MemoryStore.store_getNode, Reply.getD_ok]
    have hreq := h (sent.withToken auth.token)
    generalize hr : sent.withToken auth.token = req at hreq
    by_cases hid : req.id = ""
    · exact ⟨400, "id is required", by decide, if_pos hid⟩
    rw [if_neg hid]
    by_cases hjwt : (req.provisionToken = "" && !auth.jwt) = true
    · exact ⟨401, "unauthorized", by decide, if_pos hjwt⟩
    rw [if_neg hjwt]
    by_cases htoken : (req.provisionToken ≠ "" && !validToken (c.store.nodes.get? req.id) req.provisionToken) = true
    · exact ⟨401, "invalid provision token", by decide, if_pos htoken⟩
    refine absurd ⟨⟨sent, rfl, hr.symm⟩, hid, ?_⟩ hreq
    split
    · next ht => simpa [ht] using hjwt
    · next ht => simpa [ht] using htoken

theorem withRouterID_frame (n : Node) :
    (withRouterID n).id = n.id ∧ (withRouterID n).policyFields = n.policyFields := by
  unfold withRouterID
  split <;> exact ⟨rfl, rfl⟩

@[simp] theorem registeredNode_id (existing : Option Node) (req : NodeRegistrationRequest) :
    (registeredNode existing req).id = req.id := by
  cases existing <;> exact (withRouterID_frame _).1

@[simp] theorem registeredNode_policyFields (existing : Option Node) (req : NodeRegistrationRequest) :
    (registeredNode existing req).policyFields = {} := by
  cases existing <;> exact (withRouterID_frame _).2

def Controller.audited (c : Controller MemoryStore) (entry : AuditEntry) : Controller MemoryStore :=
  { c with store := { c.store with audit := c.store.audit ++ [entry] } }

/-- Every plan is saved again, and the counter runs one ahead of the store. -/
theorem registered_eq (saved : Node) (c : Controller MemoryStore) :
    (registered host env saved c).1.code = 200 ∧ ∃ entry,
      (registered host env saved c).2 = bumpPlanVersion (recomputeAllPlans host env 1 (c.audited entry)).2 := by
  simp only [registered, MemoryStore.store_appendAudit, MemoryStore.store_listNodes,
    MemoryStore.store_listHealth, recomputeAllPlans_eq]
  exact ⟨trivial, _, rfl⟩

theorem recomputeAllPlans_aside (k : Nat) (c : Controller MemoryStore) :
    SamePlansAside c.store (recomputeAllPlans host env k c).2.store := by
  rw [recomputeAllPlans_eq]
  exact savePlans_aside host env _ _ _ c

theorem registered_nodes (saved : Node) (c : Controller MemoryStore) :
    (registered host env saved c).2.store.nodes = c.store.nodes := by
  obtain ⟨-, entry, h⟩ := registered_eq host env saved c
  rw [h]
  exact (recomputeAllPlans_aside host env 1 _).nodes

end register

-- prepare

section prepare

variable (httpAddr : String) {body : Option String}

/-- The prepare that writes a record: the node is new or has no token. -/
structure PrepareWrites (m : MemoryStore) (env : Env) (auth : Credentials) (body : Option String)
    (id priv : String) : Prop where
  jwt : auth.jwt = true
  body : body = some id
  named : id ≠ ""
  token : ((m.nodes.get? id).getD {}).provisionToken = ""
  key : env.privateKey = some priv

theorem PrepareWrites.unique {env : Env} {m : MemoryStore} {id priv id' priv' : String}
    (h : PrepareWrites m env auth body id priv) (h' : PrepareWrites m env auth body id' priv') :
    id = id' ∧ priv = priv' :=
  ⟨Option.some.inj (h.body.symm.trans h'.body), Option.some.inj (h.key.symm.trans h'.key)⟩

def prepareNode (host : Host) (env : Env) (m : MemoryStore) (id priv : String) : Node :=
  preparedNode host env id priv (assignOverlay env m).1

theorem assignOverlay_store (env : Env) (m : MemoryStore) :
    assignOverlay env m = ((assignOverlay env m).1, m) := by
  simp only [assignOverlay, MemoryStore.store_listNodes]
  split <;> rfl

theorem prepare_writes {id priv : String} (h : PrepareWrites c.store env auth body id priv) :
    prepare host env auth httpAddr body c = prepared host httpAddr id (prepareNode host env c.store id priv)
      { c with store := (c.store.upsertNode (prepareNode host env c.store id priv)).2 } := by
  obtain ⟨hjwt, rfl, hid, htoken, hkey⟩ := h
  unfold prepare
  simp only [MemoryStore.store_getNode, Reply.getD_ok]
  rw [hkey, assignOverlay_store]
  simp [hjwt, hid, htoken, prepareNode]

theorem prepare_keeps (h : ∀ id priv, ¬ PrepareWrites c.store env auth body id priv) :
    Refused c (prepare host env auth httpAddr body c) ∨
      ((prepare host env auth httpAddr body c).1.code = 200 ∧
        (prepare host env auth httpAddr body c).2 = bumpPlanVersion c) := by
  unfold prepare
  by_cases hjwt : auth.jwt = true
  · cases body with
    | none => exact .inl ⟨400, "invalid payload", by decide, by simp [hjwt]⟩
    | some id =>
      by_cases hid : id = ""
      · exact .inl ⟨400, "invalid payload", by decide, by simp [hjwt, hid]⟩
      · by_cases htoken : ((c.store.nodes.get? id).getD {}).provisionToken = ""
        · cases hkey : env.privateKey with
          | none => exact .inl ⟨500, "failed to generate key", by decide, by simp [hjwt, hid, htoken]⟩
          | some priv => exact absurd ⟨hjwt, rfl, hid, htoken, hkey⟩ (h id priv)
        · refine .inr ?_
          simp [hjwt, hid, htoken, prepared]
  · exact .inl ⟨401, "unauthorized", by decide, by simp [hjwt]⟩

end prepare

section policy

variable {body : Option PolicyRequest}

theorem updatePolicy_found {m : MemoryStore} (h : m.nodes.get? req.nodeID = some n) :
    m.updatePolicy req = (.ok (), { m with nodes := m.nodes.put (n.withPolicy req) }) := by
  rw [MemoryStore.updatePolicy, h]

theorem updatePolicy_missing {m : MemoryStore} (h : m.nodes.get? req.nodeID = none) :
    m.updatePolicy req = (.error "node not found", m) := by
  rw [MemoryStore.updatePolicy, h]

@[simp] theorem normalize_nodeID (req : PolicyRequest) : req.normalize.nodeID = req.nodeID := rfl

structure PolicyAccepted (m : MemoryStore) (auth : Credentials) (body : Option PolicyRequest)
    (req : PolicyRequest) (n : Node) : Prop where
  jwt : auth.jwt = true
  body : ∃ sent, body = some sent ∧ req = sent.normalize
  named : req.nodeID ≠ ""
  rules : req.rulesValid = true
  node : m.nodes.get? req.nodeID = some n

/-- The store of a policy post: the record and the task, but no plan. -/
def policySave (env : Env) (m : MemoryStore) (req : PolicyRequest) (n : Node) : MemoryStore :=
  MemoryStore.saveTask env.now (policyTask env req.nodeID) { m with nodes := m.nodes.put (n.withPolicy req) }

theorem policy_accepted (h : PolicyAccepted c.store auth body req n) :
    (policy env auth body c).1.code = 200 ∧ (policy env auth body c).2 =
      { c with
        store := policySave env c.store req n
        planVersion := int64 (c.planVersion + 1)
        sent := c.sent ++ [policyTaskMessage env req.nodeID] } := by
  obtain ⟨hjwt, ⟨sent, rfl, rfl⟩, hid, hrules, hn⟩ := h
  rw [normalize_nodeID] at hid
  simp [policy, hjwt, hid, hrules, updatePolicy_found hn, bumpPlanVersion, policySave]

theorem policy_refused (h : ∀ req n, ¬ PolicyAccepted c.store auth body req n) :
    Refused c (policy env auth body c) := by
  unfold policy
  by_cases hjwt : auth.jwt = true
  · cases body with
    | none => exact ⟨400, "invalid payload", by decide, by simp [hjwt]⟩
    | some sent =>
      by_cases hid : sent.nodeID = ""
      · exact ⟨400, "invalid payload", by decide, by simp [hjwt, hid]⟩
      · by_cases hrules : sent.normalize.rulesValid = true
        · cases hn : c.store.nodes.get? sent.normalize.nodeID with
          | none =>
            exact ⟨500, "failed to update policy", by decide,
              by simp [hjwt, hid, hrules, updatePolicy_missing hn]⟩
          | some n => exact absurd ⟨hjwt, ⟨sent, rfl, rfl⟩, hid, hrules, hn⟩ (h _ n)
        · exact ⟨400, "no valid policy rules", by decide, by simp [hjwt, hid, hrules]⟩
  · exact ⟨401, "unauthorized", by decide, by simp [hjwt]⟩

end policy

section health

variable {body : Option HealthReport}

structure HealthAccepted (m : MemoryStore) (env : Env) (auth : Credentials) (body : Option HealthReport)
    (report : HealthReport) : Prop where
  body : ∃ sent, body = some sent ∧ report = { sent with timestamp := env.now }
  named : report.nodeID ≠ ""
  auth : Admits m auth report.nodeID

/-- The plan of a health report: for a bare node, from one report. -/
def healthSave (host : Host) (env : Env) (report : HealthReport) (c : Controller MemoryStore) :
    Controller MemoryStore :=
  savePlanWithRules host env { id := report.nodeID }
    (buildPeerPlan report.nodeID (c.store.nodes.range (env.nodeOrder 0)) (healthMap [report]))
    (expandPolicyRules (c.store.nodes.range (env.nodeOrder 0)) report.nodeID)
    { c with store := c.store.saveHealth env.now report }

theorem healthSave_aside (report : HealthReport) (c : Controller MemoryStore) :
    SamePlansAside (c.store.saveHealth env.now report) (healthSave host env report c).store :=
  savePlanWithRules_aside host env _ _ _ { c with store := c.store.saveHealth env.now report }

theorem health_accepted {report : HealthReport} (h : HealthAccepted c.store env auth body report) :
    (health host env auth body c).1.code = 200 ∧ ∃ entry, (health host env auth body c).2 =
      (bumpPlanVersion (healthSave host env report c)).audited entry := by
  obtain ⟨⟨sent, rfl, rfl⟩, hid, hauth⟩ := h
  classical
  have hid' : sent.nodeID ≠ "" := hid
  have hadm : admitted auth sent.nodeID c.store = (true, c.store) := by
    simpa [hauth] using admitted_store c.store auth sent.nodeID
  simp only [health, if_neg hid', hadm, MemoryStore.store_saveHealth, MemoryStore.store_listNodes,
    Reply.getD_ok, MemoryStore.store_appendAudit]
  exact ⟨trivial, _, rfl⟩

theorem health_refused (h : ∀ report, ¬ HealthAccepted c.store env auth body report) :
    Refused c (health host env auth body c) := by
  cases body with
  | none => exact ⟨400, "invalid payload", by decide, rfl⟩
  | some sent =>
    by_cases hid : sent.nodeID = ""
    · exact ⟨400, "nodeId is required", by decide, by simp [health, hid]⟩
    · classical
      by_cases hauth : Admits c.store auth sent.nodeID
      · exact absurd ⟨⟨sent, rfl, rfl⟩, hid, hauth⟩ (h _)
      · have hadm : admitted auth sent.nodeID c.store = (false, c.store) := by
          simpa [hauth] using admitted_store c.store auth sent.nodeID
        exact ⟨401, "unauthorized", by decide, by simp only [health, if_neg hid, hadm]⟩

end health

section plan

variable {nodeID : String}

/-- The plan of `GET /plan`: for the stored record, or for the zero node. -/
def getPlanSave (host : Host) (env : Env) (nodeID : String) (c : Controller MemoryStore) :
    Controller MemoryStore :=
  savePlanWithRules host env ((c.store.nodes.get? nodeID).getD {})
    (buildPeerPlan nodeID (c.store.nodes.range (env.nodeOrder 0)) c.store.health)
    (expandPolicyRules (c.store.nodes.range (env.nodeOrder 0)) nodeID) c

/-- The answer of `GET /plan`, for the version before the save. -/
def getPlanConfig (host : Host) (env : Env) (nodeID : String) (c : Controller MemoryStore) :
    NodeConfigResponse :=
  { configOf ((c.store.nodes.get? nodeID).getD {}) (planConfigVersion env c.planVersion)
      (buildPeerPlan nodeID (c.store.nodes.range (env.nodeOrder 0)) c.store.health)
      (expandPolicyRules (c.store.nodes.range (env.nodeOrder 0)) nodeID)
      c.store.settings.orDefault.geoIP (c.store.settings.orDefault.intervalSeconds host)
      "dynamic plan based on current health" with id := nodeID }

theorem getPlanSave_aside (c : Controller MemoryStore) :
    SamePlansAside c.store (getPlanSave host env nodeID c).store :=
  savePlanWithRules_aside host env _ _ _ c

theorem getPlan_accepted (hid : nodeID ≠ "") (hauth : Admits c.store auth nodeID) :
    getPlan host env auth nodeID c =
      (⟨200, .config (getPlanConfig host env nodeID c)⟩, getPlanSave host env nodeID c) := by
  classical
  have hadm : admitted auth nodeID c.store = (true, c.store) := by
    simpa [hauth] using admitted_store c.store auth nodeID
  simp only [getPlan, if_neg hid, hadm, MemoryStore.store_listNodes, MemoryStore.store_listHealth,
    Reply.getD_ok, Table.find?_range, buildPeerPlan_healthMap, loadSettingsOrDefault_store,
    diagIntervalSeconds_store]
  rw [savePlanWithRules_eq]
  rw [getPlanSave, getPlanConfig, savePlanWithRules_eq]
  rfl

theorem getPlan_refused (h : ¬ (nodeID ≠ "" ∧ Admits c.store auth nodeID)) :
    Refused c (getPlan host env auth nodeID c) := by
  by_cases hid : nodeID = ""
  · exact ⟨400, "nodeId is required", by decide, by simp [getPlan, hid]⟩
  · classical
    have hauth : ¬ Admits c.store auth nodeID := fun ha => h ⟨hid, ha⟩
    have hadm : admitted auth nodeID c.store = (false, c.store) := by
      simpa [hauth] using admitted_store c.store auth nodeID
    exact ⟨401, "unauthorized", by decide, by simp only [getPlan, if_neg hid, hadm]⟩

end plan

section rollback

variable {body : Option (String × Int)}

/-- The rollback finds a plan; its signature is checked afterwards. -/
structure RollbackFinds (m : MemoryStore) (auth : Credentials) (body : Option (String × Int))
    (nodeID : String) (version : Int) (p : Plan) : Prop where
  jwt : auth.jwt = true
  body : body = some (nodeID, version)
  named : nodeID ≠ ""
  found : (m.history nodeID).find? (fun p => p.version = version) = some p

def rollbackStore (m : MemoryStore) (nodeID : String) (version : Int) (p : Plan) : MemoryStore :=
  { m with
    plans := Function.update m.plans nodeID (some p)
    globalPlanVersion := version }

theorem RollbackFinds.version_eq {version : Int} {p : Plan}
    (h : RollbackFinds m auth body nodeID version p) : p.version = version := by
  simpa using List.find?_some h.found

theorem rollback_accepted {version : Int} {p : Plan}
    (h : RollbackFinds c.store auth body nodeID version p) (hs : p.signatureValid host = true) :
    (rollback host env auth body c).1 = ⟨200, .plan p⟩ ∧ ∃ entry,
      (rollback host env auth body c).2 =
        Controller.audited
          { c with store := rollbackStore c.store nodeID version p, planVersion := version } entry := by
  have hv := h.version_eq
  obtain ⟨hjwt, rfl, hid, hfound⟩ := h
  simp only [rollback, hjwt, hid, MemoryStore.store_rollbackPlan, MemoryStore.rollbackPlan, hfound, hs, hv]
  exact ⟨rfl, _, rfl⟩

/-- A plan that fails the signature check is already installed in the store. -/
theorem rollback_mismatch {version : Int} {p : Plan}
    (h : RollbackFinds c.store auth body nodeID version p) (hs : p.signatureValid host = false) :
    rollback host env auth body c = (.error 400 "rollback signature mismatch",
      { c with store := rollbackStore c.store nodeID version p }) := by
  obtain ⟨hjwt, rfl, hid, hfound⟩ := h
  simp only [rollback, hjwt, hid, MemoryStore.store_rollbackPlan, MemoryStore.rollbackPlan, hfound, hs]
  rfl

theorem rollback_refused (h : ∀ nodeID version p, ¬ RollbackFinds c.store auth body nodeID version p) :
    Refused c (rollback host env auth body c) := by
  unfold rollback
  by_cases hjwt : auth.jwt = true
  · cases body with
    | none => exact ⟨400, "invalid payload", by decide, by simp [hjwt]⟩
    | some b =>
      obtain ⟨nodeID, version⟩ := b
      by_cases hid : nodeID = ""
      · exact ⟨400, "invalid payload", by decide, by simp [hjwt, hid]⟩
      · cases hf : (c.store.history nodeID).find? (fun p => p.version = version) with
        | none =>
          exact ⟨500, "rollback failed", by decide, by simp [hjwt, hid, MemoryStore.rollbackPlan, hf]⟩
        | some p => exact absurd ⟨hjwt, rfl, hid, hf⟩ (h nodeID version p)
  · exact ⟨401, "unauthorized", by decide, by simp [hjwt]⟩

end rollback

end requests

-- ---------------------------------------------------------------------------
-- Any request
-- ---------------------------------------------------------------------------

inductive Served (host : Host) (env : Env) (c : Controller MemoryStore) :
    Request → Response × Controller MemoryStore → Prop
  | refused (h : Refused c out) : Served host env c r out
  | register (h : RegisterAccepted c.store auth body req) (hcode : resp.code = 200)
      (hout : out = bumpPlanVersion (recomputeAllPlans host env 1
        (Controller.audited { c with store := (registerSave c.store req).2 } entry)).2) :
      Served host env c (.register auth body) (resp, out)
  | prepareKeeps (hcode : resp.code = 200) :
      Served host env c (.prepare auth httpAddr body) (resp, bumpPlanVersion c)
  | prepareWrites {id priv : String} (h : PrepareWrites c.store env auth body id priv) (hcode : resp.code = 200) :
      Served host env c (.prepare auth httpAddr body) (resp, bumpPlanVersion
        { c with store := (c.store.upsertNode (prepareNode host env c.store id priv)).2 })
  | policy (h : PolicyAccepted c.store auth body req n) (hcode : resp.code = 200)
      (hout : out = { c with
        store := policySave env c.store req n
        planVersion := int64 (c.planVersion + 1)
        sent := c.sent ++ [policyTaskMessage env req.nodeID] }) :
      Served host env c (.policy auth body) (resp, out)
  | health (h : HealthAccepted c.store env auth body report) (hcode : resp.code = 200) :
      Served host env c (.health auth body) (resp, (bumpPlanVersion (healthSave host env report c)).audited entry)
  | plan (hid : nodeID ≠ "") (hauth : Admits c.store auth nodeID) :
      Served host env c (.plan auth nodeID)
        (⟨200, .config (getPlanConfig host env nodeID c)⟩, getPlanSave host env nodeID c)
  | rollback (h : RollbackFinds c.store auth body nodeID version p) (hs : p.signatureValid host = true) :
      Served host env c (.rollback auth body) (⟨200, .plan p⟩, Controller.audited
        { c with store := rollbackStore c.store nodeID version p, planVersion := version } entry)
  | mismatch (h : RollbackFinds c.store auth body nodeID version p) (hs : p.signatureValid host = false) :
      Served host env c (.rollback auth body) (.error 400 "rollback signature mismatch",
        { c with store := rollbackStore c.store nodeID version p })

theorem served (host : Host) (env : Env) (r : Request) (c : Controller MemoryStore) :
    Served host env c r (serve host env r c) := by
  cases r with
  | register auth body =>
    by_cases ha : ∃ req, RegisterAccepted c.store auth body req
    · obtain ⟨req, ha⟩ := ha
      obtain ⟨hcode, entry, hs⟩ := registered_eq host env (registerSave c.store req).1
        { c with store := (registerSave c.store req).2 }
      rw [serve, register_accepted host env ha]
      exact .register ha hcode hs
    · exact .refused (register_refused host env fun req hr => ha ⟨req, hr⟩)
  | prepare auth httpAddr body =>
    by_cases hw : ∃ id priv, PrepareWrites c.store env auth body id priv
    · obtain ⟨id, priv, hw⟩ := hw
      rw [serve, prepare_writes host env httpAddr hw]
      exact .prepareWrites hw rfl
    · rcases prepare_keeps host env httpAddr fun id priv hp => hw ⟨id, priv, hp⟩ with hr | ⟨hcode, hs⟩
      · exact .refused hr
      · rw [serve, ← Prod.eta (prepare host env auth httpAddr body c), hs]
        exact .prepareKeeps hcode
  | policy auth body =>
    by_cases ha : ∃ req n, PolicyAccepted c.store auth body req n
    · obtain ⟨req, n, ha⟩ := ha
      exact .policy ha (policy_accepted env ha).1 (policy_accepted env ha).2
    · exact .refused (policy_refused env fun req n hp => ha ⟨req, n, hp⟩)
  | health auth body =>
    by_cases ha : ∃ report, HealthAccepted c.store env auth body report
    · obtain ⟨report, ha⟩ := ha
      obtain ⟨hcode, entry, hs⟩ := health_accepted host env ha
      rw [serve, ← Prod.eta (health host env auth body c), hs]
      exact .health ha hcode
    · exact .refused (health_refused host env fun report hp => ha ⟨report, hp⟩)
  | plan auth nodeID =>
    by_cases ha : nodeID ≠ "" ∧ Admits c.store auth nodeID
    · rw [serve, getPlan_accepted host env ha.1 ha.2]
      exact .plan ha.1 ha.2
    · exact .refused (getPlan_refused host env ha)
  | rollback auth body =>
    by_cases hf : ∃ nodeID version p, RollbackFinds c.store auth body nodeID version p
    · obtain ⟨nodeID, version, p, hf⟩ := hf
      rw [serve]
      cases hs : p.signatureValid host with
      | true =>
        obtain ⟨hresp, entry, hr⟩ := rollback_accepted host env hf hs
        rw [← Prod.eta (rollback host env auth body c), hresp, hr]
        exact .rollback hf hs
      | false =>
        rw [rollback_mismatch host env hf hs]
        exact .mismatch hf hs
    · exact .refused (rollback_refused host env fun nodeID version p hp => hf ⟨nodeID, version, p, hp⟩)

end PeerWan
