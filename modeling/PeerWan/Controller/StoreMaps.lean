import PeerWan.Controller.Settings
import PeerWan.Lib.Runs

/-!
# What the handlers see of a store

A handler reaches its store through the calls of `NodeStore` alone. So a map
between stores that commutes with the calls commutes with the handlers: what a
store keeps beside its answers, they cannot tell.
-/

namespace PeerWan

open Lib

section

variable {σ τ : Type}

def through (g : σ → τ) (x : α × σ) : α × τ := (x.1, g x.2)

def Controller.mapStore (g : σ → τ) (c : Controller σ) : Controller τ where
  store := g c.store
  planVersion := c.planVersion
  sent := c.sent
  saved := c.saved

def Controller.mapAnswer (g : σ → τ) (x : α × Controller σ) : α × Controller τ := (x.1, x.2.mapStore g)

theorem Controller.mapStore_store (g : σ → τ) (c : Controller σ) : (c.mapStore g).store = g c.store := rfl

theorem Controller.mk_mapStore (g : σ → τ) (c : Controller σ) (s : σ) :
    Controller.mk (g s) (c.mapStore g).planVersion (c.mapStore g).sent (c.mapStore g).saved = Controller.mapStore g { c with store := s } := rfl

theorem bumpPlanVersion_mapStore (g : σ → τ) (c : Controller σ) :
    bumpPlanVersion (c.mapStore g) = (bumpPlanVersion c).mapStore g := rfl

/-- The calls of the handlers cannot tell a store from its image. -/
structure StoreMap [NodeStore σ] [NodeStore τ] (g : σ → τ) : Prop where
  upsertNode : ∀ n s, NodeStore.upsertNode n (g s) = through g (NodeStore.upsertNode n s)
  listNodes : ∀ o s, NodeStore.listNodes o (g s) = through g (NodeStore.listNodes o s)
  getNode : ∀ id s, NodeStore.getNode id (g s) = through g (NodeStore.getNode id s)
  savePlan : ∀ p s, NodeStore.savePlan p (g s) = through g (NodeStore.savePlan p s)
  rollbackPlan : ∀ nodeID version s,
    NodeStore.rollbackPlan nodeID version (g s) = through g (NodeStore.rollbackPlan nodeID version s)
  setGlobalPlanVersion : ∀ v s,
    NodeStore.setGlobalPlanVersion v (g s) = through g (NodeStore.setGlobalPlanVersion v s)
  updatePolicy : ∀ req s, NodeStore.updatePolicy req (g s) = through g (NodeStore.updatePolicy req s)
  saveTask : ∀ now t s, NodeStore.saveTask now t (g s) = through g (NodeStore.saveTask now t s)
  saveHealth : ∀ now r s, NodeStore.saveHealth now r (g s) = through g (NodeStore.saveHealth now r s)
  listHealth : ∀ o s, NodeStore.listHealth o (g s) = through g (NodeStore.listHealth o s)
  appendAudit : ∀ entry s, NodeStore.appendAudit entry (g s) = through g (NodeStore.appendAudit entry s)
  getSettings : ∀ s, NodeStore.getSettings (g s) = through g (NodeStore.getSettings s)
  updateSettings : ∀ cfg s, NodeStore.updateSettings cfg (g s) = through g (NodeStore.updateSettings cfg s)

end

namespace StoreMap

variable {σ τ : Type} [NodeStore σ] [NodeStore τ] {g : σ → τ} (h : StoreMap g)

include h

-- ---------------------------------------------------------------------------
-- Settings, plans and checks
-- ---------------------------------------------------------------------------

theorem loadSettingsOrDefault (s : σ) :
    PeerWan.loadSettingsOrDefault (g s) = through g (PeerWan.loadSettingsOrDefault s) := by
  unfold PeerWan.loadSettingsOrDefault
  rw [h.getSettings]
  rcases NodeStore.getSettings s with ⟨r, s'⟩
  cases r <;> rfl

theorem diagIntervalSeconds (host : Host) (s : σ) :
    PeerWan.diagIntervalSeconds host (g s) = through g (PeerWan.diagIntervalSeconds host s) := by
  unfold PeerWan.diagIntervalSeconds
  rw [h.loadSettingsOrDefault]
  rfl

theorem savePlanWithRules (host : Host) (env : Env) (node : Node) (peers : List Peer) (rules : List PolicyRule)
    (c : Controller σ) : PeerWan.savePlanWithRules host env node peers rules (c.mapStore g) =
      (PeerWan.savePlanWithRules host env node peers rules c).mapStore g := by
  unfold PeerWan.savePlanWithRules Controller.mapStore
  simp only [h.savePlan, h.setGlobalPlanVersion, h.loadSettingsOrDefault, h.diagIntervalSeconds, through]

theorem recomputeAllPlans (host : Host) (env : Env) (k : Nat) (c : Controller σ) :
    PeerWan.recomputeAllPlans host env k (c.mapStore g) =
      Controller.mapAnswer g (PeerWan.recomputeAllPlans host env k c) := by
  have hloop : ∀ (f : Node → List Peer) (rules : Node → List PolicyRule) (l : List Node) (c : Controller σ),
      l.foldl (fun c n => PeerWan.savePlanWithRules host env n (f n) (rules n) c) (c.mapStore g) =
        (l.foldl (fun c n => PeerWan.savePlanWithRules host env n (f n) (rules n) c) c).mapStore g := by
    intro f rules l
    induction l with
    | nil => exact fun _ => rfl
    | cons n l ih =>
      intro c
      rw [List.foldl_cons, List.foldl_cons, h.savePlanWithRules, ih]
  unfold PeerWan.recomputeAllPlans
  rw [Controller.mapStore_store, h.listNodes]
  rcases NodeStore.listNodes (env.nodeOrder k) c.store with ⟨r, s⟩
  cases r with
  | error err => rfl
  | ok nodes =>
    simp only [through, h.listHealth]
    exact congrArg (Prod.mk (Except.ok ())) (hloop _ _ nodes { c with store := _ })

theorem agentAuthorized (nodeID token : String) (s : σ) :
    PeerWan.agentAuthorized nodeID token (g s) = through g (PeerWan.agentAuthorized nodeID token s) := by
  unfold PeerWan.agentAuthorized
  rw [h.getNode]
  split
  · rfl
  · rcases NodeStore.getNode nodeID s with ⟨_ | _ | n, s'⟩ <;> rfl

theorem admitted (auth : Credentials) (nodeID : String) (s : σ) :
    PeerWan.admitted auth nodeID (g s) = through g (PeerWan.admitted auth nodeID s) := by
  unfold PeerWan.admitted
  rw [h.agentAuthorized]
  split <;> rfl

theorem assignOverlay (env : Env) (s : σ) :
    PeerWan.assignOverlay env (g s) = through g (PeerWan.assignOverlay env s) := by
  unfold PeerWan.assignOverlay
  rw [h.listNodes]
  dsimp only [through]
  split <;> rfl

-- ---------------------------------------------------------------------------
-- The handlers
-- ---------------------------------------------------------------------------

variable (host : Host) (env : Env) (auth : Credentials) (c : Controller σ)

theorem registered (saved : Node) : PeerWan.registered host env saved (c.mapStore g) =
    Controller.mapAnswer g (PeerWan.registered host env saved c) := by
  unfold PeerWan.registered
  simp only [Controller.mapStore_store, h.appendAudit, h.listNodes, h.listHealth, through,
    Controller.mk_mapStore,    h.recomputeAllPlans, Controller.mapAnswer]
  rcases PeerWan.recomputeAllPlans host env 1 _ with ⟨r, c'⟩
  cases r <;>
    simp only [bumpPlanVersion, Controller.mapStore, h.loadSettingsOrDefault, h.diagIntervalSeconds, through]

theorem register (body : Option NodeRegistrationRequest) : PeerWan.register host env auth body (c.mapStore g) =
    Controller.mapAnswer g (PeerWan.register host env auth body c) := by
  cases body with
  | none => rfl
  | some sent =>
    unfold PeerWan.register
    rw [Controller.mapStore_store]
    simp only [h.getNode, through]
    split_ifs
    · rfl
    · rfl
    · rfl
    · rw [h.upsertNode]
      rcases NodeStore.upsertNode _ _ with ⟨r, s⟩
      cases r with
      | error => rfl
      | ok saved => exact h.registered host env { c with store := s } saved
    · exact h.registered host env { c with store := _ } _

theorem prepare (httpAddr : String) (body : Option String) : PeerWan.prepare host env auth httpAddr body (c.mapStore g) =
    Controller.mapAnswer g (PeerWan.prepare host env auth httpAddr body c) := by
  unfold PeerWan.prepare
  split
  · rfl
  cases body with
  | none => rfl
  | some id =>
    rw [Controller.mapStore_store]
    simp only [h.getNode, through]
    split_ifs
    · rfl
    · rfl
    · cases env.privateKey with
      | none => rfl
      | some priv =>
        simp only [h.assignOverlay, h.upsertNode, through]
        rcases NodeStore.upsertNode _ _ with ⟨r, s⟩
        cases r <;> rfl

theorem policy (body : Option PolicyRequest) : PeerWan.policy env auth body (c.mapStore g) =
    Controller.mapAnswer g (PeerWan.policy env auth body c) := by
  unfold PeerWan.policy
  split
  · rfl
  cases body with
  | none => rfl
  | some req =>
    rw [Controller.mapStore_store]
    simp only [h.updatePolicy, through]
    split_ifs
    · rfl
    · rfl
    · rcases NodeStore.updatePolicy req.normalize c.store with ⟨r, s⟩
      cases r with
      | error => rfl
      | ok =>
        simp only [bumpPlanVersion, h.saveTask, h.getNode, through]
        rfl

theorem health (body : Option HealthReport) : PeerWan.health host env auth body (c.mapStore g) =
    Controller.mapAnswer g (PeerWan.health host env auth body c) := by
  cases body with
  | none => rfl
  | some sent =>
    unfold PeerWan.health
    rw [Controller.mapStore_store]
    dsimp only
    split_ifs
    · rfl
    rw [h.admitted]
    rcases PeerWan.admitted auth sent.nodeID c.store with ⟨ok, s⟩
    cases ok with
    | false => rfl
    | true =>
      simp only [through, h.saveHealth]
      rcases NodeStore.saveHealth env.now _ s with ⟨r, s'⟩
      cases r with
      | error => rfl
      | ok =>
        simp only [through, h.listNodes]
        simp only [Controller.mk_mapStore, h.savePlanWithRules, bumpPlanVersion_mapStore, Controller.mapStore_store, h.appendAudit,
          through]
        rfl

theorem getPlan (nodeID : String) : PeerWan.getPlan host env auth nodeID (c.mapStore g) =
    Controller.mapAnswer g (PeerWan.getPlan host env auth nodeID c) := by
  unfold PeerWan.getPlan
  rw [Controller.mapStore_store]
  split_ifs
  · rfl
  rw [h.admitted]
  rcases PeerWan.admitted auth nodeID c.store with ⟨ok, s⟩
  cases ok with
  | false => rfl
  | true =>
    simp only [through, h.listNodes]
    rcases NodeStore.listNodes (env.nodeOrder 0) s with ⟨r, s'⟩
    cases r with
    | error => rfl
    | ok nodes =>
      simp only [h.listHealth, through, Controller.mk_mapStore, h.savePlanWithRules]
      simp only [Controller.mapStore, h.loadSettingsOrDefault, h.diagIntervalSeconds, through]
      rfl

theorem rollback (body : Option (String × Int)) : PeerWan.rollback host env auth body (c.mapStore g) =
    Controller.mapAnswer g (PeerWan.rollback host env auth body c) := by
  unfold PeerWan.rollback
  split
  · rfl
  cases body with
  | none => rfl
  | some target =>
    rw [Controller.mapStore_store]
    simp only [h.rollbackPlan, through]
    split_ifs
    · rfl
    rcases NodeStore.rollbackPlan target.1 target.2 c.store with ⟨r, s⟩
    cases r with
    | error => rfl
    | ok p =>
      simp only [h.setGlobalPlanVersion, h.appendAudit, through]
      split_ifs <;> rfl

theorem serve (r : Request) : PeerWan.serve host env r (c.mapStore g) =
    Controller.mapAnswer g (PeerWan.serve host env r c) := by
  cases r with
  | register auth body => exact h.register host env auth c body
  | prepare auth httpAddr body => exact h.prepare host env auth c httpAddr body
  | policy auth body => exact h.policy env auth c body
  | health auth body => exact h.health host env auth c body
  | plan auth nodeID => exact h.getPlan host env auth c nodeID
  | rollback auth body => exact h.rollback host env auth c body

theorem postSettings (patch : α → SettingsPatch) (page : Settings → β) (body : Option α) (s : σ) :
    PeerWan.postSettings patch page auth body (g s) = through g (PeerWan.postSettings patch page auth body s) := by
  unfold PeerWan.postSettings
  split
  · rfl
  cases body with
  | none => rfl
  | some cfg =>
    simp only [h.loadSettingsOrDefault, h.updateSettings, through]
    rcases NodeStore.updateSettings _ _ with ⟨r, s'⟩
    cases r <;> rfl

-- ---------------------------------------------------------------------------
-- Runs
-- ---------------------------------------------------------------------------

variable (hreopen : ∀ s, NodeStore.reopen (g s) = g (NodeStore.reopen s))

include hreopen

theorem step (e : Env × Event) : Event.step host e (c.mapStore g) = (Event.step host e c).mapStore g := by
  obtain ⟨env, e⟩ := e
  cases e with
  | request r => exact congrArg Prod.snd (h.serve host env c r)
  | tick => exact congrArg Prod.snd (h.recomputeAllPlans host env 1 c)
  | watch => exact congrArg (fun x => bumpPlanVersion x.2) (h.recomputeAllPlans host env 1 c)
  | restart =>
    show restart (c.mapStore g) = (restart c).mapStore g
    rw [restart, Controller.mapStore_store, hreopen]
    rfl

theorem run (es : List (Env × Event)) :
    Lib.run (Event.step host) (c.mapStore g) es = (Lib.run (Event.step host) c es).mapStore g := by
  induction es generalizing c with
  | nil => rfl
  | cons e es ih => rw [run_cons, run_cons, h.step host c hreopen, ih]

end StoreMap

-- ---------------------------------------------------------------------------
-- Invariants of a store
-- ---------------------------------------------------------------------------

structure StoreInvariant {σ : Type} [NodeStore σ] (I : σ → Prop) : Prop where
  upsertNode : ∀ n s, I s → I (NodeStore.upsertNode n s).2
  listNodes : ∀ o s, I s → I (NodeStore.listNodes o s).2
  getNode : ∀ id s, I s → I (NodeStore.getNode id s).2
  savePlan : ∀ p s, I s → I (NodeStore.savePlan p s).2
  getPlan : ∀ nodeID s, I s → I (NodeStore.getPlan nodeID s).2
  listPlanHistory : ∀ nodeID limit s, I s → I (NodeStore.listPlanHistory nodeID limit s).2
  rollbackPlan : ∀ nodeID version s, I s → I (NodeStore.rollbackPlan nodeID version s).2
  setGlobalPlanVersion : ∀ v s, I s → I (NodeStore.setGlobalPlanVersion v s).2
  getGlobalPlanVersion : ∀ s, I s → I (NodeStore.getGlobalPlanVersion s).2
  updatePolicy : ∀ req s, I s → I (NodeStore.updatePolicy req s).2
  saveTask : ∀ now t s, I s → I (NodeStore.saveTask now t s).2
  getTask : ∀ id s, I s → I (NodeStore.getTask id s).2
  listTasks : ∀ o nodeID limit s, I s → I (NodeStore.listTasks o nodeID limit s).2
  saveHealth : ∀ now r s, I s → I (NodeStore.saveHealth now r s).2
  listHealth : ∀ o s, I s → I (NodeStore.listHealth o s).2
  listHealthHistory : ∀ nodeID since s, I s → I (NodeStore.listHealthHistory nodeID since s).2
  pruneHealthBefore : ∀ cutoff s, I s → I (NodeStore.pruneHealthBefore cutoff s).2
  appendAudit : ∀ entry s, I s → I (NodeStore.appendAudit entry s).2
  listAudit : ∀ limit s, I s → I (NodeStore.listAudit limit s).2
  getSettings : ∀ s, I s → I (NodeStore.getSettings s).2
  updateSettings : ∀ cfg s, I s → I (NodeStore.updateSettings cfg s).2
  reopen : ∀ s, I s → I (NodeStore.reopen s)

structure Within {σ : Type} [NodeStore σ] {I : σ → Prop} (h : StoreInvariant I) where
  store : σ
  within : I store

namespace Within

variable {σ : Type} [NodeStore σ] {I : σ → Prop} {h : StoreInvariant I}

def call (f : σ → α × σ) (hf : ∀ s, I s → I (f s).2) (w : Within h) : α × Within h :=
  ((f w.store).1, ⟨(f w.store).2, hf w.store w.within⟩)

instance nodeStore : NodeStore (Within h) where
  upsertNode n := call (NodeStore.upsertNode n) (h.upsertNode n)
  listNodes o := call (NodeStore.listNodes o) (h.listNodes o)
  getNode id := call (NodeStore.getNode id) (h.getNode id)
  savePlan p := call (NodeStore.savePlan p) (h.savePlan p)
  getPlan nodeID := call (NodeStore.getPlan nodeID) (h.getPlan nodeID)
  listPlanHistory nodeID limit := call (NodeStore.listPlanHistory nodeID limit) (h.listPlanHistory nodeID limit)
  rollbackPlan nodeID version := call (NodeStore.rollbackPlan nodeID version) (h.rollbackPlan nodeID version)
  setGlobalPlanVersion v := call (NodeStore.setGlobalPlanVersion v) (h.setGlobalPlanVersion v)
  getGlobalPlanVersion := call NodeStore.getGlobalPlanVersion h.getGlobalPlanVersion
  updatePolicy req := call (NodeStore.updatePolicy req) (h.updatePolicy req)
  saveTask now t := call (NodeStore.saveTask now t) (h.saveTask now t)
  getTask id := call (NodeStore.getTask id) (h.getTask id)
  listTasks o nodeID limit := call (NodeStore.listTasks o nodeID limit) (h.listTasks o nodeID limit)
  saveHealth now r := call (NodeStore.saveHealth now r) (h.saveHealth now r)
  listHealth o := call (NodeStore.listHealth o) (h.listHealth o)
  listHealthHistory nodeID since := call (NodeStore.listHealthHistory nodeID since) (h.listHealthHistory nodeID since)
  pruneHealthBefore cutoff := call (NodeStore.pruneHealthBefore cutoff) (h.pruneHealthBefore cutoff)
  appendAudit entry := call (NodeStore.appendAudit entry) (h.appendAudit entry)
  listAudit limit := call (NodeStore.listAudit limit) (h.listAudit limit)
  getSettings := call NodeStore.getSettings h.getSettings
  updateSettings cfg := call (NodeStore.updateSettings cfg) (h.updateSettings cfg)
  reopen w := ⟨NodeStore.reopen w.store, h.reopen w.store w.within⟩

theorem storeMap : StoreMap (store : Within h → σ) where
  upsertNode _ _ := rfl
  listNodes _ _ := rfl
  getNode _ _ := rfl
  savePlan _ _ := rfl
  rollbackPlan _ _ _ := rfl
  setGlobalPlanVersion _ _ := rfl
  updatePolicy _ _ := rfl
  saveTask _ _ _ := rfl
  saveHealth _ _ _ := rfl
  listHealth _ _ := rfl
  appendAudit _ _ := rfl
  getSettings _ := rfl
  updateSettings _ _ := rfl

end Within

/-- What every call keeps, every run of the handlers keeps: they cannot tell the
store from one that carries the invariant. -/
theorem StoreInvariant.run {σ : Type} [NodeStore σ] {I : σ → Prop} (h : StoreInvariant I) (host : Host)
    (es : List (Env × Event)) {c : Controller σ} (hc : I c.store) : I (Lib.run (Event.step host) c es).store := by
  let within : Controller (Within h) := ⟨⟨c.store, hc⟩, c.planVersion, c.sent, c.saved⟩
  have hrun : Lib.run (Event.step host) c es = (Lib.run (Event.step host) within es).mapStore Within.store :=
    Within.storeMap.run host within (fun _ => rfl) es
  rw [hrun]
  exact (Lib.run (Event.step host) within es).store.within

end PeerWan
