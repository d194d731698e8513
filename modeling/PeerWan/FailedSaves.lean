import PeerWan.Consul.Keys
import PeerWan.Controller.StoreMaps
import PeerWan.Lib.Runs

/-!
# Plans that are not stored

`savePlanWithRules` drops the error of `SavePlan`. It goes on to publish the
version of the plan and to push it, and `RecomputeAllPlans`, which calls it for
each node, answers nil. The Consul store refuses plans whose version is not the
index of their key.
-/

namespace PeerWan

open Lib

-- ---------------------------------------------------------------------------
-- A store that notes what it is asked
-- ---------------------------------------------------------------------------

inductive Note where
  | saved (p : Plan) (r : Reply Unit)
  | published (version : Int)

def Note.save? : Note → Option (Plan × Reply Unit)
  | .saved p r => some (p, r)
  | .published _ => none

structure Ledger (σ : Type) where
  store : σ
  notes : List Note := []

namespace Ledger

variable {σ : Type}

def call (f : σ → α × σ) (w : Ledger σ) : α × Ledger σ := ((f w.store).1, { w with store := (f w.store).2 })

variable [NodeStore σ]

def savePlan (p : Plan) (w : Ledger σ) : Reply Unit × Ledger σ :=
  let (r, s) := NodeStore.savePlan p w.store
  (r, ⟨s, w.notes ++ [.saved p r]⟩)

def setGlobalPlanVersion (v : Int) (w : Ledger σ) : Reply Unit × Ledger σ :=
  let (r, s) := NodeStore.setGlobalPlanVersion v w.store
  (r, ⟨s, w.notes ++ [.published v]⟩)

instance nodeStore : NodeStore (Ledger σ) where
  upsertNode n := call (NodeStore.upsertNode n)
  listNodes o := call (NodeStore.listNodes o)
  getNode id := call (NodeStore.getNode id)
  savePlan := savePlan
  getPlan nodeID := call (NodeStore.getPlan nodeID)
  listPlanHistory nodeID limit := call (NodeStore.listPlanHistory nodeID limit)
  rollbackPlan nodeID version := call (NodeStore.rollbackPlan nodeID version)
  setGlobalPlanVersion := setGlobalPlanVersion
  getGlobalPlanVersion := call NodeStore.getGlobalPlanVersion
  updatePolicy req := call (NodeStore.updatePolicy req)
  saveTask now t := call (NodeStore.saveTask now t)
  getTask id := call (NodeStore.getTask id)
  listTasks o nodeID limit := call (NodeStore.listTasks o nodeID limit)
  saveHealth now h := call (NodeStore.saveHealth now h)
  listHealth o := call (NodeStore.listHealth o)
  listHealthHistory nodeID since := call (NodeStore.listHealthHistory nodeID since)
  pruneHealthBefore cutoff := call (NodeStore.pruneHealthBefore cutoff)
  appendAudit entry := call (NodeStore.appendAudit entry)
  listAudit limit := call (NodeStore.listAudit limit)
  getSettings := call NodeStore.getSettings
  updateSettings cfg := call (NodeStore.updateSettings cfg)
  reopen w := { w with store := NodeStore.reopen w.store }

/-- Nothing that a handler does depends on the notes. -/
theorem storeMap : StoreMap (store : Ledger σ → σ) where
  upsertNode _ _ := rfl
  listNodes _ _ := rfl
  getNode _ _ := rfl
  savePlan _ _ := rfl
  rollbackPlan _ _ _ := rfl
  setGlobalPlanVersion _ _ := rfl
  updatePolicy _ _ := rfl
  saveTask _ _ _ := rfl
  saveHealth _ _ _ := rfl
  listHealth _ _ := rfl
  appendAudit _ _ := rfl
  getSettings _ := rfl
  updateSettings _ _ := rfl

end Ledger

-- ---------------------------------------------------------------------------
-- The loop
-- ---------------------------------------------------------------------------

section

variable {σ : Type} [NodeStore σ] (host : Host) (env : Env) (nodes : List Node) (health : HealthMap)

/-- The body of the loop of `recomputeAllPlans`. -/
def saveNext (n : Node) (c : Controller σ) : Controller σ :=
  savePlanWithRules host env n (buildPeerPlan n.id nodes health) (expandPolicyRules nodes n.id) c

def planToSave (c : Controller σ) (n : Node) : Plan :=
  planOf host env (int64 (c.planVersion + 1)) (withListenPort n) (buildPeerPlan n.id nodes health)
    (expandPolicyRules nodes n.id)

/-- The store takes the plan of the node. -/
def Accepts (c : Controller σ) (n : Node) : Prop :=
  (NodeStore.savePlan (planToSave host env nodes health c n) c.store).1 = .ok ()

theorem loadSettings_notes (w : Ledger σ) : (loadSettingsOrDefault w).2.notes = w.notes :=
  loadSettingsOrDefault_leaves (fun _ => rfl) w

/-- Whether or not the plan is stored, its version is set after it. -/
theorem saveNext_notes (n : Node) (c : Controller (Ledger σ)) :
    (saveNext host env nodes health n c).store.notes = c.store.notes ++
      [.saved (planToSave host env nodes health c n)
        (NodeStore.savePlan (planToSave host env nodes health c n) c.store.store).1,
        .published (planToSave host env nodes health c n).version] := by
  have hnotes (w : Ledger σ) : (diagIntervalSeconds host w).2.notes = w.notes := loadSettings_notes w
  simp only [saveNext, savePlanWithRules, hnotes, loadSettings_notes]
  exact List.append_assoc ..

def Ledger.saves (w : Ledger σ) : List (Plan × Reply Unit) := w.notes.filterMap Note.save?

theorem run_saves (l : List Node) (c : Controller (Ledger σ)) :
    ∃ news, (run (saveNext host env nodes health) c l).store.saves = c.store.saves ++ news ∧
      news.map (fun s => s.1.nodeID) = l.map Node.id ∧
      ((∀ s ∈ news, s.2 = .ok ()) ↔
        Along (saveNext host env nodes health) (Accepts host env nodes health) (c.mapStore Ledger.store) l) := by
  induction l generalizing c with
  | nil => exact ⟨[], by simp⟩
  | cons n l ih =>
    obtain ⟨news, hsaves, hids, hok⟩ := ih (saveNext host env nodes health n c)
    have hid : (planToSave host env nodes health c n).nodeID = n.id := by
      unfold planToSave withListenPort
      split <;> rfl
    have hstep : saveNext host env nodes health n (c.mapStore Ledger.store) =
        (saveNext host env nodes health n c).mapStore Ledger.store := Ledger.storeMap.savePlanWithRules ..
    refine ⟨(planToSave host env nodes health c n,
      (NodeStore.savePlan (planToSave host env nodes health c n) c.store.store).1) :: news, ?_, ?_, ?_⟩
    · rw [run_cons, hsaves, Ledger.saves, saveNext_notes, List.filterMap_append, List.append_cons]
      rfl
    · rw [List.map_cons, List.map_cons, hids, hid]
    · rw [List.forall_mem_cons, along_cons, hok, hstep]
      rfl

-- ---------------------------------------------------------------------------
-- A recomputation
-- ---------------------------------------------------------------------------

def recomputed (k : Nat) (c : Controller σ) : Reply Unit × Controller (Ledger σ) :=
  recomputeAllPlans host env k (c.mapStore fun s => ⟨s, []⟩)

theorem recomputed_erased (k : Nat) (c : Controller σ) :
    Controller.mapAnswer Ledger.store (recomputed host env k c) = recomputeAllPlans host env k c :=
  (Ledger.storeMap.recomputeAllPlans host env k (c.mapStore fun s => ⟨s, []⟩)).symm

/-- The message has the plan. -/
def WSMessage.Pushes (m : WSMessage) (p : Plan) : Prop :=
  m.type = "plan" ∧ m.nodeID = p.nodeID ∧ ∃ cfg, m.payload = .plan cfg ∧ cfg.configVersion = p.configVersion

/-- The answer is nil only if each node's plan is stored; a plan that is not is
neither published nor pushed. -/
def SavesReported (k : Nat) (c : Controller σ) : Prop :=
  ((recomputed host env k c).1 = .ok () → ∃ nodes, (NodeStore.listNodes (env.nodeOrder k) c.store).1 = .ok nodes ∧
      (recomputed host env k c).2.store.saves.map (fun s => s.1.nodeID) = nodes.map Node.id ∧
      ∀ s ∈ (recomputed host env k c).2.store.saves, s.2 = .ok ()) ∧
    ∀ p err, .saved p (.error err) ∈ (recomputed host env k c).2.store.notes →
      .published p.version ∉ (recomputed host env k c).2.store.notes ∧
      ∀ m ∈ (recomputed host env k c).2.sent.drop c.sent.length, ¬ m.Pushes p

/-- If the nodes can be listed, then the store takes the plan of each of them in turn. -/
def AllAccepted (k : Nat) (c : Controller σ) : Prop :=
  ∀ nodes, (NodeStore.listNodes (env.nodeOrder k) c.store).1 = .ok nodes →
    let reports := NodeStore.listHealth (env.healthOrder k) (NodeStore.listNodes (env.nodeOrder k) c.store).2
    let health := healthMap (reports.1.getD [])
    Along (saveNext host env nodes health) (Accepts host env nodes health) { c with store := reports.2 } nodes

variable {host env}

theorem recomputed_error {k : Nat} {c : Controller σ} {err : String}
    (h : (NodeStore.listNodes (env.nodeOrder k) c.store).1 = .error err) :
    (recomputed host env k c).1 = .error err ∧ (recomputed host env k c).2.store.notes = [] := by
  have hlist : NodeStore.listNodes (env.nodeOrder k) (c.mapStore fun s => (⟨s, []⟩ : Ledger σ)).store =
      (.error err, ⟨(NodeStore.listNodes (env.nodeOrder k) c.store).2, []⟩) := Prod.ext h rfl
  rw [recomputed, recomputeAllPlans, hlist]
  exact ⟨rfl, rfl⟩

theorem recomputed_ok {k : Nat} {c : Controller σ} {nodes : List Node}
    (h : (NodeStore.listNodes (env.nodeOrder k) c.store).1 = .ok nodes) :
    let reports := NodeStore.listHealth (env.healthOrder k) (NodeStore.listNodes (env.nodeOrder k) c.store).2
    recomputed host env k c = (.ok (), run (saveNext host env nodes (healthMap (reports.1.getD [])))
      { c with store := (⟨reports.2, []⟩ : Ledger σ) } nodes) := by
  have hlist : NodeStore.listNodes (env.nodeOrder k) (c.mapStore fun s => (⟨s, []⟩ : Ledger σ)).store =
      (.ok nodes, ⟨(NodeStore.listNodes (env.nodeOrder k) c.store).2, []⟩) := Prod.ext h rfl
  rw [recomputed, recomputeAllPlans, hlist]
  rfl

omit [NodeStore σ] in
theorem mem_saves {w : Ledger σ} {p : Plan} {r : Reply Unit} (h : .saved p r ∈ w.notes) : (p, r) ∈ w.saves :=
  List.mem_filterMap.mpr ⟨_, h, rfl⟩

theorem savesReported_iff (k : Nat) (c : Controller σ) : SavesReported host env k c ↔ AllAccepted host env k c := by
  unfold SavesReported AllAccepted
  cases hlist : (NodeStore.listNodes (env.nodeOrder k) c.store).1 with
  | error err =>
    obtain ⟨hanswer, hnotes⟩ := @recomputed_error σ _ host env k c err hlist
    rw [hanswer, hnotes]
    refine iff_of_true ⟨fun h => ?_, fun _ _ h => ?_⟩ fun _ h => ?_
    all_goals cases h
  | ok nodes =>
    let reports := NodeStore.listHealth (env.healthOrder k) (NodeStore.listNodes (env.nodeOrder k) c.store).2
    obtain ⟨news, hsaves, hids, hok⟩ := run_saves host env nodes (healthMap (reports.1.getD [])) nodes
      { c with store := (⟨reports.2, []⟩ : Ledger σ) }
    have hrun := @recomputed_ok σ _ host env k c nodes hlist
    have hanswer : (recomputed host env k c).1 = .ok () := congrArg Prod.fst hrun
    have hlog : (recomputed host env k c).2.store.saves = news := by
      rw [hrun, hsaves]
      rfl
    constructor
    · rintro ⟨hstored, -⟩ nodes' hnodes
      obtain rfl := Except.ok.inj hnodes
      obtain ⟨-, -, -, hall⟩ := hstored hanswer
      rw [hlog] at hall
      exact hok.mp hall
    · intro haccepted
      have hall := hok.mpr (haccepted nodes rfl)
      rw [hlog]
      refine ⟨fun _ => ⟨nodes, rfl, hids, hall⟩, fun p err hmem => ?_⟩
      have hfailed := mem_saves hmem
      rw [hlog] at hfailed
      cases hall _ hfailed

end

def unplanned : Controller ConsulStore where
  store := ConsulStore.withOne (ConsulStore.nodeKey "a") (.node { id := "a" })
  planVersion := 0
  sent := []
  saved := []

theorem savesReported_counterexample : (recomputed Host.sample {} 0 unplanned).1 = .ok () ∧
    (recomputed Host.sample {} 0 unplanned).2.store.saves.map (fun s => (s.1.version, s.2)) =
      [(1, .error "plan CAS failed")] ∧
    (recomputed Host.sample {} 0 unplanned).2.sent.length = 1 ∧ ¬ SavesReported Host.sample {} 0 unplanned := by
  have hanswer : (recomputed Host.sample {} 0 unplanned).1 = .ok () := by decide
  have hsaves : (recomputed Host.sample {} 0 unplanned).2.store.saves.map (fun s => (s.1.version, s.2)) =
      [(1, .error "plan CAS failed")] := by decide
  refine ⟨hanswer, hsaves, by decide, fun h => ?_⟩
  obtain ⟨-, -, -, hall⟩ := h.1 hanswer
  obtain ⟨s, hs, hrefused⟩ := List.mem_map.mp (hsaves ▸ List.mem_singleton_self _)
  cases (hall s hs).symm.trans (Prod.mk.inj hrefused).2

end PeerWan
