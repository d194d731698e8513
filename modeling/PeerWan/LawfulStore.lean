import PeerWan.Consul.Calls
import PeerWan.Controller.Effects
import PeerWan.Controller.StoreMaps

/-!
# Stores whose calls may fail

What the handlers rely on of a store, whichever it is. A read answers what is
stored, or fails, and changes nothing; a write that fails has no effect on what
it was to write. Both stores are such stores.
-/

namespace PeerWan

open Lib

/-- What a register or a prepare would take from a node by building its record
anew: its keys, its address, its token and its policy. -/
structure Holdings where
  publicKey : String
  privateKey : String
  overlayIP : String
  provisionToken : String
  policy : PolicyFields
  deriving DecidableEq, Repr

def Node.holdings (n : Node) : Holdings where
  publicKey := n.publicKey
  privateKey := n.privateKey
  overlayIP := n.overlayIP
  provisionToken := n.provisionToken
  policy := n.policyFields

/-- `Data` is what is stored, apart from which requests are going to fail. -/
class LawfulStore (σ : Type) [NodeStore σ] where
  Data : Type
  data : σ → Data
  node : Data → String → Option Node
  report : Data → String → Option HealthReport
  settings : Data → Settings
  getNode_data : ∀ id (s : σ), data (NodeStore.getNode id s).2 = data s
  getNode_ok : ∀ {id r} {s : σ}, (NodeStore.getNode id s).1 = .ok r → r = node (data s) id
  listNodes_data : ∀ o (s : σ), data (NodeStore.listNodes o s).2 = data s
  listHealth_data : ∀ o (s : σ), data (NodeStore.listHealth o s).2 = data s
  listHealth_ok : ∀ {o reports} {s : σ}, (NodeStore.listHealth o s).1 = .ok reports →
    ∀ id, (healthMap reports).get? id = report (data s) id
  getSettings_data : ∀ s : σ, data (NodeStore.getSettings s).2 = data s
  getSettings_ok : ∀ {cfg} {s : σ}, (NodeStore.getSettings s).1 = .ok cfg → cfg = settings (data s)
  upsertNode_ok : ∀ {n saved} {s : σ}, (NodeStore.upsertNode n s).1 = .ok saved → ∀ id,
    (node (data (NodeStore.upsertNode n s).2) id).map Node.holdings =
      if id = n.id then some n.holdings else (node (data s) id).map Node.holdings
  upsertNode_error : ∀ {n err} {s : σ}, (NodeStore.upsertNode n s).1 = .error err →
    data (NodeStore.upsertNode n s).2 = data s
  updateSettings_ok : ∀ {cfg} {s : σ}, (NodeStore.updateSettings cfg s).1 = .ok () →
    settings (data (NodeStore.updateSettings cfg s).2) = cfg
  updateSettings_error : ∀ {cfg err} {s : σ}, (NodeStore.updateSettings cfg s).1 = .error err →
    data (NodeStore.updateSettings cfg s).2 = data s
  savePlan_node : ∀ p (s : σ), node (data (NodeStore.savePlan p s).2) = node (data s)
  setGlobalPlanVersion_node : ∀ v (s : σ), node (data (NodeStore.setGlobalPlanVersion v s).2) = node (data s)
  appendAudit_node : ∀ entry (s : σ), node (data (NodeStore.appendAudit entry s).2) = node (data s)

-- ---------------------------------------------------------------------------
-- MemoryStore
-- ---------------------------------------------------------------------------

theorem MemoryStore.upsertNode_holdings (n : Node) (m : MemoryStore) (id : String) :
    ((m.upsertNode n).2.nodes.get? id).map Node.holdings =
      if id = n.id then some n.holdings else (m.nodes.get? id).map Node.holdings := by
  rw [MemoryStore.upsertNode, Table.get?_put]
  by_cases hid : n.id = id
  · rw [if_pos hid, if_pos hid.symm]
    rfl
  · rw [if_neg hid, if_neg (Ne.symm hid)]

instance : LawfulStore MemoryStore where
  Data := MemoryStore
  data m := m
  node m := m.nodes.get?
  report m := m.health.get?
  settings m := m.settings
  getNode_data _ _ := rfl
  getNode_ok h := (Except.ok.inj h).symm
  listNodes_data _ _ := rfl
  listHealth_data _ _ := rfl
  listHealth_ok h id := Except.ok.inj h ▸ get?_healthMap ..
  getSettings_data _ := rfl
  getSettings_ok h := (Except.ok.inj h).symm
  upsertNode_ok _ := MemoryStore.upsertNode_holdings _ _
  upsertNode_error h := by cases h
  updateSettings_ok _ := rfl
  updateSettings_error h := by cases h
  savePlan_node _ _ := rfl
  setGlobalPlanVersion_node _ _ := rfl
  appendAudit_node _ _ := rfl

-- ---------------------------------------------------------------------------
-- ConsulStore
-- ---------------------------------------------------------------------------

namespace ConsulStore

/-- What Consul has, with no request counted and none to fail. -/
def stored (s : ConsulStore) : KV ConsulValue := { s.kv with calls := 0, fails := fun _ => none }

variable {s : ConsulStore}

theorem stored_request {f : KV ConsulValue → β × KV ConsulValue} (hf : ∀ kv, (f kv).2 = kv) (s : ConsulStore) :
    (s.withKV (s.kv.request f)).2.stored = s.stored := by
  unfold withKV KV.request
  split
  · rfl
  · dsimp only
    rw [hf]
    rfl

theorem stored_getValue (s : ConsulStore) (k : String) (decode : ConsulValue → Option α) :
    (s.getValue k decode).2.stored = s.stored := by
  have hget : (s.withKV (s.kv.get k)).2.stored = s.stored := stored_request (fun _ => rfl) s
  unfold getValue
  split
  next heq => rw [heq] at hget; exact hget
  next heq => rw [heq] at hget; exact hget
  next heq => rw [heq] at hget; split <;> exact hget

theorem stored_listValues (s : ConsulStore) (pfx : String) (decode : ConsulValue → Option α) :
    (s.listValues pfx decode).2.stored = s.stored := by
  have hlist : (s.withKV (s.kv.list pfx)).2.stored = s.stored := stored_request (fun _ => rfl) s
  unfold listValues
  split
  next heq => rw [heq] at hlist; exact hlist
  next heq => rw [heq] at hlist; exact hlist

theorem getValue_ok {k : String} {decode : ConsulValue → Option α} {r : Option α}
    (h : (s.getValue k decode).1 = .ok r) : r = (s.stored.value? k).bind decode := by
  unfold getValue withKV KV.get KV.request at h
  cases hfail : s.kv.fails s.kv.calls with
  | some err => simp [hfail] at h
  | none =>
    simp only [hfail] at h
    show r = ((s.kv.get? k).map (·.value)).bind decode
    cases hget : s.kv.get? k with
    | none => simpa [hget] using h.symm
    | some e =>
      cases hdecode : decode e.value with
      | none => simp [hget, hdecode] at h
      | some a => simpa [hget, hdecode] using h.symm

theorem listValues_ok {pfx : String} {decode : ConsulValue → Option α} {r : List α}
    (h : (s.listValues pfx decode).1 = .ok r) :
    r = ((s.stored.keys pfx).filterMap s.stored.get?).filterMap fun e => decode e.value := by
  unfold listValues withKV KV.list KV.request at h
  cases hfail : s.kv.fails s.kv.calls with
  | some err => simp [hfail] at h
  | none =>
    simp only [hfail] at h
    exact (Except.ok.inj h).symm

theorem putValue_failed {k err : String} {v : ConsulValue} (h : (s.putValue k v).1 = .error err) :
    (s.putValue k v).2.stored = s.stored := by
  unfold putValue withKV KV.put KV.request at h ⊢
  cases hfail : s.kv.fails s.kv.calls with
  | some err => rfl
  | none => simp [hfail] at h

theorem putValue_stored {k : String} {v : ConsulValue} (h : (s.putValue k v).1 = .ok ()) (k' : String) :
    (s.putValue k v).2.stored.value? k' = if k = k' then some v else s.stored.value? k' := by
  unfold putValue withKV KV.put KV.request at h ⊢
  cases hfail : s.kv.fails s.kv.calls with
  | some err => simp [hfail] at h
  | none => exact KV.value?_write ..

theorem upsertNode_put (n : Node) (s : ConsulStore) :
    (s.upsertNode n).2 = (s.putValue (nodeKey n.id) (.node n)).2 ∧
      match (s.upsertNode n).1 with
      | .ok _ => (s.putValue (nodeKey n.id) (.node n)).1 = .ok ()
      | .error err => (s.putValue (nodeKey n.id) (.node n)).1 = .error err := by
  unfold ConsulStore.upsertNode
  rcases s.putValue (nodeKey n.id) (.node n) with ⟨r, s'⟩
  cases r <;> exact ⟨rfl, rfl⟩

def storedNode (kv : KV ConsulValue) (id : String) : Option Node :=
  (kv.value? (nodeKey id)).bind ConsulValue.node?

theorem Spares.storedNode {s' : ConsulStore} (h : s.Spares nodePrefix s') :
    ConsulStore.storedNode s'.stored = ConsulStore.storedNode s.stored := by
  funext id
  show ((s'.kv.get? (nodeKey id)).map _).bind _ = ((s.kv.get? (nodeKey id)).map _).bind _
  rw [h.get? (nodeKey id) (under_append ..)]

theorem holdings_node? (n : Node) : (ConsulValue.node n).node?.map Node.holdings = some n.holdings := by
  show some (Node.holdings (if _ then _ else _)) = _
  split <;> rfl

end ConsulStore

open ConsulStore in
instance : LawfulStore ConsulStore where
  Data := KV ConsulValue
  data := stored
  node := storedNode
  report kv := (healthMap (((kv.keys healthPrefix).filterMap kv.get?).filterMap fun e => e.value.health?)).get?
  settings kv := ((kv.value? settingsKey).bind ConsulValue.settings?).getD {}
  getNode_data id s := stored_getValue ..
  getNode_ok h := getValue_ok h
  listNodes_data _ s := stored_listValues ..
  listHealth_data _ s := stored_listValues ..
  listHealth_ok h id := by rw [listValues_ok h]
  getSettings_data s := by
    have hget := stored_getValue s settingsKey ConsulValue.settings?
    show s.getSettings.2.stored = _
    unfold ConsulStore.getSettings
    split
    next heq => rw [heq] at hget; exact hget
    next heq => rw [heq] at hget; exact hget
  getSettings_ok {cfg s} h := by
    change s.getSettings.1 = .ok cfg at h
    unfold ConsulStore.getSettings at h
    split at h
    next => cases h
    next heq =>
      rw [← Except.ok.inj h, ← getValue_ok (congrArg Prod.fst heq)]
  upsertNode_ok {n saved s} h id := by
    change (s.upsertNode n).1 = .ok saved at h
    obtain ⟨hstore, hput⟩ := upsertNode_put n s
    rw [h] at hput
    show (storedNode (s.upsertNode n).2.stored id).map Node.holdings = _
    rw [hstore, storedNode, putValue_stored hput]
    by_cases hid : id = n.id
    · rw [if_pos (by rw [hid]), if_pos hid]
      exact holdings_node? n
    · have hkey : nodeKey n.id ≠ nodeKey id := fun heq => hid ((String.append_right_inj _).mp heq).symm
      rw [if_neg hkey, if_neg hid]
      rfl
  upsertNode_error {n err s} h := by
    change (s.upsertNode n).1 = .error err at h
    obtain ⟨hstore, hput⟩ := upsertNode_put n s
    rw [h] at hput
    show (s.upsertNode n).2.stored = _
    rw [hstore, putValue_failed hput]
  updateSettings_ok {cfg s} h := by
    show (((s.putValue settingsKey (.settings cfg)).2.stored.value? settingsKey).bind _).getD {} = cfg
    rw [putValue_stored h, if_pos rfl]
    rfl
  updateSettings_error h := putValue_failed h
  savePlan_node p s := (Spares.savePlan (by decide) s p).storedNode
  setGlobalPlanVersion_node v s :=
    (Spares.putValue (show ¬ nodePrefix.toList <+: versionKey.toList by decide) s _).storedNode
  appendAudit_node entry s :=
    have hapart : Apart nodePrefix auditPrefix := by decide
    (Spares.putValue (hapart.not_under (under_append₃ ..)) s _).storedNode

-- ---------------------------------------------------------------------------
-- Which plans a store takes
-- ---------------------------------------------------------------------------

def Failed (r : Reply α) : Prop := ∃ err, r = .error err

/-- A store with a note of the plans that it has taken. -/
structure Watched (σ : Type) where
  store : σ
  taken : List Plan := []

namespace Watched

variable {σ : Type}

def call (f : σ → α × σ) (w : Watched σ) : α × Watched σ := ((f w.store).1, { w with store := (f w.store).2 })

def savePlan [NodeStore σ] (p : Plan) (w : Watched σ) : Reply Unit × Watched σ :=
  match NodeStore.savePlan p w.store with
  | (.ok (), s) => (.ok (), ⟨s, w.taken ++ [p]⟩)
  | (.error err, s) => (.error err, ⟨s, w.taken⟩)

instance [NodeStore σ] : NodeStore (Watched σ) where
  upsertNode n := call (NodeStore.upsertNode n)
  listNodes o := call (NodeStore.listNodes o)
  getNode id := call (NodeStore.getNode id)
  savePlan := savePlan
  getPlan nodeID := call (NodeStore.getPlan nodeID)
  listPlanHistory nodeID limit := call (NodeStore.listPlanHistory nodeID limit)
  rollbackPlan nodeID version := call (NodeStore.rollbackPlan nodeID version)
  setGlobalPlanVersion v := call (NodeStore.setGlobalPlanVersion v)
  getGlobalPlanVersion := call NodeStore.getGlobalPlanVersion
  updatePolicy req := call (NodeStore.updatePolicy req)
  saveTask now t := call (NodeStore.saveTask now t)
  getTask id := call (NodeStore.getTask id)
  listTasks o nodeID limit := call (NodeStore.listTasks o nodeID limit)
  saveHealth now h := call (NodeStore.saveHealth now h)
  listHealth o := call (NodeStore.listHealth o)
  listHealthHistory nodeID since := call (NodeStore.listHealthHistory nodeID since)
  pruneHealthBefore cutoff := call (NodeStore.pruneHealthBefore cutoff)
  appendAudit entry := call (NodeStore.appendAudit entry)
  listAudit limit := call (NodeStore.listAudit limit)
  getSettings := call NodeStore.getSettings
  updateSettings cfg := call (NodeStore.updateSettings cfg)
  reopen w := { w with store := NodeStore.reopen w.store }

theorem savePlan_eq [NodeStore σ] (p : Plan) (w : Watched σ) :
    (NodeStore.savePlan p w).1 = (NodeStore.savePlan p w.store).1 ∧
      (NodeStore.savePlan p w).2.store = (NodeStore.savePlan p w.store).2 ∧
      (Failed (NodeStore.savePlan p w).1 → (NodeStore.savePlan p w).2.taken = w.taken) ∧
      (¬ Failed (NodeStore.savePlan p w).1 → (NodeStore.savePlan p w).2.taken = w.taken ++ [p]) := by
  show (w.savePlan p).1 = _ ∧ (w.savePlan p).2.store = _ ∧ (Failed (w.savePlan p).1 → (w.savePlan p).2.taken = _) ∧
    (¬ Failed (w.savePlan p).1 → (w.savePlan p).2.taken = _)
  unfold Watched.savePlan
  rcases NodeStore.savePlan p w.store with ⟨r, s⟩
  cases r with
  | ok =>
    refine ⟨rfl, rfl, fun h => ?_, fun _ => rfl⟩
    obtain ⟨err, h⟩ := h
    cases h
  | error err => exact ⟨rfl, rfl, fun _ => rfl, fun h => absurd ⟨err, rfl⟩ h⟩

/-- Nothing that a handler does depends on the note. -/
theorem storeMap [NodeStore σ] : StoreMap (store : Watched σ → σ) where
  upsertNode _ _ := rfl
  listNodes _ _ := rfl
  getNode _ _ := rfl
  savePlan p w := Prod.ext (savePlan_eq p w).1.symm (savePlan_eq p w).2.1.symm
  rollbackPlan _ _ _ := rfl
  setGlobalPlanVersion _ _ := rfl
  updatePolicy _ _ := rfl
  saveTask _ _ _ := rfl
  saveHealth _ _ _ := rfl
  listHealth _ _ := rfl
  appendAudit _ _ := rfl
  getSettings _ := rfl
  updateSettings _ _ := rfl

instance [NodeStore σ] [LawfulStore σ] : LawfulStore (Watched σ) where
  Data := LawfulStore.Data σ
  data w := LawfulStore.data w.store
  node := LawfulStore.node
  report := LawfulStore.report
  settings := LawfulStore.settings
  getNode_data id w := LawfulStore.getNode_data id w.store
  getNode_ok h := LawfulStore.getNode_ok h
  listNodes_data o w := LawfulStore.listNodes_data o w.store
  listHealth_data o w := LawfulStore.listHealth_data o w.store
  listHealth_ok h := LawfulStore.listHealth_ok h
  getSettings_data w := LawfulStore.getSettings_data w.store
  getSettings_ok h := LawfulStore.getSettings_ok h
  upsertNode_ok h := LawfulStore.upsertNode_ok h
  upsertNode_error h := LawfulStore.upsertNode_error h
  updateSettings_ok h := LawfulStore.updateSettings_ok h
  updateSettings_error h := LawfulStore.updateSettings_error h
  savePlan_node p w := by
    rw [(savePlan_eq p w).2.1]
    exact LawfulStore.savePlan_node p w.store
  setGlobalPlanVersion_node v w := LawfulStore.setGlobalPlanVersion_node v w.store
  appendAudit_node entry w := LawfulStore.appendAudit_node entry w.store

end Watched

end PeerWan
