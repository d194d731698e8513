import PeerWan.Controller.Counters
import PeerWan.Controller.StoreMaps

/-!
# A store with the version given to it last

No handler reads the version that a store keeps. So what the requests do to the
counter and to the plans saved can be read off a store that remembers the
version beside the one that may lose it.
-/

namespace PeerWan

open Lib

structure Mirrored (σ : Type) where
  store : σ
  version : Int := 0

namespace Mirrored

variable {σ : Type}

def call (f : σ → α × σ) (w : Mirrored σ) : α × Mirrored σ := ((f w.store).1, { w with store := (f w.store).2 })

variable [NodeStore σ]

def setGlobalPlanVersion (v : Int) (w : Mirrored σ) : Reply Unit × Mirrored σ :=
  ((NodeStore.setGlobalPlanVersion v w.store).1, ⟨(NodeStore.setGlobalPlanVersion v w.store).2, v⟩)

instance nodeStore : NodeStore (Mirrored σ) where
  upsertNode n := call (NodeStore.upsertNode n)
  listNodes o := call (NodeStore.listNodes o)
  getNode id := call (NodeStore.getNode id)
  savePlan p := call (NodeStore.savePlan p)
  getPlan nodeID := call (NodeStore.getPlan nodeID)
  listPlanHistory nodeID limit := call (NodeStore.listPlanHistory nodeID limit)
  rollbackPlan nodeID version := call (NodeStore.rollbackPlan nodeID version)
  setGlobalPlanVersion := setGlobalPlanVersion
  getGlobalPlanVersion w := (.ok w.version, w)
  updatePolicy req := call (NodeStore.updatePolicy req)
  saveTask now t := call (NodeStore.saveTask now t)
  getTask id := call (NodeStore.getTask id)
  listTasks o nodeID limit := call (NodeStore.listTasks o nodeID limit)
  saveHealth now h := call (NodeStore.saveHealth now h)
  listHealth o := call (NodeStore.listHealth o)
  listHealthHistory nodeID since := call (NodeStore.listHealthHistory nodeID since)
  pruneHealthBefore cutoff := call (NodeStore.pruneHealthBefore cutoff)
  appendAudit entry := call (NodeStore.appendAudit entry)
  listAudit limit := call (NodeStore.listAudit limit)
  getSettings := call NodeStore.getSettings
  updateSettings cfg := call (NodeStore.updateSettings cfg)
  reopen w := { w with store := NodeStore.reopen w.store }

theorem storeMap : StoreMap (store : Mirrored σ → σ) where
  upsertNode _ _ := rfl
  listNodes _ _ := rfl
  getNode _ _ := rfl
  savePlan _ _ := rfl
  rollbackPlan _ _ _ := rfl
  setGlobalPlanVersion _ _ := rfl
  updatePolicy _ _ := rfl
  saveTask _ _ _ := rfl
  saveHealth _ _ _ := rfl
  listHealth _ _ := rfl
  appendAudit _ _ := rfl
  getSettings _ := rfl
  updateSettings _ _ := rfl

instance countingStore [CountedStore σ] : CountingStore (Mirrored σ) where
  view w := ⟨w.version, CountedStore.nodeCount w.store⟩
  setGlobalPlanVersion v w := congrArg (StoreView.mk v) (CountedStore.setGlobalPlanVersion v w.store)
  getGlobalPlanVersion _ := rfl
  rollbackPlan_version {nodeID v p w} h := by
    have hback : (NodeStore.rollbackPlan nodeID v w.store).1 = .ok p := h
    exact CountedStore.rollbackPlan_version hback
  rollbackPlan_count nodeID v w := CountedStore.rollbackPlan nodeID v w.store
  rollbackPlan_error {nodeID v _ w} _ := congrArg (StoreView.mk w.version) (CountedStore.rollbackPlan nodeID v w.store)
  listNodes_length {o l w} h := by
    have hlist : (NodeStore.listNodes o w.store).1 = .ok l := h
    exact CountedStore.listNodes_length hlist
  listNodes o w := congrArg (StoreView.mk w.version) (CountedStore.listNodes o w.store)
  upsertNode n w := ⟨rfl, CountedStore.upsertNode n w.store⟩
  savePlan p w := congrArg (StoreView.mk w.version) (CountedStore.savePlan p w.store)
  getNode id w := congrArg (StoreView.mk w.version) (CountedStore.getNode id w.store)
  updatePolicy req w := ⟨rfl, CountedStore.updatePolicy req w.store⟩
  saveTask now t w := congrArg (StoreView.mk w.version) (CountedStore.saveTask now t w.store)
  saveHealth now h w := congrArg (StoreView.mk w.version) (CountedStore.saveHealth now h w.store)
  listHealth o w := congrArg (StoreView.mk w.version) (CountedStore.listHealth o w.store)
  appendAudit entry w := congrArg (StoreView.mk w.version) (CountedStore.appendAudit entry w.store)
  getSettings w := congrArg (StoreView.mk w.version) (CountedStore.getSettings w.store)

end Mirrored

def Controller.mirrored {σ : Type} (c : Controller σ) : Controller (Mirrored σ) where
  store := { store := c.store }
  planVersion := c.planVersion
  sent := c.sent
  saved := c.saved

theorem step_mirrored {σ : Type} [NodeStore σ] (host : Host) (c : Controller σ) (e : Env × Event) :
    Event.step host e c = (Event.step host e c.mirrored).mapStore Mirrored.store :=
  Mirrored.storeMap.step host c.mirrored (fun _ => rfl) e

end PeerWan
