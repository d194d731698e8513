import PeerWan.Lib.Runs
import PeerWan.Controller.Effects
import PeerWan.Signatures

/-!
# Every plan in the history can be rolled back to

A plan is signed when it is saved, from the record it is made for, and checked
when it is rolled back to, from its own fields. The in-memory history keeps the
last twenty plans of a node, and the current plan stays one of them.
-/

namespace PeerWan

open Lib

/-- `GET /plan/history`: the plans, or the refusal. -/
def planHistory [NodeStore σ] (auth : Credentials) (nodeID : String) (st : σ) :
    Except Response (List Plan) × σ :=
  if !auth.jwt then (.error (.error 401 "unauthorized"), st)
  else if nodeID = "" then (.error (.error 400 "nodeId is required"), st)
  else match NodeStore.listPlanHistory nodeID 20 st with
    | (.error _, st) => (.error (.error 500 "failed to list plan history"), st)
    | (.ok plans, st) => (.ok plans, st)

structure HistorySigned (host : Host) (m : MemoryStore) (nodeID : String) : Prop where
  signed : ∀ p ∈ m.history nodeID, p.Verifies host
  short : (m.history nodeID).length ≤ 20
  current : ∀ p, m.plans nodeID = some p → p ∈ m.history nodeID

/-- Whatever version the history of the node lists, a rollback to it is
answered with the plan. -/
def RollbackServes (host : Host) (c : Controller MemoryStore) (nodeID : String) : Prop :=
  ∀ env auth auth' plans, auth'.jwt = true → (planHistory auth nodeID c.store).1 = .ok plans →
    ∀ p ∈ plans, ∃ q, q.version = p.version ∧
      (rollback host env auth' (some (nodeID, p.version)) c).1 = ⟨200, .plan q⟩

-- ---------------------------------------------------------------------------
-- One step
-- ---------------------------------------------------------------------------

theorem planOf_verifies (host : Host) (env : Env) (version : Int) (node : Node) (peers : List Peer)
    (rules : List PolicyRule) : (planOf host env version node peers rules).Verifies host := rfl

theorem HistorySigned.congr {m m' : MemoryStore} (h : HistorySigned host m nodeID)
    (hplans : m'.plans = m.plans) (hhistory : m'.history = m.history) : HistorySigned host m' nodeID where
  signed := hhistory ▸ h.signed
  short := hhistory ▸ h.short
  current := hplans ▸ hhistory ▸ h.current

theorem HistorySigned.savePlan {m : MemoryStore} (h : HistorySigned host m nodeID) (hp : p.Verifies host) :
    HistorySigned host (m.savePlan p) nodeID := by
  by_cases hid : nodeID = p.nodeID
  · have hhistory : (m.savePlan p).history nodeID = (m.history nodeID ++ [p]).rtake 20 := by
      rw [hid]
      exact Function.update_self ..
    have hlast : p ∈ (m.history nodeID ++ [p]).rtake 20 := by
      rw [List.rtake_eq_reverse_take_reverse]
      simp
    refine ⟨fun q hq => ?_, ?_, fun q hq => ?_⟩
    · rw [hhistory, List.rtake] at hq
      rcases List.mem_append.mp (List.mem_of_mem_drop hq) with hq | hq
      · exact h.signed q hq
      · exact List.mem_singleton.mp hq ▸ hp
    · rw [hhistory, List.rtake, List.length_drop]
      omega
    · have hcurrent : (m.savePlan p).plans nodeID = some p := by
        rw [hid]
        exact Function.update_self ..
      rw [hhistory, ← Option.some.inj (hcurrent.symm.trans hq)]
      exact hlast
  · have hplans : (m.savePlan p).plans nodeID = m.plans nodeID := Function.update_of_ne hid ..
    have hhistory : (m.savePlan p).history nodeID = m.history nodeID := Function.update_of_ne hid ..
    exact ⟨hhistory ▸ h.signed, hhistory ▸ h.short, fun q hq => hhistory ▸ h.current q (hplans ▸ hq)⟩

theorem HistorySigned.savePlanWithRules {c : Controller MemoryStore} (env : Env) (node : Node)
    (peers : List Peer) (rules : List PolicyRule) (h : HistorySigned host c.store nodeID) :
    HistorySigned host (savePlanWithRules host env node peers rules c).store nodeID := by
  rw [savePlanWithRules_eq]
  exact (h.savePlan (planOf_verifies host env _ node peers rules)).congr rfl rfl

theorem HistorySigned.savePlans (env : Env) (nodes : List Node) (health : HealthMap) (l : List Node)
    {c : Controller MemoryStore} (h : HistorySigned host c.store nodeID) :
    HistorySigned host (savePlans host env nodes health l c).store nodeID := by
  induction l generalizing c with
  | nil => exact h
  | cons n l ih => exact ih (h.savePlanWithRules env n _ _)

theorem registerSave_plans (m : MemoryStore) (req : NodeRegistrationRequest) :
    (registerSave m req).2.plans = m.plans ∧ (registerSave m req).2.history = m.history := by
  rw [registerSave]
  split <;> exact ⟨rfl, rfl⟩

theorem HistorySigned.register {c : Controller MemoryStore} (env : Env) (req : NodeRegistrationRequest)
    (entry : AuditEntry) (h : HistorySigned host c.store nodeID) :
    HistorySigned host (bumpPlanVersion (recomputeAllPlans host env 1
      (Controller.audited { c with store := (registerSave c.store req).2 } entry)).2).store nodeID := by
  obtain ⟨hplans, hhistory⟩ := registerSave_plans c.store req
  have hstart : HistorySigned host
      (Controller.audited { c with store := (registerSave c.store req).2 } entry).store nodeID :=
    h.congr hplans hhistory
  rw [recomputeAllPlans_eq]
  exact hstart.savePlans env _ _ _

theorem HistorySigned.health {c : Controller MemoryStore} (env : Env) (report : HealthReport)
    (entry : AuditEntry) (h : HistorySigned host c.store nodeID) :
    HistorySigned host ((bumpPlanVersion (healthSave host env report c)).audited entry).store nodeID := by
  have hstart : HistorySigned host
      ({ c with store := c.store.saveHealth env.now report } : Controller MemoryStore).store nodeID :=
    h.congr rfl rfl
  exact (hstart.savePlanWithRules env _ _ _).congr rfl rfl

theorem HistorySigned.rollback {m : MemoryStore} {id : String} {version : Int}
    (h : HistorySigned host m nodeID) (hf : RollbackFinds m auth body id version p) :
    HistorySigned host (rollbackStore m id version p) nodeID := by
  refine ⟨h.signed, h.short, fun q hq => ?_⟩
  by_cases hid : nodeID = id
  · subst hid
    have hcurrent : (rollbackStore m nodeID version p).plans nodeID = some p := Function.update_self ..
    rw [← Option.some.inj (hcurrent.symm.trans hq)]
    exact List.mem_of_find?_eq_some hf.found
  · have hplans : (rollbackStore m id version p).plans nodeID = m.plans nodeID := Function.update_of_ne hid ..
    exact h.current q (hplans ▸ hq)

theorem HistorySigned.step (host : Host) (nodeID : String) (c : Controller MemoryStore) (e : Env × Request)
    (h : HistorySigned host c.store nodeID) : HistorySigned host (Request.step host e c).store nodeID := by
  obtain ⟨env, r⟩ := e
  have hserved := served host env r c
  rw [Request.step]
  generalize serve host env r c = out at hserved
  cases hserved with
  | refused hr =>
    rw [hr.state]
    exact h
  | register ha hcode hout =>
    subst hout
    exact h.register env _ _
  | prepareKeeps => exact h
  | prepareWrites => exact h.congr rfl rfl
  | policy ha hcode hout =>
    subst hout
    exact h.congr rfl rfl
  | health => exact h.health env _ _
  | plan => exact h.savePlanWithRules env _ _ _
  | rollback hf => exact (h.rollback hf).congr rfl rfl
  | mismatch hf => exact h.rollback hf

theorem HistorySigned.start (host : Host) (nodeID : String) :
    HistorySigned host (start MemoryStore.new).store nodeID where
  signed _ hp := absurd hp List.not_mem_nil
  short := Nat.zero_le _
  current _ hp := by cases hp

-- ---------------------------------------------------------------------------
-- Listing and rolling back
-- ---------------------------------------------------------------------------

theorem planHistory_ok {m : MemoryStore} (h : (planHistory auth nodeID m).1 = .ok plans) :
    nodeID ≠ "" ∧ ∀ p ∈ plans, p ∈ m.history nodeID := by
  unfold planHistory at h
  split at h
  · exact absurd h (by simp)
  split at h
  · exact absurd h (by simp)
  next hid =>
    refine ⟨hid, fun p hp => ?_⟩
    obtain rfl : MemoryStore.limited 20 (m.history nodeID) = plans := Except.ok.inj h
    rw [MemoryStore.limited] at hp
    split at hp
    · exact hp
    · exact List.mem_of_mem_drop hp

theorem HistorySigned.rollbackServes {c : Controller MemoryStore} (h : HistorySigned host c.store nodeID) :
    RollbackServes host c nodeID := by
  intro env auth auth' plans hjwt hlist p hp
  obtain ⟨hid, hplans⟩ := planHistory_ok hlist
  have hfound : ((c.store.history nodeID).find? fun q => q.version = p.version).isSome := by
    rw [List.find?_isSome]
    exact ⟨p, hplans p hp, by simp⟩
  obtain ⟨q, hq⟩ := Option.isSome_iff_exists.mp hfound
  have hfinds : RollbackFinds c.store auth' (some (nodeID, p.version)) nodeID p.version q := ⟨hjwt, rfl, hid, hq⟩
  have hvalid : q.signatureValid host = true := (h.signed q (List.mem_of_find?_eq_some hq)).valid
  exact ⟨q, hfinds.version_eq, (rollback_accepted host env hfinds hvalid).1⟩

/-- In every state that requests lead to, the history of each node verifies, is
bounded and has the current plan, and every version it lists can be rolled back
to. -/
theorem history_rolls_back (host : Host) (es : List (Env × Request)) :
    Throughout (Request.step host) (fun c => ∀ nodeID, HistorySigned host c.store nodeID ∧
      RollbackServes host c nodeID) (start MemoryStore.new) es := by
  have hsigned : Throughout (Request.step host) (fun c => ∀ nodeID, HistorySigned host c.store nodeID)
      (PeerWan.start MemoryStore.new) es :=
    throughout_of_invariant (fun c e h nodeID => HistorySigned.step host nodeID c e (h nodeID))
      (HistorySigned.start host) es
  exact hsigned.mono fun c h nodeID => ⟨h nodeID, (h nodeID).rollbackServes⟩

end PeerWan
