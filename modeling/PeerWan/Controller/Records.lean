import PeerWan.Controller.Effects

/-!
# What requests do to node records

Three handlers write a node record: register builds it from the request and
what is stored, prepare builds it anew, and policy changes the policy fields.
Each writes one record, under its own ID, and no request removes any.
-/

namespace PeerWan

open Lib

inductive Writes (host : Host) (env : Env) (m : MemoryStore) : Request → Node → Prop
  | register (h : RegisterAccepted m auth body req)
      (hw : registerWrites (m.nodes.get? req.id) req = true) :
      Writes host env m (.register auth body) (m.upsertNode (registeredNode (m.nodes.get? req.id) req)).1
  | prepare {id priv : String} (h : PrepareWrites m env auth body id priv) :
      Writes host env m (.prepare auth httpAddr body) (m.upsertNode (prepareNode host env m id priv)).1
  | policy (h : PolicyAccepted m auth body req n) :
      Writes host env m (.policy auth body) (n.withPolicy req)

section

variable (host : Host) (env : Env) (c : Controller MemoryStore)

theorem recomputed_nodes (entry : AuditEntry) :
    (bumpPlanVersion (recomputeAllPlans host env 1 (c.audited entry)).2).store.nodes = c.store.nodes :=
  (recomputeAllPlans_aside host env 1 (c.audited entry)).nodes

theorem reported_nodes (report : HealthReport) (entry : AuditEntry) :
    ((bumpPlanVersion (healthSave host env report c)).audited entry).store.nodes = c.store.nodes :=
  (healthSave_aside host env report c).nodes

theorem served_nodes (r : Request) :
    (serve host env r c).2.store.nodes = c.store.nodes ∨
      ∃ a, Writes host env c.store r a ∧ (serve host env r c).2.store.nodes = c.store.nodes.put a := by
  have hserved := served host env r c
  generalize serve host env r c = out at hserved
  cases hserved with
  | refused h => exact .inl (by rw [h.state])
  | @register auth body req _ _ _ h hcode hout =>
    subst hout
    rw [recomputed_nodes, registerSave]
    by_cases hw : registerWrites (c.store.nodes.get? req.id) req = true
    · rw [if_pos hw]
      exact .inr ⟨_, .register h hw, rfl⟩
    · rw [if_neg hw]
      exact .inl rfl
  | prepareKeeps => exact .inl rfl
  | prepareWrites h => exact .inr ⟨_, .prepare h, rfl⟩
  | policy h hcode hout =>
    subst hout
    exact .inr ⟨_, .policy h, rfl⟩
  | health h => exact .inl (reported_nodes host env c _ _)
  | plan hid hauth => exact .inl (getPlanSave_aside host env c).nodes
  | rollback | mismatch => exact .inl rfl

theorem Writes.served {host : Host} {env : Env} {c : Controller MemoryStore} {r : Request} {a : Node}
    (h : Writes host env c.store r a) : (serve host env r c).2.store.nodes = c.store.nodes.put a := by
  cases h with
  | register h hw =>
    rw [serve, register_accepted host env h, registered_nodes, registerSave, if_pos hw]
    rfl
  | prepare h =>
    rw [serve, prepare_writes host env _ h]
    rfl
  | policy h =>
    rw [serve, (policy_accepted env h).2]
    rfl

theorem served_record (r : Request) (id : String) :
    (serve host env r c).2.store.nodes.get? id = c.store.nodes.get? id ∨
      ∃ a, Writes host env c.store r a ∧ a.id = id ∧ (serve host env r c).2.store.nodes.get? id = some a := by
  rcases served_nodes host env c r with h | ⟨a, ha, h⟩
  · exact .inl (by rw [h])
  · rw [h, Table.get?_put]
    by_cases hid : a.id = id
    · exact .inr ⟨a, ha, hid, if_pos hid⟩
    · exact .inl (if_neg hid)

end

end PeerWan
