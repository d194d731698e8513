import PeerWan.Lib.Runs
import PeerWan.Controller.Records

/-!
# Which requests change a node's policy

A stored policy should move only under `POST /policy`. The two handlers that
rebuild a record do not carry the policy over, so a run keeps every policy
exactly when it rebuilds no record that has one.
-/

namespace PeerWan

open Lib

def Request.IsPolicyFor (r : Request) (id : String) : Prop :=
  match r with
  | .policy _ (some req) => req.nodeID = id
  | _ => False

/-- Every stored record survives the request, and its policy fields with it
unless the request is a policy for it. -/
def PolicyKept (host : Host) (c : Controller MemoryStore) (e : Env × Request) : Prop :=
  ∀ id n, c.store.nodes.get? id = some n → e.2.IsPolicyFor id ∨
    ((Request.step host e c).store.nodes.get? id).map Node.policyFields = some n.policyFields

/-- The request builds the record anew in place of the stored record `n`. -/
def Rebuilds (c : Controller MemoryStore) (e : Env × Request) (n : Node) : Prop :=
  match e.2 with
  | .register auth body => ∃ req, RegisterAccepted c.store auth body req ∧
      c.store.nodes.get? req.id = some n ∧ registerWrites (some n) req = true
  | .prepare auth _ body => ∃ id priv, PrepareWrites c.store e.1 auth body id priv ∧
      c.store.nodes.get? id = some n
  | _ => False

def RebuildsNoPolicy (c : Controller MemoryStore) (e : Env × Request) : Prop :=
  ∀ n, Rebuilds c e n → n.policyFields = {}

section

variable {host : Host} {env : Env} {c : Controller MemoryStore} {r : Request} {a n : Node}

theorem policyKept_of_nodes (h : (Request.step host (env, r) c).store.nodes = c.store.nodes) :
    PolicyKept host c (env, r) := fun id n hn => .inr (by rw [h, hn]; rfl)

theorem policyKept_put (hr : ∀ id, ¬ r.IsPolicyFor id)
    (h : (Request.step host (env, r) c).store.nodes = c.store.nodes.put a) :
    PolicyKept host c (env, r) ↔ ∀ n, c.store.nodes.get? a.id = some n → n.policyFields = a.policyFields := by
  simp only [PolicyKept, hr, false_or, h, Table.get?_put]
  constructor
  · intro hk n hn
    have hp := hk a.id n hn
    rw [if_pos rfl, Option.map_some] at hp
    exact (Option.some.inj hp).symm
  · intro hk id n hn
    by_cases hid : a.id = id
    · subst hid
      rw [if_pos rfl, Option.map_some, hk n hn]
    · rw [if_neg hid, hn, Option.map_some]

theorem policyKept_policy (auth : Credentials) (body : Option PolicyRequest) :
    PolicyKept host c (env, .policy auth body) := by
  rcases served_nodes host env c (.policy auth body) with hsame | ⟨a, ha, hput⟩
  · exact policyKept_of_nodes hsame
  · intro id n hn
    by_cases hid : a.id = id
    · -- it writes under the ID that it names
      cases ha with
      | policy h =>
        obtain ⟨sent, rfl, rfl⟩ := h.body
        exact .inl ((Table.key_of_get? h.node).symm.trans hid)
    · rw [Request.step, hput, Table.get?_put, if_neg hid, hn]
      exact .inr rfl

theorem Rebuilds.writes (host : Host) (h : Rebuilds c (env, r) n) : ∃ a, Writes host env c.store r a := by
  cases r with
  | register auth body =>
    obtain ⟨req, hreq, hn, hw⟩ := h
    exact ⟨_, .register hreq (hn ▸ hw)⟩
  | prepare auth httpAddr body =>
    obtain ⟨id, priv, hwrites, -⟩ := h
    exact ⟨_, .prepare hwrites⟩
  | _ => exact h.elim

/-- What is not written by a policy is built anew, over what has its ID. -/
theorem Writes.rebuilds (h : Writes host env c.store r a) (hr : ∀ id, ¬ r.IsPolicyFor id) :
    a.policyFields = {} ∧ ∀ n, Rebuilds c (env, r) n ↔ c.store.nodes.get? a.id = some n := by
  cases h with
  | @register auth body req h hw =>
    refine ⟨registeredNode_policyFields .., fun n => ?_⟩
    have hid : (registeredNode (c.store.nodes.get? req.id) req).id = req.id := registeredNode_id ..
    show (∃ req, _) ↔ c.store.nodes.get? (registeredNode (c.store.nodes.get? req.id) req).id = some n
    rw [hid]
    constructor
    · rintro ⟨req', h', hn, -⟩
      obtain rfl := h.unique h'
      exact hn
    · intro hn
      exact ⟨req, h, hn, hn ▸ hw⟩
  | @prepare auth body httpAddr id priv h =>
    refine ⟨rfl, fun n => ⟨?_, fun hn => ⟨id, priv, h, hn⟩⟩⟩
    rintro ⟨id', priv', h', hn⟩
    obtain ⟨rfl, rfl⟩ := h.unique h'
    exact hn
  | policy h =>
    obtain ⟨sent, rfl, -⟩ := h.body
    exact absurd rfl (hr sent.nodeID)

theorem policyKept_iff_of_no_policy (hr : ∀ id, ¬ r.IsPolicyFor id) :
    PolicyKept host c (env, r) ↔ RebuildsNoPolicy c (env, r) := by
  by_cases h : ∃ a, Writes host env c.store r a
  · obtain ⟨a, ha⟩ := h
    obtain ⟨hfields, hrebuilds⟩ := ha.rebuilds hr
    rw [policyKept_put hr ha.served]
    simp only [RebuildsNoPolicy, hrebuilds, hfields]
  · have hsame := (served_nodes host env c r).resolve_right fun hw => h (hw.imp fun _ => And.left)
    exact iff_of_true (policyKept_of_nodes hsame) fun n hn => absurd (hn.writes host) h

theorem policyKept_iff (e : Env × Request) : PolicyKept host c e ↔ RebuildsNoPolicy c e := by
  obtain ⟨env, r⟩ := e
  cases r with
  | policy auth body => exact iff_of_true (policyKept_policy auth body) fun _ h => h.elim
  | _ => exact policyKept_iff_of_no_policy fun _ h => h.elim

end

/-- A run keeps every policy outside `POST /policy` exactly when no record it
rebuilds has one. -/
theorem policy_kept_along_iff (host : Host) (c : Controller MemoryStore) (es : List (Env × Request)) :
    Along (Request.step host) (PolicyKept host) c es ↔
      Along (Request.step host) RebuildsNoPolicy c es :=
  along_congr (fun _ e => policyKept_iff e) c es

def samplePolicyRun : List (Env × Request) :=
  [({}, .register { jwt := true } (some { id := "a", publicKey := "ka", cidrs := ["10.0.0.0/24"] })),
   ({}, .policy { jwt := true } (some { nodeID := "a", egressPeer := "b", defaultRoute := true })),
   ({}, .register { jwt := true } (some { id := "a", endpoints := ["203.0.113.7:8082"] }))]

theorem register_drops_policy :
    ¬ Along (Request.step Host.sample) (PolicyKept Host.sample) (start MemoryStore.new) samplePolicyRun := by
  rintro ⟨-, -, h, -⟩
  rcases h "a" _ rfl with h | h
  · exact h
  · exact absurd h (by decide)

end PeerWan
