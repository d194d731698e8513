import PeerWan.Agent.Threads

/-!
# A controller and an agent

One node's agent on the WebSocket of the controller. What the controller hands
to the hub for the node is delivered in order, and each message starts a
handler that moves when it likes.

A policy post sends a task and no plan. The task's handler renders the plan it
finds cached over the record it finds cached, so what its success speaks of is
what earlier plans have brought.
-/

namespace PeerWan

open Lib

variable {σ : Type} [NodeStore σ]

-- ---------------------------------------------------------------------------
-- Steps
-- ---------------------------------------------------------------------------

/-- An event of the controller, and what it met. -/
structure Moment (σ : Type) where
  before : Controller σ
  env : Env
  event : Event

def Moment.after (host : Host) (m : Moment σ) : Controller σ := Event.step host (m.env, m.event) m.before

/-- The events whose plans a record has its policy from, and its rules. -/
structure Lineage where
  policy : List Nat := []
  rules : List Nat := []

def PolicyFields.withoutRules (f : PolicyFields) : PolicyFields := { f with policyRules := [] }

def NodeConfigResponse.policyFields (cfg : NodeConfigResponse) : PolicyFields where
  egressPeerID := cfg.egressPeerID
  policyRules := cfg.policyRules
  defaultRoute := cfg.defaultRoute
  bypassCIDRs := cfg.bypassCIDRs
  defaultRouteNextHop := cfg.defaultRouteNextHop

/-- Merged into a record, the plan's policy is in its place: what the plan leaves
empty the record has empty too. -/
def NodeConfigResponse.SetsPolicy (cfg : NodeConfigResponse) (base : Node) : Prop :=
  (cfg.egressPeerID = "" → base.egressPeerID = "") ∧ (cfg.bypassCIDRs = [] → base.bypassCIDRs = []) ∧
    (cfg.defaultRouteNextHop = "" → base.defaultRouteNextHop = "")

def NodeConfigResponse.LeavesPolicy (cfg : NodeConfigResponse) (base : Node) : Prop :=
  (cfg.egressPeerID = "" ∨ cfg.egressPeerID = base.egressPeerID) ∧
    (cfg.bypassCIDRs = [] ∨ cfg.bypassCIDRs = base.bypassCIDRs) ∧
    (cfg.defaultRouteNextHop = "" ∨ cfg.defaultRouteNextHop = base.defaultRouteNextHop) ∧
    cfg.defaultRoute = base.defaultRoute

instance decidableSetsPolicy (cfg : NodeConfigResponse) (base : Node) : Decidable (cfg.SetsPolicy base) :=
  inferInstanceAs (Decidable (_ ∧ _))

instance decidableLeavesPolicy (cfg : NodeConfigResponse) (base : Node) : Decidable (cfg.LeavesPolicy base) :=
  inferInstanceAs (Decidable (_ ∧ _))

/-- The lineage of a record after a plan of the event `origin` is merged into it. -/
def Lineage.merge (origin : Option Nat) (cfg : NodeConfigResponse) (base : Node) (l : Lineage) : Lineage where
  policy := (if cfg.LeavesPolicy base then l.policy else []) ++ if cfg.SetsPolicy base then origin.toList else []
  rules := (if cfg.policyRules = [] then l.rules else []) ++
    if cfg.policyRules = [] → base.policyRules = [] then origin.toList else []

/-- No code reads `history`, which has a moment for every event of the controller,
nor the lineage of the cached record and of the records that the handlers hold. -/
structure System (σ : Type) where
  controller : Controller σ
  history : List (Moment σ)
  /-- What is on its way to the node, in order, and the event that sent it. -/
  wire : List (Job × Option Nat)
  agent : Runtime
  lineage : Lineage := {}
  held : Nat → Lineage := fun _ => {}

inductive SystemEvent where
  | controller (env : Env) (e : Event)
  | operator (job : Job)
  | deliver
  /-- The connection breaks before the next message is through. -/
  | lose
  | act (a : Act)

/-- The event is a policy post for the node, and stores the policy. -/
def Event.posts (env : Env) (nodeID : String) (e : Event) (c : Controller σ) : Bool :=
  match e with
  | .request (.policy auth (some req)) =>
    req.nodeID = nodeID && (PeerWan.policy env auth (some req) c).1.code = 200
  | _ => false

def WSMessage.job (m : WSMessage) : Job :=
  match m.payload with
  | .plan cfg => .plan cfg
  | .task taskID type => .task taskID type

/-- What the controller has handed to the hub for the node since it was `old`. -/
def sentSince (nodeID : String) (old c : Controller σ) : List Job :=
  ((c.sent.drop old.sent.length).filter (·.nodeID = nodeID)).map (·.job)

/-- What the cached record is drawn from once the handler has updated it, given the
lineage of the record that it holds. -/
def Thread.passes (t : Thread) (l : Lineage) : Lineage :=
  match t.job, t.phase with
  | .plan _, .based cfg base => l.merge t.origin cfg base
  | .task .., _ => l
  | _, _ => {}

def System.lineageAfter (s : System σ) : Act → Lineage
  | .update i => (s.agent.threads[i]?.map fun t => t.passes (s.held i)).getD s.lineage
  | _ => s.lineage

def System.heldAfter (s : System σ) : Act → Nat → Lineage
  | .read i => Function.update s.held i s.lineage
  | _ => s.held

def System.step (host : Host) (ctx : WsCtx) (nodeID : String) (e : SystemEvent) (s : System σ) : System σ :=
  match e with
  | .controller env e =>
    let c := Event.step host (env, e) s.controller
    { s with
      controller := c
      history := s.history ++ [{ before := s.controller, env := env, event := e }]
      wire := s.wire ++ (sentSince nodeID s.controller c).map fun job => (job, some s.history.length) }
  | .operator job => { s with wire := s.wire ++ [(job, none)] }
  | .deliver =>
    match s.wire with
    | [] => s
    | (job, origin) :: wire =>
      { s with
        wire := wire
        agent := { s.agent with threads := s.agent.threads ++ [{ job := job, origin := origin }] } }
  | .lose => { s with wire := s.wire.tail }
  | .act a =>
    match a.step ctx s.agent with
    | none => s
    | some r => { s with agent := r, lineage := s.lineageAfter a, held := s.heldAfter a }

def System.start (flags : Flags) (reg : NodeConfigResponse) (c : Controller σ) : System σ where
  controller := c
  history := []
  wire := []
  agent := { latestNode := bootNode flags reg }

-- ---------------------------------------------------------------------------
-- What a policy task succeeds with
-- ---------------------------------------------------------------------------

def Moment.Posted (nodeID : String) (m : Moment σ) : Prop := m.event.posts m.env nodeID m.before = true

instance decidablePosted (nodeID : String) (m : Moment σ) : Decidable (m.Posted nodeID) :=
  inferInstanceAs (Decidable (_ = true))

/-- The handler of the task that the policy post at moment `k` created. -/
def System.policyTask (nodeID : String) (s : System σ) (t : Thread) (k : Nat) : Prop :=
  (∃ taskID type, t.job = .task taskID type) ∧ t.origin = some k ∧ ∃ m, s.history[k]? = some m ∧ m.Posted nodeID

/-- The fields are what a policy post stored, at moment `k` or later, and the
rules are what a listing expands to, at that moment or later. -/
def System.Current (host : Host) (nodeID : String) (s : System σ) (k : Nat) (f : PolicyFields) : Prop :=
  (∃ j ≥ k, ∃ m, s.history[j]? = some m ∧ m.Posted nodeID ∧
    ∃ n, (NodeStore.getNode nodeID (m.after host).store).1 = .ok (some n) ∧
      f.withoutRules = n.policyFields.withoutRules) ∧
  ∃ j ≥ k, ∃ m, s.history[j]? = some m ∧
    ∃ order nodes, (NodeStore.listNodes order (m.after host).store).1 = .ok nodes ∧
      f.policyRules = expandPolicyRules nodes nodeID

/-- Judges the step that sends `apply`/`success` for a policy task by the plan
that its handler rendered, and the record that it rendered over. -/
def System.OnSuccess (nodeID : String) (P : System σ → Nat → Nat → NodeConfigResponse → Node → Prop)
    (s : System σ) (e : SystemEvent) : Prop :=
  ∀ i t k cfg base, e = .act (.finish i true) → s.agent.threads[i]? = some t →
    t.phase = .written cfg base → s.policyTask nodeID t k → P s i k cfg base

def System.SuccessCurrent (host : Host) (ctx : WsCtx) (nodeID : String) : System σ → SystemEvent → Prop :=
  OnSuccess nodeID fun s _ k cfg base => s.Current host nodeID k (renderCall ctx base cfg).node.policyFields

-- ---------------------------------------------------------------------------
-- A task renders the cached policy
-- ---------------------------------------------------------------------------

/-- Merging the plan leaves the policy of the record as it is. -/
def Settled (asn : Int) (cfg : NodeConfigResponse) (base : Node) : Prop :=
  (absorb asn cfg base).policyFields = base.policyFields

theorem policyFields_of_enforced {a b : Node} (h : a.enforced = b.enforced) : a.policyFields = b.policyFields := by
  obtain ⟨hegress, hrules, hbypass, hroute, hnext, -⟩ := Enforced.ext_iff.mp h
  simp only [Node.policyFields]
  simp only [Node.enforced] at hegress hrules hbypass hroute hnext
  rw [hegress, hrules, hbypass, hroute, hnext]

theorem settled_absorb (asn : Int) (cfg : NodeConfigResponse) (base : Node) :
    Settled asn cfg (absorb asn cfg base) :=
  policyFields_of_enforced (by simp only [absorb_enforced, Enforced.offer_offer])

def TaskSettled (asn : Int) (t : Thread) : Prop :=
  ∀ taskID type, t.job = .task taskID type → ∀ x ∈ t.phase.held, Settled asn x.1 x.2

/-- The cached record has taken the cached plan, and so has the record of every
task's handler the plan it holds. -/
structure Settles (asn : Int) (r : Runtime) : Prop where
  cached : Settled asn r.latestCfg r.latestNode
  tasks : EachThread (fun _ t => TaskSettled asn t) r.threads

theorem Settles.advance {asn : Int} {r : Runtime} (h : Settles asn r) (hp : r.phase i = some p)
    (hheld : ∀ x ∈ q.held, x ∈ p.held) : EachThread (fun _ t => TaskSettled asn t) (r.advance i q).threads :=
  h.tasks.advance fun _ ht hsettled taskID type hjob x hx =>
    hsettled taskID type hjob x (Runtime.phase_eq hp ht ▸ hheld x hx)

theorem Settles.act {ctx : WsCtx} {a : Act} {r r' : Runtime} (hm : Moved ctx r a r')
    (h : Settles ctx.asn r) : Settles ctx.asn r' := by
  cases hm with
  | read ht hready =>
    refine ⟨h.cached, h.tasks.advance fun u hu _ taskID type hjob x hx => ?_⟩
    rw [Option.some.inj (ht.symm.trans hu), hjob, Job.read] at hx
    split at hx
    · cases hx
      exact h.cached
    · cases hx
  | update hbased => exact ⟨settled_absorb _ _ _, h.advance hbased fun _ hx => hx⟩
  | write hmerged => exact ⟨h.cached, h.advance hmerged fun _ hx => hx⟩
  | writeFails hmerged => exact ⟨h.cached, h.advance hmerged fun _ hx => by cases hx⟩
  | finish hwritten => exact ⟨h.cached, h.advance hwritten fun _ hx => by cases hx⟩
  | healRead | healSkips | healWrite | healFails => exact ⟨h.cached, h.tasks⟩

theorem Settles.step {host : Host} {ctx : WsCtx} {nodeID : String} (s : System σ) (e : SystemEvent)
    (h : Settles ctx.asn s.agent) : Settles ctx.asn (System.step host ctx nodeID e s).agent := by
  cases e with
  | controller | operator | lose => exact h
  | deliver =>
    simp only [System.step]
    split
    · exact h
    next => exact ⟨h.cached, h.tasks.concat fun _ _ _ x hx => by cases hx⟩
  | act a =>
    rw [System.step]
    cases ha : a.step ctx s.agent with
    | none => exact h
    | some r => exact h.act (moved ha)

omit [NodeStore σ] in
theorem Settles.start (flags : Flags) (reg : NodeConfigResponse) (c : Controller σ) :
    Settles (bootCtx flags reg).asn (System.start flags reg c).agent :=
  ⟨rfl, fun _ _ ht => by cases ht⟩

end PeerWan
