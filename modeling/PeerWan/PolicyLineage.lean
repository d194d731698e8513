import PeerWan.PolicyFrame
import PeerWan.Producers
import PeerWan.System

/-!
# Where an agent's policy comes from

A policy task brings no plan, so its success can speak of the posted policy only
where an earlier plan has brought that policy. A plan of a recomputation or of
`GET /plan` carries the stored record, which has the policy that was posted last
unless it has been built anew since; a plan of a health report carries none. And
a plan that is merged may leave the record what it had, so a record is traced
back to the events whose plans gave it its policy and its rules.
-/

namespace PeerWan

open Lib

-- ---------------------------------------------------------------------------
-- The condition
-- ---------------------------------------------------------------------------

def Moment.Reports {σ : Type} (m : Moment σ) : Prop := ∃ auth body, m.event = .request (.health auth body)

/-- The event does not take the node's policy out of its record: it is no restart,
and what it builds anew had no policy. -/
def Moment.LeavesRecord (nodeID : String) (m : Moment MemoryStore) : Prop :=
  match m.event with
  | .request r => ∀ n, n.id = nodeID → Rebuilds m.before (m.env, r) n → n.policyFields = {}
  | .tick | .watch => True
  | .restart => False

/-- The policy is drawn from the record as it stood at an event since the post `k`
that is no health report, and up to which the record has not been built anew; the
rules are drawn from an event since the post. -/
structure System.DrawnSince (nodeID : String) (s : System MemoryStore) (k : Nat) (l : Lineage) : Prop where
  policy : ∃ j ∈ l.policy, k ≤ j ∧ (∀ m, s.history[j]? = some m → ¬ m.Reports) ∧
    ∀ (i : Nat) m, k < i → i ≤ j → s.history[i]? = some m → m.LeavesRecord nodeID
  rules : ∃ j ∈ l.rules, k ≤ j

/-- The handler that succeeds has read a record that is drawn from events since
the post. -/
def System.ReadsSince (nodeID : String) : System MemoryStore → SystemEvent → Prop :=
  OnSuccess nodeID fun s i k _ _ => s.DrawnSince nodeID k (s.held i)

-- ---------------------------------------------------------------------------
-- What a plan carries
-- ---------------------------------------------------------------------------

/-- The policy is that of the node's record after the event, unless that is a health report. -/
def PolicyAt (host : Host) (nodeID : String) (history : List (Moment MemoryStore)) (j : Nat) (f : PolicyFields) :
    Prop :=
  ∃ m, history[j]? = some m ∧ (¬ m.Reports → ∃ n, (m.after host).store.nodes.get? nodeID = some n ∧
    f.withoutRules = n.policyFields.withoutRules)

def RulesAt (host : Host) (nodeID : String) (history : List (Moment MemoryStore)) (j : Nat) (f : PolicyFields) :
    Prop :=
  ∃ m, history[j]? = some m ∧ ∃ o, f.policyRules = expandPolicyRules ((m.after host).store.nodes.range o) nodeID

def PushContent.policyFields (p : PushContent) : PolicyFields where
  egressPeerID := p.plan.egressPeerID
  policyRules := p.plan.policyRules
  defaultRoute := p.plan.defaultRoute
  bypassCIDRs := p.plan.bypassCIDRs
  defaultRouteNextHop := p.plan.defaultRouteNextHop

/-- What is pushed to the node between two states carries its record in the second,
or, where `bare`, may carry no record, and has the rules of the second. -/
def PushesRecord (nodeID : String) (bare : Prop) (c c' : Controller MemoryStore) : Prop :=
  ∀ p ∈ pushesAdded c c', p.1 = nodeID →
    (¬ bare → ∃ n, c'.store.nodes.get? nodeID = some n ∧
      p.2.policyFields.withoutRules = n.policyFields.withoutRules) ∧
    ∃ o, p.2.policyFields.policyRules = expandPolicyRules (c'.store.nodes.range o) nodeID

section

variable {host : Host} {env : Env} {nodeID : String} {c c' : Controller MemoryStore}

theorem PushesRecord.of_nothing {bare : Prop} (hsent : c'.sent = c.sent) : PushesRecord nodeID bare c c' := by
  intro p hp
  rw [pushesAdded, hsent, List.drop_length] at hp
  cases hp

theorem pushesRecord_recomputed (k : Nat) (bare : Prop) :
    PushesRecord nodeID bare c (recomputeAllPlans host env k c).2 := by
  rw [recomputeAllPlans_eq]
  dsimp only
  obtain ⟨-, -, hpushed⟩ := savePlans_adds host env (c.store.nodes.range (env.nodeOrder k)) c.store.health
    (c.store.nodes.range (env.nodeOrder k)) c
  have hnodes := (savePlans_aside host env (c.store.nodes.range (env.nodeOrder k)) c.store.health
    (c.store.nodes.range (env.nodeOrder k)) c).nodes
  intro p hp hid
  rw [hpushed] at hp
  obtain ⟨n, hn, rfl⟩ := List.mem_map.mp hp
  obtain rfl : n.id = nodeID := hid
  rw [hnodes]
  exact ⟨fun _ => ⟨n, Table.get?_eq_some.mpr ⟨Table.mem_range.mp hn, rfl⟩, rfl⟩, _, rfl⟩

theorem pushesRecord_plan {auth : Credentials} {id : String} (hnode : nodeID ≠ "") (bare : Prop) (hid : id ≠ "")
    (hauth : Admits c.store auth id) : PushesRecord nodeID bare c (getPlan host env auth id c).2 := by
  intro p hp hpid
  rw [(getPlan_adds host rfl hid hauth).2, List.mem_singleton] at hp
  subst hp
  have hnodes : (getPlan host env auth id c).2.store.nodes = c.store.nodes := by
    rw [getPlan_accepted host env hid hauth]
    exact (getPlanSave_aside host env c).nodes
  rw [hnodes]
  -- a plan for the zero node goes to nobody
  cases hn : c.store.nodes.get? id with
  | none =>
    rw [hn] at hpid
    exact absurd hpid.symm hnode
  | some n =>
    rw [hn] at hpid
    obtain rfl : n.id = nodeID := hpid
    obtain rfl : n.id = id := Table.key_of_get? hn
    exact ⟨fun _ => ⟨n, hn, rfl⟩, _, rfl⟩

theorem pushesRecord_health {auth : Credentials} {report : HealthReport} (hid : report.nodeID ≠ "")
    (hauth : Admits c.store auth report.nodeID) :
    PushesRecord nodeID True c (health host env auth (some report) c).2 := by
  intro p hp hpid
  rw [(health_adds host rfl hid hauth).2, List.mem_singleton] at hp
  subst hp
  obtain rfl : report.nodeID = nodeID := hpid
  have hnodes : (health host env auth (some report) c).2.store.nodes = c.store.nodes := by
    have hacc : HealthAccepted c.store env auth (some report) { report with timestamp := env.now } :=
      ⟨⟨report, rfl, rfl⟩, hid, hauth⟩
    obtain ⟨-, entry, heq⟩ := health_accepted host env hacc
    rw [heq]
    exact reported_nodes host env c _ entry
  rw [hnodes]
  exact ⟨fun hbare => absurd trivial hbare, _, rfl⟩

theorem pushesRecord_serve (hnode : nodeID ≠ "") (r : Request) :
    PushesRecord nodeID (∃ auth body, r = .health auth body) c (serve host env r c).2 := by
  have hserved := served host env r c
  generalize hout : serve host env r c = out at hserved
  cases hserved with
  | refused h => exact .of_nothing (by rw [h.state])
  | @register auth body req resp entry c' h hcode heq =>
    subst heq
    exact pushesRecord_recomputed (c := Controller.audited { c with store := (registerSave c.store req).2 } entry) 1 _
  | prepareKeeps => exact .of_nothing rfl
  | prepareWrites => exact .of_nothing rfl
  | policy h hcode heq =>
    subst heq
    intro p hp
    simp [pushesAdded, policyTaskMessage, WSMessage.pushed] at hp
  | @health auth body report resp entry h =>
    obtain ⟨sent, rfl, rfl⟩ := h.body
    have hpushes : PushesRecord nodeID True c (serve host env (.health auth (some sent)) c).2 :=
      pushesRecord_health h.named h.auth
    rw [hout] at hpushes
    intro p hp hid
    exact ⟨fun hbare => absurd ⟨auth, some sent, rfl⟩ hbare, (hpushes p hp hid).2⟩
  | @plan id auth hid hauth =>
    have hpushes : PushesRecord nodeID (∃ auth' body, Request.plan auth id = .health auth' body) c
        (serve host env (.plan auth id) c).2 := pushesRecord_plan hnode _ hid hauth
    rw [hout] at hpushes
    exact hpushes
  | rollback => exact .of_nothing rfl
  | mismatch => exact .of_nothing rfl

theorem pushesRecord_step (hnode : nodeID ≠ "") (e : Event) :
    PushesRecord nodeID (∃ auth body, e = .request (.health auth body)) c (Event.step host (env, e) c) := by
  cases e with
  | tick => exact pushesRecord_recomputed 1 _
  | watch => exact pushesRecord_recomputed (c := c) 1 _
  | restart => exact .of_nothing rfl
  | request r =>
    intro p hp hid
    obtain ⟨hrecord, hrules⟩ := pushesRecord_serve hnode r p hp hid
    refine ⟨fun hbare => hrecord ?_, hrules⟩
    rintro ⟨auth, body, rfl⟩
    exact hbare ⟨auth, body, rfl⟩

theorem drawn_of_sent {cfg : NodeConfigResponse} {history : List (Moment MemoryStore)} {e : Event}
    (hnode : nodeID ≠ "") (h : .plan cfg ∈ sentSince nodeID c (Event.step host (env, e) c)) :
    PolicyAt host nodeID (history ++ [⟨c, env, e⟩]) history.length cfg.policyFields ∧
      RulesAt host nodeID (history ++ [⟨c, env, e⟩]) history.length cfg.policyFields := by
  obtain ⟨msg, hmsg, hjob⟩ := List.mem_map.mp h
  obtain ⟨hsent, hid⟩ := List.mem_filter.mp hmsg
  have hpushed : msg.pushed = some (nodeID, cfg.pushContent) := by
    rw [WSMessage.pushed]
    rw [WSMessage.job] at hjob
    cases hpayload : msg.payload with
    | plan sent =>
      rw [hpayload] at hjob
      obtain rfl := Job.plan.inj hjob
      rw [of_decide_eq_true hid]
    | task taskID type =>
      rw [hpayload] at hjob
      cases hjob
  obtain ⟨hrecord, hrules⟩ := pushesRecord_step hnode e _ (List.mem_filterMap.mpr ⟨msg, hsent, hpushed⟩) rfl
  exact ⟨⟨_, List.getElem?_concat_length, hrecord⟩, _, List.getElem?_concat_length, hrules⟩

end

-- ---------------------------------------------------------------------------
-- The record since the post
-- ---------------------------------------------------------------------------

section

variable {host : Host} {nodeID : String} {m : Moment MemoryStore} {n : Node}

theorem Moment.Posted.accepted (h : m.Posted nodeID) : ∃ auth sent n, m.event = .request (.policy auth (some sent)) ∧
    sent.nodeID = nodeID ∧ PolicyAccepted m.before.store auth (some sent) sent.normalize n := by
  unfold Moment.Posted Event.posts at h
  split at h
  next auth sent hevent =>
    simp only [Bool.and_eq_true, decide_eq_true_eq] at h
    obtain ⟨hid, hcode⟩ := h
    by_contra hno
    refine (policy_refused m.env fun req n hacc => hno ?_).code hcode
    obtain ⟨sent', hsent, rfl⟩ := hacc.body
    obtain rfl := Option.some.inj hsent
    exact ⟨auth, sent, n, hevent, hid, hacc⟩
  next => cases h

theorem Moment.Posted.record (h : m.Posted nodeID) :
    ∃ n, (m.after host).store.nodes.get? nodeID = some n := by
  obtain ⟨auth, sent, n, hevent, hid, hacc⟩ := h.accepted
  have hafter : (m.after host).store.nodes = m.before.store.nodes.put (n.withPolicy sent.normalize) := by
    rw [Moment.after, hevent]
    have hwrites : Writes host m.env m.before.store (.policy auth (some sent)) (n.withPolicy sent.normalize) :=
      .policy hacc
    exact hwrites.served
  have hnode : (n.withPolicy sent.normalize).id = nodeID := by
    have hkey : n.id = sent.nodeID := Table.key_of_get? hacc.node
    exact hkey.trans hid
  exact ⟨n.withPolicy sent.normalize, by rw [hafter, Table.get?_put, if_pos hnode]⟩

theorem posted_of_accepted {auth : Credentials} {body : Option PolicyRequest} {req : PolicyRequest}
    (hevent : m.event = .request (.policy auth body)) (hacc : PolicyAccepted m.before.store auth body req n) :
    m.Posted req.nodeID := by
  obtain ⟨sent, rfl, rfl⟩ := hacc.body
  unfold Moment.Posted Event.posts
  rw [hevent]
  simp [(policy_accepted m.env hacc).1]

theorem Moment.LeavesRecord.record (h : m.LeavesRecord nodeID) (hpost : ¬ m.Posted nodeID)
    (hn : m.before.store.nodes.get? nodeID = some n) :
    ∃ n', (m.after host).store.nodes.get? nodeID = some n' ∧ n'.policyFields = n.policyFields := by
  obtain ⟨c, env, e⟩ := m
  cases e with
  | tick => exact ⟨n, by rw [Moment.after, Event.step, (recomputeAllPlans_aside host env 1 c).nodes, hn], rfl⟩
  | watch =>
    have hnodes : (Event.step host (env, .watch) c).store.nodes = c.store.nodes :=
      (recomputeAllPlans_aside host env 1 c).nodes
    exact ⟨n, by rw [Moment.after, hnodes, hn], rfl⟩
  | restart => exact h.elim
  | request r =>
    rcases served_record host env c r nodeID with hsame | ⟨a, ha, rfl, hwritten⟩
    · exact ⟨n, hsame.trans hn, rfl⟩
    · refine ⟨a, hwritten, ?_⟩
      by_cases hpolicy : ∃ id, r.IsPolicyFor id
      · -- a policy post that writes the record is one for the node
        cases ha with
        | @policy auth body req n' hacc =>
          have hkey : n'.id = req.nodeID := Table.key_of_get? hacc.node
          have hnode : (n'.withPolicy req).id = req.nodeID := hkey
          exact absurd (hnode ▸ posted_of_accepted rfl hacc) hpost
        | register => exact hpolicy.elim fun _ hid => hid.elim
        | prepare => exact hpolicy.elim fun _ hid => hid.elim
      · obtain ⟨hfields, hrebuilds⟩ := ha.rebuilds fun id hid => hpolicy ⟨id, hid⟩
        rw [hfields, h n (Table.key_of_get? hn) ((hrebuilds n).mpr hn)]

/-- The moments follow one upon the other, up to the controller as it is. -/
structure System.Chronicle (host : Host) (s : System MemoryStore) : Prop where
  linked : ∀ (i : Nat) m m', s.history[i]? = some m → s.history[i + 1]? = some m' → m'.before = m.after host
  last : ∀ m, s.history[s.history.length - 1]? = some m → s.controller = m.after host

theorem System.Chronicle.congr {s s' : System MemoryStore} (h : s.Chronicle host) (hhistory : s'.history = s.history)
    (hcontroller : s'.controller = s.controller) : s'.Chronicle host where
  linked := hhistory ▸ h.linked
  last := hhistory ▸ hcontroller ▸ h.last

theorem System.Chronicle.record {s : System MemoryStore} (h : s.Chronicle host) {k j : Nat} (hkj : k ≤ j)
    (hk : ∃ m, s.history[k]? = some m ∧ m.Posted nodeID) (hj : j < s.history.length)
    (hleaves : ∀ (i : Nat) m, k < i → i ≤ j → s.history[i]? = some m → m.LeavesRecord nodeID) :
    ∃ m n, s.history[j]? = some m ∧ (m.after host).store.nodes.get? nodeID = some n ∧
      ∃ p ≥ k, ∃ mp, s.history[p]? = some mp ∧ mp.Posted nodeID ∧
        ∃ np, (mp.after host).store.nodes.get? nodeID = some np ∧ n.policyFields = np.policyFields := by
  induction j, hkj using Nat.le_induction with
  | base =>
    obtain ⟨m, hm, hposted⟩ := hk
    obtain ⟨n, hn⟩ := hposted.record
    exact ⟨m, n, hm, hn, k, le_refl k, m, hm, hposted, n, hn, rfl⟩
  | succ j hkj ih =>
    obtain ⟨m, n, hm, hn, p, hp, mp, hmp, hposted, np, hnp, hfields⟩ :=
      ih (Nat.lt_of_succ_lt hj) fun i m hi hij => hleaves i m hi (Nat.le_succ_of_le hij)
    obtain ⟨m', hm'⟩ : ∃ m', s.history[j + 1]? = some m' := ⟨_, List.getElem?_eq_getElem hj⟩
    by_cases hpost : m'.Posted nodeID
    · obtain ⟨n', hn'⟩ := hpost.record
      exact ⟨m', n', hm', hn', j + 1, Nat.le_succ_of_le hkj, m', hm', hpost, n', hn', rfl⟩
    · have hbefore : m'.before.store.nodes.get? nodeID = some n := by
        rw [h.linked j m m' hm hm', hn]
      obtain ⟨n', hn', hkept⟩ := (hleaves (j + 1) m' (Nat.lt_succ_of_le hkj) (le_refl _) hm').record hpost hbefore
      exact ⟨m', n', hm', hn', p, hp, mp, hmp, hposted, np, hnp, hkept.trans hfields⟩

end

-- ---------------------------------------------------------------------------
-- The lineage of a record
-- ---------------------------------------------------------------------------

section

variable {host : Host} {ctx : WsCtx} {nodeID : String} {cfg : NodeConfigResponse} {base : Node} {asn : Int}

theorem NodeConfigResponse.LeavesPolicy.absorb (h : cfg.LeavesPolicy base) :
    (absorb asn cfg base).policyFields.withoutRules = base.policyFields.withoutRules := by
  obtain ⟨hegress, hbypass, hnext, hroute⟩ := h
  have hempty {α : Type} [DecidableEq α] {x old d : α} (hx : x = d ∨ x = old) : (if x ≠ d then x else old) = old := by
    split
    next hne => exact hx.resolve_left hne
    next => rfl
  simp only [PeerWan.absorb, mergePlanIntoNode, Node.policyFields, PolicyFields.withoutRules, hempty hegress,
    hempty hbypass, hempty hnext, hroute]

theorem NodeConfigResponse.SetsPolicy.absorb (h : cfg.SetsPolicy base) :
    (absorb asn cfg base).policyFields.withoutRules = cfg.policyFields.withoutRules := by
  obtain ⟨hegress, hbypass, hnext⟩ := h
  have hset {α : Type} [DecidableEq α] {x old d : α} (hx : x = d → old = d) : (if x ≠ d then x else old) = x := by
    split
    next => rfl
    next heq => rw [not_not.mp heq, hx (not_not.mp heq)]
  simp only [PeerWan.absorb, mergePlanIntoNode, Node.policyFields, NodeConfigResponse.policyFields,
    PolicyFields.withoutRules, hset hegress, hset hbypass, hset hnext]

theorem absorb_policyRules (h : cfg.policyRules = [] → base.policyRules = []) :
    (absorb asn cfg base).policyFields.policyRules = cfg.policyFields.policyRules := by
  show (if cfg.policyRules ≠ [] then cfg.policyRules else base.policyRules) = cfg.policyRules
  split
  next => rfl
  next heq => rw [not_not.mp heq, h (not_not.mp heq)]

/-- A record of which every event of the lineage is a source. -/
structure DrawnFrom (host : Host) (nodeID : String) (history : List (Moment MemoryStore)) (l : Lineage)
    (f : PolicyFields) : Prop where
  policy : ∀ j ∈ l.policy, PolicyAt host nodeID history j f
  rules : ∀ j ∈ l.rules, RulesAt host nodeID history j f

theorem drawnFrom_nothing (history : List (Moment MemoryStore)) (f : PolicyFields) :
    DrawnFrom host nodeID history {} f :=
  ⟨fun _ hj => absurd hj List.not_mem_nil, fun _ hj => absurd hj List.not_mem_nil⟩

variable {history : List (Moment MemoryStore)} {l : Lineage} {f g : PolicyFields} {j : Nat}

theorem PolicyAt.congr (h : PolicyAt host nodeID history j f) (hfields : g.withoutRules = f.withoutRules) :
    PolicyAt host nodeID history j g := by
  obtain ⟨m, hm, hrecord⟩ := h
  refine ⟨m, hm, fun hbare => ?_⟩
  obtain ⟨n, hn, hsame⟩ := hrecord hbare
  exact ⟨n, hn, hfields.trans hsame⟩

theorem RulesAt.congr (h : RulesAt host nodeID history j f) (hrules : g.policyRules = f.policyRules) :
    RulesAt host nodeID history j g := by
  obtain ⟨m, hm, o, hsame⟩ := h
  exact ⟨m, hm, o, hrules.trans hsame⟩

theorem DrawnFrom.congr (h : DrawnFrom host nodeID history l f) (hfields : g = f) :
    DrawnFrom host nodeID history l g := hfields ▸ h

theorem PolicyAt.append (h : PolicyAt host nodeID history j f) (later : List (Moment MemoryStore)) :
    PolicyAt host nodeID (history ++ later) j f := by
  obtain ⟨m, hm, hrecord⟩ := h
  exact ⟨m, (List.getElem?_append_left (List.getElem?_eq_some_iff.mp hm).1).trans hm, hrecord⟩

theorem RulesAt.append (h : RulesAt host nodeID history j f) (later : List (Moment MemoryStore)) :
    RulesAt host nodeID (history ++ later) j f := by
  obtain ⟨m, hm, hrules⟩ := h
  exact ⟨m, (List.getElem?_append_left (List.getElem?_eq_some_iff.mp hm).1).trans hm, hrules⟩

theorem DrawnFrom.append (h : DrawnFrom host nodeID history l f) (later : List (Moment MemoryStore)) :
    DrawnFrom host nodeID (history ++ later) l f :=
  ⟨fun j hj => (h.policy j hj).append later, fun j hj => (h.rules j hj).append later⟩

theorem DrawnFrom.merge {origin : Option Nat} (h : DrawnFrom host nodeID history l base.policyFields)
    (hplan : ∀ j, origin = some j → PolicyAt host nodeID history j cfg.policyFields ∧
      RulesAt host nodeID history j cfg.policyFields) :
    DrawnFrom host nodeID history (l.merge origin cfg base) (absorb asn cfg base).policyFields where
  policy j hj := by
    rcases List.mem_append.mp hj with hold | hnew
    · split at hold
      next hleaves => exact (h.policy j hold).congr hleaves.absorb
      next => exact absurd hold List.not_mem_nil
    · split at hnew
      next hsets => exact (hplan j (Option.mem_toList.mp hnew)).1.congr hsets.absorb
      next => exact absurd hnew List.not_mem_nil
  rules j hj := by
    rcases List.mem_append.mp hj with hold | hnew
    · split at hold
      next hempty =>
        refine (h.rules j hold).congr ?_
        show (if cfg.policyRules ≠ [] then cfg.policyRules else base.policyRules) = base.policyRules
        rw [if_neg (not_not.mpr hempty)]
      next => exact absurd hold List.not_mem_nil
    · split at hnew
      next hrules => exact (hplan j (Option.mem_toList.mp hnew)).2.congr (absorb_policyRules hrules)
      next => exact absurd hnew List.not_mem_nil

theorem received_policyFields (ctx : WsCtx) (cfg : NodeConfigResponse) :
    (received ctx cfg).policyFields = cfg.policyFields := by
  unfold received
  split <;> rfl

-- ---------------------------------------------------------------------------
-- A handler and what it holds
-- ---------------------------------------------------------------------------

/-- The plan that a job brings is made from the records at the event that sent it. -/
def Job.DrawnFrom (host : Host) (nodeID : String) (history : List (Moment MemoryStore)) (job : Job)
    (origin : Option Nat) : Prop :=
  ∀ cfg j, job = .plan cfg → origin = some j →
    PolicyAt host nodeID history j cfg.policyFields ∧ RulesAt host nodeID history j cfg.policyFields

/-- A plan's handler holds its plan, and every handler a record of the lineage noted for it. -/
structure Thread.Traced (host : Host) (ctx : WsCtx) (nodeID : String) (history : List (Moment MemoryStore))
    (l : Lineage) (t : Thread) : Prop where
  job : t.job.DrawnFrom host nodeID history t.origin
  plan : ∀ cfg, t.job = .plan cfg → ∀ x ∈ t.phase.held, x.1 = received ctx cfg
  base : ∀ x ∈ t.phase.held, PeerWan.DrawnFrom host nodeID history l x.2.policyFields

structure System.Traced (host : Host) (ctx : WsCtx) (nodeID : String) (s : System MemoryStore) : Prop where
  chronicle : s.Chronicle host
  wire : ∀ x ∈ s.wire, x.1.DrawnFrom host nodeID s.history x.2
  latest : DrawnFrom host nodeID s.history s.lineage s.agent.latestNode.policyFields
  threads : EachThread (fun i t => t.Traced host ctx nodeID s.history (s.held i)) s.agent.threads

theorem Job.DrawnFrom.append {job : Job} {origin : Option Nat} (h : job.DrawnFrom host nodeID history origin)
    (later : List (Moment MemoryStore)) : job.DrawnFrom host nodeID (history ++ later) origin :=
  fun cfg j hjob horigin => ⟨(h cfg j hjob horigin).1.append later, (h cfg j hjob horigin).2.append later⟩

theorem Thread.Traced.append {t : Thread} (h : t.Traced host ctx nodeID history l)
    (later : List (Moment MemoryStore)) : t.Traced host ctx nodeID (history ++ later) l :=
  ⟨h.job.append later, h.plan, fun x hx => (h.base x hx).append later⟩

theorem Thread.Traced.move {t : Thread} {p : Phase} (h : t.Traced host ctx nodeID history l)
    (hheld : ∀ x ∈ p.held, x ∈ t.phase.held) : ({ t with phase := p } : Thread).Traced host ctx nodeID history l :=
  ⟨h.job, fun cfg hjob x hx => h.plan cfg hjob x (hheld x hx), fun x hx => h.base x (hheld x hx)⟩

theorem Thread.Traced.passes {t : Thread} (h : t.Traced host ctx nodeID history l)
    (hsettled : TaskSettled ctx.asn t) (hphase : t.phase = .based cfg base) :
    DrawnFrom host nodeID history (t.passes l) (absorb ctx.asn cfg base).policyFields := by
  have hbase : DrawnFrom host nodeID history l base.policyFields := h.base (cfg, base) (by rw [hphase]; rfl)
  cases hjob : t.job with
  | plan p =>
    have hplan : cfg = received ctx p := h.plan p hjob (cfg, base) (by rw [hphase]; rfl)
    have hpasses : t.passes l = l.merge t.origin cfg base := by rw [Thread.passes, hjob, hphase]
    rw [hpasses]
    refine hbase.merge fun j horigin => ?_
    rw [hplan, received_policyFields]
    exact h.job p j hjob horigin
  | task taskID type =>
    have hpasses : t.passes l = l := by rw [Thread.passes, hjob]
    rw [hpasses]
    exact hbase.congr (hsettled taskID type hjob (cfg, base) (by rw [hphase]; rfl))
  | command action =>
    have hpasses : t.passes l = {} := by rw [Thread.passes, hjob]
    rw [hpasses]
    exact drawnFrom_nothing history _

end

-- ---------------------------------------------------------------------------
-- Every step keeps track
-- ---------------------------------------------------------------------------

section

variable {host : Host} {ctx : WsCtx} {nodeID : String} {s : System MemoryStore}

theorem Job.base_of_read (job : Job) {r : Runtime} {x : NodeConfigResponse × Node} (hx : x ∈ (job.read ctx r).held) :
    x.2 = r.latestNode := by
  cases job with
  | plan cfg =>
    obtain rfl := Option.some.inj hx
    rfl
  | task taskID type =>
    rw [Job.read] at hx
    split at hx
    · obtain rfl := Option.some.inj hx
      rfl
    · cases hx
  | command action =>
    rw [Job.read] at hx
    split at hx
    · obtain rfl := Option.some.inj hx
      rfl
    · cases hx

theorem System.Chronicle.event (h : s.Chronicle host) (env : Env) (e : Event) :
    (System.step host ctx nodeID (.controller env e) s).Chronicle host where
  linked i m m' hm hm' := by
    simp only [System.step] at hm hm'
    rw [List.getElem?_append] at hm'
    split at hm'
    next hlt =>
      rw [List.getElem?_append_left (Nat.lt_of_succ_lt hlt)] at hm
      exact h.linked i m m' hm hm'
    next hge =>
      obtain ⟨hlen, heq⟩ := List.getElem?_eq_some_iff.mp hm'
      rw [List.length_singleton] at hlen
      have hlast : s.history[s.history.length - 1]? = some m := by
        rw [← hm, List.getElem?_append_left (by omega)]
        congr 1
        omega
      rw [List.getElem_singleton] at heq
      rw [← heq]
      exact h.last m hlast
  last m hm := by
    simp only [System.step, List.length_append, List.length_singleton, Nat.add_sub_cancel,
      List.getElem?_concat_length] at hm
    obtain rfl := Option.some.inj hm
    rfl

theorem System.Traced.event (h : s.Traced host ctx nodeID) (hnode : nodeID ≠ "") (env : Env) (e : Event) :
    (System.step host ctx nodeID (.controller env e) s).Traced host ctx nodeID where
  chronicle := h.chronicle.event env e
  wire := by
    intro x hx
    rcases List.mem_append.mp hx with hold | hnew
    · exact (h.wire x hold).append _
    · obtain ⟨job, hjob, rfl⟩ := List.mem_map.mp hnew
      rintro cfg j rfl horigin
      obtain rfl : s.history.length = j := Option.some.inj horigin
      exact drawn_of_sent hnode hjob
  latest := h.latest.append _
  threads := fun i t ht => (h.threads i t ht).append _

theorem System.Traced.read (h : s.Traced host ctx nodeID) {i : Nat} {t : Thread} (ht : s.agent.threads[i]? = some t) :
    EachThread (fun j u => u.Traced host ctx nodeID s.history (Function.update s.held i s.lineage j))
      (s.agent.advance i (t.job.read ctx s.agent)).threads := by
  intro j u hu
  rw [Runtime.advance_thread] at hu
  split at hu
  next hij =>
    subst hij
    rw [ht] at hu
    obtain rfl := Option.some.inj hu
    rw [Function.update_self]
    refine ⟨(h.threads i t ht).job, ?_, fun x hx => h.latest.congr (congrArg _ (t.job.base_of_read hx))⟩
    intro cfg hjob x hx
    have hjob' : t.job = .plan cfg := hjob
    rw [hjob'] at hx
    obtain rfl := Option.some.inj hx
    rfl
  next hij =>
    rw [Function.update_of_ne (Ne.symm hij)]
    exact h.threads j u hu

theorem System.Traced.act (h : s.Traced host ctx nodeID) (hsettles : Settles ctx.asn s.agent) {a : Act} {r : Runtime}
    (ha : a.step ctx s.agent = some r) :
    System.Traced host ctx nodeID { s with agent := r, lineage := s.lineageAfter a, held := s.heldAfter a } := by
  have hmove : ∀ {i : Nat} {p q : Phase}, s.agent.phase i = some p → (∀ x ∈ q.held, x ∈ p.held) →
      EachThread (fun i t => t.Traced host ctx nodeID s.history (s.held i)) (s.agent.advance i q).threads :=
    fun hp hheld => h.threads.advance fun t ht htraced =>
      htraced.move fun x hx => Runtime.phase_eq hp ht ▸ hheld x hx
  cases moved ha with
  | read ht hready => exact ⟨h.chronicle.congr rfl rfl, h.wire, h.latest, h.read ht⟩
  | @update i cfg base hbased =>
    obtain ⟨t, ht, hphase⟩ := Option.map_eq_some_iff.mp hbased
    refine ⟨h.chronicle.congr rfl rfl, h.wire, ?_, hmove hbased fun x hx => hx⟩
    have hlineage : s.lineageAfter (.update i) = t.passes (s.held i) := by
      rw [System.lineageAfter, ht]
      rfl
    rw [hlineage]
    exact (h.threads i t ht).passes (hsettles.tasks i t ht) hphase
  | write hmerged =>
    exact ⟨h.chronicle.congr rfl rfl, h.wire, h.latest, hmove hmerged fun x hx => hx⟩
  | writeFails hmerged =>
    exact ⟨h.chronicle.congr rfl rfl, h.wire, h.latest, hmove hmerged fun x hx => by cases hx⟩
  | finish hwritten =>
    exact ⟨h.chronicle.congr rfl rfl, h.wire, h.latest, hmove hwritten fun x hx => by cases hx⟩
  | healRead | healSkips | healWrite | healFails =>
    exact ⟨h.chronicle.congr rfl rfl, h.wire, h.latest, h.threads⟩

theorem System.Traced.step (h : s.Traced host ctx nodeID) (hnode : nodeID ≠ "") (hsettles : Settles ctx.asn s.agent)
    (e : SystemEvent) : (System.step host ctx nodeID e s).Traced host ctx nodeID := by
  cases e with
  | controller env e => exact h.event hnode env e
  | operator job =>
    refine ⟨h.chronicle.congr rfl rfl, fun x hx => ?_, h.latest, h.threads⟩
    rcases List.mem_append.mp hx with hold | hnew
    · exact h.wire x hold
    · obtain rfl := List.mem_singleton.mp hnew
      rintro cfg j - ⟨⟩
  | lose =>
    refine ⟨h.chronicle.congr rfl rfl, fun x hx => ?_, h.latest, h.threads⟩
    exact h.wire x (List.mem_of_mem_tail hx)
  | deliver =>
    rw [System.step]
    split
    · exact h
    next job origin wire hwire =>
      refine ⟨h.chronicle.congr rfl rfl, fun x hx => ?_, h.latest, h.threads.concat ?_⟩
      · exact h.wire x (hwire ▸ List.mem_cons_of_mem _ hx)
      · refine ⟨h.wire (job, origin) (hwire ▸ List.mem_cons_self), ?_, ?_⟩
        · rintro cfg - x ⟨⟩
        · rintro x ⟨⟩
  | act a =>
    rw [System.step]
    cases ha : a.step ctx s.agent with
    | none => exact h
    | some r => exact h.act hsettles ha

end

-- ---------------------------------------------------------------------------
-- Runs
-- ---------------------------------------------------------------------------

/-- What is drawn from events since the post is what a post has stored since. -/
theorem System.DrawnSince.current {host : Host} {ctx : WsCtx} {nodeID : String} {s : System MemoryStore} {k : Nat}
    {l : Lineage} {f : PolicyFields} (h : s.DrawnSince nodeID k l) (htraced : s.Traced host ctx nodeID)
    (hk : ∃ m, s.history[k]? = some m ∧ m.Posted nodeID) (hf : DrawnFrom host nodeID s.history l f) :
    s.Current host nodeID k f := by
  obtain ⟨⟨j, hj, hkj, hbare, hleaves⟩, j', hj', hkj'⟩ := h
  obtain ⟨m, hm, hrecord⟩ := hf.policy j hj
  obtain ⟨n, hn, hfields⟩ := hrecord (hbare m hm)
  obtain ⟨m', n', hm', hn', p, hp, mp, hmp, hposted, np, hnp, hkept⟩ :=
    htraced.chronicle.record hkj hk (List.getElem?_eq_some_iff.mp hm).1 hleaves
  obtain rfl := Option.some.inj (hm.symm.trans hm')
  obtain rfl := Option.some.inj (hn.symm.trans hn')
  obtain ⟨mr, hmr, o, hrules⟩ := hf.rules j' hj'
  refine ⟨⟨p, hp, mp, hmp, hposted, np, congrArg Except.ok hnp, ?_⟩, j', hkj', mr, hmr, o, _, rfl, hrules⟩
  rw [hfields, hkept]

/-- A policy task succeeds with the policy of its post, or of a later one, in every
run in which each handler that succeeds has read a record drawn from events since
the post, and nothing has taken the policy from the stored record in between. -/
theorem successCurrent_along (host : Host) (flags : Flags) (reg : NodeConfigResponse) (nodeID : String)
    (hnode : nodeID ≠ "") (c : Controller MemoryStore) (es : List SystemEvent)
    (h : Along (System.step host (bootCtx flags reg) nodeID) (System.ReadsSince nodeID)
      (System.start flags reg c) es) :
    Along (System.step host (bootCtx flags reg) nodeID) (System.SuccessCurrent host (bootCtx flags reg) nodeID)
      (System.start flags reg c) es := by
  let I (s : System MemoryStore) : Prop :=
    Settles (bootCtx flags reg).asn s.agent ∧ s.Traced host (bootCtx flags reg) nodeID
  have hstart : I (System.start flags reg c) := by
    refine ⟨Settles.start flags reg c, ⟨?_, ?_⟩, ?_, drawnFrom_nothing [] _, ?_⟩
    · rintro i m m' ⟨⟩
    · rintro m ⟨⟩
    · rintro x ⟨⟩
    · rintro i t ⟨⟩
  have hstep : ∀ s e, I s → I (System.step host (bootCtx flags reg) nodeID e s) :=
    fun s e hs => ⟨Settles.step s e hs.1, hs.2.step hnode hs.1 e⟩
  refine along_mono_of_invariant hstep (fun s e hs hreads => ?_) hstart h
  intro i t k cfg base he ht hphase htask
  obtain ⟨⟨taskID, type, hjob⟩, -, hk⟩ := id htask
  have hsettled : (renderCall (bootCtx flags reg) base cfg).node.policyFields = base.policyFields :=
    hs.1.tasks i t ht taskID type hjob (cfg, base) (by rw [hphase]; rfl)
  rw [hsettled]
  refine (hreads i t k cfg base he ht hphase htask).current hs.2 hk ?_
  exact (hs.2.threads i t ht).base (cfg, base) (by rw [hphase]; rfl)

def sampleController : Controller MemoryStore :=
  Request.step Host.sample ({}, .register { jwt := true } (some
    { id := "edge", publicKey := "ka", cidrs := ["10.1.0.0/24"] })) (start MemoryStore.new)

def samplePost : SystemEvent :=
  .controller { uuid := "task-1" } (.request (.policy { jwt := true } (some
    { nodeID := "edge", egressPeer := "hub", defaultRoute := true })))

def sampleTaskRun : List SystemEvent := [samplePost, .deliver, .act (.read 0), .act (.update 0), .act (.write 0 true)]

/-- No plan was pushed since the agent registered: the task succeeds with a
configuration that has no egress, and the posted policy has one. -/
theorem task_succeeds_without_policy :
    ¬ ∀ (host : Host) (flags : Flags) (reg : NodeConfigResponse) (nodeID : String)
      (c : Controller MemoryStore) (es : List SystemEvent), nodeID ≠ "" →
      Along (System.step host (bootCtx flags reg) nodeID)
        (System.SuccessCurrent host (bootCtx flags reg) nodeID) (System.start flags reg c) es := by
  intro h
  have hrun := h Host.sample {} { id := "edge" } "edge" sampleController
    (sampleTaskRun ++ [.act (.finish 0 true)]) (by decide)
  have hlast := (along_append.mp hrun).2.1
  obtain ⟨⟨j, -, m, hm, -, n, hn, hfields⟩, -⟩ :=
    hlast 0 _ 0 {} (bootNode {} { id := "edge" }) rfl rfl rfl ⟨⟨_, _, rfl⟩, rfl, _, rfl, by decide⟩
  cases j with
  | zero =>
    obtain rfl := Option.some.inj hm
    obtain rfl := Option.some.inj (Except.ok.inj hn)
    exact absurd hfields (by decide)
  | succ j => cases hm

theorem onSuccess_of_ne {nodeID : String}
    {P : System MemoryStore → Nat → Nat → NodeConfigResponse → Node → Prop} {s : System MemoryStore} {e : SystemEvent}
    (h : ∀ i, e ≠ .act (.finish i true)) : System.OnSuccess nodeID P s e :=
  fun i _ _ _ _ he => absurd he (h i)

/-- The plan that somebody asks for after the post reaches the agent, and then the task
is handled: its success has the posted egress. -/
theorem task_succeeds_after_plan :
    Along (System.step Host.sample (bootCtx {} { id := "edge" }) "edge")
      (System.SuccessCurrent Host.sample (bootCtx {} { id := "edge" }) "edge")
      (System.start {} { id := "edge" } sampleController)
      [samplePost, .controller {} (.request (.plan { jwt := true } "edge")), .deliver, .deliver, .act (.read 1),
        .act (.update 1), .act (.read 0), .act (.update 0), .act (.write 0 true), .act (.finish 0 true)] := by
  refine successCurrent_along Host.sample {} { id := "edge" } "edge" (by decide) sampleController _ ?_
  have hother : ∀ {s : System MemoryStore} {e : SystemEvent}, (∀ i, e ≠ .act (.finish i true)) →
      s.ReadsSince "edge" e := onSuccess_of_ne
  refine ⟨hother (by rintro i ⟨⟩), hother (by rintro i ⟨⟩), hother (by rintro i ⟨⟩), hother (by rintro i ⟨⟩),
    hother (by rintro i ⟨⟩), hother (by rintro i ⟨⟩), hother (by rintro i ⟨⟩), hother (by rintro i ⟨⟩),
    hother (by rintro i ⟨⟩), ?_, trivial⟩
  rintro i t k cfg base ⟨⟩ ht - ⟨-, horigin, -⟩
  obtain rfl := Option.some.inj ht
  obtain rfl := Option.some.inj horigin
  refine ⟨⟨1, by decide +kernel, Nat.zero_le 1, ?_, ?_⟩, 1, by decide +kernel, Nat.zero_le 1⟩
  · rintro m hm ⟨auth, body, hevent⟩
    obtain rfl := Option.some.inj hm
    cases hevent
  · intro i m hi hi1 hm
    obtain rfl : i = 1 := by omega
    obtain rfl := Option.some.inj hm
    rintro n - ⟨⟩

end PeerWan
