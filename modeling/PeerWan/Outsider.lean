import PeerWan.Controller.Routes
import PeerWan.FailedReads

/-!
# A client without credentials

Each handler checks on its own who may go on: most ask for a login, the agents'
routes for a login or the node's token, and the WebSocket routes for nothing.
So a client with neither is refused everywhere but on `/api/v1/ws/agent`, where
a connection takes the entry of the node it names, and the steps that come in on
it are saved.
-/

namespace PeerWan

open Lib

-- ---------------------------------------------------------------------------
-- The client
-- ---------------------------------------------------------------------------

/-- No node has the token, which may be missing. -/
def NoToken (records : String → Option Node) (token : String) : Prop :=
  token ≠ "" → ∀ id n, records id = some n → n.provisionToken ≠ token

structure Credentials.Outside (records : String → Option Node) (auth : Credentials) : Prop where
  login : auth.jwt = false
  token : NoToken records auth.token

/-- A register may name a token in its body. -/
def HttpRoute.Outside (records : String → Option Node) : HttpRoute → Prop
  | .nodesRegister (some req) => NoToken records req.provisionToken
  | _ => True

def HubEvent.conn : HubEvent → Option Nat
  | .connect _ => none
  | .disconnect c | .readFails c | .close c | .cleanup c => some c

section

variable {σ : Type} [NodeStore σ] [LawfulStore σ]

/-- The event is of a client that comes to the site with no login, no node's
token and no connection. -/
def SiteEvent.Outside (s : Site σ) : SiteEvent → Prop
  | .http _ _ auth r => auth.Outside (recordsOf s.controller.store) ∧ r.Outside (recordsOf s.controller.store)
  | .hub e => ∀ c, e.conn = some c → s.hub.conns.length ≤ c
  | .frame c _ _ => s.hub.conns.length ≤ c
  | .subscribe _ | .unsubscribe _ => True

def SiteEvent.TakesEntry : SiteEvent → Prop
  | .hub (.connect nodeID) => nodeID ≠ ""
  | _ => False

structure Site.Unchanged (s s' : Site σ) : Prop where
  data : LawfulStore.data s'.controller.store = LawfulStore.data s.controller.store
  reports : s'.reports = s.reports
  planVersion : s'.controller.planVersion = s.controller.planVersion
  agents : s'.hub.agents = s.hub.agents

-- ---------------------------------------------------------------------------
-- The agents' routes
-- ---------------------------------------------------------------------------

/-- Of the controller, at most the count of the store's calls has moved. -/
structure TurnedAway (c c' : Controller σ) : Prop where
  data : LawfulStore.data c'.store = LawfulStore.data c.store
  rest : c' = { c with store := c'.store }

theorem TurnedAway.refl (c : Controller σ) : TurnedAway c c := ⟨rfl, rfl⟩

theorem TurnedAway.of_data {c : Controller σ} {st : σ} (h : LawfulStore.data st = LawfulStore.data c.store) :
    TurnedAway c { c with store := st } := ⟨h, rfl⟩

theorem TurnedAway.planVersion {c c' : Controller σ} (h : TurnedAway c c') : c'.planVersion = c.planVersion := by
  rw [h.rest]

theorem TurnedAway.sent {c c' : Controller σ} (h : TurnedAway c c') : c'.sent = c.sent := by
  rw [h.rest]

theorem agentAuthorized_noToken {token : String} {st : σ} (h : NoToken (recordsOf st) token) (nodeID : String) :
    (agentAuthorized nodeID token st).1 = false := by
  unfold agentAuthorized
  split
  next => rfl
  next hgiven =>
    split
    next n st' heq =>
      have hstored : some n = recordsOf st nodeID := LawfulStore.getNode_ok (congrArg Prod.fst heq)
      have hother := h (fun htoken => hgiven (.inr htoken)) nodeID n hstored.symm
      exact decide_eq_false fun hsame => hother hsame.2
    next => rfl

theorem admitted_outside {auth : Credentials} {st : σ} (h : auth.Outside (recordsOf st)) (nodeID : String) :
    ∃ st', admitted auth nodeID st = (false, st') ∧ LawfulStore.data st' = LawfulStore.data st := by
  refine ⟨_, ?_, agentAuthorized_leaves LawfulStore.getNode_data nodeID auth.token st⟩
  rw [admitted, h.login, if_neg Bool.false_ne_true]
  exact Prod.ext (agentAuthorized_noToken h.token nodeID) rfl

section

variable (host : Host) (env : Env) {auth : Credentials} {c : Controller σ}
  (hauth : auth.Outside (recordsOf c.store))

include hauth

theorem health_outside (body : Option HealthReport) : TurnedAway c (health host env auth body c).2 := by
  unfold health
  split
  next => exact .refl c
  next report =>
    dsimp only
    split
    next => exact .refl c
    next =>
      obtain ⟨st, hrefused, hdata⟩ := admitted_outside hauth report.nodeID
      rw [hrefused]
      exact .of_data hdata

theorem getPlan_outside (nodeID : String) : TurnedAway c (getPlan host env auth nodeID c).2 := by
  unfold getPlan
  split
  next => exact .refl c
  next =>
    obtain ⟨st, hrefused, hdata⟩ := admitted_outside hauth nodeID
    rw [hrefused]
    exact .of_data hdata

omit hauth in
theorem validToken_noToken {token id : String} {st : σ} (h : NoToken (recordsOf st) token) (hgiven : token ≠ "") :
    validToken (Reply.getD (NodeStore.getNode id st).1 none) token = false := by
  cases hget : (NodeStore.getNode id st).1 with
  | error => rfl
  | ok r =>
    cases r with
    | none => rfl
    | some n =>
      have hstored : some n = recordsOf st id := LawfulStore.getNode_ok hget
      have hother := h hgiven id n hstored.symm
      simp [validToken, hother]

theorem register_outside (body : Option NodeRegistrationRequest)
    (hbody : ∀ req, body = some req → NoToken (recordsOf c.store) req.provisionToken) :
    TurnedAway c (register host env auth body c).2 := by
  cases body with
  | none => exact .refl c
  | some sent =>
    have htoken : NoToken (recordsOf c.store) (sent.withToken auth.token).provisionToken := by
      unfold NodeRegistrationRequest.withToken
      split
      next => exact hauth.token
      next => exact hbody sent rfl
    unfold register
    dsimp only
    split
    next => exact .refl c
    next =>
      split
      next => exact .refl c
      next hauthorized =>
        have hgiven : (sent.withToken auth.token).provisionToken ≠ "" := by simpa [hauth.login] using hauthorized
        rw [validToken_noToken htoken hgiven, if_pos (by simpa using hgiven)]
        exact .of_data (LawfulStore.getNode_data ..)

end

-- ---------------------------------------------------------------------------
-- Every route
-- ---------------------------------------------------------------------------

theorem listing_data {read : σ → Reply α × σ} (hread : ∀ st, LawfulStore.data (read st).2 = LawfulStore.data st)
    (failure : String) (st : σ) : LawfulStore.data (listing read failure st).2 = LawfulStore.data st := by
  have hdata := hread st
  unfold listing
  split
  next heq => rw [heq] at hdata; exact hdata
  next heq => rw [heq] at hdata; exact hdata

def Site.Turned (s s' : Site σ) : Prop := ∃ c, s' = { s with controller := c } ∧ TurnedAway s.controller c

theorem Site.Turned.refl (s : Site σ) : s.Turned s := ⟨s.controller, rfl, .refl _⟩

omit [NodeStore σ] [LawfulStore σ] in
theorem Site.authorized_outside {auth : Credentials} (h : auth.jwt = false) (f : Site σ → Answer × Site σ)
    (s : Site σ) : authorized auth f s = (.error 401 "unauthorized", s) := by
  rw [authorized, h]
  rfl

theorem Site.Turned.only {f : Site σ → Answer × Site σ} {s : Site σ} (h : s.Turned (f s).2)
    (allowed method : Method) : s.Turned (Site.only allowed method f s).2 := by
  unfold Site.only
  split
  · exact .refl s
  · exact h

theorem serveRoute_outside (host : Host) (env : Env) (method : Method) {auth : Credentials} {r : HttpRoute}
    {s : Site σ} (hauth : auth.Outside (recordsOf s.controller.store))
    (hr : r.Outside (recordsOf s.controller.store)) : s.Turned (serveRoute host env method auth r s).2 := by
  cases r with
  | page => exact .refl s
  | account => exact .refl s
  | nodesRegister body =>
    refine Site.Turned.only ⟨_, rfl, register_outside host env hauth body fun req hbody => ?_⟩ .post method
    rw [hbody] at hr
    exact hr
  | health body =>
    cases method with
    | get =>
      exact ⟨_, rfl, .of_data (listing_data (LawfulStore.listHealth_data _) "failed to list health" _)⟩
    | post => exact ⟨_, rfl, health_outside host env hauth body⟩
    | other => exact .refl s
  | plan nodeID =>
    exact Site.Turned.only ⟨_, rfl, getPlan_outside host env hauth nodeID⟩ .get method
  | _ =>
    -- the console's routes begin with `if !auth(r)`
    rw [serveRoute, Site.authorized_outside hauth.login]
    exact .refl s

-- ---------------------------------------------------------------------------
-- The WebSockets
-- ---------------------------------------------------------------------------

theorem HubEvent.step_absent {h : WSHub} {e : HubEvent} {c : Nat} (he : e.conn = some c)
    (hc : h.conns.length ≤ c) : e.step h = h := by
  have hnone : h.conns[c]? = none := List.getElem?_eq_none hc
  cases e with
  | connect => cases he
  | disconnect =>
    cases he
    rw [step, WSHub.close, List.modify_eq_self hc]
  | readFails => cases he; simp [step, WSHub.loop, hnone]
  | close => cases he; simp [step, WSHub.loop, hnone]
  | cleanup => cases he; simp [step, hnone]

theorem WSHub.Tracked.connect_ne {h : WSHub} (ht : h.Tracked) {nodeID : String} (hid : nodeID ≠ "") :
    ((HubEvent.connect nodeID).step h).agents ≠ h.agents := by
  intro heq
  have hentry : ((HubEvent.connect nodeID).step h).agents nodeID = some h.conns.length := by
    rw [HubEvent.step, handleAgentWS, if_neg hid]
    dsimp only
    split <;> simp [close]
  rw [heq] at hentry
  obtain ⟨conn, hconn, -⟩ := ht.entry nodeID _ hentry
  simp at hconn

-- ---------------------------------------------------------------------------
-- Runs of the client
-- ---------------------------------------------------------------------------

variable (host : Host) {s s' : Site σ} {e : SiteEvent}

theorem Site.Unchanged.refl (s : Site σ) : s.Unchanged s := ⟨rfl, rfl, rfl, rfl⟩

theorem Site.Unchanged.turned {s'' : Site σ} (h : s.Unchanged s') (hhub : s'.hub = s.hub) (ht : s'.Turned s'') :
    s''.hub = s.hub ∧ s.Unchanged s'' := by
  obtain ⟨c, rfl, hc⟩ := ht
  exact ⟨hhub, hc.data.trans h.data, h.reports, hc.planVersion.trans h.planVersion, h.agents⟩

theorem Site.Unchanged.step (h : s.Unchanged s') (hhub : s'.hub = s.hub) (hout : e.Outside s)
    (he : ¬ e.TakesEntry) : (e.step host s').hub = s.hub ∧ s.Unchanged (e.step host s') := by
  cases e with
  | http env method auth r =>
    have hrecords : recordsOf s'.controller.store = recordsOf s.controller.store := congrArg LawfulStore.node h.data
    refine h.turned hhub (serveRoute_outside host env method ?_ ?_)
    · rw [hrecords]
      exact hout.1
    · rw [hrecords]
      exact hout.2
  | hub e =>
    have hstep : e.step s'.hub = s.hub := by
      rw [hhub]
      cases hconn : e.conn with
      | some c => exact HubEvent.step_absent hconn (hout c hconn)
      | none =>
        cases e with
        | connect nodeID => rw [HubEvent.step, WSHub.handleAgentWS, if_pos (not_not.mp he)]
        | _ => cases hconn
    exact ⟨hstep, h.data, h.reports, h.planVersion, congrArg WSHub.agents hstep⟩
  | frame c now msg =>
    have hnone : s'.hub.conns[c]? = none := by
      rw [hhub]
      exact List.getElem?_eq_none hout
    simp only [SiteEvent.step, hnone]
    exact ⟨hhub, h⟩
  | subscribe nodeID =>
    simp only [SiteEvent.step]
    split
    next => exact ⟨hhub, h⟩
    next => exact ⟨hhub, h.data, h.reports, h.planVersion, h.agents⟩
  | unsubscribe nodeID => exact ⟨hhub, h.data, h.reports, h.planVersion, h.agents⟩

theorem Site.Unchanged.step_iff (h : s.Unchanged s') (hhub : s'.hub = s.hub) (ht : s.hub.Tracked)
    (hout : e.Outside s) : s.Unchanged (e.step host s') ↔ ¬ e.TakesEntry := by
  refine ⟨fun hnext htakes => ?_, fun he => (h.step host hhub hout he).2⟩
  cases e with
  | hub e =>
    cases e with
    | connect nodeID =>
      have hagents : (HubEvent.step (.connect nodeID) s'.hub).agents = s.hub.agents := hnext.agents
      rw [hhub] at hagents
      exact ht.connect_ne htakes hagents
    | _ => exact htakes
  | _ => exact htakes

/-- What a client without credentials does leaves the store, the version and
the entries of the hub as they were exactly until it opens an agent's WebSocket. -/
theorem outsider_changes_nothing_iff {s : Site σ} (hs : List HubEvent)
    (hhub : s.hub = run HubEvent.step WSHub.new hs) {es : List SiteEvent} (hout : ∀ e ∈ es, e.Outside s) :
    Throughout (SiteEvent.step host) s.Unchanged s es ↔ ∀ e ∈ es, ¬ e.TakesEntry := by
  have hnew : WSHub.new.Tracked := ⟨nofun, nofun⟩
  have ht : s.hub.Tracked := by
    rw [hhub]
    exact (throughout_of_invariant (fun _ e => WSHub.Tracked.step e) hnew hs).final
  exact throughout_iff_forall (I := fun s' => s'.hub = s.hub)
    (fun e he s' hsame h htakes => (h.step host hsame (hout e he) htakes).1)
    (fun e he s' hsame h => h.step_iff host hsame ht (hout e he)) rfl (.refl s)

end

def edgeSite : Site MemoryStore where
  controller := start { MemoryStore.new with
    nodes := (∅ : Table Node.id).put { id := "edge", provisionToken := "pt-7" } }
  hub := run HubEvent.step WSHub.new [.connect "edge"]

theorem noToken_edgeSite {token : String} (h : token ≠ "pt-7") :
    NoToken (recordsOf edgeSite.controller.store) token := by
  intro _ id n hn
  have hget : ((∅ : Table Node.id).put { id := "edge", provisionToken := "pt-7" }).get? id = some n := hn
  rw [Table.get?_put] at hget
  split at hget
  · cases hget
    exact h.symm
  · cases hget

theorem outsider_refused : Throughout (SiteEvent.step Host.sample) edgeSite.Unchanged edgeSite
    [.http {} .get { token := "pt-8" } (.plan "edge"),
     .http {} .post {} (.nodesRegister (some { id := "edge", provisionToken := "pt-9", publicKey := "own" })),
     .hub (.connect ""), .frame 1 0 (.taskStep (some { taskID := "t1" }))] := by
  refine (outsider_changes_nothing_iff Host.sample [.connect "edge"] rfl ?_).mpr ?_
  · simp only [List.forall_mem_cons]
    refine ⟨⟨⟨rfl, noToken_edgeSite (by decide)⟩, trivial⟩,
      ⟨⟨rfl, noToken_edgeSite (by decide)⟩, noToken_edgeSite (by decide)⟩, ?_, ?_, List.forall_mem_nil _⟩
    · intro c hc
      cases hc
    · show edgeSite.hub.conns.length ≤ 1
      decide
  · simp [SiteEvent.TakesEntry]

/-- Someone else opens the WebSocket of the node, and its plans go there. -/
theorem outsider_takes_entry :
    ¬ ∀ (host : Host) (s : Site MemoryStore) (hs : List HubEvent), s.hub = run HubEvent.step WSHub.new hs →
      ∀ es : List SiteEvent, (∀ e ∈ es, e.Outside s) → s.Unchanged (run (SiteEvent.step host) s es) := by
  intro h
  have hout : ∀ e ∈ [SiteEvent.hub (.connect "edge")], e.Outside edgeSite := by
    intro e he
    rw [List.mem_singleton.mp he]
    intro c hc
    cases hc
  have hagents := (h Host.sample edgeSite [.connect "edge"] rfl [.hub (.connect "edge")] hout).agents
  exact absurd (congrFun hagents "edge") (by decide)

-- ---------------------------------------------------------------------------
-- What is out of its reach
-- ---------------------------------------------------------------------------

section

variable {σ : Type} [NodeStore σ] [LawfulStore σ]

/-- A store whose tasks are apart from its records. -/
class TasksApart (σ : Type) [NodeStore σ] [LawfulStore σ] : Prop where
  getTask_data : ∀ id (s : σ), LawfulStore.data (NodeStore.getTask id s).2 = LawfulStore.data s
  saveTask_node : ∀ now t (s : σ),
    LawfulStore.node (LawfulStore.data (NodeStore.saveTask now t s).2) = LawfulStore.node (LawfulStore.data s)

instance : TasksApart MemoryStore := ⟨fun _ _ => rfl, fun _ _ _ => rfl⟩

open ConsulStore in
instance : TasksApart ConsulStore where
  getTask_data _ s := stored_getValue s _ _
  saveTask_node now t s := by
    refine (Spares.putValue (Apart.not_under (b := taskPref) (by decide) ?_) s _).storedNode
    exact under_append ..

theorem handleTaskStep_records [TasksApart σ] (nodeID : String) (now : Int) (payload : Option StepReport)
    (h : TaskHub σ) : recordsOf (h.handleTaskStep nodeID now payload).store = recordsOf h.store := by
  cases payload with
  | none => rfl
  | some r =>
    have hlookup : recordsOf (h.lookup r).2.store = recordsOf h.store := by
      unfold TaskHub.lookup
      split
      · rfl
      · exact congrArg LawfulStore.node (TasksApart.getTask_data ..)
    rw [← hlookup, TaskHub.handleTaskStep]
    rcases h.lookup r with ⟨t, h'⟩
    cases t with
    | none => rfl
    | some t => exact TasksApart.saveTask_node ..

structure Site.Spared (s s' : Site σ) : Prop where
  records : recordsOf s'.controller.store = recordsOf s.controller.store
  reports : s'.reports = s.reports
  planVersion : s'.controller.planVersion = s.controller.planVersion
  sent : s'.controller.sent = s.controller.sent

theorem Site.Spared.step [TasksApart σ] (host : Host) {s s' : Site σ} {e : SiteEvent} (h : s.Spared s')
    (hout : e.Outside s) : s.Spared (e.step host s') := by
  cases e with
  | http env method auth r =>
    have hturned : s'.Turned (serveRoute host env method auth r s').2 := by
      refine serveRoute_outside host env method ?_ ?_
      · rw [h.records]
        exact hout.1
      · rw [h.records]
        exact hout.2
    obtain ⟨c, heq, hc⟩ := hturned
    rw [SiteEvent.step, heq]
    exact ⟨(congrArg LawfulStore.node hc.data).trans h.records, h.reports, hc.planVersion.trans h.planVersion,
      hc.sent.trans h.sent⟩
  | hub e => exact ⟨h.records, h.reports, h.planVersion, h.sent⟩
  | frame c now msg =>
    simp only [SiteEvent.step]
    split
    next =>
      cases msg with
      | taskStep payload => exact ⟨(handleTaskStep_records ..).trans h.records, h.reports, h.planVersion, h.sent⟩
      | agentLog => exact h
      | other => exact h
    next => exact h
  | subscribe nodeID =>
    simp only [SiteEvent.step]
    split
    next => exact h
    next => exact ⟨h.records, h.reports, h.planVersion, h.sent⟩
  | unsubscribe nodeID => exact ⟨h.records, h.reports, h.planVersion, h.sent⟩

/-- Whatever the client opens and sends, the records with their keys, tokens and
policies, the policy reports and the version stay, and nothing is pushed. -/
theorem outsider_spares_records [TasksApart σ] (host : Host) {s : Site σ} {es : List SiteEvent}
    (hout : ∀ e ∈ es, e.Outside s) : Throughout (SiteEvent.step host) s.Spared s es := by
  have hkeeps : ∀ e ∈ es, ∀ s', True → s.Spared s' → (s.Spared (e.step host s') ↔ True) :=
    fun e he _ _ h => iff_true_intro (h.step host (hout e he))
  exact (throughout_iff_forall (fun _ _ _ _ _ _ => trivial) hkeeps trivial ⟨rfl, rfl, rfl, rfl⟩).mpr fun _ _ => trivial

end

end PeerWan
