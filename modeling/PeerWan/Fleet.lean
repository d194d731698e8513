import PeerWan.Mesh
import PeerWan.System

/-!
# A controller and its agents

Any number of agents on the WebSocket of one controller. What the controller
sends to a node goes to the node's connection if it has one, in order, and is
gone if it has none or if the connection breaks; each message starts a handler
that moves when it likes, and agents come, go and start anew.

A recomputation sends every connected node its plan. When the handlers that
were at work before it are through, and those it has started too, the
connected agents have one mesh: each has every complete node as a peer.
-/

namespace PeerWan

open Lib

-- ---------------------------------------------------------------------------
-- Steps
-- ---------------------------------------------------------------------------

structure Fleet where
  controller : Controller MemoryStore
  online : String → Bool := fun _ => false
  wire : String → List Job := fun _ => []
  agent : String → Runtime := fun _ => {}

inductive FleetEvent where
  | controller (env : Env) (e : Event)
  /-- A task or command that another route hands to the hub. -/
  | operator (id : String) (job : Job)
  | connect (id : String)
  | disconnect (id : String)
  /-- The agent's process starts, with the record that it has registered with. -/
  | boot (id : String) (node : Node)
  | deliver (id : String)
  | act (id : String) (a : Act)

def Fleet.send (id : String) (jobs : List Job) (s : Fleet) : List Job :=
  if s.online id then s.wire id ++ jobs else s.wire id

def Fleet.step (host : Host) (ctx : String → WsCtx) (e : FleetEvent) (s : Fleet) : Fleet :=
  match e with
  | .controller env e =>
    let c := Event.step host (env, e) s.controller
    match e with
    | .restart => { s with controller := c, online := fun _ => false, wire := fun _ => [] }
    | _ => { s with controller := c, wire := fun id => s.send id (sentSince id s.controller c) }
  | .operator id job => { s with wire := Function.update s.wire id (s.send id [job]) }
  | .connect id =>
    { s with online := Function.update s.online id true, wire := Function.update s.wire id [] }
  | .disconnect id =>
    { s with online := Function.update s.online id false, wire := Function.update s.wire id [] }
  | .boot id node =>
    { s with
      online := Function.update s.online id false
      wire := Function.update s.wire id []
      agent := Function.update s.agent id { latestNode := node } }
  | .deliver id =>
    match s.wire id with
    | [] => s
    | job :: wire =>
      let r := s.agent id
      { s with
        wire := Function.update s.wire id wire
        agent := Function.update s.agent id { r with threads := r.threads ++ [{ job := job }] } }
  | .act id a =>
    { s with agent := Function.update s.agent id ((a.step (ctx id) (s.agent id)).getD (s.agent id)) }

def Fleet.start : Fleet where
  controller := PeerWan.start MemoryStore.new

-- ---------------------------------------------------------------------------
-- What is to come about
-- ---------------------------------------------------------------------------

/-- The job leads to an update of the shared variables. -/
def Job.sets : Job → Bool
  | .plan _ => true
  | .task taskID type => applies taskID type
  | .command _ => false

/-- The handler may still update the shared variables. -/
def Thread.setting (t : Thread) : Prop :=
  (t.phase = .ready ∧ t.job.sets = true) ∨ ∃ cfg base, t.phase = .based cfg base

/-- A connected node, and nothing that would change what its agent has. -/
structure Fleet.Ready (s : Fleet) (id : String) : Prop where
  online : s.online id = true
  wire : ∀ job ∈ s.wire id, job.sets = false
  threads : ∀ t ∈ (s.agent id).threads, ¬ t.setting

/-- Nothing is on the way, and no handler is at work. -/
def Fleet.Through (s : Fleet) (id : String) : Prop := s.wire id = [] ∧ (s.agent id).finished = true

/-- The step recomputes all plans. -/
def Recomputes (c : Controller MemoryStore) : Event → Prop
  | .tick | .watch => True
  | .request (.register auth body) => ∃ req, RegisterAccepted c.store auth body req
  | _ => False

/-- The connections of these nodes last, their agents run on, and nothing is
sent to them that changes what they have. -/
def Calm (host : Host) (ids : Set String) (s : Fleet) : FleetEvent → Prop
  | .controller env e => e ≠ .restart ∧
      ∀ id ∈ ids, ∀ job ∈ sentSince id s.controller (Event.step host (env, e) s.controller), job.sets = false
  | .operator id job => id ∈ ids → job.sets = false
  | .connect id | .disconnect id | .boot id _ => id ∉ ids
  | .deliver _ | .act .. => True

/-- The agent has the mesh of the records, and a round of self-heal that writes
its files writes that. -/
structure Meshed (ctx : WsCtx) (m : MemoryStore) (id : String) (r : Runtime) : Prop where
  peers : IsMesh m id r.latestCfg.wireGuardPeers
  heals : ctx.apply = true → ∃ r', exec (Act.step ctx) r [.healRead, .healWrite true] = some r' ∧
    r'.written = some (writtenOf ctx r.latestCfg r.latestNode)

def FleetEvent.ReportsFromAgents : FleetEvent → Prop
  | .controller env e => PeerWan.ReportsFromAgents (env, e)
  | _ => True

-- ---------------------------------------------------------------------------
-- What a recomputation sends
-- ---------------------------------------------------------------------------

def planMessage (p : Node × NodeConfigResponse) : WSMessage where
  type := "plan"
  nodeID := p.1.id
  payload := .plan p.2

section

variable {host : Host} {env : Env} {c : Controller MemoryStore}

theorem planConfigVersion_ne_empty (env : Env) (v : Int) : planConfigVersion env v ≠ "" := by
  have hdynamic : ∀ text : String, "dynamic-" ++ text ≠ "" := fun text h => by
    have hlength := congrArg String.length h
    simp [String.length_append] at hlength
  unfold planConfigVersion
  split
  · have hsplit : ("dynamic-v" : String) = "dynamic-" ++ "v" := by decide
    rw [hsplit, String.append_assoc]
    exact hdynamic _
  · exact hdynamic _

structure PlanFor (nodes : List Node) (health : HealthMap) (id : String) (cfg : NodeConfigResponse) : Prop where
  peers : cfg.wireGuardPeers = buildPeerPlan id nodes health
  rules : cfg.policyRules = expandPolicyRules nodes id
  version : cfg.configVersion ≠ ""

theorem savePlans_sent (nodes : List Node) (health : HealthMap) (l : List Node) (c : Controller MemoryStore) :
    ∃ plans : List (Node × NodeConfigResponse), plans.map Prod.fst = l ∧
      (∀ p ∈ plans, PlanFor nodes health p.1.id p.2) ∧
      (savePlans host env nodes health l c).sent = c.sent ++ plans.map planMessage := by
  induction l generalizing c with
  | nil => exact ⟨[], rfl, fun p hp => absurd hp List.not_mem_nil, (List.append_nil _).symm⟩
  | cons n l ih =>
    obtain ⟨plans, hnodes, hplans, hsent⟩ := ih (savePlanWithRules host env n (buildPeerPlan n.id nodes health)
      (expandPolicyRules nodes n.id) c)
    let cfg := configOf (withListenPort n) (planConfigVersion env (int64 (c.planVersion + 1)))
      (buildPeerPlan n.id nodes health) (expandPolicyRules nodes n.id) c.store.settings.orDefault.geoIP
      (c.store.settings.orDefault.intervalSeconds host) "ws plan push"
    refine ⟨(n, cfg) :: plans, by rw [List.map_cons, hnodes], ?_, ?_⟩
    · rintro p hp
      rcases List.mem_cons.mp hp with rfl | hp
      · exact ⟨rfl, rfl, planConfigVersion_ne_empty env _⟩
      · exact hplans p hp
    · rw [savePlans_cons, hsent, savePlanWithRules_eq, List.append_assoc]
      rfl

theorem recomputeAllPlans_sends {id : String} {n : Node} (hn : c.store.nodes.get? id = some n) (k : Nat) :
    ∃ cfg, sentSince id c (recomputeAllPlans host env k c).2 = [.plan cfg] ∧
      PlanFor (c.store.nodes.range (env.nodeOrder k)) c.store.health id cfg := by
  obtain ⟨plans, hnodes, hplans, hsent⟩ := @savePlans_sent host env (c.store.nodes.range (env.nodeOrder k))
    c.store.health (c.store.nodes.range (env.nodeOrder k)) c
  have hown : (plans.filter fun p => p.1.id = id).map Prod.fst = [n] := by
    have hfilter := Table.filter_range c.store.nodes (env.nodeOrder k) id
    rw [hn, ← hnodes, List.filter_map] at hfilter
    exact hfilter
  obtain ⟨p, hp⟩ : ∃ p, (plans.filter fun p => p.1.id = id) = [p] := by
    have hlength := congrArg List.length hown
    rw [List.length_map] at hlength
    exact List.length_eq_one_iff.mp hlength
  have hmem : p ∈ plans.filter fun p => p.1.id = id := hp ▸ List.mem_singleton.mpr rfl
  obtain ⟨hin, hid⟩ := List.mem_filter.mp hmem
  obtain rfl : p.1.id = id := by simpa using hid
  refine ⟨p.2, ?_, hplans p hin⟩
  have hmessages : (plans.map planMessage).filter (·.nodeID = p.1.id) = [planMessage p] := by
    have hfilter : (plans.map planMessage).filter (·.nodeID = p.1.id) =
        (plans.filter fun q => q.1.id = p.1.id).map planMessage := List.filter_map ..
    rw [hfilter, hp]
    rfl
  rw [recomputeAllPlans_eq, sentSince, hsent, List.drop_left, hmessages]
  rfl

/-- The plan is made from the records and reports that the recomputation leaves. -/
def SendsPlan (env : Env) (id : String) (c c' : Controller MemoryStore) : Prop :=
  ∃ cfg, sentSince id c c' = [.plan cfg] ∧ PlanFor (c'.store.nodes.range (env.nodeOrder 1)) c'.store.health id cfg

theorem recomputeAllPlans_sendsPlan {id : String} {n : Node}
    (hn : (recomputeAllPlans host env 1 c).2.store.nodes.get? id = some n) :
    SendsPlan env id c (recomputeAllPlans host env 1 c).2 := by
  have haside := recomputeAllPlans_aside host env 1 c
  rw [haside.nodes] at hn
  obtain ⟨cfg, hsent, hplan⟩ := @recomputeAllPlans_sends host env c id n hn 1
  refine ⟨cfg, hsent, ?_⟩
  rw [haside.nodes, haside.health]
  exact hplan

theorem Recomputes.sends {e : Event} {id : String} {n : Node} (h : Recomputes c e)
    (hn : (Event.step host (env, e) c).store.nodes.get? id = some n) :
    SendsPlan env id c (Event.step host (env, e) c) := by
  cases e with
  | tick => exact recomputeAllPlans_sendsPlan hn
  | watch => exact recomputeAllPlans_sendsPlan hn
  | restart => exact h.elim
  | request r =>
    cases r with
    | register auth body =>
      obtain ⟨req, hacc⟩ := h
      obtain ⟨-, entry, heq⟩ := registered_eq host env (registerSave c.store req).1
        { c with store := (registerSave c.store req).2 }
      have hstep : Event.step host (env, .request (.register auth body)) c =
          bumpPlanVersion (recomputeAllPlans host env 1
            (Controller.audited { c with store := (registerSave c.store req).2 } entry)).2 := by
        rw [← heq, ← register_accepted host env hacc]
        rfl
      rw [hstep] at hn ⊢
      exact recomputeAllPlans_sendsPlan (c := Controller.audited { c with store := (registerSave c.store req).2 } entry)
        hn
    | _ => exact h.elim

theorem Recomputes.allUp {e : Event} (h : Recomputes c e) (hup : AllUp c.store) :
    AllUp (Event.step host (env, e) c).store := by
  refine (hup.step (e := (env, e)) ?_).1
  rintro auth report rfl
  exact h.elim

end

-- ---------------------------------------------------------------------------
-- A plan on its way
-- ---------------------------------------------------------------------------

section

variable {ctx : WsCtx} {cfg : NodeConfigResponse} {wire : List Job} {r r' : Runtime}

def Thread.Brings (ctx : WsCtx) (cfg : NodeConfigResponse) (t : Thread) : Prop :=
  (t.phase = .ready ∧ ∃ p, t.job = .plan p ∧ received ctx p = cfg) ∨ ∃ base, t.phase = .based cfg base

/-- Whatever will change the shared variables brings the plan, and they have it
or something will bring it. -/
structure Settling (ctx : WsCtx) (cfg : NodeConfigResponse) (wire : List Job) (r : Runtime) : Prop where
  sent : ∀ job ∈ wire, job.sets = true → ∃ p, job = .plan p ∧ received ctx p = cfg
  threads : EachThread (fun _ t => t.setting → t.Brings ctx cfg) r.threads
  comes : r.latestCfg = cfg ∨ (∃ p, Job.plan p ∈ wire ∧ received ctx p = cfg) ∨
    ∃ (i : Nat) (t : Thread), r.threads[i]? = some t ∧ t.Brings ctx cfg

theorem Settling.send (h : Settling ctx cfg wire r) {jobs : List Job} (hjobs : ∀ job ∈ jobs, job.sets = false) :
    Settling ctx cfg (wire ++ jobs) r where
  sent job hjob hsets := by
    rcases List.mem_append.mp hjob with hjob | hjob
    · exact h.sent job hjob hsets
    · rw [hjobs job hjob] at hsets
      cases hsets
  threads := h.threads
  comes := h.comes.imp_right (Or.imp_left fun hwire => by
    obtain ⟨p, hp, hcfg⟩ := hwire
    exact ⟨p, List.mem_append_left _ hp, hcfg⟩)

theorem Settling.deliver {job : Job} (h : Settling ctx cfg (job :: wire) r) :
    Settling ctx cfg wire { r with threads := r.threads ++ [{ job := job }] } where
  sent job hjob := h.sent job (List.mem_cons_of_mem _ hjob)
  threads := by
    refine h.threads.concat ?_
    rintro (⟨-, hsets⟩ | ⟨cfg, base, hphase⟩)
    · exact .inl ⟨rfl, h.sent job List.mem_cons_self hsets⟩
    · cases hphase
  comes := by
    rcases h.comes with hlatest | ⟨p, hp, hcfg⟩ | ⟨i, t, ht, hbrings⟩
    · exact .inl hlatest
    · rcases List.mem_cons.mp hp with rfl | hp
      · exact .inr (.inr ⟨r.threads.length, _, List.getElem?_concat_length, .inl ⟨rfl, p, rfl, hcfg⟩⟩)
      · exact .inr (.inl ⟨p, hp, hcfg⟩)
    · have hlt := (List.getElem?_eq_some_iff.mp ht).1
      exact .inr (.inr ⟨i, t, (List.getElem?_append_left hlt).trans ht, hbrings⟩)

theorem Settling.advance (h : Settling ctx cfg wire r) {i : Nat} {p : Phase} {t : Thread} (ht : r.threads[i]? = some t)
    (hbrings : t.Brings ctx cfg → ({ t with phase := p } : Thread).Brings ctx cfg)
    (hsetting : ({ t with phase := p } : Thread).setting → ({ t with phase := p } : Thread).Brings ctx cfg) :
    Settling ctx cfg wire (r.advance i p) where
  sent := h.sent
  threads := by
    refine h.threads.advance fun t' ht' _ => ?_
    obtain rfl := Option.some.inj (ht.symm.trans ht')
    exact hsetting
  comes := by
    refine h.comes.imp_right (Or.imp_right ?_)
    rintro ⟨j, u, hu, hcomes⟩
    by_cases hij : i = j
    · subst hij
      obtain rfl := Option.some.inj (ht.symm.trans hu)
      exact ⟨i, _, by rw [Runtime.advance_thread, if_pos rfl, ht]; rfl, hbrings hcomes⟩
    · exact ⟨j, u, by rw [Runtime.advance_thread, if_neg hij, hu], hcomes⟩

def Phase.pending : Phase → Bool
  | .ready | .based .. => true
  | .merged .. | .written .. | .done => false

theorem Settling.finish (h : Settling ctx cfg wire r) {i : Nat} {p q : Phase} (hp : r.phase i = some p)
    (hold : p.pending = false) (hnew : q.pending = false) : Settling ctx cfg wire (r.advance i q) := by
  obtain ⟨t, ht, rfl⟩ := Option.map_eq_some_iff.mp hp
  refine h.advance ht ?_ ?_
  · rintro (⟨hready, -⟩ | ⟨base, hbased⟩)
    · rw [hready] at hold
      cases hold
    · rw [hbased] at hold
      cases hold
  · rintro (⟨rfl, -⟩ | ⟨c, b, rfl⟩) <;> cases hnew

theorem Settling.based (h : Settling ctx cfg wire r) {i : Nat} {c : NodeConfigResponse} {b : Node}
    (hbased : r.phase i = some (.based c b)) : c = cfg := by
  obtain ⟨t, ht, hphase⟩ := Option.map_eq_some_iff.mp hbased
  rcases h.threads i t ht (.inr ⟨c, b, hphase⟩) with ⟨hready, -⟩ | ⟨base, hbase⟩
  · rw [hphase] at hready
    cases hready
  · rw [hphase] at hbase
    exact (Phase.based.inj hbase).1

theorem Settling.act (h : Settling ctx cfg wire r) {a : Act} (ha : a.step ctx r = some r') :
    Settling ctx cfg wire r' := by
  cases moved ha with
  | @read i t ht hready =>
    refine h.advance ht ?_ ?_
    · rintro (⟨-, p, hp, hcfg⟩ | ⟨base, hbased⟩)
      · exact .inr ⟨r.latestNode, by rw [hp, Job.read, hcfg]⟩
      · rw [hready] at hbased
        cases hbased
    · intro hsetting
      -- what is read in a job that sets is the plan that it brings
      have hbrings : t.job.sets = true → ∃ p, t.job = .plan p ∧ received ctx p = cfg := by
        intro hsets
        rcases h.threads i t ht (.inl ⟨hready, hsets⟩) with ⟨-, hp⟩ | ⟨base, hbased⟩
        · exact hp
        · rw [hready] at hbased
          cases hbased
      cases hjob : t.job with
      | plan p =>
        obtain ⟨p', hp', hcfg⟩ := hbrings (by rw [hjob]; rfl)
        obtain rfl : p = p' := by
          rw [hjob] at hp'
          exact Job.plan.inj hp'
        exact .inr ⟨r.latestNode, by rw [Job.read, hcfg]⟩
      | task taskID type =>
        by_cases happ : applies taskID type = true
        · obtain ⟨p, hp, -⟩ := hbrings (by rw [hjob]; exact happ)
          rw [hjob] at hp
          cases hp
        · rw [Thread.setting, hjob, Job.read, if_neg happ] at hsetting
          rcases hsetting with ⟨hphase, -⟩ | ⟨c, b, hphase⟩ <;> cases hphase
      | command action =>
        rw [Thread.setting, hjob, Job.read] at hsetting
        split at hsetting
        · rcases hsetting with ⟨hphase, -⟩ | ⟨c, b, hphase⟩ <;> cases hphase
        · rcases hsetting with ⟨hphase, -⟩ | ⟨c, b, hphase⟩ <;> cases hphase
  | @update i c b hbased =>
    have hsame : c = cfg := h.based hbased
    subst hsame
    have hthreads : EachThread (fun _ t => t.setting → t.Brings ctx c) (r.advance i (.merged c b)).threads := by
      refine h.threads.advance fun t' _ _ => ?_
      rintro (⟨hready, -⟩ | ⟨c, b, hphase⟩)
      · cases hready
      · cases hphase
    exact ⟨h.sent, hthreads, .inl rfl⟩
  | @write i c b hmerged =>
    have hdone : Settling ctx cfg wire (r.advance i (.written c b)) := h.finish hmerged rfl rfl
    exact ⟨hdone.sent, hdone.threads, hdone.comes⟩
  | writeFails hmerged => exact h.finish hmerged rfl rfl
  | finish hwritten => exact h.finish hwritten rfl rfl
  | healRead => exact ⟨h.sent, h.threads, h.comes⟩
  | healSkips => exact h
  | healWrite => exact ⟨h.sent, h.threads, h.comes⟩
  | healFails => exact ⟨h.sent, h.threads, h.comes⟩

theorem not_setting {threads : List Thread} (h : threads.all (·.phase = .done) = true) :
    ∀ t ∈ threads, ¬ t.setting := by
  intro t ht
  have hdone : t.phase = .done := by simpa using List.all_eq_true.mp h t ht
  rintro (⟨hready, -⟩ | ⟨cfg, base, hbased⟩)
  · rw [hdone] at hready
    cases hready
  · rw [hdone] at hbased
    cases hbased

theorem Thread.Brings.setting {t : Thread} (h : t.Brings ctx cfg) : t.setting := by
  rcases h with ⟨hready, p, hp, -⟩ | ⟨base, hbased⟩
  · exact .inl ⟨hready, by rw [hp]; rfl⟩
  · exact .inr ⟨cfg, base, hbased⟩

theorem Settling.latest (h : Settling ctx cfg [] r) (hfinished : r.finished = true) : r.latestCfg = cfg := by
  rw [Runtime.finished, Bool.and_eq_true] at hfinished
  rcases h.comes with hlatest | ⟨p, hp, -⟩ | ⟨i, t, ht, hbrings⟩
  · exact hlatest
  · cases hp
  · exact absurd hbrings.setting (not_setting hfinished.1 t (List.mem_of_getElem? ht))

theorem heals (happly : ctx.apply = true) (hfinished : r.finished = true) (hversion : r.latestCfg.configVersion ≠ "") :
    ∃ r', exec (Act.step ctx) r [.healRead, .healWrite true] = some r' ∧
      r'.written = some (writtenOf ctx r.latestCfg r.latestNode) := by
  have hidle : r.healer = none := by
    rw [Runtime.finished, Bool.and_eq_true] at hfinished
    simpa using hfinished.2
  have hread : Act.step ctx .healRead r = some { r with healer := some (r.latestCfg, r.latestNode) } := by
    rw [Act.step, hidle]
    exact if_pos ⟨happly, hversion⟩
  exact ⟨_, exec_cons.mpr ⟨_, hread, rfl⟩, rfl⟩

end

-- ---------------------------------------------------------------------------
-- Runs
-- ---------------------------------------------------------------------------

section

variable {host : Host} {ctx : String → WsCtx} {s : Fleet} {e : FleetEvent} {id : String}

theorem Fleet.controller_step (host : Host) (ctx : String → WsCtx) (env : Env) (e : Event) (s : Fleet) :
    (Fleet.step host ctx (.controller env e) s).controller = Event.step host (env, e) s.controller ∧
      (Fleet.step host ctx (.controller env e) s).agent = s.agent := by
  cases e <;> exact ⟨rfl, rfl⟩

theorem Fleet.controller_wire {env : Env} {e : Event} (he : e ≠ .restart) (hid : s.online id = true) :
    (Fleet.step host ctx (.controller env e) s).wire id =
      s.wire id ++ sentSince id s.controller (Event.step host (env, e) s.controller) := by
  cases e with
  | restart => exact absurd rfl he
  | request r => exact if_pos hid
  | tick => exact if_pos hid
  | watch => exact if_pos hid

theorem AllUp.fleet (h : AllUp s.controller.store) (he : e.ReportsFromAgents) :
    AllUp (Fleet.step host ctx e s).controller.store := by
  cases e with
  | controller env e =>
    rw [(Fleet.controller_step host ctx env e s).1]
    exact (h.step he).1
  | deliver id =>
    rw [Fleet.step]
    split <;> exact h
  | _ => exact h

theorem AllUp.fleet_run {es : List FleetEvent} (h : AllUp s.controller.store)
    (hagents : ∀ e ∈ es, e.ReportsFromAgents) : AllUp (run (Fleet.step host ctx) s es).controller.store := by
  have hall : Throughout (Fleet.step host ctx) (fun s => AllUp s.controller.store) s es :=
    throughout_of_permitted (fun _ _ h he => h.fleet he) h hagents
  exact hall.final

def Fleet.Brings (ctx : String → WsCtx) (id : String) (cfg : NodeConfigResponse) (s : Fleet) : Prop :=
  s.online id = true ∧ Settling (ctx id) cfg (s.wire id) (s.agent id)

theorem Fleet.Brings.step {cfg : NodeConfigResponse} {ids : Set String} (h : s.Brings ctx id cfg) (hid : id ∈ ids)
    (hcalm : Calm host ids s e) : (Fleet.step host ctx e s).Brings ctx id cfg := by
  obtain ⟨honline, hsettling⟩ := h
  cases e with
  | controller env e =>
    obtain ⟨he, hsent⟩ := hcalm
    refine ⟨?_, ?_⟩
    · cases e with
      | restart => exact absurd rfl he
      | _ => exact honline
    · rw [Fleet.controller_wire he honline, (Fleet.controller_step host ctx env e s).2]
      exact hsettling.send (hsent id hid)
  | operator id' job =>
    refine ⟨honline, ?_⟩
    simp only [Fleet.step]
    by_cases hsame : id = id'
    · subst hsame
      rw [Function.update_self, Fleet.send, if_pos honline]
      refine hsettling.send fun job' hjob => ?_
      rw [List.mem_singleton.mp hjob]
      exact hcalm hid
    · rw [Function.update_of_ne hsame]
      exact hsettling
  | connect id' | disconnect id' =>
    have hother : id ≠ id' := by
      rintro rfl
      exact hcalm hid
    simp only [Fleet.step, Fleet.Brings, Function.update_of_ne hother]
    exact ⟨honline, hsettling⟩
  | boot id' node =>
    have hother : id ≠ id' := by
      rintro rfl
      exact hcalm hid
    simp only [Fleet.step, Fleet.Brings, Function.update_of_ne hother]
    exact ⟨honline, hsettling⟩
  | deliver id' =>
    rw [Fleet.step]
    split
    · exact ⟨honline, hsettling⟩
    next job wire hwire =>
      refine ⟨honline, ?_⟩
      by_cases hsame : id = id'
      · subst hsame
        simp only [Function.update_self]
        rw [hwire] at hsettling
        exact hsettling.deliver
      · simp only [Function.update_of_ne hsame]
        exact hsettling
  | act id' a =>
    refine ⟨honline, ?_⟩
    simp only [Fleet.step]
    by_cases hsame : id = id'
    · subst hsame
      rw [Function.update_self]
      cases hact : a.step (ctx id) (s.agent id) with
      | none => exact hsettling
      | some r' => exact hsettling.act hact
    · rw [Function.update_of_ne hsame]
      exact hsettling

theorem Fleet.Brings.latest {cfg : NodeConfigResponse} {ids : Set String} {fs : List FleetEvent}
    (h : s.Brings ctx id cfg) (hid : id ∈ ids) (hcalm : Along (Fleet.step host ctx) (Calm host ids) s fs)
    (hthrough : (run (Fleet.step host ctx) s fs).Through id) :
    ((run (Fleet.step host ctx) s fs).agent id).latestCfg = cfg := by
  have hsettled : (run (Fleet.step host ctx) s fs).Brings ctx id cfg :=
    (throughout_of_along (fun _ _ h hc => h.step hid hc) h hcalm).final
  obtain ⟨hwire, hfinished⟩ := hthrough
  have hsettling := hsettled.2
  rw [hwire] at hsettling
  exact hsettling.latest hfinished

theorem Fleet.Ready.brings {env : Env} {e : Event} {n : Node} (h : s.Ready id)
    (hrecomputes : Recomputes s.controller e)
    (hn : (Event.step host (env, e) s.controller).store.nodes.get? id = some n) :
    let c' := Event.step host (env, e) s.controller
    ∃ cfg, (Fleet.step host ctx (.controller env e) s).Brings ctx id (received (ctx id) cfg) ∧
      PlanFor (c'.store.nodes.range (env.nodeOrder 1)) c'.store.health id cfg := by
  obtain ⟨cfg, hsent, hplan⟩ := hrecomputes.sends hn
  have he : e ≠ .restart := by
    rintro rfl
    exact hrecomputes
  refine ⟨cfg, ⟨?_, ?_⟩, hplan⟩
  · cases e with
    | restart => exact absurd rfl he
    | _ => exact h.online
  · rw [Fleet.controller_wire he h.online, (Fleet.controller_step host ctx env e s).2, hsent]
    refine ⟨fun job hjob hsets => ?_, fun i t ht hsetting => ?_, .inr (.inl ⟨cfg, ?_, rfl⟩)⟩
    · rcases List.mem_append.mp hjob with hjob | hjob
      · rw [h.wire job hjob] at hsets
        cases hsets
      · exact ⟨cfg, List.mem_singleton.mp hjob, rfl⟩
    · exact absurd hsetting (h.threads t (List.mem_of_getElem? ht))
    · exact List.mem_append_right _ List.mem_cons_self

end

theorem received_configVersion (ctx : WsCtx) (cfg : NodeConfigResponse) :
    (received ctx cfg).configVersion = cfg.configVersion := by
  unfold received
  split <;> rfl

/-- After any run in which the reports are those of agents, a recomputation
meshes connected agents to whom nothing else is under way: however the handlers
of all agents move from then on, and whatever else is requested, reported,
connected or lost beside them, once they are through each agent has one peer for
every other complete node, and the next self-heal writes that. -/
theorem fleet_meshes (host : Host) (ctx : String → WsCtx) (es : List FleetEvent) (env : Env) (e : Event)
    (fs : List FleetEvent) (ids : Set String) (hagents : ∀ e ∈ es, e.ReportsFromAgents)
    (hrecomputes : Recomputes (run (Fleet.step host ctx) .start es).controller e)
    (hready : ∀ id ∈ ids, (run (Fleet.step host ctx) .start es).Ready id) :
    let s := Fleet.step host ctx (.controller env e) (run (Fleet.step host ctx) .start es)
    let s' := run (Fleet.step host ctx) s fs
    Along (Fleet.step host ctx) (Calm host ids) s fs → (∀ id ∈ ids, s'.Through id) →
    ∀ id ∈ ids, (s.controller.store.nodes.get? id).isSome →
      Meshed (ctx id) s.controller.store id (s'.agent id) := by
  intro s s' hcalm hthrough id hid hregistered
  have hup : AllUp (run (Fleet.step host ctx) .start es).controller.store := by
    have hstart : AllUp Fleet.start.controller.store := ⟨by rintro _ ⟨⟩, by rintro _ ⟨⟩⟩
    exact hstart.fleet_run hagents
  obtain ⟨n, hn⟩ := Option.isSome_iff_exists.mp hregistered
  have hstep := Fleet.controller_step host ctx env e (run (Fleet.step host ctx) .start es)
  have hafter : AllUp s.controller.store := hstep.1 ▸ hrecomputes.allUp hup
  obtain ⟨cfg, hbrings, hplan⟩ := @Fleet.Ready.brings host ctx _ id env e n (hready id hid) hrecomputes (hstep.1 ▸ hn)
  have hlatest : (s'.agent id).latestCfg = received (ctx id) cfg := hbrings.latest hid hcalm (hthrough id hid)
  constructor
  · rw [hlatest, received_peers, hplan.peers, ← hstep.1]
    exact hafter.isMesh _ _
  · intro happly
    refine heals happly (hthrough id hid).2 ?_
    rw [hlatest, received_configVersion]
    exact hplan.version

def pairEvents : List FleetEvent := [
  .controller {} (.request (.register { jwt := true }
    (some { id := "a", publicKey := "key-a", cidrs := ["10.1.0.0/16"] }))),
  .boot "a" { id := "a" }, .connect "a",
  .controller {} (.request (.health { jwt := true } (some (reportOnce (fun _ => none) "a" [] ∅ 0)))),
  .deliver "a", .act "a" (.read 0), .act "a" (.update 0), .act "a" (.write 0 true), .act "a" (.finish 0 true),
  .boot "b" { id := "b" }, .connect "b"]

def pairRegister : Event := .request (.register { jwt := true }
  (some { id := "b", publicKey := "key-b", cidrs := ["10.2.0.0/16"] }))

def pairMoves : List FleetEvent := [
  .deliver "b", .act "b" (.read 0), .deliver "a", .act "a" .healRead, .act "a" (.read 1), .act "b" (.update 0),
  .act "a" (.update 1), .act "a" (.write 1 true), .disconnect "c", .act "a" (.healWrite true),
  .act "a" (.finish 1 true), .act "b" (.write 0 false)]

def pairCtx (id : String) : WsCtx := { apply := true, nodeID := id }

theorem fleet_meshes_pair :
    let s := Fleet.step .sample pairCtx (.controller {} pairRegister)
      (run (Fleet.step .sample pairCtx) .start pairEvents)
    let s' := run (Fleet.step .sample pairCtx) s pairMoves
    ∀ id ∈ ({"a", "b"} : Set String), (s.controller.store.nodes.get? id).isSome →
      Meshed (pairCtx id) s.controller.store id (s'.agent id) := by
  refine fleet_meshes .sample pairCtx pairEvents {} pairRegister pairMoves {"a", "b"} ?_ ?_ ?_ ?_ ?_
  · simp only [pairEvents, List.mem_cons, List.not_mem_nil, or_false]
    rintro e (rfl | rfl | rfl | rfl | rfl | rfl | rfl | rfl | rfl | rfl | rfl)
    · rintro _ _ ⟨⟩
    · trivial
    · trivial
    · rintro _ _ ⟨⟩
      exact ⟨_, _, _, _, _, rfl⟩
    all_goals trivial
  · exact ⟨_, ⟨_, rfl, rfl⟩, by decide, rfl⟩
  · rintro id (rfl | rfl)
    · exact ⟨rfl, by decide, not_setting (by decide)⟩
    · exact ⟨rfl, by decide, not_setting (by decide)⟩
  · have hother : "c" ∉ ({"a", "b"} : Set String) := by simp
    exact ⟨trivial, trivial, trivial, trivial, trivial, trivial, trivial, trivial, hother, trivial, trivial, trivial,
      trivial⟩
  · rintro id (rfl | rfl)
    · exact ⟨rfl, rfl⟩
    · exact ⟨rfl, rfl⟩

end PeerWan
