import PeerWan.Agent.Plan

/-!
# An agent's session

The handlers of `pkg/agent/plan.go`, one message at a time: a pushed plan, a
task, a command, a tick of the self-heal loop. A handler gives the shared
variables it leaves and what it did, in order. What a shell command or a file
write comes to is an input.

Every configuration the agent writes is to hold the peers of the plan it
received last, the registration response being the first. Three of the four
entry points render from the cached plan, and only one of them looks whether
there is one. Handlers that interleave are the subject of `Agent.Threads`.
-/

namespace PeerWan

open Lib

-- ---------------------------------------------------------------------------
-- Effects
-- ---------------------------------------------------------------------------

structure Outcomes where
  render : Except String Unit := .ok ()
  applied : Except String Unit := .ok ()
  verify : Except String Unit := .ok ()
  script : String × Option String := ("", none)

structure RenderCall where
  outputDir : String
  iface : String
  node : Node
  peers : List Peer
  privateKey : String
  asn : Int
  deriving DecidableEq, Repr

inductive Effect where
  | report (nodeID version status message : String) (logs : List String)
  | diag (nodeID version : String) (peers : List Peer)
  | render (call : RenderCall)
  | applyConfigs
  | step (taskID nodeID name status message : String)
  deriving DecidableEq, Repr

structure Agent where
  latestCfg : NodeConfigResponse := {}
  latestNode : Node := {}
  currentTask : String := ""
  deriving DecidableEq, Repr

/-- The handler of a pushed plan has no HTTP client, and so reports nothing. -/
def reportPolicyStatus (ctx : WsCtx) (client : Bool) (nodeID version status message : String)
    (logs : List String) : List Effect :=
  if !client ∨ ctx.controller = "" ∨ nodeID = "" ∨ status = "" then []
  else [.report nodeID version status message logs]

def runPolicyDiag (ctx : WsCtx) (client : Bool) (node : Node) (cfg : NodeConfigResponse) : List Effect :=
  if !client ∨ ctx.controller = "" then [] else [.diag node.id cfg.configVersion cfg.wireGuardPeers]

def renderCall (ctx : WsCtx) (base : Node) (cfg : NodeConfigResponse) : RenderCall :=
  let (n, nextASN) := mergePlanIntoNode base cfg ctx.asn
  { outputDir := ctx.outDir
    iface := ctx.iface
    node := n
    peers := cfg.wireGuardPeers
    privateKey := ctx.privateKey
    asn := nextASN }

-- ---------------------------------------------------------------------------
-- Rendering and applying
-- ---------------------------------------------------------------------------

/-- The texts in which the two callers of `RenderAndWrite` differ. -/
structure RefreshTexts where
  status : String
  started : String
  renderFailed : String
  renderError : String
  applyFailed : String
  applyError : String
  succeeded : String
  logs : List String

def refresh (t : RefreshTexts) (ctx : WsCtx) (client : Bool) (o : Outcomes) (base : Node)
    (cfg : NodeConfigResponse) : Except String Unit × List Effect :=
  let call := renderCall ctx base cfg
  let report := reportPolicyStatus ctx client call.node.id cfg.configVersion
  let started := report t.status t.started [] ++ [.render call]
  match o.render with
  | .error e => (.error (t.renderError ++ e), started ++ report "failed" (t.renderFailed ++ e) [])
  | .ok () =>
    let applying := if ctx.apply then started ++ [.applyConfigs] else started
    match if ctx.apply then o.applied else .ok () with
    | .error e => (.error (t.applyError ++ e), applying ++ report "failed" (t.applyFailed ++ e) [])
    | .ok () => (.ok (), applying ++ report "success" t.succeeded t.logs ++
        runPolicyDiag ctx client call.node cfg)

def handlePlanTexts : RefreshTexts where
  status := "applying"
  started := "下发策略，准备写入配置"
  renderFailed := "渲染失败: "
  renderError := "render: "
  applyFailed := "应用失败: "
  applyError := "apply: "
  succeeded := "策略配置已应用"
  logs := ["wg+frr+iptables已刷新"]

/-- The shared variables take the plan before it is rendered. Both callers drop
the node that comes with the error. -/
def handlePlan (ctx : WsCtx) (client : Bool) (o : Outcomes) (cfg : NodeConfigResponse) (node : Node)
    (s : Agent) : Except String Unit × Agent × List Effect :=
  let (result, effects) := refresh handlePlanTexts ctx client o node cfg
  (result, { s with latestCfg := cfg, latestNode := (mergePlanIntoNode node cfg ctx.asn).1 }, effects)

def ensureRuntimeTexts : RefreshTexts where
  status := "checking"
  started := "自检策略，修复缺失规则"
  renderFailed := "自检渲染失败: "
  renderError := "render (runtime ensure): "
  applyFailed := "自检应用失败: "
  applyError := "apply (runtime ensure): "
  succeeded := "自检完成，策略已同步"
  logs := []

def ensureRuntimeState (ctx : WsCtx) (o : Outcomes) (cfg : NodeConfigResponse) (base : Node) : List Effect :=
  (refresh ensureRuntimeTexts ctx true o base cfg).2

-- ---------------------------------------------------------------------------
-- Handlers
-- ---------------------------------------------------------------------------

/-- A plan without an ID is the agent's own. -/
def received (ctx : WsCtx) (cfg : NodeConfigResponse) : NodeConfigResponse :=
  if cfg.id = "" then { cfg with id := ctx.nodeID } else cfg

/-- A payload that does not decode is `none`. -/
def handleWSPlan (ctx : WsCtx) (o : Outcomes) (payload : Option NodeConfigResponse) (s : Agent) :
    Agent × List Effect :=
  match payload with
  | none => (s, [])
  | some cfg => (handlePlan ctx false o (received ctx cfg) s.latestNode s).2

/-- A field of the payload that is missing or no string is empty. Which targets
are verified is left to `o.verify`. -/
def handleWSTask (ctx : WsCtx) (o : Outcomes) (taskID type : String) (s : Agent) : Agent × List Effect :=
  let cfg := s.latestCfg
  let n := s.latestNode
  if taskID = "" ∨ type = "" then (s, [])
  else
    let s := { s with currentTask := taskID }
    let step := Effect.step taskID n.id
    let diag := runPolicyDiag ctx true n cfg
    let checked := step "environment_check" "running" "检查环境" ::
      diag ++ [step "environment_check" "success" "环境检查完成"]
    let complete := fun (s : Agent) (effects : List Effect) =>
      ({ s with currentTask := "" }, effects ++ [step "complete" "success" "任务完成"])
    let verifying := fun (success : String) (s : Agent) (effects : List Effect) =>
      let effects := effects ++ [step "verify" "running" "出口验证"]
      match o.verify with
      | .error e => (s, effects ++ [step "verify" "fail" e])
      | .ok () => complete s (effects ++ [step "verify" "success" success])
    if type = "policy_diag" then
      complete s (checked ++ step "diag" "running" "策略诊断" :: diag ++ [step "diag" "success" "诊断完成"])
    else if type = "verify" then verifying "目标验证通过" s checked
    else
      let (result, s, effects) := handlePlan ctx true o cfg n s
      let applying := checked ++ step "apply" "running" "应用策略" :: effects
      match result with
      | .error e => (s, applying ++ [step "apply" "fail" e])
      | .ok () => verifying "curl 验证通过" s (applying ++ step "apply" "success" "策略应用完成" ::
          step "self_test" "running" "自检验证" :: diag ++ [step "self_test" "success" "自检完成"])

def handleWSCommand (ctx : WsCtx) (o : Outcomes) (action cmd : String) (s : Agent) : List Effect :=
  let cfg := s.latestCfg
  let n := s.latestNode
  let report := reportPolicyStatus ctx true n.id cfg.configVersion
  if action = "diag" then runPolicyDiag ctx true n cfg
  else if action = "install" then ensureRuntimeState ctx o cfg n
  else if action = "verify" then
    match o.verify with
    | .error e => report "failed" e []
    | .ok () => report "success" "验证通过" []
  else if action = "script" then
    if cmd = "" then []
    else match o.script with
      | (out, some e) => report "failed" ("脚本错误: " ++ e) [out]
      | (out, none) => report "success" "脚本执行完成" [out]
  else []

def selfHeal (ctx : WsCtx) (o : Outcomes) (s : Agent) : List Effect :=
  if ctx.apply ∧ s.latestCfg.configVersion ≠ "" then ensureRuntimeState ctx o s.latestCfg s.latestNode else []

inductive Message where
  | plan (payload : Option NodeConfigResponse)
  | task (taskID type : String)
  | command (action cmd : String)
  | tick
  deriving DecidableEq, Repr

def Message.handle (ctx : WsCtx) (o : Outcomes) (m : Message) (s : Agent) : Agent × List Effect :=
  match m with
  | .plan payload => handleWSPlan ctx o payload s
  | .task taskID type => handleWSTask ctx o taskID type s
  | .command action cmd => (s, handleWSCommand ctx o action cmd s)
  | .tick => (s, selfHeal ctx o s)

-- ---------------------------------------------------------------------------
-- What a message renders
-- ---------------------------------------------------------------------------

def applies (taskID type : String) : Bool :=
  taskID ≠ "" && type ≠ "" && type ≠ "policy_diag" && type ≠ "verify"

def Message.reapplies : Message → Bool
  | .task taskID type => applies taskID type
  | .command action _ => action = "install"
  | _ => false

def Message.pushes : Message → Bool
  | .plan (some _) => true
  | _ => false

def Message.rendered (ctx : WsCtx) (s : Agent) : Message → Option NodeConfigResponse
  | .plan payload => payload.map (received ctx)
  | .tick => if ctx.apply ∧ s.latestCfg.configVersion ≠ "" then some s.latestCfg else none
  | m => if m.reapplies then some s.latestCfg else none

@[simp] theorem render_mem_report {ctx : WsCtx} {client : Bool} {nodeID version status message : String}
    {logs : List String} {call : RenderCall} :
    .render call ∉ reportPolicyStatus ctx client nodeID version status message logs := by
  unfold reportPolicyStatus
  split <;> simp

@[simp] theorem render_mem_diag {ctx : WsCtx} {client : Bool} {node : Node} {cfg : NodeConfigResponse}
    {call : RenderCall} : .render call ∉ runPolicyDiag ctx client node cfg := by
  unfold runPolicyDiag
  split <;> simp

@[simp] theorem render_mem_refresh {t : RefreshTexts} {ctx : WsCtx} {client : Bool} {o : Outcomes}
    {base : Node} {cfg : NodeConfigResponse} {call : RenderCall} :
    .render call ∈ (refresh t ctx client o base cfg).2 ↔ call = renderCall ctx base cfg := by
  unfold refresh
  cases o.render with
  | error e => simp
  | ok =>
    cases ctx.apply with
    | false => simp
    | true => cases o.applied <;> simp

/-- A task that applies the cached plan renders it, and merges it once more. -/
theorem handleWSTask_applies (ctx : WsCtx) (o : Outcomes) (taskID type : String) (s : Agent) :
    (∀ call, .render call ∈ (handleWSTask ctx o taskID type s).2 ↔
        applies taskID type ∧ call = renderCall ctx s.latestNode s.latestCfg) ∧
      (handleWSTask ctx o taskID type s).1.latestCfg = s.latestCfg ∧
      (handleWSTask ctx o taskID type s).1.latestNode =
        if applies taskID type then absorb ctx.asn s.latestCfg s.latestNode else s.latestNode := by
  unfold handleWSTask applies
  by_cases hblank : taskID = "" ∨ type = ""
  · simp only [hblank, if_true]
    rcases hblank with h | h <;> simp [h]
  rw [not_or] at hblank
  simp only [hblank, or_self, if_false]
  by_cases hdiag : type = "policy_diag"
  · simp [hdiag]
  by_cases hverify : type = "verify"
  · cases o.verify <;> simp [hverify]
  simp only [hdiag, hverify, if_false, handlePlan]
  cases h : (refresh handlePlanTexts ctx true o s.latestNode s.latestCfg).1 with
  | error e => simp [hblank, hdiag, hverify, absorb]
  | ok => cases o.verify <;> simp [hblank, hdiag, hverify, absorb]

@[simp] theorem render_mem_task {ctx : WsCtx} {o : Outcomes} {taskID type : String} {s : Agent}
    {call : RenderCall} : .render call ∈ (handleWSTask ctx o taskID type s).2 ↔
      applies taskID type ∧ call = renderCall ctx s.latestNode s.latestCfg :=
  (handleWSTask_applies ctx o taskID type s).1 call

theorem render_mem_handle {ctx : WsCtx} {o : Outcomes} {m : Message} {s : Agent} {call : RenderCall} :
    .render call ∈ (m.handle ctx o s).2 ↔
      ∃ cfg ∈ m.rendered ctx s, call = renderCall ctx s.latestNode cfg := by
  cases m with
  | plan payload => cases payload <;> simp [Message.handle, handleWSPlan, handlePlan, Message.rendered]
  | task taskID type =>
    simp only [Message.handle, render_mem_task, Message.rendered, Message.reapplies]
    by_cases h : applies taskID type = true <;> simp [h]
  | command action cmd =>
    simp only [Message.handle, handleWSCommand, Message.rendered, Message.reapplies]
    by_cases hinstall : action = "install"
    · simp [hinstall, ensureRuntimeState]
    · cases o.verify <;> cases o.script.2 <;> grind [render_mem_report, render_mem_diag]
  | tick =>
    simp only [Message.handle, selfHeal, Message.rendered]
    split <;> simp [ensureRuntimeState]

theorem task_latest (ctx : WsCtx) (o : Outcomes) (taskID type : String) (s : Agent) :
    (handleWSTask ctx o taskID type s).1.latestCfg = s.latestCfg ∧
      (handleWSTask ctx o taskID type s).1.latestNode =
        if applies taskID type then absorb ctx.asn s.latestCfg s.latestNode else s.latestNode :=
  (handleWSTask_applies ctx o taskID type s).2

theorem handle_latestCfg (ctx : WsCtx) (o : Outcomes) (m : Message) (s : Agent) :
    (m.handle ctx o s).1.latestCfg = match m with
      | .plan (some cfg) => received ctx cfg
      | _ => s.latestCfg := by
  cases m with
  | plan payload => cases payload <;> rfl
  | task taskID type => exact (task_latest ctx o taskID type s).1
  | command => rfl
  | tick => rfl

-- ---------------------------------------------------------------------------
-- The peers of the most recent plan
-- ---------------------------------------------------------------------------

/-- The shared variables, and the peers of the plan received last, which no
code keeps. -/
structure Session where
  agent : Agent
  recent : List Peer
  deriving DecidableEq

def Session.start (flags : Flags) (reg : NodeConfigResponse) : Session where
  agent := { latestNode := bootNode flags reg }
  recent := reg.wireGuardPeers

def Message.recentPeers (m : Message) (peers : List Peer) : List Peer :=
  match m with
  | .plan (some cfg) => cfg.wireGuardPeers
  | _ => peers

def Session.step (ctx : WsCtx) (e : Outcomes × Message) (s : Session) : Session where
  agent := (e.2.handle ctx e.1 s.agent).1
  recent := e.2.recentPeers s.recent

def Effect.Renders (peers : List Peer) : Effect → Prop
  | .render call => call.peers = peers
  | _ => True

instance (peers : List Peer) : (e : Effect) → Decidable (e.Renders peers)
  | .render _ => inferInstanceAs (Decidable (_ = _))
  | .report .. | .diag .. | .applyConfigs | .step .. => isTrue trivial

def Session.RendersRecent (ctx : WsCtx) (s : Session) (e : Outcomes × Message) : Prop :=
  ∀ effect ∈ (e.2.handle ctx e.1 s.agent).2, effect.Renders (e.2.recentPeers s.recent)

instance (ctx : WsCtx) (s : Session) (e : Outcomes × Message) : Decidable (s.RendersRecent ctx e) :=
  inferInstanceAs (Decidable (∀ effect ∈ _, _))

theorem rendersRecent_iff {ctx : WsCtx} {s : Session} {e : Outcomes × Message} :
    s.RendersRecent ctx e ↔
      ∀ cfg ∈ e.2.rendered ctx s.agent, cfg.wireGuardPeers = e.2.recentPeers s.recent := by
  refine ⟨fun h cfg hcfg => h (.render (renderCall ctx s.agent.latestNode cfg))
    (render_mem_handle.mpr ⟨cfg, hcfg, rfl⟩), fun h effect he => ?_⟩
  cases effect with
  | render call =>
    obtain ⟨cfg, hcfg, rfl⟩ := render_mem_handle.mp he
    exact h cfg hcfg
  | _ => trivial

theorem received_peers (ctx : WsCtx) (cfg : NodeConfigResponse) :
    (received ctx cfg).wireGuardPeers = cfg.wireGuardPeers := by
  unfold received
  split <;> rfl

theorem rendered_cases {ctx : WsCtx} {s : Agent} {m : Message} {cfg : NodeConfigResponse}
    (h : cfg ∈ m.rendered ctx s) :
    (∃ pushed, m = .plan (some pushed) ∧ cfg = received ctx pushed) ∨ (m.pushes = false ∧ cfg = s.latestCfg) := by
  cases m with
  | plan payload =>
    cases payload with
    | none => simp [Message.rendered] at h
    | some pushed => exact .inl ⟨pushed, rfl, by simpa [Message.rendered, eq_comm] using h⟩
  | _ =>
    refine .inr ⟨rfl, ?_⟩
    simp only [Message.rendered] at h
    split at h
    · simpa [eq_comm] using h
    · simp at h

theorem step_of_not_pushes {m : Message} (h : m.pushes = false) (ctx : WsCtx) (o : Outcomes) (s : Session) :
    (Session.step ctx (o, m) s).agent.latestCfg = s.agent.latestCfg ∧ m.recentPeers s.recent = s.recent := by
  simp only [Session.step, handle_latestCfg]
  cases m with
  | plan payload => cases payload with
    | none => exact ⟨rfl, rfl⟩
    | some cfg => simp [Message.pushes] at h
  | _ => exact ⟨rfl, rfl⟩

def Session.Cached (s : Session) : Prop := s.agent.latestCfg.wireGuardPeers = s.recent

theorem Session.cached_of_pushes {m : Message} (h : m.pushes) (ctx : WsCtx) (o : Outcomes) (s : Session) :
    (Session.step ctx (o, m) s).Cached := by
  simp only [Cached, Session.step, handle_latestCfg]
  cases m with
  | plan payload => cases payload with
    | none => simp [Message.pushes] at h
    | some cfg => exact received_peers ctx cfg
  | _ => simp [Message.pushes] at h

theorem Session.Cached.step {ctx : WsCtx} {s : Session} (e : Outcomes × Message) (h : s.Cached) :
    (Session.step ctx e s).Cached := by
  obtain ⟨o, m⟩ := e
  cases hm : m.pushes with
  | true => exact cached_of_pushes hm ctx o s
  | false =>
    obtain ⟨hcfg, hrecent⟩ := step_of_not_pushes hm ctx o s
    exact (congrArg _ hcfg).trans (h.trans hrecent.symm)

theorem Session.Cached.rendersRecent {ctx : WsCtx} {s : Session} (e : Outcomes × Message) (h : s.Cached) :
    s.RendersRecent ctx e := by
  obtain ⟨o, m⟩ := e
  refine rendersRecent_iff.mpr fun cfg hcfg => ?_
  rcases rendered_cases hcfg with ⟨pushed, rfl, rfl⟩ | ⟨hm, rfl⟩
  · exact received_peers ctx pushed
  · exact h.trans (step_of_not_pushes hm ctx o s).2.symm

theorem Session.Cached.along (ctx : WsCtx) {s : Session} (h : s.Cached) (es : List (Outcomes × Message)) :
    Along (Session.step ctx) (Session.RendersRecent ctx) s es :=
  along_of_invariant (I := Session.Cached) (fun _ e => Cached.step e) (fun _ e => Cached.rendersRecent e) h es

/-- Before the first plan, a message renders the zero plan or nothing. -/
theorem rendersRecent_blank {ctx : WsCtx} {s : Session} {o : Outcomes} {m : Message}
    (hblank : s.agent.latestCfg = {}) (hm : m.pushes = false) :
    s.RendersRecent ctx (o, m) ↔ s.recent = [] ∨ m.reapplies = false := by
  rw [rendersRecent_iff, (step_of_not_pushes hm ctx o s).2]
  have hpeers : ({} : NodeConfigResponse).wireGuardPeers = s.recent ↔ s.recent = [] := eq_comm
  cases m with
  | plan payload => cases payload with
    | none => simp [Message.rendered, Message.reapplies]
    | some cfg => simp [Message.pushes] at hm
  | tick => simp [Message.rendered, Message.reapplies, hblank]
  | _ =>
    simp only [Message.rendered]
    split
    next h => simp [hblank, hpeers, h]
    next h => simp [h]

theorem rendersRecent_along_blank {ctx : WsCtx} {s : Session} (hblank : s.agent.latestCfg = {})
    (es : List (Outcomes × Message)) :
    Along (Session.step ctx) (Session.RendersRecent ctx) s es ↔
      s.recent = [] ∨ ∀ e ∈ es.takeWhile (fun e => !e.2.pushes), e.2.reapplies = false := by
  induction es generalizing s with
  | nil => simp
  | cons e es ih =>
    obtain ⟨o, m⟩ := e
    cases hm : m.pushes with
    | true =>
      have hfirst : s.RendersRecent ctx (o, m) := rendersRecent_iff.mpr fun cfg hcfg => by
        rcases rendered_cases hcfg with ⟨pushed, rfl, rfl⟩ | ⟨hnot, -⟩
        · exact received_peers ctx pushed
        · simp [hm] at hnot
      have hrest := Session.Cached.along ctx (Session.cached_of_pushes hm ctx o s) es
      simp [hm, hfirst, hrest]
    | false =>
      obtain ⟨hcfg, hrecent⟩ := step_of_not_pushes hm ctx o s
      have hrest := ih (s := Session.step ctx (o, m) s) (hcfg.trans hblank)
      have hkept : (Session.step ctx (o, m) s).recent = s.recent := hrecent
      rw [along_cons, rendersRecent_blank hblank hm, hrest, hkept]
      simp only [List.takeWhile_cons, hm, Bool.not_false, if_true, List.forall_mem_cons, ← or_and_left]

/-- Every configuration written has the peers of the plan received last exactly
when the registration response had none, or nothing re-applies the cache
before the first plan fills it. -/
theorem rendersRecent_along_iff (flags : Flags) (reg : NodeConfigResponse) (es : List (Outcomes × Message)) :
    Along (Session.step (bootCtx flags reg)) (Session.RendersRecent (bootCtx flags reg))
        (Session.start flags reg) es ↔
      reg.wireGuardPeers = [] ∨ ∀ e ∈ es.takeWhile (fun e => !e.2.pushes), e.2.reapplies = false :=
  rendersRecent_along_blank rfl es

/-- An install command reaches the agent before any pushed plan, and the
configuration of the registered peer is written over by one without peers. -/
theorem install_drops_peers :
    ¬ ∀ (flags : Flags) (reg : NodeConfigResponse) (es : List (Outcomes × Message)),
      Along (Session.step (bootCtx flags reg)) (Session.RendersRecent (bootCtx flags reg))
        (Session.start flags reg) es := by
  intro h
  have hrun := h {} { id := "edge", wireGuardPeers := [{ id := "hub", allowedIPs := ["10.10.2.1/32"] }] }
    [({}, .command "install" "")]
  revert hrun
  decide

end PeerWan
