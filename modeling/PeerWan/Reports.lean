import PeerWan.Agent.Session
import PeerWan.Diagnose
import PeerWan.Outsider

/-!
# What becomes of an agent's reports

The agent sends every report twice, as a frame on its WebSocket and in a POST.
The controller's read loop only logs the frame, and the routes of the POST ask
for a login, which an agent with a provision token does not have. `postJSON`
looks at no status code, so the refusal counts as sent.
-/

namespace PeerWan

open Lib

-- ---------------------------------------------------------------------------
-- The reports
-- ---------------------------------------------------------------------------

structure PolicyProbe where
  iface : String := "wg0"
  ifaceExists : Bool := false
  ipAddr : Except String String := .ok ""
  natRule : Bool := false
  forwardRule : Bool := false
  /-- What `sysctl -n net.ipv4.ip_forward` prints, if it succeeds. -/
  ipForward : Option String := none
  table100 : Except String String := .ok ""
  frrState : StrMap String := ∅
  frrOrder : MapOrder (String × String) := default

def frrNeighbors (probe : PolicyProbe) : PolicyDiagCheck :=
  let bad := (probe.frrState.range probe.frrOrder).filter fun st => !isEstablished st.2
  if probe.frrState.rows = [] then ⟨"FRR 邻居", "warn", "未获取到邻居状态"⟩
  else if bad = [] then ⟨"FRR 邻居", "ok", "均已 Established"⟩
  else ⟨"FRR 邻居", "warn", "; ".intercalate (bad.map fun st => st.1 ++ "=" ++ st.2)⟩

def policyChecks (probe : PolicyProbe) (peers : List Peer) : List PolicyDiagCheck :=
  [if probe.ifaceExists then ⟨"wg接口", "ok", probe.iface ++ " 存在"⟩
    else ⟨"wg接口", "fail", probe.iface ++ " 不存在"⟩,
   match probe.ipAddr with
    | .ok out => ⟨"ip addr", "ok", trimSpace out⟩
    | .error err => ⟨"ip addr", "fail", err⟩,
   if probe.natRule then ⟨"NAT MASQUERADE", "ok", "存在 POSTROUTING 掩码规则"⟩
    else ⟨"NAT MASQUERADE", "warn", "缺少 POSTROUTING 掩码规则"⟩,
   if probe.forwardRule then ⟨"FORWARD 允许", "ok", "存在 FORWARD 允许规则"⟩
    else ⟨"FORWARD 允许", "warn", "缺少 FORWARD 允许规则"⟩,
   if probe.ipForward.map trimSpace = some "1" then ⟨"转发开关", "ok", "net.ipv4.ip_forward=1"⟩
    else ⟨"转发开关", "fail", "net.ipv4.ip_forward 未开启"⟩,
   match probe.table100 with
    | .ok out => ⟨"策略路由表100", "ok", trimSpace out⟩
    | .error err => ⟨"策略路由表100", "warn", err⟩,
   frrNeighbors probe,
   if peers.length > 0 then ⟨"WireGuard peers", "ok", "peers=" ++ toString peers.length⟩
    else ⟨"WireGuard peers", "warn", "未下发任何 peer"⟩]

def diagSummary (checks : List PolicyDiagCheck) : String :=
  if checks.any (·.status = "fail") then "检测到错误"
  else if checks.any (·.status = "warn") then "存在警告"
  else "策略检查通过"

inductive AgentReport where
  | status (l : PolicyInstallLog)
  | diag (d : PolicyDiagReport)
  deriving DecidableEq, Repr

def Effect.report? (now : Int) (probe : PolicyProbe) : Effect → Option AgentReport
  | .report nodeID version status message logs => some (.status {
      nodeID := nodeID
      version := version
      status := status
      message := message
      logs := logs
      timestamp := now })
  | .diag nodeID _ peers => some (.diag {
      nodeID := nodeID
      summary := diagSummary (policyChecks probe peers)
      checks := policyChecks probe peers
      timestamp := now })
  | .render _ | .applyConfigs | .step .. => none

-- ---------------------------------------------------------------------------
-- The two channels
-- ---------------------------------------------------------------------------

/-- The headers of `setAuth`; `parse` is whether the controller takes a login. -/
def setAuth (parse : String → Bool) (authToken provisionToken : String) : Credentials where
  jwt := authToken ≠ "" && parse authToken
  token := provisionToken

/-- An exchange ends in an answer or in an error; only the error is one here. -/
def postJSON : Except String Answer → Except String Unit
  | .ok _ => .ok ()
  | .error err => .error err

def AgentReport.route : AgentReport → HttpRoute
  | .status l => .policyStatus "" (some l)
  | .diag d => .policyDiag "" (some d)

/-- The frame's type is `install_status` or `diag_result`, which the read loop
tells from nothing else. -/
def AgentReport.frame : AgentReport → AgentMessage
  | .status _ | .diag _ => .other

section

variable {σ : Type} [NodeStore σ] (host : Host) (parse : String → Bool) (ctx : WsCtx) (conn : Option Nat)

/-- Both channels deliver: the agent's connection, if it has one, and the POST.
What the agent takes it for, the controller's answer, and what it leaves. -/
def deliver (env : Env) (r : AgentReport) (s : Site σ) : Except String Unit × Answer × Site σ :=
  let s := match conn with
    | some c => (SiteEvent.frame c env.now r.frame).step host s
    | none => s
  let (answer, s) := serveRoute host env .post (setAuth parse ctx.auth ctx.provision) r.route s
  (postJSON (.ok answer), answer, s)

/-- One effect of a session, with the probes and the clock as it finds them. -/
structure Sending where
  env : Env
  probe : PolicyProbe
  effect : Effect

def Sending.report? (e : Sending) : Option AgentReport := e.effect.report? e.env.now e.probe

def Sending.step (e : Sending) (s : Site σ) : Site σ :=
  match e.report? with
  | some r => (deliver host parse ctx conn e.env r s).2.2
  | none => s

def listPolicyStatus (nodeID : String) (limit : Int) (reports : PolicyReports) : List PolicyInstallLog :=
  MemoryStore.limited limit (reports.policyStatus nodeID)

def listPolicyDiag (nodeID : String) (limit : Int) (reports : PolicyReports) : List PolicyDiagReport :=
  MemoryStore.limited limit (reports.policyDiag nodeID)

def AgentReport.Listed (reports : PolicyReports) : AgentReport → Prop
  | .status l => l ∈ listPolicyStatus l.nodeID 0 reports
  | .diag d => d ∈ listPolicyDiag d.nodeID 0 reports

def Answer.Refused (a : Answer) : Prop := ∃ code text, code ≠ 200 ∧ a = .error code text

/-- A report that is sent is listed from then on, and if it is refused the
agent notices. -/
def ReportKept (s : Site σ) (e : Sending) : Prop :=
  ∀ r, e.report? = some r →
    r.Listed (e.step host parse ctx conn s).reports ∧
      ((deliver host parse ctx conn e.env r s).2.1.Refused →
        (deliver host parse ctx conn e.env r s).1 ≠ .ok ())

theorem frame_other (c : Nat) (now : Int) (s : Site σ) : (SiteEvent.frame c now .other).step host s = s := by
  simp only [SiteEvent.step]
  split <;> rfl

/-- Without a login the POST is refused; nothing is stored, and the agent has
sent it. -/
theorem deliver_refused {host : Host} {parse : String → Bool} {ctx : WsCtx} {conn : Option Nat}
    (h : (setAuth parse ctx.auth ctx.provision).jwt = false) (env : Env) (r : AgentReport) (s : Site σ) :
    deliver host parse ctx conn env r s = (.ok (), .error 401 "unauthorized", s) := by
  have hframe : ∀ c, (SiteEvent.frame c env.now r.frame).step host s = s := by
    intro c
    cases r <;> exact frame_other host c env.now s
  have hanswer : serveRoute host env .post (setAuth parse ctx.auth ctx.provision) r.route s =
      (.error 401 "unauthorized", s) := by
    cases r <;> simp [serveRoute, AgentReport.route, Site.authorized, h]
  unfold deliver
  cases conn with
  | none => simp only [hanswer, postJSON]
  | some c => simp only [hframe, hanswer, postJSON]

def AgentReport.Complete : AgentReport → Prop
  | .status l => l.nodeID ≠ "" ∧ l.status ≠ "" ∧ l.timestamp ≠ 0
  | .diag d => d.nodeID ≠ "" ∧ d.timestamp ≠ 0

/-- With a login the POST alone stores the report. -/
theorem deliver_stored {host : Host} {parse : String → Bool} {ctx : WsCtx} {conn : Option Nat}
    (h : (setAuth parse ctx.auth ctx.provision).jwt = true) {r : AgentReport} (hr : r.Complete)
    (env : Env) (s : Site σ) : r.Listed (deliver host parse ctx conn env r s).2.2.reports := by
  cases r with
  | status l =>
    obtain ⟨hid, hstatus, htime⟩ := hr
    simp only [deliver, serveRoute, AgentReport.route, Site.authorized, Site.getOrPost, Site.postStatus, h]
    simp [hid, hstatus, AgentReport.Listed, listPolicyStatus, MemoryStore.limited,
      PolicyReports.savePolicyStatus, htime]
  | diag d =>
    obtain ⟨hid, htime⟩ := hr
    simp only [deliver, serveRoute, AgentReport.route, Site.authorized, Site.getOrPost, Site.postPolicyDiag, h]
    simp [hid, AgentReport.Listed, listPolicyDiag, MemoryStore.limited,
      PolicyReports.savePolicyDiag, htime]

/-- An agent that holds no login leaves the site as it is, whatever it sends. -/
theorem sending_unchanged {host : Host} {parse : String → Bool} {ctx : WsCtx} {conn : Option Nat}
    (h : (setAuth parse ctx.auth ctx.provision).jwt = false) (e : Sending) (s : Site σ) :
    e.step host parse ctx conn s = s := by
  unfold Sending.step
  cases e.report? with
  | none => rfl
  | some r => simp only [deliver_refused h]

theorem reportKept_iff {host : Host} {parse : String → Bool} {ctx : WsCtx} {conn : Option Nat}
    (h : (setAuth parse ctx.auth ctx.provision).jwt = false) (s : Site σ) (e : Sending) :
    ReportKept host parse ctx conn s e ↔ e.report? = none := by
  constructor
  · intro hkept
    cases hr : e.report? with
    | none => rfl
    | some r =>
      have hnoticed := (hkept r hr).2
      rw [deliver_refused h] at hnoticed
      exact absurd rfl (hnoticed ⟨401, _, by decide, rfl⟩)
  · intro hnone r hr
    rw [hnone] at hr
    cases hr

/-- Whatever an agent without a login sends, and on whichever site: its
reports are kept exactly when there are none. -/
theorem reports_kept_iff (h : (setAuth parse ctx.auth ctx.provision).jwt = false) (s : Site σ)
    (es : List Sending) :
    Along (Sending.step host parse ctx conn) (ReportKept host parse ctx conn) s es ↔
      ∀ e ∈ es, e.report? = none := by
  induction es with
  | nil => simp
  | cons e es ih => rw [along_cons, sending_unchanged h, reportKept_iff h, ih, List.forall_mem_cons]

end

def edgeCtx : WsCtx := { controller := "http://127.0.0.1:8080", provision := "pt-7", nodeID := "edge" }

theorem reports_kept_quiet : Along (Sending.step Host.sample (fun _ => false) edgeCtx (some 0))
    (ReportKept Host.sample (fun _ => false) edgeCtx (some 0)) edgeSite
    [{ env := {}, probe := {}, effect := .applyConfigs }] :=
  (reports_kept_iff Host.sample (fun _ => false) edgeCtx (some 0) rfl edgeSite _).mpr
    (by simp [Sending.report?, Effect.report?])

theorem reports_kept_counterexample : ¬ ∀ (host : Host) (parse : String → Bool) (ctx : WsCtx)
    (conn : Option Nat) (s : Site MemoryStore) (es : List Sending),
    (setAuth parse ctx.auth ctx.provision).jwt = false →
      Along (Sending.step host parse ctx conn) (ReportKept host parse ctx conn) s es := by
  intro h
  have hkept := h Host.sample (fun _ => false) edgeCtx (some 0) edgeSite
    [{ env := { now := 9 }, probe := {}, effect := .report "edge" "v1" "success" "策略下发并应用成功" [] }] rfl
  have hlisted : PolicyInstallLog.mk "edge" "v1" "success" "策略下发并应用成功" [] 9 ∈ [] := (hkept.1 _ rfl).1
  cases hlisted

end PeerWan
