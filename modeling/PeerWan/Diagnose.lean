import PeerWan.Controller.Routes
import PeerWan.Controller.Records
import PeerWan.PeerPlans

/-!
# Diagnosing a node

`diagnoseNode` of `pkg/api/diagnose.go`, which takes the first allowed IP of
every peer of the stored plan without asking whether there is one. Plans are
made by `BuildPeerPlan` and then only stored, listed and rolled back to, so
what holds of every plan that is made holds of every plan that is stored.
-/

namespace PeerWan

open Lib

-- ---------------------------------------------------------------------------
-- What every stored plan is
-- ---------------------------------------------------------------------------

structure StoredPlans (P : Plan → Prop) (m : MemoryStore) : Prop where
  current : ∀ id p, m.plans id = some p → P p
  history : ∀ id, ∀ p ∈ m.history id, P p

namespace StoredPlans

variable {P : Plan → Prop} {m m' : MemoryStore} {c : Controller MemoryStore}

theorem congr (h : StoredPlans P m) (hplans : m'.plans = m.plans) (hhistory : m'.history = m.history) :
    StoredPlans P m' where
  current := hplans ▸ h.current
  history := hhistory ▸ h.history

theorem savePlan (h : StoredPlans P m) (hp : P p) : StoredPlans P (m.savePlan p) := by
  refine ⟨fun id q hq => ?_, fun id q hq => ?_⟩
  · by_cases hid : id = p.nodeID
    · obtain rfl : p = q := by simpa [MemoryStore.savePlan, hid] using hq
      exact hp
    · exact h.current id q (by simpa [MemoryStore.savePlan, Function.update_of_ne hid] using hq)
  · by_cases hid : id = p.nodeID
    · have hmem : q ∈ (m.history p.nodeID ++ [p]).rtake 20 := by simpa [MemoryStore.savePlan, hid] using hq
      rcases List.mem_append.mp (List.mem_of_mem_drop hmem) with hq | hq
      · exact h.history _ q hq
      · exact List.mem_singleton.mp hq ▸ hp
    · exact h.history id q (by simpa [MemoryStore.savePlan, Function.update_of_ne hid] using hq)

theorem rollback {version : Int} (h : StoredPlans P m) (hf : RollbackFinds m auth body nodeID version p) :
    StoredPlans P (rollbackStore m nodeID version p) := by
  refine ⟨fun id q hq => ?_, h.history⟩
  by_cases hid : id = nodeID
  · obtain rfl : p = q := by simpa [rollbackStore, hid] using hq
    exact h.history _ p (List.mem_of_find?_eq_some hf.found)
  · exact h.current id q (by simpa [rollbackStore, Function.update_of_ne hid] using hq)

variable {host : Host} (hmade : ∀ env version node target nodes health rules,
  P (planOf host env version node (buildPeerPlan target nodes health) rules))
include hmade

theorem savePlanWithRules (env : Env) (node : Node) (target : String) (nodes : List Node) (health : HealthMap)
    (rules : List PolicyRule) (h : StoredPlans P c.store) :
    StoredPlans P (savePlanWithRules host env node (buildPeerPlan target nodes health) rules c).store := by
  rw [savePlanWithRules_eq]
  exact (h.savePlan (hmade env _ node target nodes health rules)).congr rfl rfl

theorem savePlans (env : Env) (nodes : List Node) (health : HealthMap) (l : List Node)
    (h : StoredPlans P c.store) : StoredPlans P (savePlans host env nodes health l c).store := by
  induction l generalizing c with
  | nil => exact h
  | cons n l ih => exact ih (h.savePlanWithRules hmade env n n.id nodes health _)

theorem recomputeAllPlans (env : Env) (k : Nat) (h : StoredPlans P c.store) :
    StoredPlans P (recomputeAllPlans host env k c).2.store := by
  rw [recomputeAllPlans_eq]
  exact h.savePlans hmade env _ _ _

theorem serve (env : Env) (r : Request) (h : StoredPlans P c.store) :
    StoredPlans P (serve host env r c).2.store := by
  have hserved := served host env r c
  generalize PeerWan.serve host env r c = out at hserved
  cases hserved with
  | refused hr =>
    rw [hr.state]
    exact h
  | @register auth body req _ _ _ ha hcode hout =>
    subst hout
    have hstart : ∀ entry, StoredPlans P
        (Controller.audited { c with store := (registerSave c.store req).2 } entry).store := by
      intro entry
      rw [registerSave]
      split
      · exact h.congr rfl rfl
      · exact h.congr rfl rfl
    exact (hstart _).recomputeAllPlans hmade env 1
  | prepareKeeps => exact h
  | prepareWrites => exact h.congr rfl rfl
  | policy ha hcode hout =>
    subst hout
    exact h.congr rfl rfl
  | @health auth body report =>
    have hstart : StoredPlans P
        ({ c with store := c.store.saveHealth env.now report } : Controller MemoryStore).store := h.congr rfl rfl
    exact (hstart.savePlanWithRules hmade env _ _ _ _ _).congr rfl rfl
  | plan => exact h.savePlanWithRules hmade env _ _ _ _ _
  | rollback hf => exact (h.rollback hf).congr rfl rfl
  | mismatch hf => exact h.rollback hf

theorem step (e : Env × Event) (h : StoredPlans P c.store) : StoredPlans P (Event.step host e c).store := by
  obtain ⟨env, e⟩ := e
  cases e with
  | request r => exact h.serve hmade env r
  | tick => exact h.recomputeAllPlans hmade env 1
  | watch => exact h.recomputeAllPlans hmade env 1
  | restart => exact ⟨nofun, nofun⟩

theorem throughout (es : List (Env × Event)) :
    Throughout (Event.step host) (fun c => StoredPlans P c.store) (start MemoryStore.new) es :=
  throughout_of_invariant (fun _ e h => h.step hmade e) ⟨nofun, nofun⟩ es

end StoredPlans

-- ---------------------------------------------------------------------------
-- The checks
-- ---------------------------------------------------------------------------

structure DiagnoseResult where
  check : String
  status : String
  severity : String
  detail : String
  deriving DecidableEq, Repr

structure DiagnoseResponse where
  nodeID : String
  summary : String
  results : List DiagnoseResult
  timestamp : Int
  deriving DecidableEq, Repr

def result (check level detail : String) : DiagnoseResult := ⟨check, level, level, detail⟩

/-- `%.0f` of a number that is not negative: halves go to the even side. -/
def fixed (q : Rat) : String :=
  let f := q.floor
  let up := q - f > 1 / 2 ∨ (q - f = 1 / 2 ∧ f % 2 = 1)
  toString (if up then f + 1 else f)

def second : Int := 1000000000

/-- `parse` is `time.ParseDuration`, in nanoseconds. -/
def staleThreshold (parse : String → Option Int) (cfg : Settings) : Int :=
  let interval := match parse cfg.diag.pingInterval with
    | some d => if cfg.diag.pingInterval ≠ "" ∧ d > 0 then d else 3 * second
    | none => 3 * second
  max (int64 (interval * 5)) (15 * second)

/-- `strings.ToLower` as far as it gives letters of ASCII: outside of ASCII only
the Kelvin sign and the dotted capital I become such. -/
def lowerASCII (c : Char) : Char :=
  if c = '\u212a' then 'k' else if c = '\u0130' then 'i' else c.toLower

def isEstablished (st : String) : Bool := st.toList.map lowerASCII = "established".toList

/-- The loop over the peers of the plan. A peer without an allowed IP ends it:
the index is out of range. -/
def probePeers (health : HealthReport) : List Peer → Option (List String × List String)
  | [] => some ([], [])
  | p :: peers =>
    match p.allowedIPs with
    | [] => none
    | ip :: _ =>
      let overlay := ipWithoutMask ip
      let loss := ((health.packetLoss.get? overlay).map Prod.snd).getD 0
      (probePeers health peers).map fun (missing, lossBlocked) =>
        if (health.latencyMs.get? overlay).isNone then (p.id :: missing, lossBlocked)
        else if loss ≥ 100 then (missing, (p.id ++ "(loss=" ++ fixed loss ++ "%)") :: lossBlocked)
        else (missing, lossBlocked)

def heartbeat (age threshold : Int) : DiagnoseResult :=
  if age > threshold then
    result "Agent 心跳" "warn" ("健康上报已滞后 " ++ fixed (age / second) ++ "s，可能 agent 停止或网络阻断")
  else result "Agent 心跳" "ok" "上报正常"

def endpointCheck (node : Node) : DiagnoseResult :=
  if node.endpoints = [] then result "Endpoint 配置" "warn" "节点未配置 endpoint，可能无法被其他节点连接"
  else result "Endpoint 配置" "ok" (", ".intercalate node.endpoints)

def planCheck (peers : List Peer) : List DiagnoseResult :=
  if peers = [] then [result "拓扑计划" "warn" "未找到计划或无任何 peer，检查 controller 拓扑计算"] else []

def linkChecks (peers : List Peer) (probed : List String × List String) : List DiagnoseResult :=
  if peers = [] then []
  else
    (if probed.2 = [] then []
      else [result "WireGuard/防火墙" "fail" ("探测到对端 100% 丢包: " ++ ", ".intercalate probed.2)]) ++
    [if probed.1 = [] then result "WireGuard 链路" "ok" "已收到对端延迟/丢包数据"
      else result "WireGuard 链路" "warn"
        ("未收到对这些节点的延迟数据，可能 WG 未握手或防火墙阻断: " ++ ", ".intercalate probed.1)]

def frrCheck (o : MapOrder (String × String)) (health : HealthReport) : List DiagnoseResult :=
  let bad := (health.frrState.range o).filter fun st => !isEstablished st.2
  if health.frrState.rows = [] then []
  else if bad = [] then [result "FRR 邻居" "ok" "BGP 邻居均已 Established"]
  else [result "FRR 邻居" "warn" ("邻居状态异常: " ++ "; ".intercalate (bad.map fun st => st.1 ++ "=" ++ st.2))]

def severityLevel (severity : String) : Nat :=
  if severity = "fail" then 3 else if severity = "warn" then 2 else if severity = "ok" then 1 else 0

def highestSeverity (results : List DiagnoseResult) : String :=
  match results.foldl (fun maxL r => max maxL (severityLevel r.severity)) 0 with
  | 3 => "发现阻断/错误"
  | 2 => "存在警告，请排查"
  | _ => "检查通过"

section

variable {σ : Type} [NodeStore σ]

/-- The answer to a diagnosis; `none` is the panic of the loop over the peers. -/
def diagnose (parse : String → Option Int) (o : MapOrder (String × String)) (env : Env) (nodeID : String)
    (st : σ) : Option DiagnoseResponse × σ :=
  match NodeStore.getNode nodeID st with
  | (.ok (some node), st) =>
    let (diagCfg, st) := loadSettingsOrDefault st
    let (reports, st) := NodeStore.listHealth (env.healthOrder 0) st
    match (Reply.getD reports []).find? fun h => h.nodeID = nodeID with
    | none =>
      let detail := "未收到健康上报，可能 agent 未安装/未运行"
      (some ⟨nodeID, "未收到健康上报", [result "Agent 心跳" "fail" detail], env.now⟩, st)
    | some health =>
      let (plan, st) := NodeStore.getPlan nodeID st
      let peers := ((Reply.getD plan none).getD {}).peers
      ((probePeers health peers).map fun probed =>
        let results := heartbeat (env.now - health.timestamp) (staleThreshold parse diagCfg) ::
          endpointCheck node :: planCheck peers ++ linkChecks peers probed ++ frrCheck o health
        ⟨nodeID, highestSeverity results, results, env.now⟩, st)
  | (_, st) => (some ⟨nodeID, "节点不存在", [result "节点存在" "fail" "未找到节点"], env.now⟩, st)

/-- The route reads what the diagnosis reads. -/
theorem diagnose_reads (parse : String → Option Int) (o : MapOrder (String × String)) (env : Env)
    (nodeID : String) (st : σ) :
    (diagnose parse o env nodeID st).2 = (diagnoseNode env nodeID st).2 := by
  unfold diagnose diagnoseNode
  rcases NodeStore.getNode nodeID st with ⟨r, st⟩
  rcases r with err | n
  · rfl
  cases n with
  | none => rfl
  | some n =>
    dsimp only
    generalize Reply.getD (NodeStore.listHealth (env.healthOrder 0) (loadSettingsOrDefault st).2).1 [] = reports
    cases h : reports.find? fun h => h.nodeID = nodeID with
    | none =>
      rw [if_pos (by simpa using List.find?_eq_none.mp h)]
    | some health =>
      rw [if_neg]
      simp only [List.all_eq_true, not_forall]
      refine ⟨health, List.mem_of_find?_eq_some h, ?_⟩
      simpa using List.find?_some h

end

-- ---------------------------------------------------------------------------
-- No index is out of range
-- ---------------------------------------------------------------------------

theorem probePeers_isSome {health : HealthReport} {peers : List Peer} :
    (probePeers health peers).isSome ↔ ∀ p ∈ peers, p.allowedIPs ≠ [] := by
  induction peers with
  | nil => simp [probePeers]
  | cons p peers ih =>
    rw [probePeers, List.forall_mem_cons, ← ih]
    cases p.allowedIPs with
    | nil => simp
    | cons ip ips => simp

def Plan.Announces (p : Plan) : Prop := ∀ q ∈ p.peers, q.allowedIPs ≠ []

theorem planOf_announces (host : Host) (env : Env) (version : Int) (node : Node) (target : String)
    (nodes : List Node) (health : HealthMap) (rules : List PolicyRule) :
    (planOf host env version node (buildPeerPlan target nodes health) rules).Announces := fun q hq =>
  ((buildPeerPlan_announces target nodes health) q hq).2

theorem diagnose_isSome {m : MemoryStore} (h : StoredPlans Plan.Announces m) (parse : String → Option Int)
    (o : MapOrder (String × String)) (env : Env) (nodeID : String) :
    (diagnose parse o env nodeID m).1.isSome := by
  unfold diagnose
  dsimp only [MemoryStore.store_getNode]
  cases m.nodes.get? nodeID with
  | none => rfl
  | some node =>
    simp only [loadSettingsOrDefault_store, MemoryStore.store_listHealth, Reply.getD_ok]
    cases (m.health.range (env.healthOrder 0)).find? fun h => h.nodeID = nodeID with
    | none => rfl
    | some health =>
      have hpeers : ∀ p ∈ ((m.plans nodeID).getD {}).peers, p.allowedIPs ≠ [] := by
        cases hp : m.plans nodeID with
        | none => exact fun _ hq => absurd hq List.not_mem_nil
        | some p => exact h.current nodeID p hp
      rw [Option.isSome_map]
      exact probePeers_isSome.mpr hpeers

/-- In every state that requests, the ticker, the watch and restarts lead to,
every peer of every stored plan announces something, and a diagnosis of any
node is answered. -/
theorem diagnose_answers (host : Host) (es : List (Env × Event)) :
    Throughout (Event.step host) (fun c => StoredPlans Plan.Announces c.store ∧
      ∀ parse o env nodeID, (diagnose parse o env nodeID c.store).1.isSome) (start MemoryStore.new) es :=
  (StoredPlans.throughout (planOf_announces host) es).mono fun _ h =>
    ⟨h, fun parse o env nodeID => diagnose_isSome h parse o env nodeID⟩

end PeerWan
