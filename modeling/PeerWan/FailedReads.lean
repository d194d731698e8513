import PeerWan.Controller.Settings
import PeerWan.Lib.Runs
import PeerWan.LawfulStore

/-!
# Reads that fail

Most handlers discard the error of a read and go on with what it then answers:
no record, no nodes, no reports, the default settings. What they write after
that is as if the store had been empty.
-/

namespace PeerWan

open Lib

section

variable {σ : Type} [NodeStore σ] [LawfulStore σ]

def recordsOf (s : σ) : String → Option Node := LawfulStore.node (LawfulStore.data s)

def Controller.holdings (c : Controller σ) (id : String) : Option Holdings :=
  (recordsOf c.store id).map Node.holdings

def Controller.LastDown (c : Controller σ) (id : String) : Prop :=
  ∃ h, LawfulStore.report (LawfulStore.data c.store) id = some h ∧ h.status = "down"

-- ---------------------------------------------------------------------------
-- What the handlers leave of the records
-- ---------------------------------------------------------------------------

theorem loadSettings_data (s : σ) : LawfulStore.data (loadSettingsOrDefault s).2 = LawfulStore.data s :=
  loadSettingsOrDefault_leaves LawfulStore.getSettings_data s

theorem diagInterval_data (host : Host) (s : σ) :
    LawfulStore.data (diagIntervalSeconds host s).2 = LawfulStore.data s := loadSettings_data s

theorem savePlanWithRules_records (host : Host) (env : Env) (node : Node) (peers : List Peer)
    (rules : List PolicyRule) (c : Controller σ) :
    recordsOf (savePlanWithRules host env node peers rules c).store = recordsOf c.store := by
  unfold savePlanWithRules recordsOf
  dsimp only
  rw [diagInterval_data, loadSettings_data, LawfulStore.setGlobalPlanVersion_node, LawfulStore.savePlan_node]

theorem recomputeAllPlans_records (host : Host) (env : Env) (k : Nat) (c : Controller σ) :
    recordsOf (recomputeAllPlans host env k c).2.store = recordsOf c.store := by
  have hlist := LawfulStore.listNodes_data (env.nodeOrder k) c.store
  unfold recomputeAllPlans
  split
  next heq =>
    rw [heq] at hlist
    exact congrArg LawfulStore.node hlist
  next nodes st heq =>
    rw [heq] at hlist
    have hhealth := LawfulStore.listHealth_data (env.healthOrder k) st
    rcases hreports : NodeStore.listHealth (env.healthOrder k) st with ⟨reports, st'⟩
    rw [hreports] at hhealth
    have hloop : ∀ (l : List Node) (hmap : HealthMap) (c : Controller σ),
        recordsOf (l.foldl (fun c n => savePlanWithRules host env n (buildPeerPlan n.id nodes hmap)
          (expandPolicyRules nodes n.id) c) c).store = recordsOf c.store := by
      intro l hmap
      induction l with
      | nil => exact fun _ => rfl
      | cons n l ih => exact fun c => (ih _).trans (savePlanWithRules_records ..)
    refine (hloop ..).trans ?_
    exact congrArg LawfulStore.node (hhealth.trans hlist)

theorem bumped_records (out : Reply Unit × Controller σ) :
    recordsOf (match out with
      | (.error _, c) => c
      | (.ok (), c) => bumpPlanVersion c).store = recordsOf out.2.store := by
  rcases out with ⟨r, c⟩
  cases r <;> rfl

theorem registered_records (host : Host) (env : Env) (saved : Node) (c : Controller σ) :
    recordsOf (registered host env saved c).2.store = recordsOf c.store := by
  unfold registered
  dsimp only
  rw [recordsOf, diagInterval_data, loadSettings_data]
  refine (bumped_records _).trans ((recomputeAllPlans_records ..).trans ?_)
  show LawfulStore.node (LawfulStore.data (NodeStore.listHealth _ (NodeStore.listNodes _
    (NodeStore.appendAudit _ c.store).2).2).2) = _
  rw [LawfulStore.listHealth_data, LawfulStore.listNodes_data, LawfulStore.appendAudit_node]
  rfl

theorem holdings_eq_of_records {c c' : Controller σ} (h : recordsOf c'.store = recordsOf c.store) :
    c'.holdings = c.holdings := by
  funext id
  rw [Controller.holdings, h, Controller.holdings]

def Kept (c c' : Controller σ) (id : String) : Prop := ∀ h, c.holdings id = some h → c'.holdings id = some h

theorem Kept.of_eq {c c' : Controller σ} (h : c'.holdings = c.holdings) (id : String) : Kept c c' id :=
  fun _ hid => (congrFun h id).trans hid

-- ---------------------------------------------------------------------------
-- Register
-- ---------------------------------------------------------------------------

/-- A register that goes through without the record it could not read: with a
valid login, and no token to compare. -/
structure RegistersAnew (c : Controller σ) (auth : Credentials) (body : Option NodeRegistrationRequest)
    (req : NodeRegistrationRequest) : Prop where
  body : ∃ sent, body = some sent ∧ req = sent.withToken auth.token
  named : req.id ≠ ""
  login : auth.jwt = true
  tokenless : req.provisionToken = ""
  saved : ¬ Failed (NodeStore.upsertNode (registeredNode none req) (NodeStore.getNode req.id c.store).2).1

section

variable (host : Host) (env : Env) {c : Controller σ} {auth : Credentials}

omit [LawfulStore σ] in
/-- A record that cannot be read is no record. -/
theorem register_unread {sent req : NodeRegistrationRequest} (hreq : req = sent.withToken auth.token)
    (hread : Failed (NodeStore.getNode req.id c.store).1) :
    register host env auth (some sent) c =
      if req.id = "" then (.error 400 "id is required", c)
      else if req.provisionToken = "" && !auth.jwt then (.error 401 "unauthorized", c)
      else if req.provisionToken ≠ "" then
        (.error 401 "invalid provision token", { c with store := (NodeStore.getNode req.id c.store).2 })
      else match NodeStore.upsertNode (registeredNode none req) (NodeStore.getNode req.id c.store).2 with
        | (.error _, st) => (.error 500 "failed to persist node", { c with store := st })
        | (.ok saved, st) => registered host env saved { c with store := st } := by
  obtain ⟨err, hread⟩ := hread
  have hnone : Reply.getD (NodeStore.getNode req.id c.store).1 none = none := by rw [hread]; rfl
  rcases hup : NodeStore.upsertNode (registeredNode none req) (NodeStore.getNode req.id c.store).2 with ⟨reply, st⟩
  cases reply <;> simp only [register, ← hreq, hnone, validToken, registerWrites, Bool.not_false, Bool.and_true,
    decide_eq_true_eq, if_true, hup]

theorem register_anew {body : Option NodeRegistrationRequest} {req : NodeRegistrationRequest}
    (hread : Failed (NodeStore.getNode req.id c.store).1) (h : RegistersAnew c auth body req) :
    (register host env auth body c).2.holdings req.id = some (registeredNode none req).holdings := by
  obtain ⟨⟨sent, rfl, hreq⟩, hid, hjwt, htoken, hsaved⟩ := h
  rw [register_unread host env hreq hread, if_neg hid, if_neg (by simp [hjwt]), if_neg (by simp [htoken])]
  cases hup : NodeStore.upsertNode (registeredNode none req) (NodeStore.getNode req.id c.store).2 with
  | mk r st =>
    cases r with
    | error err => exact absurd ⟨err, by rw [hup]⟩ hsaved
    | ok saved =>
      have hwritten := LawfulStore.upsertNode_ok (congrArg Prod.fst hup) req.id
      rw [hup, registeredNode_id, if_pos rfl] at hwritten
      show (recordsOf (registered host env saved { c with store := st }).2.store req.id).map _ = _
      rw [registered_records]
      exact hwritten

theorem register_unwritten {body : Option NodeRegistrationRequest} {req : NodeRegistrationRequest}
    (hbody : ∃ sent, body = some sent ∧ req = sent.withToken auth.token)
    (hread : Failed (NodeStore.getNode req.id c.store).1) (h : ¬ RegistersAnew c auth body req) :
    (register host env auth body c).2.holdings = c.holdings := by
  obtain ⟨sent, rfl, hreq⟩ := hbody
  have hget := LawfulStore.getNode_data req.id c.store
  rw [register_unread host env hreq hread]
  split
  next => rfl
  next hid =>
    split
    next => rfl
    next hauth =>
      split
      next => exact holdings_eq_of_records (congrArg LawfulStore.node hget)
      next htoken =>
        rw [not_not] at htoken
        cases hup : NodeStore.upsertNode (registeredNode none req) (NodeStore.getNode req.id c.store).2 with
        | mk r st =>
          cases r with
          | error err =>
            have hkept := LawfulStore.upsertNode_error (congrArg Prod.fst hup)
            rw [hup] at hkept
            exact holdings_eq_of_records (congrArg LawfulStore.node (hkept.trans hget))
          | ok saved =>
            refine absurd ⟨⟨sent, rfl, hreq⟩, hid, by simpa [htoken] using hauth, htoken, ?_⟩ h
            rintro ⟨err, herr⟩
            rw [hup] at herr
            cases herr

-- ---------------------------------------------------------------------------
-- Prepare
-- ---------------------------------------------------------------------------

theorem assignOverlay_data (s : σ) : LawfulStore.data (assignOverlay env s).2 = LawfulStore.data s :=
  assignOverlay_leaves (LawfulStore.listNodes_data _) s

omit [LawfulStore σ] in
theorem assignOverlay_unlisted {s : σ} (h : Failed (NodeStore.listNodes (env.nodeOrder 0) s).1) :
    (assignOverlay env s).1 = "10.10.1.1/32" := by
  obtain ⟨err, h⟩ := h
  have hnone : Reply.getD (NodeStore.listNodes (env.nodeOrder 0) s).1 [] = [] := by rw [h]; rfl
  unfold assignOverlay
  simp only [hnone]
  rfl

def freshNode (c : Controller σ) (id priv : String) : Node :=
  preparedNode host env id priv (assignOverlay env (NodeStore.getNode id c.store).2).1

/-- A prepare that makes a new record: it has read none with a token, or could
not read. -/
structure PreparesAnew (c : Controller σ) (auth : Credentials) (body : Option String) (id priv : String) : Prop where
  body : body = some id
  named : id ≠ ""
  login : auth.jwt = true
  unprepared : ((Reply.getD (NodeStore.getNode id c.store).1 none).getD {}).provisionToken = ""
  key : env.privateKey = some priv
  saved : ¬ Failed (NodeStore.upsertNode (freshNode host env c id priv)
    (assignOverlay env (NodeStore.getNode id c.store).2).2).1

theorem prepare_anew (httpAddr : String) {id priv : String} {body : Option String}
    (h : PreparesAnew host env c auth body id priv) :
    (prepare host env auth httpAddr body c).2.holdings id = some (freshNode host env c id priv).holdings := by
  obtain ⟨rfl, hid, hjwt, htoken, hkey, hsaved⟩ := h
  simp only [prepare, hjwt, if_neg hid, htoken, hkey]
  cases hup : NodeStore.upsertNode (freshNode host env c id priv)
      (assignOverlay env (NodeStore.getNode id c.store).2).2 with
  | mk r st =>
    cases r with
    | error err => exact absurd ⟨err, by rw [hup]⟩ hsaved
    | ok saved =>
      have hwritten := LawfulStore.upsertNode_ok (congrArg Prod.fst hup) id
      rw [hup, if_pos (show id = (freshNode host env c id priv).id from rfl)] at hwritten
      rw [freshNode] at hup
      simp only [hup, Bool.not_true, Bool.false_eq_true, if_false, ne_eq, not_true_eq_false]
      exact hwritten

theorem prepare_unwritten (httpAddr : String) {body : Option String}
    (h : ∀ id priv, ¬ PreparesAnew host env c auth body id priv) :
    (prepare host env auth httpAddr body c).2.holdings = c.holdings := by
  unfold prepare
  split
  next => rfl
  next hjwt =>
    split
    next => rfl
    next id =>
      have hget := LawfulStore.getNode_data id c.store
      split
      next => rfl
      next hid =>
        dsimp only
        split
        next => exact holdings_eq_of_records (congrArg LawfulStore.node hget)
        next htoken =>
          split
          next => exact holdings_eq_of_records (congrArg LawfulStore.node hget)
          next priv hkey =>
            have hassign := assignOverlay_data env (NodeStore.getNode id c.store).2
            split
            next err st hup =>
              have hkept := LawfulStore.upsertNode_error (congrArg Prod.fst hup)
              rw [hup] at hkept
              exact holdings_eq_of_records (congrArg LawfulStore.node (hkept.trans (hassign.trans hget)))
            next saved st hup =>
              refine absurd ⟨rfl, hid, by simpa using hjwt, not_not.mp htoken, hkey, ?_⟩ (h id priv)
              rintro ⟨err, herr⟩
              rw [freshNode, hup] at herr
              cases herr

end

end

-- ---------------------------------------------------------------------------
-- Plans
-- ---------------------------------------------------------------------------

section

variable {σ : Type} [NodeStore σ] (host : Host) (env : Env)

def newPlans (c c' : Controller (Watched σ)) : List Plan := c'.store.taken.drop c.store.taken.length

/-- The plan that `savePlanWithRules` saves next. -/
def nextPlan (node : Node) (peers : List Peer) (rules : List PolicyRule) (c : Controller σ) : Plan :=
  planOf host env (int64 (c.planVersion + 1)) (withListenPort node) peers rules

theorem loadSettings_taken (w : Watched σ) : (loadSettingsOrDefault w).2.taken = w.taken :=
  loadSettingsOrDefault_leaves (fun _ => rfl) w

theorem diagInterval_taken (w : Watched σ) : (diagIntervalSeconds host w).2.taken = w.taken := loadSettings_taken w

theorem admitted_taken (auth : Credentials) (nodeID : String) (w : Watched σ) :
    (admitted auth nodeID w).2.taken = w.taken := admitted_leaves (fun _ _ => rfl) auth nodeID w

theorem savePlanWithRules_taken (node : Node) (peers : List Peer) (rules : List PolicyRule)
    (c : Controller (Watched σ)) :
    (savePlanWithRules host env node peers rules c).store.taken =
      (NodeStore.savePlan (nextPlan host env node peers rules c) c.store).2.taken := by
  unfold savePlanWithRules
  dsimp only
  rw [diagInterval_taken, loadSettings_taken]
  rfl

theorem newPlans_refused {p : Plan} {w : Watched σ} {c c' : Controller (Watched σ)}
    (hstart : w.taken = c.store.taken) (hend : c'.store.taken = (NodeStore.savePlan p w).2.taken)
    (h : Failed (NodeStore.savePlan p w).1) : newPlans c c' = [] := by
  rw [newPlans, hend, (Watched.savePlan_eq p w).2.2.1 h, hstart, List.drop_length]

theorem newPlans_saved {p : Plan} {w : Watched σ} {c c' : Controller (Watched σ)}
    (hstart : w.taken = c.store.taken) (hend : c'.store.taken = (NodeStore.savePlan p w).2.taken)
    (h : ¬ Failed (NodeStore.savePlan p w).1) : newPlans c c' = [p] := by
  rw [newPlans, hend, (Watched.savePlan_eq p w).2.2.2 h, hstart, List.drop_left]

/-- The plan of a node over some nodes, where no reports have been read. -/
def unreportedPlan (nodes : List Node) (n : Node) (c : Controller σ) : Plan :=
  nextPlan host env n (buildPeerPlan n.id nodes ∅) (expandPolicyRules nodes n.id) c

def saveUnreported (nodes : List Node) (n : Node) (c : Controller σ) : Controller σ :=
  savePlanWithRules host env n (buildPeerPlan n.id nodes ∅) (expandPolicyRules nodes n.id) c

theorem saveUnreported_taken (Good : Plan → Prop) (nodes l : List Node) (c : Controller (Watched σ)) :
    ∃ new, (run (saveUnreported host env nodes) c l).store.taken = c.store.taken ++ new ∧
      ((∀ p ∈ new, Good p) ↔ Along (saveUnreported host env nodes) (fun c n =>
        ¬ Failed (NodeStore.savePlan (unreportedPlan host env nodes n c) c.store).1 →
          Good (unreportedPlan host env nodes n c)) c l) := by
  induction l generalizing c with
  | nil => exact ⟨[], (List.append_nil _).symm, by simp⟩
  | cons n l ih =>
    obtain ⟨new, hnew, hgood⟩ := ih (saveUnreported host env nodes n c)
    have hsave := Watched.savePlan_eq (unreportedPlan host env nodes n c) c.store
    rw [saveUnreported, savePlanWithRules_taken] at hnew
    by_cases hf : Failed (NodeStore.savePlan (unreportedPlan host env nodes n c) c.store).1
    · refine ⟨new, ?_, ?_⟩
      · rw [run_cons, ← hsave.2.2.1 hf]
        exact hnew
      · rw [along_cons, ← hgood]
        exact ⟨fun h => ⟨fun hnf => absurd hf hnf, h⟩, And.right⟩
    · refine ⟨unreportedPlan host env nodes n c :: new, ?_, ?_⟩
      · rw [run_cons, List.append_cons, ← hsave.2.2.2 hf]
        exact hnew
      · rw [along_cons, ← hgood, List.forall_mem_cons]
        exact and_congr_left' ⟨fun h _ => h, fun h => h hf⟩

variable [LawfulStore σ]

/-- No peer of the plan was last reported down. -/
def Controller.Spares (c : Controller σ) (p : Plan) : Prop := ∀ q ∈ p.peers, ¬ c.LastDown q.id

/-- None of the nodes that could be peers of this one was last reported down. -/
def Controller.OthersUp (c : Controller σ) (nodes : List Node) (id : String) : Prop :=
  ∀ n ∈ nodes, n.id ≠ id → n.Complete → ¬ c.LastDown n.id

theorem spares_iff {c c' : Controller σ} {nodes : List Node} {id : String} {node : Node} {rules : List PolicyRule} :
    c.Spares (nextPlan host env node (buildPeerPlan id nodes ∅) rules c') ↔ c.OthersUp nodes id := by
  have hup : ∀ id, ¬ Down ∅ id := by
    rintro id ⟨h, hget, -⟩
    cases hget
  constructor
  · intro h n hn hid hcomplete
    exact h n.toPeer (mem_buildPeerPlan.mpr ⟨n, hn, hid, hcomplete, hup _, rfl⟩)
  · intro h q hq
    obtain ⟨n, hn, hid, hcomplete, -, rfl⟩ := mem_buildPeerPlan.mp hq
    exact h n hn hid hcomplete

end

-- ---------------------------------------------------------------------------
-- Every handler
-- ---------------------------------------------------------------------------

/-- What writes something that it has read before, or computed from it. The
recompute is that of a register, of the ticker or of the watch. -/
inductive Handling where
  | register (auth : Credentials) (body : Option NodeRegistrationRequest)
  | prepare (auth : Credentials) (httpAddr : String) (body : Option String)
  | health (auth : Credentials) (body : Option HealthReport)
  | plan (auth : Credentials) (nodeID : String)
  | recompute (k : Nat)
  | geoIP (auth : Credentials) (body : Option GeoIPConfig)
  | diag (auth : Credentials) (body : Option DiagConfig)

section

variable {σ : Type} [NodeStore σ] [LawfulStore σ] (host : Host) (env : Env)

/-- The address that a prepare gives to a node is no other node's. -/
def AssignsFree (c c' : Controller σ) (id : String) : Prop :=
  ∀ h, c'.holdings id = some h → c.holdings id ≠ some h →
    ∀ other, other ≠ id → ∀ h', c.holdings other = some h' → h'.overlayIP ≠ h.overlayIP

def SettingsKept (s s' : σ) : Prop :=
  LawfulStore.settings (LawfulStore.data s') = LawfulStore.settings (LawfulStore.data s)

def admittedStore (auth : Credentials) (nodeID : String) (s : σ) : σ := (admitted auth nodeID s).2

def reportedStore (auth : Credentials) (report : HealthReport) (s : σ) : σ :=
  (NodeStore.saveHealth env.now report (admittedStore auth report.nodeID s)).2

def listedStore (k : Nat) (s : σ) : σ := (NodeStore.listNodes (env.nodeOrder k) s).2

/-- Of the reads whose answer goes into what is written: where one fails, the
empty answer is not written back in the place of what is stored. -/
def Respects (c : Controller (Watched σ)) : Handling → Prop
  | .register auth body => ∀ req, (∃ sent, body = some sent ∧ req = sent.withToken auth.token) →
      Failed (NodeStore.getNode req.id c.store).1 → Kept c (register host env auth body c).2 req.id
  | .prepare auth httpAddr body => ∀ id, body = some id →
      (Failed (NodeStore.getNode id c.store).1 → Kept c (prepare host env auth httpAddr body c).2 id) ∧
      (Failed (NodeStore.listNodes (env.nodeOrder 0) (NodeStore.getNode id c.store).2).1 →
        AssignsFree c (prepare host env auth httpAddr body c).2 id)
  | .health auth body => ∀ report, (∃ sent, body = some sent ∧ report = { sent with timestamp := env.now }) →
      Failed (NodeStore.listNodes (env.nodeOrder 0) (reportedStore env auth report c.store)).1 →
        newPlans c (health host env auth body c).2 = []
  | .plan auth nodeID =>
      Failed (NodeStore.listHealth (env.healthOrder 0) (listedStore env 0 (admittedStore auth nodeID c.store))).1 →
        ∀ p ∈ newPlans c (getPlan host env auth nodeID c).2, c.Spares p
  | .recompute k => Failed (NodeStore.listHealth (env.healthOrder k) (listedStore env k c.store)).1 →
      ∀ p ∈ newPlans c (recomputeAllPlans host env k c).2, c.Spares p
  | .geoIP auth body => Failed (NodeStore.getSettings c.store).1 →
      SettingsKept c.store (postGeoIP auth body c.store).2
  | .diag auth body => Failed (NodeStore.getSettings c.store).1 →
      SettingsKept c.store (postDiag auth body c.store).2

/-- The settings that are written when none could be read. -/
def SettingsPatch.overDefaults (patch : SettingsPatch) : Settings :=
  patch.apply { geoIP := defaultGeoIP, diag := defaultDiag }

/-- Settings posted over ones that could not be read are as before where the
write fails or comes to what is stored. -/
def PatchHarmless (s : σ) (patch : SettingsPatch) : Prop :=
  Failed (NodeStore.updateSettings patch.overDefaults (NodeStore.getSettings s).2).1 ∨
    patch.overDefaults = LawfulStore.settings (LawfulStore.data s)

/-- The node whose plan `GET /plan` saves. -/
def planTarget (nodes : List Node) (nodeID : String) : Node := (nodes.find? fun n => n.id = nodeID).getD {}

/-- The requests and states in which nothing stored is lost to a failed read. -/
def Harmless (c : Controller (Watched σ)) : Handling → Prop
  | .register auth body => ∀ req, Failed (NodeStore.getNode req.id c.store).1 → RegistersAnew c auth body req →
      ∀ h, c.holdings req.id = some h → (registeredNode none req).holdings = h
  | .prepare auth _ body => ∀ id priv, PreparesAnew host env c auth body id priv →
      (Failed (NodeStore.getNode id c.store).1 →
        ∀ h, c.holdings id = some h → (freshNode host env c id priv).holdings = h) ∧
      (Failed (NodeStore.listNodes (env.nodeOrder 0) (NodeStore.getNode id c.store).2).1 →
        c.holdings id ≠ some (freshNode host env c id priv).holdings →
          ∀ other, other ≠ id → ∀ h', c.holdings other = some h' → h'.overlayIP ≠ "10.10.1.1/32")
  | .health auth body => ∀ report, (∃ sent, body = some sent ∧ report = { sent with timestamp := env.now }) →
      Failed (NodeStore.listNodes (env.nodeOrder 0) (reportedStore env auth report c.store)).1 →
        report.nodeID = "" ∨ (admitted auth report.nodeID c.store).1 = false ∨
        Failed (NodeStore.saveHealth env.now report (admittedStore auth report.nodeID c.store)).1 ∨
        Failed (NodeStore.savePlan (nextPlan host env { id := report.nodeID } [] [] c)
          (listedStore env 0 (reportedStore env auth report c.store))).1
  | .plan auth nodeID => ∀ nodes,
      Failed (NodeStore.listHealth (env.healthOrder 0) (listedStore env 0 (admittedStore auth nodeID c.store))).1 →
        (NodeStore.listNodes (env.nodeOrder 0) (admittedStore auth nodeID c.store)).1 = .ok nodes →
        nodeID ≠ "" → (admitted auth nodeID c.store).1 = true →
        ¬ Failed (NodeStore.savePlan (nextPlan host env (planTarget nodes nodeID) (buildPeerPlan nodeID nodes ∅)
          (expandPolicyRules nodes nodeID) c) (NodeStore.listHealth (env.healthOrder 0)
            (listedStore env 0 (admittedStore auth nodeID c.store))).2).1 → c.OthersUp nodes nodeID
  | .recompute k => ∀ nodes,
      Failed (NodeStore.listHealth (env.healthOrder k) (listedStore env k c.store)).1 →
        (NodeStore.listNodes (env.nodeOrder k) c.store).1 = .ok nodes →
        Along (saveUnreported host env nodes) (fun c' n =>
          ¬ Failed (NodeStore.savePlan (unreportedPlan host env nodes n c') c'.store).1 → c.OthersUp nodes n.id)
          { c with store := (NodeStore.listHealth (env.healthOrder k) (listedStore env k c.store)).2 } nodes
  | .geoIP auth body => ∀ cfg, body = some cfg → Failed (NodeStore.getSettings c.store).1 → auth.jwt = true →
      PatchHarmless c.store (.geoIP cfg)
  | .diag auth body => ∀ cfg, body = some cfg → Failed (NodeStore.getSettings c.store).1 → auth.jwt = true →
      PatchHarmless c.store (.diag cfg)

theorem respects_register (c : Controller (Watched σ)) (auth : Credentials)
    (body : Option NodeRegistrationRequest) :
    Respects host env c (.register auth body) ↔ Harmless host env c (.register auth body) := by
  constructor
  · intro h req hread hanew h' hh
    exact Option.some.inj ((register_anew host env hread hanew).symm.trans (h req hanew.body hread h' hh))
  · intro h req hbody hread
    by_cases hanew : RegistersAnew c auth body req
    · intro h' hh
      rw [register_anew host env hread hanew, h req hread hanew h' hh]
    · exact .of_eq (register_unwritten host env hbody hread hanew) req.id

theorem respects_prepare (c : Controller (Watched σ)) (auth : Credentials) (httpAddr : String)
    (body : Option String) :
    Respects host env c (.prepare auth httpAddr body) ↔ Harmless host env c (.prepare auth httpAddr body) := by
  have hfirst : ∀ id priv, Failed (NodeStore.listNodes (env.nodeOrder 0) (NodeStore.getNode id c.store).2).1 →
      (freshNode host env c id priv).holdings.overlayIP = "10.10.1.1/32" := by
    rintro id priv hlist
    exact assignOverlay_unlisted env hlist
  constructor
  · intro h id priv hanew
    have hafter := prepare_anew host env httpAddr hanew
    obtain ⟨hkept, hfree⟩ := h id hanew.body
    refine ⟨fun hread h' hh => ?_, fun hlist hne other ho h' hh => ?_⟩
    · exact Option.some.inj (hafter.symm.trans (hkept hread h' hh))
    · rw [← hfirst id priv hlist]
      exact hfree hlist _ hafter hne other ho h' hh
  · intro h id hbody
    by_cases hanew : ∃ priv, PreparesAnew host env c auth body id priv
    · obtain ⟨priv, hanew⟩ := hanew
      have hafter := prepare_anew host env httpAddr hanew
      obtain ⟨hkept, hfree⟩ := h id priv hanew
      refine ⟨fun hread h' hh => ?_, fun hlist h' hh hne other ho h'' hh' => ?_⟩
      · rw [hafter, hkept hread h' hh]
      · obtain rfl := Option.some.inj (hafter.symm.trans hh)
        rw [hfirst id priv hlist]
        exact hfree hlist hne other ho h'' hh'
    · have hnone : ∀ id' priv, ¬ PreparesAnew host env c auth body id' priv := fun id' priv hanew' =>
        hanew ⟨priv, Option.some.inj (hanew'.body.symm.trans hbody) ▸ hanew'⟩
      have hsame := prepare_unwritten host env httpAddr hnone
      refine ⟨fun _ => .of_eq hsame id, fun _ h' hh hne => ?_⟩
      rw [hsame] at hh
      exact absurd hh hne

omit [NodeStore σ] [LawfulStore σ] in
theorem newPlans_self {c c' : Controller (Watched σ)} (h : c'.store.taken = c.store.taken) : newPlans c c' = [] := by
  rw [newPlans, h, List.drop_length]

omit [LawfulStore σ] in
theorem newPlans_eq_nil_iff {p : Plan} {w : Watched σ} {c c' : Controller (Watched σ)}
    (hstart : w.taken = c.store.taken) (hend : c'.store.taken = (NodeStore.savePlan p w).2.taken) :
    newPlans c c' = [] ↔ Failed (NodeStore.savePlan p w).1 := by
  constructor
  · intro h
    by_contra hf
    rw [newPlans_saved hstart hend hf] at h
    cases h
  · exact newPlans_refused hstart hend

section

variable {auth : Credentials} {c : Controller (Watched σ)}

omit [LawfulStore σ] in
theorem health_takes_none {sent : HealthReport}
    (h : sent.nodeID = "" ∨ (admitted auth sent.nodeID c.store).1 = false ∨
      Failed (NodeStore.saveHealth env.now { sent with timestamp := env.now }
        (admittedStore auth sent.nodeID c.store)).1) :
    newPlans c (health host env auth (some sent) c).2 = [] := by
  by_cases hid : sent.nodeID = ""
  · exact newPlans_self (by simp [health, hid])
  have hwatch := admitted_taken auth sent.nodeID c.store
  rw [or_iff_right hid, admittedStore] at h
  rcases hadm : admitted auth sent.nodeID c.store with ⟨ok, st⟩
  rw [hadm] at h hwatch
  cases ok with
  | false => exact newPlans_self (by simp only [health, if_neg hid, hadm]; exact hwatch)
  | true =>
    obtain ⟨err, hsave⟩ := h.resolve_left Bool.true_eq_false.mp
    have hkept : (NodeStore.saveHealth env.now { sent with timestamp := env.now } st).2.taken = st.taken := rfl
    rcases hsaved : NodeStore.saveHealth env.now { sent with timestamp := env.now } st with ⟨r, st'⟩
    rw [hsaved] at hkept hsave
    obtain rfl : r = .error err := hsave
    exact newPlans_self (by simp only [health, if_neg hid, hadm, hsaved]; exact hkept.trans hwatch)

omit [LawfulStore σ] in
theorem health_takes {sent : HealthReport} (hid : sent.nodeID ≠ "")
    (hadmitted : (admitted auth sent.nodeID c.store).1 = true)
    (hsaved : ¬ Failed (NodeStore.saveHealth env.now { sent with timestamp := env.now }
      (admittedStore auth sent.nodeID c.store)).1)
    (hlist : Failed (NodeStore.listNodes (env.nodeOrder 0)
      (reportedStore env auth { sent with timestamp := env.now } c.store)).1) :
    newPlans c (health host env auth (some sent) c).2 = [] ↔
      Failed (NodeStore.savePlan (nextPlan host env { id := sent.nodeID } [] [] c)
        (listedStore env 0 (reportedStore env auth { sent with timestamp := env.now } c.store))).1 := by
  have hwatch := admitted_taken auth sent.nodeID c.store
  unfold reportedStore admittedStore at *
  rcases hadm : admitted auth sent.nodeID c.store with ⟨ok, st⟩
  rw [hadm] at hadmitted hsaved hlist hwatch
  obtain rfl : ok = true := hadmitted
  have hkept : (NodeStore.saveHealth env.now { sent with timestamp := env.now } st).2.taken = st.taken := rfl
  rcases hsave : NodeStore.saveHealth env.now { sent with timestamp := env.now } st with ⟨r, st'⟩
  simp only [hsave] at hkept hsaved hlist ⊢
  cases r with
  | error err => exact absurd ⟨err, rfl⟩ hsaved
  | ok =>
    obtain ⟨err, hlist⟩ := hlist
    have hnone : Reply.getD (NodeStore.listNodes (env.nodeOrder 0) st').1 [] = [] := by rw [hlist]; rfl
    refine newPlans_eq_nil_iff (w := listedStore env 0 st') (hkept.trans hwatch) ?_
    simp only [health, if_neg hid, hadm, hsave, hnone]
    exact savePlanWithRules_taken host env { id := sent.nodeID } [] []
      { c with store := (NodeStore.listNodes (env.nodeOrder 0) st').2 }

end

theorem respects_health (c : Controller (Watched σ)) (auth : Credentials) (body : Option HealthReport) :
    Respects host env c (.health auth body) ↔ Harmless host env c (.health auth body) := by
  refine forall₂_congr fun report hbody => forall_congr' fun hlist => ?_
  obtain ⟨sent, rfl, rfl⟩ := hbody
  by_cases hid : sent.nodeID = ""
  · exact iff_of_true (health_takes_none host env (.inl hid)) (.inl hid)
  by_cases hadmitted : (admitted auth sent.nodeID c.store).1 = false
  · exact iff_of_true (health_takes_none host env (.inr (.inl hadmitted))) (.inr (.inl hadmitted))
  by_cases hsaved : Failed (NodeStore.saveHealth env.now { sent with timestamp := env.now }
      (admittedStore auth sent.nodeID c.store)).1
  · exact iff_of_true (health_takes_none host env (.inr (.inr hsaved))) (.inr (.inr (.inl hsaved)))
  rw [or_iff_right hid, or_iff_right hadmitted, or_iff_right hsaved]
  exact health_takes host env hid (by simpa using hadmitted) hsaved hlist

section

variable {auth : Credentials} {nodeID : String} {c : Controller (Watched σ)}

omit [LawfulStore σ] in
theorem getPlan_takes_none (h : nodeID = "" ∨ (admitted auth nodeID c.store).1 = false ∨
      Failed (NodeStore.listNodes (env.nodeOrder 0) (admittedStore auth nodeID c.store)).1) :
    newPlans c (getPlan host env auth nodeID c).2 = [] := by
  by_cases hid : nodeID = ""
  · exact newPlans_self (by simp [getPlan, hid])
  have hwatch := admitted_taken auth nodeID c.store
  rw [or_iff_right hid, admittedStore] at h
  rcases hadm : admitted auth nodeID c.store with ⟨ok, st⟩
  rw [hadm] at h hwatch
  cases ok with
  | false => exact newPlans_self (by simp only [getPlan, if_neg hid, hadm]; exact hwatch)
  | true =>
    obtain ⟨err, hlist⟩ := h.resolve_left Bool.true_eq_false.mp
    have hkept : (NodeStore.listNodes (env.nodeOrder 0) st).2.taken = st.taken := rfl
    rcases hlisted : NodeStore.listNodes (env.nodeOrder 0) st with ⟨r, st'⟩
    rw [hlisted] at hkept hlist
    obtain rfl : r = .error err := hlist
    exact newPlans_self (by simp only [getPlan, if_neg hid, hadm, hlisted]; exact hkept.trans hwatch)

/-- The plan that `GET /plan` makes of these nodes when no reports can be read. -/
def unreadPlan (nodes : List Node) (nodeID : String) (c : Controller (Watched σ)) : Plan :=
  nextPlan host env (planTarget nodes nodeID) (buildPeerPlan nodeID nodes ∅) (expandPolicyRules nodes nodeID) c

omit [LawfulStore σ] in
theorem getPlan_takes {nodes : List Node} (hid : nodeID ≠ "") (hadmitted : (admitted auth nodeID c.store).1 = true)
    (hlist : (NodeStore.listNodes (env.nodeOrder 0) (admittedStore auth nodeID c.store)).1 = .ok nodes)
    (hread : Failed (NodeStore.listHealth (env.healthOrder 0)
      (listedStore env 0 (admittedStore auth nodeID c.store))).1) :
    (getPlan host env auth nodeID c).2.store.taken =
      (NodeStore.savePlan (unreadPlan host env nodes nodeID c) (NodeStore.listHealth (env.healthOrder 0)
        (listedStore env 0 (admittedStore auth nodeID c.store))).2).2.taken := by
  unfold listedStore admittedStore at *
  rcases hadm : admitted auth nodeID c.store with ⟨ok, st⟩
  rw [hadm] at hadmitted hlist hread
  obtain rfl : ok = true := hadmitted
  rcases hlisted : NodeStore.listNodes (env.nodeOrder 0) st with ⟨r, st'⟩
  simp only [hlisted] at hlist hread ⊢
  subst hlist
  obtain ⟨err, hread⟩ := hread
  have hnone : Reply.getD (NodeStore.listHealth (env.healthOrder 0) st').1 [] = [] := by rw [hread]; rfl
  simp only [getPlan, if_neg hid, hadm, hlisted, hnone]
  rw [diagInterval_taken, loadSettings_taken]
  exact savePlanWithRules_taken host env (planTarget nodes nodeID) (buildPeerPlan nodeID nodes ∅)
    (expandPolicyRules nodes nodeID) { c with store := (NodeStore.listHealth (env.healthOrder 0) st').2 }

end

theorem respects_plan (c : Controller (Watched σ)) (auth : Credentials) (nodeID : String) :
    Respects host env c (.plan auth nodeID) ↔ Harmless host env c (.plan auth nodeID) := by
  have hstart : (NodeStore.listHealth (env.healthOrder 0)
      (listedStore env 0 (admittedStore auth nodeID c.store))).2.taken = c.store.taken :=
    admitted_taken auth nodeID c.store
  constructor
  · intro h nodes hread hlist hid hadmitted hsaved
    have hgood := h hread
    rw [newPlans_saved hstart (getPlan_takes host env hid hadmitted hlist hread) hsaved,
      List.forall_mem_singleton] at hgood
    exact (spares_iff host env).mp hgood
  · intro h hread
    by_cases hid : nodeID = ""
    · rw [getPlan_takes_none host env (.inl hid)]
      exact List.forall_mem_nil _
    cases hadmitted : (admitted auth nodeID c.store).1 with
    | false =>
      rw [getPlan_takes_none host env (.inr (.inl hadmitted))]
      exact List.forall_mem_nil _
    | true =>
      cases hlist : (NodeStore.listNodes (env.nodeOrder 0) (admittedStore auth nodeID c.store)).1 with
      | error err =>
        rw [getPlan_takes_none host env (.inr (.inr ⟨err, hlist⟩))]
        exact List.forall_mem_nil _
      | ok nodes =>
        have htakes := getPlan_takes host env hid hadmitted hlist hread
        by_cases hf : Failed (NodeStore.savePlan (unreadPlan host env nodes nodeID c)
            (NodeStore.listHealth (env.healthOrder 0) (listedStore env 0 (admittedStore auth nodeID c.store))).2).1
        · rw [newPlans_refused hstart htakes hf]
          exact List.forall_mem_nil _
        · rw [newPlans_saved hstart htakes hf, List.forall_mem_singleton]
          exact (spares_iff host env).mpr (h nodes hread hlist hid hadmitted hf)

omit [LawfulStore σ] in
theorem recompute_unread {c : Controller σ} {k : Nat} {nodes : List Node}
    (hlist : (NodeStore.listNodes (env.nodeOrder k) c.store).1 = .ok nodes)
    (hread : Failed (NodeStore.listHealth (env.healthOrder k) (listedStore env k c.store)).1) :
    (recomputeAllPlans host env k c).2 = run (saveUnreported host env nodes)
      { c with store := (NodeStore.listHealth (env.healthOrder k) (listedStore env k c.store)).2 } nodes := by
  obtain ⟨err, hread⟩ := hread
  cases hnodes : NodeStore.listNodes (env.nodeOrder k) c.store with
  | mk r st =>
    rw [hnodes] at hlist
    obtain rfl : r = .ok nodes := hlist
    rw [listedStore, hnodes] at hread ⊢
    have hnone : Reply.getD (NodeStore.listHealth (env.healthOrder k) st).1 [] = [] := by rw [hread]; rfl
    simp only [recomputeAllPlans, hnodes, hnone]
    rfl

theorem respects_recompute (c : Controller (Watched σ)) (k : Nat) :
    Respects host env c (.recompute k) ↔ Harmless host env c (.recompute k) := by
  show (_ → _) ↔ ∀ nodes, _ → _ → _
  cases hlist : NodeStore.listNodes (env.nodeOrder k) c.store with
  | mk r st =>
    cases r with
    | error err =>
      refine iff_of_true (fun _ p hp => ?_) fun nodes _ h => by cases h
      have htaken : st.taken = c.store.taken := (congrArg (·.2.taken) hlist).symm
      have hnew : newPlans c (recomputeAllPlans host env k c).2 = [] := by
        simp only [newPlans, recomputeAllPlans, hlist, htaken, List.drop_length]
      rw [hnew] at hp
      cases hp
    | ok nodes =>
      have hok : (NodeStore.listNodes (env.nodeOrder k) c.store).1 = .ok nodes := by rw [hlist]
      obtain ⟨new, hnew, hgood⟩ := saveUnreported_taken host env c.Spares nodes nodes
        { c with store := (NodeStore.listHealth (env.healthOrder k) (listedStore env k c.store)).2 }
      have hplans : Failed (NodeStore.listHealth (env.healthOrder k) (listedStore env k c.store)).1 →
          newPlans c (recomputeAllPlans host env k c).2 = new := by
        intro hread
        rw [newPlans, recompute_unread host env hok hread, hnew]
        exact List.drop_left
      constructor
      · intro h nodes' hread hnodes'
        obtain rfl := Except.ok.inj hnodes'
        rw [hplans hread] at h
        exact (hgood.mp (h hread)).mono fun c' n hn hf => (spares_iff host env).mp (hn hf)
      · intro h hread
        rw [hplans hread]
        exact hgood.mpr ((h nodes hread rfl).mono fun c' n hn hf => (spares_iff host env).mpr (hn hf))

omit [LawfulStore σ] in
theorem loadSettings_unread {s : σ} (h : Failed (NodeStore.getSettings s).1) :
    loadSettingsOrDefault s = ({ geoIP := defaultGeoIP, diag := defaultDiag }, (NodeStore.getSettings s).2) := by
  obtain ⟨err, h⟩ := h
  cases hget : NodeStore.getSettings s with
  | mk r st =>
    rw [hget] at h
    cases h
    rw [loadSettingsOrDefault, hget]

theorem settingsKept_iff (s : σ) (hread : Failed (NodeStore.getSettings s).1) (patch : α → SettingsPatch)
    (page : Settings → β) (auth : Credentials) (body : Option α) :
    SettingsKept s (postSettings patch page auth body s).2 ↔
      ∀ cfg, body = some cfg → auth.jwt = true → PatchHarmless s (patch cfg) := by
  by_cases hjwt : auth.jwt = true
  · cases body with
    | none => simp [postSettings, hjwt, SettingsKept]
    | some cfg =>
      have hget := LawfulStore.getSettings_data s
      simp only [postSettings, hjwt, loadSettings_unread hread, Bool.not_true, Bool.false_eq_true, if_false,
        Option.some.injEq, forall_eq', forall_true_left, PatchHarmless]
      rw [← SettingsPatch.overDefaults]
      cases hup : NodeStore.updateSettings (patch cfg).overDefaults (NodeStore.getSettings s).2 with
      | mk r st =>
        cases r with
        | error err =>
          have hkept := LawfulStore.updateSettings_error (congrArg Prod.fst hup)
          rw [hup] at hkept
          refine iff_of_true ?_ (.inl ⟨err, rfl⟩)
          exact congrArg LawfulStore.settings (hkept.trans hget)
        | ok =>
          have hwritten := LawfulStore.updateSettings_ok (congrArg Prod.fst hup)
          rw [hup] at hwritten
          have hanswered : ¬ Failed (Except.ok () : Reply Unit) := by
            rintro ⟨err, h⟩
            cases h
          rw [or_iff_right hanswered, SettingsKept, ← hwritten]
  · simp [postSettings, hjwt, SettingsKept]

/-- A failed read does no harm exactly in these requests and states. -/
theorem failed_reads_iff (c : Controller (Watched σ)) (e : Handling) :
    Respects host env c e ↔ Harmless host env c e := by
  cases e with
  | register auth body => exact respects_register host env c auth body
  | prepare auth httpAddr body => exact respects_prepare host env c auth httpAddr body
  | health auth body => exact respects_health host env c auth body
  | plan auth nodeID => exact respects_plan host env c auth nodeID
  | recompute k => exact respects_recompute host env c k
  | geoIP auth body =>
    have hpost := fun hread => settingsKept_iff c.store hread .geoIP Settings.geoIP auth body
    exact ⟨fun h cfg hbody hread => (hpost hread).mp (h hread) cfg hbody,
      fun h hread => (hpost hread).mpr fun cfg hbody => h cfg hbody hread⟩
  | diag auth body =>
    have hpost := fun hread => settingsKept_iff c.store hread .diag Settings.diag auth body
    exact ⟨fun h cfg hbody hread => (hpost hread).mp (h hread) cfg hbody,
      fun h hread => (hpost hread).mpr fun cfg hbody => h cfg hbody hread⟩

/-- The note of the plans taken is the model's own: without it the controller
gives the same answers, and the nodes have the same. -/
theorem serve_unwatched (r : Request) (c : Controller (Watched σ)) :
    (serve host env r (c.mapStore Watched.store)).1 = (serve host env r c).1 ∧
      (serve host env r (c.mapStore Watched.store)).2.holdings = (serve host env r c).2.holdings := by
  rw [Watched.storeMap.serve]
  exact ⟨rfl, rfl⟩

omit [LawfulStore σ] in
theorem recompute_unwatched (k : Nat) (c : Controller (Watched σ)) :
    recomputeAllPlans host env k (c.mapStore Watched.store) =
      Controller.mapAnswer Watched.store (recomputeAllPlans host env k c) := Watched.storeMap.recomputeAllPlans ..

omit [LawfulStore σ] in
theorem postSettings_unwatched (patch : α → SettingsPatch) (page : Settings → β) (auth : Credentials)
    (body : Option α) (w : Watched σ) : postSettings patch page auth body w.store =
      through Watched.store (postSettings patch page auth body w) := Watched.storeMap.postSettings ..

end

def unreadable : Controller (Watched ConsulStore) :=
  start { store := { kv := { (ConsulStore.empty 0 Nat.succ Nat.lt_succ_self).kv.write (ConsulStore.nodeKey "edge")
    (.node { id := "edge", publicKey := "pub", privateKey := "priv", overlayIP := "10.10.7.1/32",
             provisionToken := "pt-7" }) with
      fails := fun n => if n = 0 then some "timeout" else none } } }

/-- A register that cannot read the record makes a new one in its place. -/
theorem failed_read_drops_record :
    ¬ ∀ (host : Host) (env : Env) (c : Controller (Watched ConsulStore)) (e : Handling), Respects host env c e := by
  intro h
  have hread : Failed (NodeStore.getNode "edge" unreadable.store).1 := ⟨"timeout", rfl⟩
  have hanew : RegistersAnew unreadable { jwt := true } (some { id := "edge", publicKey := "own" })
      { id := "edge", publicKey := "own" } := by
    refine ⟨⟨_, rfl, rfl⟩, by decide, rfl, rfl, ?_⟩
    rintro ⟨err, herr⟩
    cases herr
  have hkept := h Host.sample {} unreadable (.register { jwt := true } (some { id := "edge", publicKey := "own" }))
    { id := "edge", publicKey := "own" } ⟨_, rfl, rfl⟩ hread _ rfl
  have hlost := (register_anew Host.sample {} hread hanew).symm.trans hkept
  exact absurd (congrArg Holdings.privateKey (Option.some.inj hlost)) (by decide)

end PeerWan
