import PeerWan.Versions

/-!
# The plan that is answered and the plan that is stored

`GET /plan` names the version of its answer by the counter as it finds it, and
then saves the plan under the next one. A counter that is not positive gives
the time instead, and the clock is read anew for the plan that is saved. The
two plans have one content and hardly ever one name.
-/

namespace PeerWan

open Lib

structure Reading where
  now : Int
  /-- As `time.RFC3339Nano` prints it, which begins with the year. -/
  text : String

def Reading.Printed (t : Reading) : Prop := ∃ d ds, t.text.toList = d :: ds ∧ d.isDigit

def Env.at (env : Env) (t : Reading) : Env := { env with now := t.now, nowText := t.text }

def Env.reading (env : Env) : Reading := ⟨env.now, env.nowText⟩

/-- `GET /plan`, which reads the clock for its answer and later for the plan
that it saves. -/
def getPlanAt {σ : Type} [NodeStore σ] (host : Host) (env : Env) (later : Reading) (auth : Credentials)
    (nodeID : String) (c : Controller σ) : Response × Controller σ :=
  if nodeID = "" then (.error 400 "nodeId is required", c)
  else match admitted auth nodeID c.store with
    | (false, st) => (.error 401 "unauthorized", { c with store := st })
    | (true, st) =>
      match NodeStore.listNodes (env.nodeOrder 0) st with
      | (.error _, st) => (.error 500 "failed to list nodes", { c with store := st })
      | (.ok nodes, st) =>
        let rules := expandPolicyRules nodes nodeID
        let (reports, st) := NodeStore.listHealth (env.healthOrder 0) st
        let peerPlan := buildPeerPlan nodeID nodes (healthMap (Reply.getD reports []))
        let target := (nodes.find? fun n => n.id = nodeID).getD {}
        let version := planConfigVersion env c.planVersion
        let c := savePlanWithRules host (env.at later) target peerPlan rules { c with store := st }
        let (settings, st) := loadSettingsOrDefault c.store
        let (interval, st) := diagIntervalSeconds host st
        let cfg := configOf target version peerPlan rules settings.geoIP interval
          "dynamic plan based on current health"
        (⟨200, .config { cfg with id := nodeID }⟩, { c with store := st })

theorem getPlanAt_reading {σ : Type} [NodeStore σ] (host : Host) (env : Env) (auth : Credentials)
    (nodeID : String) (c : Controller σ) :
    getPlanAt host env env.reading auth nodeID c = getPlan host env auth nodeID c := rfl

-- ---------------------------------------------------------------------------
-- Names of versions
-- ---------------------------------------------------------------------------

/-- A value of Go's `int64`. -/
def IsInt64 (v : Int) : Prop := int64 v = v

instance (v : Int) : Decidable (IsInt64 v) := inferInstanceAs (Decidable (_ = _))

theorem isInt64_int64 (v : Int) : IsInt64 (int64 v) := by
  simp [IsInt64, int64]

theorem IsInt64.bounds (h : IsInt64 v) : -2 ^ 63 ≤ v ∧ v < 2 ^ 63 := by
  have hlow := Int.le_bmod (x := v) (m := 2 ^ 64) (by decide)
  have hhigh := Int.bmod_lt (x := v) (m := 2 ^ 64) (by decide)
  rw [← int64, h] at hlow hhigh
  omega

theorem dynamic_injective {s s' : String} (h : "dynamic-" ++ s = "dynamic-" ++ s') : s = s' := by
  rw [← String.toList_inj] at h ⊢
  rw [String.toList_append, String.toList_append] at h
  exact List.append_cancel_left h

theorem itoa_injective (hv : IsInt64 v) (hw : IsInt64 w) (hpos : 0 ≤ v) (hpos' : 0 ≤ w) (h : itoa v = itoa w) :
    v = w := by
  have hbound := hv.bounds
  have hbound' := hw.bounds
  rw [itoa_eq_toString hpos (by omega), itoa_eq_toString hpos' (by omega)] at h
  exact toString_int_injective h

theorem numbered_ne_printed {t : Reading} (ht : t.Printed) (s : String) :
    "dynamic-v" ++ s ≠ "dynamic-" ++ t.text := by
  obtain ⟨d, ds, hlist, hd⟩ := ht
  intro h
  have hsplit : "dynamic-v" ++ s = "dynamic-" ++ ("v" ++ s) := by
    rw [← String.append_assoc]
    rfl
  have htext := congrArg String.toList (dynamic_injective (hsplit ▸ h))
  rw [String.toList_append, hlist] at htext
  obtain rfl : 'v' = d := (List.cons.inj htext).1
  exact absurd hd (by decide)

/-- The names of one counter value and of the next are one name only where both
are made of the time. -/
theorem planConfigVersion_next {env : Env} {later : Reading} (hv : IsInt64 v) (ht : env.reading.Printed)
    (ht' : later.Printed) :
    planConfigVersion (env.at later) (int64 (v + 1)) = planConfigVersion env v ↔ v < 0 ∧ later.text = env.nowText := by
  unfold planConfigVersion
  by_cases hpos : v > 0
  · rw [if_pos hpos]
    refine iff_of_false (fun h => ?_) (by omega)
    split at h
    next hpos' =>
      have hsame : "dynamic-" ++ ("v" ++ itoa (int64 (v + 1))) = "dynamic-" ++ ("v" ++ itoa v) := by
        rw [← String.append_assoc, ← String.append_assoc]
        exact h
      have hitoa : itoa (int64 (v + 1)) = itoa v := by
        have hlist := congrArg String.toList (dynamic_injective hsame)
        rw [String.toList_append, String.toList_append] at hlist
        exact String.toList_inj.mp (List.append_cancel_left hlist)
      exact int64_succ_ne v (itoa_injective (isInt64_int64 _) hv hpos'.le hpos.le hitoa)
    next => exact numbered_ne_printed ht' _ h.symm
  · rw [if_neg hpos]
    by_cases hzero : v = 0
    · subst hzero
      refine iff_of_false (fun h => numbered_ne_printed ht (itoa (int64 (0 + 1))) ?_) (by omega)
      rwa [if_pos (by decide)] at h
    · have hneg : v < 0 := by omega
      have hbound := hv.bounds
      have hstill : ¬ int64 (v + 1) > 0 := by
        rw [int64, Int.bmod_eq_of_le] <;> omega
      rw [if_neg hstill]
      constructor
      · intro h
        exact ⟨hneg, dynamic_injective h⟩
      · rintro ⟨-, h⟩
        exact congrArg ("dynamic-" ++ ·) h

-- ---------------------------------------------------------------------------
-- The two plans
-- ---------------------------------------------------------------------------

/-- The plan has the content of an answer. -/
structure Plan.SameContent (p : Plan) (cfg : NodeConfigResponse) : Prop where
  peers : p.peers = cfg.wireGuardPeers
  routes : p.routes = cfg.routes
  rules : p.policyRules = cfg.policyRules

/-- The store has the plan that was answered: as the plan of the node, and in
its history under the version of the answer. -/
structure StoresAnswer (m : MemoryStore) (nodeID : String) (cfg : NodeConfigResponse) : Prop where
  current : ∃ p, m.plans nodeID = some p ∧ p.configVersion = cfg.configVersion ∧ p.SameContent cfg
  history : ∃ p ∈ m.history nodeID, p.configVersion = cfg.configVersion ∧ p.SameContent cfg

/-- The plan just answered is the plan just stored. -/
def AnswerStored (host : Host) (env : Env) (later : Reading) (auth : Credentials) (nodeID : String)
    (c : Controller MemoryStore) : Prop :=
  ∃ cfg, (getPlanAt host env later auth nodeID c).1 = ⟨200, .config cfg⟩ ∧
    StoresAnswer (getPlanAt host env later auth nodeID c).2.store nodeID cfg

section

variable {host : Host} {env : Env} {later : Reading} {auth : Credentials} {nodeID : String}
  {c : Controller MemoryStore}

def answeredPlan (host : Host) (env : Env) (later : Reading) (n : Node) (c : Controller MemoryStore) : Plan :=
  planOf host (env.at later) (int64 (c.planVersion + 1)) n
    (buildPeerPlan n.id (c.store.nodes.range (env.nodeOrder 0)) c.store.health)
    (expandPolicyRules (c.store.nodes.range (env.nodeOrder 0)) n.id)

theorem getPlanAt_accepted (hid : nodeID ≠ "") (hauth : Admits c.store auth nodeID)
    (hn : c.store.nodes.get? nodeID = some n) :
    (getPlanAt host env later auth nodeID c).1 = ⟨200, .config (getPlanConfig host env nodeID c)⟩ ∧
      (getPlanAt host env later auth nodeID c).2.store =
        { c.store.savePlan (answeredPlan host env later n c) with
          globalPlanVersion := int64 (c.planVersion + 1) } := by
  classical
  have hadm : admitted auth nodeID c.store = (true, c.store) := by
    simpa [hauth] using admitted_store c.store auth nodeID
  obtain rfl : n.id = nodeID := Table.key_of_get? hn
  unfold getPlanAt
  simp only [if_neg hid, hadm, MemoryStore.store_listNodes, MemoryStore.store_listHealth,
    Reply.getD_ok, Table.find?_range, buildPeerPlan_healthMap, loadSettingsOrDefault_store,
    diagIntervalSeconds_store, hn, Option.getD_some]
  rw [savePlanWithRules_eq]
  constructor
  · simp only [getPlanConfig, hn, Option.getD_some]
    rfl
  · rfl

theorem answeredPlan_sameContent (hn : c.store.nodes.get? nodeID = some n) :
    (answeredPlan host env later n c).SameContent (getPlanConfig host env nodeID c) := by
  obtain rfl : n.id = nodeID := Table.key_of_get? hn
  refine ⟨rfl, ?_, rfl⟩
  simp [answeredPlan, getPlanConfig, planOf, configOf, hn]

theorem answerStored_of_version (hid : nodeID ≠ "") (hauth : Admits c.store auth nodeID)
    (hn : c.store.nodes.get? nodeID = some n) :
    AnswerStored host env later auth nodeID c ↔
      planConfigVersion (env.at later) (int64 (c.planVersion + 1)) = planConfigVersion env c.planVersion := by
  obtain ⟨hresp, hstore⟩ := @getPlanAt_accepted host env later auth nodeID c n hid hauth hn
  have hcurrent : (getPlanAt host env later auth nodeID c).2.store.plans nodeID =
      some (answeredPlan host env later n c) := by
    obtain rfl : n.id = nodeID := Table.key_of_get? hn
    rw [hstore]
    exact Function.update_self ..
  constructor
  · rintro ⟨cfg, hcfg, h⟩
    obtain rfl : getPlanConfig host env nodeID c = cfg := by
      rw [hresp] at hcfg
      simpa using hcfg
    obtain ⟨p, hp, hversion, -⟩ := h.current
    obtain rfl := Option.some.inj (hcurrent.symm.trans hp)
    exact hversion
  · intro h
    have hsame := @answeredPlan_sameContent host env later nodeID c n hn
    refine ⟨_, hresp, ⟨_, hcurrent, h, hsame⟩, _, ?_, h, hsame⟩
    obtain rfl : n.id = nodeID := Table.key_of_get? hn
    have hhistory : (getPlanAt host env later auth n.id c).2.store.history n.id =
        (c.store.history n.id ++ [answeredPlan host env later n c]).rtake 20 := by
      rw [hstore]
      exact Function.update_self ..
    rw [hhistory, List.rtake_eq_reverse_take_reverse]
    simp

/-- The plan that `GET /plan` answers is the one it stores exactly when the
counter is negative and the clock reads the same twice. -/
theorem answerStored_iff (hid : nodeID ≠ "") (hauth : Admits c.store auth nodeID)
    (hn : c.store.nodes.get? nodeID = some n) (hv : IsInt64 c.planVersion) (ht : env.reading.Printed)
    (ht' : later.Printed) :
    AnswerStored host env later auth nodeID c ↔ c.planVersion < 0 ∧ later.text = env.nowText :=
  (answerStored_of_version hid hauth hn).trans (planConfigVersion_next hv ht ht')

end

def afterRegister : Controller MemoryStore :=
  Request.step .sample ({}, .register { jwt := true } (some { id := "a", publicKey := "ka", cidrs := ["10.1.0.0/16"] }))
    (start MemoryStore.new)

/-- Below zero the versions carry the time. -/
theorem answerStored_negative : AnswerStored .sample { nowText := "2024-05-01T00:00:00Z" }
    ⟨1, "2024-05-01T00:00:00Z"⟩ { jwt := true } "a" { afterRegister with planVersion := -5 } := by
  have hn : afterRegister.store.nodes.get? "a" = some ((afterRegister.store.nodes.get? "a").getD {}) := by decide
  refine Iff.mpr (answerStored_iff (by decide) (.inl rfl) hn (by decide) ?_ ?_) (by decide)
  · exact ⟨'2', "024-05-01T00:00:00Z".toList, by decide, by decide⟩
  · exact ⟨'2', "024-05-01T00:00:00Z".toList, by decide, by decide⟩

/-- The counter stands at 2, so the answer is named by 2 and the stored plan by 3. -/
theorem answerStored_counterexample : ¬ ∀ (host : Host) (env : Env) (later : Reading) (auth : Credentials)
    (nodeID : String) (c : Controller MemoryStore) (n : Node), nodeID ≠ "" → Admits c.store auth nodeID →
    c.store.nodes.get? nodeID = some n → AnswerStored host env later auth nodeID c := by
  intro h
  have hn : afterRegister.store.nodes.get? "a" = some ((afterRegister.store.nodes.get? "a").getD {}) := by decide
  have hstored := h .sample {} ⟨1, "2024-05-01T00:00:00Z"⟩ { jwt := true } "a" afterRegister _ (by decide)
    (.inl rfl) hn
  rw [answerStored_of_version (by decide) (.inl rfl) hn] at hstored
  revert hstored
  decide

end PeerWan
