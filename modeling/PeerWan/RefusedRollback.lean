import PeerWan.Consul.Calls
import PeerWan.Controller.Handlers

/-!
# What a refused rollback leaves

The handler of `/api/v1/plan/rollback` has the store roll back, and looks at the
plan's signature afterwards. The Consul store writes a plan in two requests,
and the second one may fail.
-/

namespace PeerWan

open Lib

-- ---------------------------------------------------------------------------
-- The handler over any store
-- ---------------------------------------------------------------------------

/-- The node that a request is about; any node, if the body does not decode. -/
def Requested (body : Option (String × Int)) (nodeID : String) : Prop := ∀ r ∈ body, r.1 = nodeID

/-- What is not answered with 200 has not moved the counter, nor the plan, the
history and the global version, as `Same` compares them for one node. -/
def RefusedKeeps [NodeStore σ] (Same : String → σ → σ → Prop) (host : Host) (env : Env) (auth : Credentials)
    (body : Option (String × Int)) (c : Controller σ) : Prop :=
  (rollback host env auth body c).1.code ≠ 200 →
    (rollback host env auth body c).2.planVersion = c.planVersion ∧
      ∀ nodeID, Requested body nodeID → Same nodeID c.store (rollback host env auth body c).2.store

section

variable {σ : Type} [NodeStore σ] {Same : String → σ → σ → Prop}

theorem rollback_eq (host : Host) (env : Env) (auth : Credentials) (c : Controller σ) (nodeID : String) (v : Int)
    (hjwt : auth.jwt = true) (hid : nodeID ≠ "") :
    ((rollback host env auth (some (nodeID, v)) c).1.code ≠ 200 ↔
      ∀ p, (NodeStore.rollbackPlan nodeID v c.store).1 = .ok p → p.signatureValid host = false) ∧
    ((rollback host env auth (some (nodeID, v)) c).1.code ≠ 200 →
      (rollback host env auth (some (nodeID, v)) c).2 =
        { c with store := (NodeStore.rollbackPlan nodeID v c.store).2 }) := by
  unfold rollback
  simp only [hjwt, Bool.not_true, Bool.false_eq_true, if_false, if_neg hid]
  rcases hr : NodeStore.rollbackPlan nodeID v c.store with ⟨r, st⟩
  cases r with
  | error err => simp
  | ok p => cases hp : p.signatureValid host <;> simp [hp]

/-- A request is refused without a word to the store, or after its rollback. -/
theorem refusedKeeps_iff (hrefl : ∀ nodeID st, Same nodeID st st) (host : Host) (env : Env) (auth : Credentials)
    (body : Option (String × Int)) (c : Controller σ) :
    RefusedKeeps Same host env auth body c ↔
      (auth.jwt = true → ∀ nodeID v, body = some (nodeID, v) → nodeID ≠ "" →
        (∀ p, (NodeStore.rollbackPlan nodeID v c.store).1 = .ok p → p.signatureValid host = false) →
          Same nodeID c.store (NodeStore.rollbackPlan nodeID v c.store).2) := by
  constructor
  · rintro h hjwt nodeID v rfl hid hinvalid
    obtain ⟨hcode, hstate⟩ := rollback_eq host env auth c nodeID v hjwt hid
    have hrefused := hcode.mpr hinvalid
    have hsame := (h hrefused).2 nodeID (by simp [Requested])
    rwa [hstate hrefused] at hsame
  · intro h hrefused
    by_cases hjwt : auth.jwt = true
    · rcases body with _ | ⟨nodeID, v⟩
      · simp [rollback, hjwt, hrefl]
      by_cases hid : nodeID = ""
      · simp [rollback, hjwt, hid, hrefl]
      · obtain ⟨hcode, hstate⟩ := rollback_eq host env auth c nodeID v hjwt hid
        rw [hstate hrefused]
        refine ⟨rfl, fun nodeID' hid' => ?_⟩
        obtain rfl : nodeID = nodeID' := hid' _ rfl
        exact h hjwt nodeID v rfl hid (hcode.mp hrefused)
    · simp [rollback, hjwt, hrefl]

end

-- ---------------------------------------------------------------------------
-- The memory store
-- ---------------------------------------------------------------------------

def MemoryStore.SameRecords (nodeID : String) (m m' : MemoryStore) : Prop :=
  m'.plans nodeID = m.plans nodeID ∧ m'.history nodeID = m.history nodeID ∧
    m'.globalPlanVersion = m.globalPlanVersion

/-- The plan that a rollback finds is validly signed, or it is what the node has
and its version is the global one. -/
def MemoryStore.Harmless (host : Host) (m : MemoryStore) (nodeID : String) (v : Int) : Prop :=
  ∀ p, (m.history nodeID).find? (fun p => p.version = v) = some p → p.signatureValid host = false →
    m.plans nodeID = some p ∧ m.globalPlanVersion = v

theorem MemoryStore.rollback_same_iff (host : Host) (m : MemoryStore) (nodeID : String) (v : Int) :
    ((∀ p, (m.rollbackPlan nodeID v).1 = .ok p → p.signatureValid host = false) →
      SameRecords nodeID m (m.rollbackPlan nodeID v).2) ↔ m.Harmless host nodeID v := by
  unfold MemoryStore.rollbackPlan Harmless
  cases hfind : (m.history nodeID).find? (fun p => p.version = v) with
  | none => simp [SameRecords]
  | some p =>
    simp only [SameRecords, Function.update_self, Except.ok.injEq, Option.some.injEq, forall_eq', true_and]
    exact imp_congr_right fun _ => and_congr eq_comm eq_comm

-- ---------------------------------------------------------------------------
-- The Consul store
-- ---------------------------------------------------------------------------

namespace ConsulStore

/-- The keys of a node's plan and of its history, and the key of the global
version. -/
def Holds (nodeID k : String) : Prop :=
  k = planKey nodeID ∨ Under (planPrefix ++ nodeID ++ "/") k ∨ k = versionKey

def SameRecords (nodeID : String) (s s' : ConsulStore) : Prop :=
  ∀ k, Holds nodeID k → s'.kv.value? k = s.kv.value? k

theorem SameRecords.reads {nodeID : String} {s s' : ConsulStore} (h : SameRecords nodeID s s') (hw : s.kv.Works)
    (hw' : s'.kv.Works) : (s'.getPlan nodeID).1 = (s.getPlan nodeID).1 ∧
      (s'.getGlobalPlanVersion).1 = (s.getGlobalPlanVersion).1 ∧
      ∀ limit, (s'.listPlanHistory nodeID limit).1 = (s.listPlanHistory nodeID limit).1 := by
  have hplan := h (planKey nodeID) (.inl rfl)
  have hversion := h versionKey (.inr (.inr rfl))
  have hlisting := KV.listing_congr (fun k hk => h k (.inr (.inl hk))) ConsulValue.plan?
  unfold KV.value? at hplan hversion
  refine ⟨?_, ?_, fun limit => ?_⟩
  · unfold getPlan
    rw [getValue_works hw, getValue_works hw']
    cases hget : s.kv.get? (planKey nodeID) <;> cases hget' : s'.kv.get? (planKey nodeID) <;> simp_all
  · unfold getGlobalPlanVersion withKV
    rw [KV.get_works hw, KV.get_works hw']
    cases hget : s.kv.get? versionKey <;> cases hget' : s'.kv.get? versionKey <;> simp_all
  · unfold listPlanHistory listValues withKV KV.list
    rw [KV.request_works hw, KV.request_works hw']
    simp [hlisting]

/-- The plan of the history that a rollback comes to write: its key is read, and
the check on the plan's key is made and passes. -/
structure Writes (s : ConsulStore) (nodeID : String) (v : Int) (p : Plan) : Prop where
  read : s.kv.fails s.kv.calls = none
  checked : s.kv.fails (s.kv.calls + 1) = none
  found : s.kv.value? (planHistKey nodeID v) = some (.plan p)
  admits : s.kv.admits (planKey p.nodeID) (casIndex v)

def rewritten (s : ConsulStore) (p : Plan) (v : Int) : ConsulValue := .plan (s.dated { p with version := v })

/-- What a write puts there is not the node's, or is there already. -/
def Shows (s : ConsulStore) (nodeID k : String) (value : ConsulValue) : Prop :=
  Holds nodeID k → s.kv.value? k = some value

/-- What a rollback writes before it is refused shows nowhere: at the plan's key
when the history key cannot be written, at both keys when the signature is
wrong. -/
def Harmless (host : Host) (s : ConsulStore) (nodeID : String) (v : Int) : Prop :=
  ∀ p, s.Writes nodeID v p →
    (s.kv.fails (s.kv.calls + 2) ≠ none → s.Shows nodeID (planKey p.nodeID) (s.rewritten p v)) ∧
    (s.kv.fails (s.kv.calls + 2) = none → p.signatureValid host = false →
      s.Shows nodeID (planKey p.nodeID) (s.rewritten p v) ∧
        s.Shows nodeID (planHistKey p.nodeID v) (s.rewritten p v))

variable {s : ConsulStore} {nodeID : String} {v : Int}

/-- Where the request for the plan's key is made and its check passes, the plan
is at that key, and at the history key if that request is made as well. -/
theorem savePlan_cases (s : ConsulStore) (p : Plan) :
    (¬ (s.kv.fails s.kv.calls = none ∧ s.kv.admits (planKey p.nodeID) (casIndex p.version)) ∧
      (∃ err, (s.savePlan p).1 = .error err) ∧ ∀ k, (s.savePlan p).2.kv.value? k = s.kv.value? k) ∨
    (s.kv.fails s.kv.calls = none ∧ s.kv.admits (planKey p.nodeID) (casIndex p.version)) ∧
      ((s.kv.fails (s.kv.calls + 1) ≠ none ∧ (∃ err, (s.savePlan p).1 = .error err) ∧
        ∀ k, (s.savePlan p).2.kv.value? k =
          if planKey p.nodeID = k then some (.plan (s.dated p)) else s.kv.value? k) ∨
      (s.kv.fails (s.kv.calls + 1) = none ∧ (s.savePlan p).1 = .ok () ∧
        ∀ k, (s.savePlan p).2.kv.value? k =
          if planHistKey p.nodeID p.version = k then some (.plan (s.dated p))
          else if planKey p.nodeID = k then some (.plan (s.dated p)) else s.kv.value? k)) := by
  unfold savePlan
  simp only [dated_nodeID, dated_version]
  unfold KV.cas
  cases hcas : s.kv.fails s.kv.calls with
  | some err =>
    rw [KV.request_failed hcas]
    exact .inl ⟨by simp, ⟨err, rfl⟩, fun k => rfl⟩
  | none =>
    rw [KV.request_answered hcas]
    cases hadmits : s.kv.admits (planKey p.nodeID) (casIndex p.version) with
    | false => exact .inl ⟨by simp, ⟨_, rfl⟩, fun k => rfl⟩
    | true =>
      refine .inr ⟨⟨rfl, rfl⟩, ?_⟩
      simp only [if_true, putValue, withKV, KV.put]
      cases hput : s.kv.fails (s.kv.calls + 1) with
      | some err =>
        rw [KV.request_failed (m := err) (by exact hput)]
        exact .inl ⟨by simp, ⟨err, rfl⟩, fun k => by simp⟩
      | none =>
        rw [KV.request_answered (by exact hput)]
        exact .inr ⟨rfl, rfl, fun k => by simp⟩

theorem rollbackPlan_cases (s : ConsulStore) (nodeID : String) (v : Int) :
    ((∀ p, ¬ s.Writes nodeID v p) ∧ (∃ err, (s.rollbackPlan nodeID v).1 = .error err) ∧
      ∀ k, (s.rollbackPlan nodeID v).2.kv.value? k = s.kv.value? k) ∨
    ∃ p, s.Writes nodeID v p ∧
      ((s.kv.fails (s.kv.calls + 2) ≠ none ∧ (∃ err, (s.rollbackPlan nodeID v).1 = .error err) ∧
        ∀ k, (s.rollbackPlan nodeID v).2.kv.value? k =
          if planKey p.nodeID = k then some (s.rewritten p v) else s.kv.value? k) ∨
      (s.kv.fails (s.kv.calls + 2) = none ∧ (s.rollbackPlan nodeID v).1 = .ok { p with version := v } ∧
        ∀ k, (s.rollbackPlan nodeID v).2.kv.value? k =
          if planHistKey p.nodeID v = k then some (s.rewritten p v)
          else if planKey p.nodeID = k then some (s.rewritten p v) else s.kv.value? k)) := by
  unfold rollbackPlan withKV KV.get
  cases hget : s.kv.fails s.kv.calls with
  | some err =>
    rw [KV.request_failed hget]
    exact .inl ⟨fun p h => (nomatch hget.symm.trans h.read), ⟨_, rfl⟩, fun k => rfl⟩
  | none =>
    rw [KV.request_answered hget]
    cases hentry : s.kv.get? (planHistKey nodeID v) with
    | none =>
      refine .inl ⟨fun p h => ?_, ⟨_, rfl⟩, fun k => rfl⟩
      have hfound := h.found
      simp [KV.value?, hentry] at hfound
    | some e =>
      have hvalue : s.kv.value? (planHistKey nodeID v) = some e.value := by simp [KV.value?, hentry]
      dsimp only
      cases hplan : e.value.plan? with
      | none =>
        refine .inl ⟨fun p h => ?_, ⟨_, rfl⟩, fun k => rfl⟩
        have hfound := h.found
        rw [hvalue, Option.some.injEq, ← ConsulValue.plan?_eq_some, hplan] at hfound
        cases hfound
      | some p =>
        have hfound : s.kv.value? (planHistKey nodeID v) = some (.plan p) :=
          hvalue.trans (congrArg some (ConsulValue.plan?_eq_some.mp hplan))
        have hcases := savePlan_cases { s with kv := s.kv.called } { p with version := v }
        rcases hsave : savePlan { s with kv := s.kv.called } { p with version := v } with ⟨r, st⟩
        rw [hsave] at hcases
        dsimp only at hcases ⊢
        rw [hsave]
        rcases hcases with ⟨hnot, ⟨err, rfl⟩, hsame⟩ | ⟨⟨hcas, hadmits⟩, hwritten⟩
        · refine .inl ⟨fun q h => ?_, ⟨err, rfl⟩, hsame⟩
          obtain rfl : p = q := by simpa [hfound] using h.found
          exact hnot ⟨h.checked, h.admits⟩
        · refine .inr ⟨p, ⟨hget, hcas, hfound, hadmits⟩, ?_⟩
          rcases hwritten with ⟨hfails, ⟨err, rfl⟩, hwritten⟩ | ⟨hfails, rfl, hwritten⟩
          · exact .inl ⟨hfails, ⟨err, rfl⟩, hwritten⟩
          · exact .inr ⟨hfails, rfl, hwritten⟩

theorem shows_iff {key : String} {value : ConsulValue} :
    (∀ k, Holds nodeID k → (if key = k then some value else s.kv.value? k) = s.kv.value? k) ↔
      s.Shows nodeID key value := by
  constructor
  · intro h hkey
    have hk := h key hkey
    rwa [if_pos rfl, eq_comm] at hk
  · intro h k hk
    split
    next heq => exact (heq ▸ h (heq ▸ hk)).symm
    next => rfl

theorem shows_both_iff {key key' : String} {value : ConsulValue} :
    (∀ k, Holds nodeID k → (if key' = k then some value else if key = k then some value else s.kv.value? k) =
      s.kv.value? k) ↔ s.Shows nodeID key value ∧ s.Shows nodeID key' value := by
  rw [← shows_iff, ← shows_iff, ← forall_and]
  refine forall_congr' fun k => ?_
  rw [← imp_and]
  refine imp_congr_right fun _ => ?_
  split <;> split <;> simp

theorem rollback_same_iff (host : Host) (s : ConsulStore) (nodeID : String) (v : Int) :
    ((∀ p, (s.rollbackPlan nodeID v).1 = .ok p → p.signatureValid host = false) →
      SameRecords nodeID s (s.rollbackPlan nodeID v).2) ↔ s.Harmless host nodeID v := by
  unfold SameRecords Harmless
  rcases s.rollbackPlan_cases nodeID v with ⟨hnot, -, hsame⟩ | ⟨p, hwrites, hcases⟩
  · exact iff_of_true (fun _ k _ => hsame k) fun p hp => absurd hp (hnot p)
  · have honly : ∀ {P : Plan → Prop}, (∀ q, s.Writes nodeID v q → P q) ↔ P p := fun {P} =>
      ⟨fun h => h p hwrites, fun h q hq => by
        obtain rfl : p = q := by simpa [hwrites.found] using hq.found
        exact h⟩
    rw [honly]
    rcases hcases with ⟨hfails, ⟨err, herr⟩, hvalues⟩ | ⟨hanswered, hok, hvalues⟩
    · simp only [herr, hvalues, shows_iff, reduceCtorEq, false_implies, implies_true, true_implies, ne_eq, hfails,
        not_false_eq_true, and_true]
    · simp only [hok, hvalues, shows_both_iff, Except.ok.injEq, forall_eq', hanswered, ne_eq, not_true_eq_false,
        false_implies, true_and, true_implies]
      exact Iff.rfl

end ConsulStore

end PeerWan
