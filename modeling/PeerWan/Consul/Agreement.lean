import PeerWan.Consul.Calls
import PeerWan.Lib.Runs

/-!
# Two stores behind one interface

The same calls go to a `MemoryStore` and to a `ConsulStore`, and are to have
the same outcome. The Consul store guards a plan with a check-and-set, and
takes the plan's version for the modify index: these count different things.
-/

namespace PeerWan

open Lib

-- ---------------------------------------------------------------------------
-- Calls to both stores
-- ---------------------------------------------------------------------------

/-- The writes of the interface that are about no plan. -/
inductive StoreWrite where
  | upsertNode (n : Node)
  | updatePolicy (req : PolicyRequest)
  | setGlobalPlanVersion (v : Int)
  | saveTask (now : Int) (t : Task)
  | saveHealth (now : Int) (h : HealthReport)
  | pruneHealthBefore (cutoff : Int)
  | appendAudit (entry : AuditEntry)
  | updateSettings (cfg : Settings)
  | savePolicyStatus (nodeID : String) (timestamp : Int) (text : String)
  | savePolicyDiag (nodeID : String) (timestamp : Int) (text : String)

/-- Whether the write succeeds, and the store after it. The reports of the
policy pages go to parts of a `MemoryStore` that no plan is made from. -/
def StoreWrite.memory (w : StoreWrite) (m : MemoryStore) : Bool × MemoryStore :=
  match w with
  | .upsertNode n => let (r, m) := NodeStore.upsertNode n m; (r.isOk, m)
  | .updatePolicy req => let (r, m) := NodeStore.updatePolicy req m; (r.isOk, m)
  | .setGlobalPlanVersion v => let (r, m) := NodeStore.setGlobalPlanVersion v m; (r.isOk, m)
  | .saveTask now t => let (r, m) := NodeStore.saveTask now t m; (r.isOk, m)
  | .saveHealth now h => let (r, m) := NodeStore.saveHealth now h m; (r.isOk, m)
  | .pruneHealthBefore cutoff => let (r, m) := NodeStore.pruneHealthBefore cutoff m; (r.isOk, m)
  | .appendAudit entry => let (r, m) := NodeStore.appendAudit entry m; (r.isOk, m)
  | .updateSettings cfg => let (r, m) := NodeStore.updateSettings cfg m; (r.isOk, m)
  | .savePolicyStatus .. | .savePolicyDiag .. => (true, m)

def StoreWrite.consul (w : StoreWrite) (s : ConsulStore) : Bool × ConsulStore :=
  match w with
  | .upsertNode n => let (r, s) := NodeStore.upsertNode n s; (r.isOk, s)
  | .updatePolicy req => let (r, s) := NodeStore.updatePolicy req s; (r.isOk, s)
  | .setGlobalPlanVersion v => let (r, s) := NodeStore.setGlobalPlanVersion v s; (r.isOk, s)
  | .saveTask now t => let (r, s) := NodeStore.saveTask now t s; (r.isOk, s)
  | .saveHealth now h => let (r, s) := NodeStore.saveHealth now h s; (r.isOk, s)
  | .pruneHealthBefore cutoff => let (r, s) := NodeStore.pruneHealthBefore cutoff s; (r.isOk, s)
  | .appendAudit entry => let (r, s) := NodeStore.appendAudit entry s; (r.isOk, s)
  | .updateSettings cfg => let (r, s) := NodeStore.updateSettings cfg s; (r.isOk, s)
  | .savePolicyStatus nodeID timestamp text =>
    let (r, s) := s.savePolicyStatus nodeID timestamp text; (r.isOk, s)
  | .savePolicyDiag nodeID timestamp text =>
    let (r, s) := s.savePolicyDiag nodeID timestamp text; (r.isOk, s)

/-- A time that `time.Now` gives: never the zero time. -/
abbrev Instant := { t : Int // t ≠ 0 }

inductive StoreCall where
  | savePlan (p : Plan) (now : Instant)
  | getPlan (nodeID : String)
  | rollbackPlan (nodeID : String) (version : Int)
  | write (w : StoreWrite)

/-- Both stores, and the number of plans saved so far. -/
structure Twin where
  memory : MemoryStore
  consul : ConsulStore
  issued : Nat := 0

/-- The next plan, with its version and time as `savePlanWithRules` sets them. -/
def Twin.issue (s : Twin) (p : Plan) (now : Instant) : Plan :=
  { p with version := s.issued + 1, createdAt := now }

def StoreCall.step (c : StoreCall) (s : Twin) : Twin :=
  match c with
  | .savePlan p now =>
    { memory := (NodeStore.savePlan (s.issue p now) s.memory).2
      consul := (NodeStore.savePlan (s.issue p now) s.consul).2
      issued := s.issued + 1 }
  | .getPlan nodeID =>
    { s with
      memory := (NodeStore.getPlan nodeID s.memory).2
      consul := (NodeStore.getPlan nodeID s.consul).2 }
  | .rollbackPlan nodeID version =>
    { s with
      memory := (NodeStore.rollbackPlan nodeID version s.memory).2
      consul := (NodeStore.rollbackPlan nodeID version s.consul).2 }
  | .write w => { s with memory := (w.memory s.memory).2, consul := (w.consul s.consul).2 }

/-- Two answers with the same outcome: the same result, or an error of either
kind. -/
def Agree (r r' : Reply α) : Prop := r.toOption = r'.toOption

def Twin.SameOutcome (s : Twin) : StoreCall → Prop
  | .savePlan p now =>
    Agree (NodeStore.savePlan (s.issue p now) s.memory).1 (NodeStore.savePlan (s.issue p now) s.consul).1
  | .getPlan nodeID => Agree (NodeStore.getPlan nodeID s.memory).1 (NodeStore.getPlan nodeID s.consul).1
  | .rollbackPlan nodeID version =>
    Agree (NodeStore.rollbackPlan nodeID version s.memory).1 (NodeStore.rollbackPlan nodeID version s.consul).1
  | .write w => (w.memory s.memory).1 = (w.consul s.consul).1

def Twin.start (index : Nat) (next : Nat → Nat) (h : ∀ i, i < next i) : Twin where
  memory := MemoryStore.new
  consul := .empty index next h

/-- When the versions happen to be the indices: the plan's key has the plan's
version for its index; what is read at a plan's key is a plan of that node; and
no rollback is to a version that the memory has. -/
def Twin.Coincides (s : Twin) : StoreCall → Prop
  | .savePlan p _ => ∃ e, s.consul.kv.get? (ConsulStore.planKey p.nodeID) = some e ∧ e.modifyIndex = s.issued + 1
  | .getPlan nodeID => ∀ e, s.consul.kv.get? (ConsulStore.planKey nodeID) = some e →
    ∃ p, e.value = .plan p ∧ p.nodeID = nodeID
  | .rollbackPlan nodeID version => ∀ p ∈ s.memory.history nodeID, p.version ≠ version
  | .write _ => True

open ConsulStore

/-- The families of keys that a write may touch. -/
def StoreWrite.prefixes : StoreWrite → List String
  | .upsertNode _ | .updatePolicy _ => [nodePrefix]
  | .setGlobalPlanVersion _ => [planPrefix]
  | .saveTask .. => [taskPref]
  | .saveHealth .. => [healthPrefix, healthHistPrefix]
  | .pruneHealthBefore _ => [healthHistPrefix]
  | .appendAudit _ => [auditPrefix]
  | .updateSettings _ => [settingsKey]
  | .savePolicyStatus .. => [policyStatusPref]
  | .savePolicyDiag .. => [policyDiagPref]

theorem StoreWrite.spares {pfx : String} (w : StoreWrite) (h : ∀ b ∈ w.prefixes, Apart pfx b) (s : ConsulStore) :
    s.Spares pfx (w.consul s).2 := by
  cases w with
  | upsertNode n =>
    have hput := Spares.putValue ((h nodePrefix (by simp [prefixes])).not_under (under_append _ n.id)) s (.node n)
    show s.Spares pfx (s.upsertNode n).2
    unfold ConsulStore.upsertNode nodeKey
    split
    next heq => rw [heq] at hput; exact hput
    next heq => rw [heq] at hput; exact hput
  | updatePolicy req =>
    have hget : s.Spares pfx (s.getValue (nodeKey req.nodeID) ConsulValue.node?).2 := Spares.getValue s _ _
    show s.Spares pfx (s.updatePolicy req).2
    unfold ConsulStore.updatePolicy ConsulStore.getNode
    split
    next heq => rw [heq] at hget; exact hget
    next heq => rw [heq] at hget; exact hget
    next heq =>
      rw [heq] at hget
      exact hget.trans (Spares.putValue ((h _ (by simp [prefixes])).not_under (under_append ..)) _ _)
  | setGlobalPlanVersion v =>
    exact .putValue ((h _ List.mem_cons_self).not_under (under_append planPrefix "version")) s _
  | saveTask now t => exact .putValue ((h _ List.mem_cons_self).not_under (under_append ..)) s _
  | saveHealth now r =>
    have hhist := h healthHistPrefix (by simp [prefixes])
    have hput :=
      Spares.putValue ((h healthPrefix (by simp [prefixes])).not_under (under_append _ r.nodeID)) s (.health r)
    show s.Spares pfx (s.saveHealth now r).2
    unfold ConsulStore.saveHealth healthKey
    split
    next heq => rw [heq] at hput; exact hput
    next heq =>
      rw [heq] at hput
      refine (hput.trans (Spares.putValue (hhist.not_under (under_append₃ ..)) _ _)).trans
        (Spares.pruneHealth (hhist.under ?_) _ _)
      rw [String.append_assoc]
      exact under_append ..
  | pruneHealthBefore cutoff => exact .pruneHealth (h _ List.mem_cons_self) cutoff s
  | appendAudit entry =>
    exact .putValue ((h auditPrefix List.mem_cons_self).not_under (under_append₃ ..)) s _
  | updateSettings cfg => exact .putValue ((h settingsKey List.mem_cons_self).not_under (List.prefix_refl _)) s _
  | savePolicyStatus nodeID timestamp text =>
    exact .putValue ((h policyStatusPref List.mem_cons_self).not_under (under_append₃ ..)) s _
  | savePolicyDiag nodeID timestamp text =>
    exact .putValue ((h policyDiagPref List.mem_cons_self).not_under (under_append₃ ..)) s _

-- ---------------------------------------------------------------------------
-- What guards the plans
-- ---------------------------------------------------------------------------

/-- What holds of the plans in Consul whatever is called. The first plan of a
node would need its key to be there already, and only the global version gets
there without a check. A version is an index that its node's key has left
behind. -/
structure ConsulStore.Guarded (s : ConsulStore) : Prop where
  works : s.kv.Works
  named : ∀ name e, s.kv.get? (planKey name) = some e → name = "version" ∨ Under "version/" name
  outdated : ∀ nodeID v e, s.kv.get? (planHistKey nodeID v) = some e → v < e.modifyIndex
  latest : ∀ nodeID v e p, s.kv.get? (planHistKey nodeID v) = some e → e.value = .plan p →
    ∃ e', s.kv.get? (planKey p.nodeID) = some e' ∧ v < e'.modifyIndex

namespace ConsulStore

variable {s s' : ConsulStore}

theorem Guarded.of_spares (h : s.Guarded) (hs : s.Spares planPrefix s') : s'.Guarded := by
  have hplan : ∀ name, s'.kv.get? (planKey name) = s.kv.get? (planKey name) :=
    fun name => hs.get? _ (under_append ..)
  constructor
  · exact hs.works h.works
  · intro name e he
    exact h.named name e (hplan name ▸ he)
  · intro nodeID v e he
    rw [planHistKey_eq, hplan, ← planHistKey_eq] at he
    exact h.outdated nodeID v e he
  · intro nodeID v e p he hp
    rw [planHistKey_eq, hplan, ← planHistKey_eq] at he
    rw [hplan]
    exact h.latest nodeID v e p he hp

/-- A write at a plan key, which may be the history key of a version: that
version must be behind the store's index. -/
theorem Guarded.write (h : s.Guarded) {name : String} (hname : name = "version" ∨ Under "version/" name)
    {v : ConsulValue} (houtdated : ∀ nodeID w, planHistKey nodeID w = planKey name → w < s.kv.index)
    (hlatest : ∀ nodeID w p, planHistKey nodeID w = planKey name → v = .plan p → p.nodeID = name ∨
      ∃ e, s.kv.get? (planKey p.nodeID) = some e ∧ w < e.modifyIndex) :
    ({ s with kv := (s.kv.write (planKey name) v).called } : ConsulStore).Guarded := by
  have hnext := s.kv.lt_next s.kv.index
  -- the writes before this one are behind it
  have hkept : ∀ name' e, s.kv.get? (planKey name') = some e →
      ∃ e', (s.kv.write (planKey name) v).get? (planKey name') = some e' ∧ e.modifyIndex ≤ e'.modifyIndex := by
    intro name' e he
    rw [KV.get?_write]
    split
    · exact ⟨_, rfl, (KV.modifyIndex_le he).trans hnext.le⟩
    · exact ⟨e, he, le_rfl⟩
  constructor
  case works => exact h.works
  case named =>
    intro name' e he
    simp only [KV.get?_called, KV.get?_write] at he
    split at he
    next hk => exact planKey_inj hk ▸ hname
    next => exact h.named name' e he
  case outdated =>
    intro nodeID w e he
    simp only [KV.get?_called, KV.get?_write] at he
    split at he
    next hk =>
      cases he
      have := houtdated nodeID w hk.symm
      show w < (s.kv.next s.kv.index : Int)
      omega
    next => exact h.outdated nodeID w e he
  case latest =>
    intro nodeID w e p he hp
    simp only [KV.get?_called, KV.get?_write] at he
    split at he
    next hk =>
      cases he
      rcases hlatest nodeID w p hk.symm hp with rfl | ⟨e, he, hw⟩
      · refine ⟨⟨planKey p.nodeID, v, s.kv.next s.kv.index⟩, by simp, ?_⟩
        have := houtdated nodeID w hk.symm
        show w < (s.kv.next s.kv.index : Int)
        omega
      · obtain ⟨e', he', hle⟩ := hkept _ e he
        exact ⟨e', he', by omega⟩
    next =>
      obtain ⟨e', he', hw⟩ := h.latest nodeID w e p he hp
      obtain ⟨e'', he'', hle⟩ := hkept _ e' he'
      exact ⟨e'', he'', by omega⟩

theorem Guarded.setGlobalPlanVersion (h : s.Guarded) (v : Int) : (s.setGlobalPlanVersion v).2.Guarded := by
  rw [setGlobalPlanVersion_works h.works, versionKey_eq]
  have hne : ∀ nodeID w, planHistKey nodeID w ≠ planKey "version" :=
    fun nodeID w heq => version_ne_planHistKey nodeID w (versionKey_eq.trans heq.symm)
  exact h.write (.inl rfl) (fun nodeID w heq => absurd heq (hne nodeID w)) fun nodeID w p heq =>
    absurd heq (hne nodeID w)

theorem Guarded.savePlan (h : s.Guarded) {p : Plan} (hv : 0 < p.version) : (s.savePlan p).2.Guarded := by
  rw [savePlan_works h.works]
  split
  next hadmit =>
    obtain ⟨e, he, hindex⟩ := (admits_casIndex hv).mp hadmit
    have hle := KV.modifyIndex_le he
    have hnext := s.kv.lt_next s.kv.index
    have hfirst : ({ s with kv := (s.kv.write (planKey p.nodeID) (.plan (s.dated p))).called } :
        ConsulStore).Guarded := by
      refine h.write (h.named _ e he) (fun nodeID w heq => ?_) fun nodeID w q heq hq => ?_
      · have := h.outdated nodeID w e (heq ▸ he)
        omega
      · cases hq
        exact .inl (s.dated_nodeID p)
    rw [planHistKey_eq]
    refine hfirst.write ?_ (fun nodeID w heq => ?_) fun nodeID w q heq hq => ?_
    · refine .inr ?_
      rcases h.named _ e he with hname | hname
      · rw [hname, String.append_assoc]
        exact under_append "version/" (toString p.version)
      · rw [String.append_assoc]
        exact hname.trans (under_append ..)
    · obtain ⟨-, hw⟩ := planHistKey_inj (heq.trans (planHistKey_eq ..).symm)
      show w < (s.kv.next s.kv.index : Int)
      omega
    · obtain ⟨-, hw⟩ := planHistKey_inj (heq.trans (planHistKey_eq ..).symm)
      cases hq
      refine .inr ⟨⟨planKey p.nodeID, .plan (s.dated p), s.kv.next s.kv.index⟩, ?_, ?_⟩
      · rw [dated_nodeID, KV.get?_called, KV.get?_write, if_pos rfl]
      · show w < (s.kv.next s.kv.index : Int)
        omega
  next => exact h.of_spares (KV.Keeps.called _)

/-- The check of a rollback compares a version with an index that is past it. -/
theorem Guarded.rollbackPlan (h : s.Guarded) (nodeID : String) (v : Int) :
    (s.rollbackPlan nodeID v).1.toOption = none ∧ s.Spares planPrefix (s.rollbackPlan nodeID v).2 := by
  unfold ConsulStore.rollbackPlan withKV
  simp only [KV.get_works h.works]
  cases hget : s.kv.get? (planHistKey nodeID v) with
  | none => exact ⟨rfl, .called _⟩
  | some e =>
    dsimp only
    cases hplan : e.value.plan? with
    | none => exact ⟨rfl, .called _⟩
    | some p =>
      obtain ⟨e', he', hlt⟩ := h.latest nodeID v e p hget (ConsulValue.plan?_eq_some.mp hplan)
      have hrefused : s.kv.called.admits (planKey p.nodeID) (casIndex v) = false := by
        rw [← Bool.not_eq_true, KV.admits_iff, KV.get?_called, he', casIndex]
        rintro (⟨-, hnone⟩ | ⟨hne, e'', he'', hindex⟩)
        · cases hnone
        · cases he''
          by_cases hv : v > 0
          · rw [if_pos hv] at hindex
            omega
          · exact hne (if_neg hv)
      have hsave := savePlan_works (s := { s with kv := s.kv.called }) h.works { p with version := v }
      simp only [hrefused, Bool.false_eq_true, if_false] at hsave
      simp only [hsave]
      exact ⟨rfl, (KV.Keeps.called _).trans (.called _)⟩

/-- A plan of a node whose key is neither the global version's nor below it is
never saved. -/
theorem Guarded.refuses (h : s.Guarded) {p : Plan} (hv : 0 < p.version) (hname : p.nodeID ≠ "version")
    (hunder : ¬ Under "version/" p.nodeID) : (s.savePlan p).1 = .error "plan CAS failed" := by
  rw [savePlan_works h.works, if_neg]
  intro hadmit
  obtain ⟨e, he, -⟩ := (admits_casIndex hv).mp hadmit
  rcases h.named _ e he with hversion | hversion
  · exact hname hversion
  · exact hunder hversion

end ConsulStore

-- ---------------------------------------------------------------------------
-- As long as the outcomes agree
-- ---------------------------------------------------------------------------

def ConsulStore.HasNode (s : ConsulStore) (id : String) : Prop :=
  ∃ e, s.kv.get? (nodeKey id) = some e ∧ e.value.node?.isSome

/-- A node's own plan at its key is the plan that the memory has, and the
memory has no plan without a key. -/
structure PlansMatch (m : MemoryStore) (s : ConsulStore) : Prop where
  present : ∀ nodeID p, m.plans nodeID = some p → p.nodeID = nodeID ∧ ∃ e, s.kv.get? (planKey nodeID) = some e
  saved : ∀ nodeID e p, s.kv.get? (planKey nodeID) = some e → e.value = .plan p → p.nodeID = nodeID →
    m.plans nodeID = some p

/-- What relates the stores while the outcomes agree. -/
structure Twin.Related (s : Twin) : Prop where
  guarded : s.consul.Guarded
  nodes : ∀ id, (s.memory.nodes.get? id).isSome ↔ s.consul.HasNode id
  plans : PlansMatch s.memory s.consul

theorem Twin.start_related (index : Nat) (next : Nat → Nat) (h : ∀ i, i < next i) :
    (start index next h).Related := by
  have habsent : ∀ k, (start index next h).consul.kv.get? k = none := fun _ => rfl
  constructor
  case guarded =>
    constructor
    case works => exact fun _ => rfl
    all_goals simp [habsent]
  case nodes =>
    intro id
    constructor
    · exact nofun
    · rintro ⟨e, he, -⟩
      cases (habsent _).symm.trans he
  case plans => exact ⟨nofun, by simp [habsent]⟩

variable {s : Twin}

theorem Twin.Related.getPlan_iff (h : s.Related) (nodeID : String) :
    s.SameOutcome (.getPlan nodeID) ↔ s.Coincides (.getPlan nodeID) := by
  show Except.toOption (.ok (s.memory.plans nodeID)) =
    Except.toOption (s.consul.getValue (planKey nodeID) ConsulValue.plan?).1 ↔ _
  rw [ConsulStore.getValue_works h.guarded.works]
  show _ ↔ ∀ e, s.consul.kv.get? (planKey nodeID) = some e → ∃ p, e.value = .plan p ∧ p.nodeID = nodeID
  cases hget : s.consul.kv.get? (planKey nodeID) with
  | none =>
    have hmemory : s.memory.plans nodeID = none := by
      cases hp : s.memory.plans nodeID with
      | none => rfl
      | some p =>
        obtain ⟨e, he⟩ := (h.plans.present nodeID p hp).2
        rw [hget] at he
        cases he
    simp [hmemory, Except.toOption]
  | some e =>
    cases hplan : e.value.plan? with
    | none =>
      have hno : ∀ p, e.value ≠ .plan p := fun p hp => by simp [hp, ConsulValue.plan?] at hplan
      simp [hplan, hno, Except.toOption]
    | some p =>
      have hvalue := ConsulValue.plan?_eq_some.mp hplan
      have hcoincides : (∀ e', some e = some e' → ∃ q, e'.value = .plan q ∧ q.nodeID = nodeID) ↔
          p.nodeID = nodeID := by
        simp [hvalue]
      rw [hcoincides]
      simp only [hplan, Except.toOption, Option.some.injEq]
      constructor
      · intro hp
        exact (h.plans.present nodeID p hp).1
      · exact h.plans.saved nodeID e p hget hvalue

theorem Twin.Related.savePlan_iff (h : s.Related) (p : Plan) (now : Instant) :
    s.SameOutcome (.savePlan p now) ↔ s.Coincides (.savePlan p now) := by
  have hadmits := @admits_casIndex s.consul.kv (planKey p.nodeID) (s.issued + 1) (by omega)
  have hsave := savePlan_works h.guarded.works (s.issue p now)
  show Except.toOption (.ok ()) = Except.toOption (s.consul.savePlan (s.issue p now)).1 ↔
    ∃ e, s.consul.kv.get? (planKey p.nodeID) = some e ∧ e.modifyIndex = s.issued + 1
  rw [hsave]
  norm_cast at hadmits
  show _ = Except.toOption
    (if s.consul.kv.admits (planKey p.nodeID) (casIndex (s.issued + 1)) then (_, _) else _).1 ↔ _
  by_cases hadmit : s.consul.kv.admits (planKey p.nodeID) (casIndex (s.issued + 1))
  · rw [if_pos hadmit]
    exact iff_of_true rfl (hadmits.mp hadmit)
  · rw [if_neg hadmit]
    exact iff_of_false nofun fun he => hadmit (hadmits.mpr he)

theorem Twin.Related.rollbackPlan_iff (h : s.Related) (nodeID : String) (version : Int) :
    s.SameOutcome (.rollbackPlan nodeID version) ↔ s.Coincides (.rollbackPlan nodeID version) := by
  show (s.memory.rollbackPlan nodeID version).1.toOption = (s.consul.rollbackPlan nodeID version).1.toOption ↔
    ∀ p ∈ s.memory.history nodeID, p.version ≠ version
  rw [(h.guarded.rollbackPlan nodeID version).1]
  unfold MemoryStore.rollbackPlan
  cases hfind : (s.memory.history nodeID).find? (fun p => p.version = version) with
  | none => simpa [Except.toOption] using hfind
  | some p =>
    have hp : p.version = version := by simpa using List.find?_some hfind
    have hnot : ¬ ∀ q ∈ s.memory.history nodeID, q.version ≠ version :=
      fun hall => hall p (List.mem_of_find?_eq_some hfind) hp
    simp [Except.toOption, hnot]

theorem ConsulStore.updatePolicy_cases {s : ConsulStore} (hw : s.kv.Works) (req : PolicyRequest) :
    (s.HasNode req.nodeID ∧ ∃ n, s.updatePolicy req =
      (.ok (), { s with kv := (s.kv.called.write (nodeKey req.nodeID) (.node n)).called })) ∨
    (¬ s.HasNode req.nodeID ∧ ∃ err, s.updatePolicy req = (.error err, { s with kv := s.kv.called })) := by
  unfold ConsulStore.updatePolicy ConsulStore.getNode ConsulStore.HasNode
  rw [ConsulStore.getValue_works hw]
  cases hget : s.kv.get? (nodeKey req.nodeID) with
  | none => exact .inr ⟨by simp, _, rfl⟩
  | some e =>
    cases hnode : e.value.node? with
    | none => exact .inr ⟨by simp [hnode], "invalid value", by simp [hnode]⟩
    | some n =>
      refine .inl ⟨⟨e, rfl, by simp [hnode]⟩, n.withPolicy req, ?_⟩
      simp only [hnode]
      exact ConsulStore.putValue_works (s := { s with kv := s.kv.called }) hw _ _

theorem ConsulStore.putValue_ok {s : ConsulStore} (hw : s.kv.Works) (k : String) (v : ConsulValue) :
    (s.putValue k v).1.isOk = true := by
  rw [ConsulStore.putValue_works hw]
  rfl

/-- Every other write succeeds in both, but for a policy of a node that is not
there. -/
theorem Twin.Related.write_agrees (h : s.Related) (w : StoreWrite) :
    (w.memory s.memory).1 = (w.consul s.consul).1 := by
  have hput := ConsulStore.putValue_works h.guarded.works
  cases w with
  | upsertNode n =>
    show true = (s.consul.upsertNode n).1.isOk
    simp [upsertNode, hput, Except.isOk, Except.toBool]
  | updatePolicy req =>
    show (s.memory.updatePolicy req).1.isOk = (s.consul.updatePolicy req).1.isOk
    have hnodes := h.nodes req.nodeID
    unfold MemoryStore.updatePolicy
    rcases ConsulStore.updatePolicy_cases h.guarded.works req with ⟨hhas, n, hupdate⟩ | ⟨hhas, err, hupdate⟩
    · obtain ⟨n', hn'⟩ := Option.isSome_iff_exists.mp (hnodes.mpr hhas)
      rw [hupdate, hn']
    · have hnone := Option.not_isSome_iff_eq_none.mp fun hsome => hhas (hnodes.mp hsome)
      rw [hupdate, hnone]
      rfl
  | setGlobalPlanVersion v => exact (putValue_ok h.guarded.works _ _).symm
  | saveTask now t => exact (putValue_ok h.guarded.works _ _).symm
  | saveHealth now r =>
    show true = (s.consul.saveHealth now r).1.isOk
    simp [saveHealth, hput, Except.isOk, Except.toBool]
  | pruneHealthBefore cutoff =>
    show true = (s.consul.pruneHealth healthHistPrefix cutoff).1.isOk
    unfold pruneHealth withKV KV.list
    rw [KV.request_works h.guarded.works]
    rfl
  | appendAudit entry => exact (putValue_ok h.guarded.works _ _).symm
  | updateSettings cfg => exact (putValue_ok h.guarded.works _ _).symm
  | savePolicyStatus nodeID timestamp text => exact (putValue_ok h.guarded.works _ _).symm
  | savePolicyDiag nodeID timestamp text => exact (putValue_ok h.guarded.works _ _).symm

-- ---------------------------------------------------------------------------
-- One call, then a run
-- ---------------------------------------------------------------------------

theorem ConsulStore.HasNode.of_spares {s s' : ConsulStore} (hs : s.Spares nodePrefix s') (id : String) :
    s'.HasNode id ↔ s.HasNode id := by
  unfold ConsulStore.HasNode
  rw [hs.get? (nodeKey id) (under_append ..)]

theorem nodeKey_inj {id id' : String} (h : nodeKey id = nodeKey id') : id = id' := (String.append_right_inj _).mp h

theorem ConsulStore.HasNode.write {s : ConsulStore} {id : String} {n : Node} (id' : String) :
    ({ s with kv := (s.kv.write (nodeKey id) (.node n)).called } : ConsulStore).HasNode id' ↔
      id = id' ∨ s.HasNode id' := by
  unfold ConsulStore.HasNode
  simp only [KV.get?_called, KV.get?_write]
  split
  next hk =>
    have hid := nodeKey_inj hk
    simp [hid, ConsulValue.node?]
  next hk =>
    have hne : id ≠ id' := fun hid => hk (congrArg nodeKey hid)
    simp [hne]

theorem Twin.Related.write_nodes (h : s.Related) (w : StoreWrite) (id : String) :
    ((w.memory s.memory).2.nodes.get? id).isSome ↔ (w.consul s.consul).2.HasNode id := by
  have hw := h.guarded.works
  cases w with
  | upsertNode n =>
    show ((s.memory.nodes.put _).get? id).isSome ↔ (s.consul.upsertNode n).2.HasNode id
    unfold ConsulStore.upsertNode
    rw [putValue_works hw, ConsulStore.HasNode.write, ← h.nodes id, Table.get?_put]
    split
    next hid => simp [show n.id = id from hid]
    next hid => simp [show n.id ≠ id from hid]
  | updatePolicy req =>
    show ((s.memory.updatePolicy req).2.nodes.get? id).isSome ↔ (s.consul.updatePolicy req).2.HasNode id
    have hnodes := h.nodes req.nodeID
    unfold MemoryStore.updatePolicy
    rcases ConsulStore.updatePolicy_cases hw req with ⟨hhas, n, hupdate⟩ | ⟨hhas, err, hupdate⟩
    · obtain ⟨n', hn'⟩ := Option.isSome_iff_exists.mp (hnodes.mpr hhas)
      have hwrite := @ConsulStore.HasNode.write { s.consul with kv := s.consul.kv.called } req.nodeID n id
      rw [hupdate, hwrite, hn', Table.get?_put]
      change _ ↔ _ ∨ s.consul.HasNode id
      rw [← h.nodes id, ← Table.key_of_get? hn']
      split
      next hid => simp [show n'.id = id from hid]
      next hid => simp [show n'.id ≠ id from hid]
    · have hnone := Option.not_isSome_iff_eq_none.mp fun hsome => hhas (hnodes.mp hsome)
      rw [hupdate, hnone]
      exact h.nodes id
  | _ =>
    refine (h.nodes id).trans (HasNode.of_spares (StoreWrite.spares _ ?_ s.consul) id).symm
    dsimp only [StoreWrite.prefixes]
    decide

theorem StoreWrite.memory_plans (w : StoreWrite) (m : MemoryStore) : (w.memory m).2.plans = m.plans := by
  cases w with
  | updatePolicy req =>
    show (m.updatePolicy req).2.plans = m.plans
    unfold MemoryStore.updatePolicy
    split <;> rfl
  | _ => rfl

theorem StoreWrite.consul_plans (w : StoreWrite) (s : ConsulStore) :
    s.Spares planPrefix (w.consul s).2 ∨ ∃ v, (w.consul s).2 = (s.setGlobalPlanVersion v).2 := by
  cases w with
  | setGlobalPlanVersion v => exact .inr ⟨v, rfl⟩
  | _ =>
    refine .inl (StoreWrite.spares _ ?_ s)
    dsimp only [StoreWrite.prefixes]
    decide

theorem PlansMatch.of_spares {m m' : MemoryStore} {s s' : ConsulStore} (h : PlansMatch m s)
    (hm : m'.plans = m.plans) (hs : s.Spares planPrefix s') : PlansMatch m' s' := by
  have hplan : ∀ name, s'.kv.get? (planKey name) = s.kv.get? (planKey name) :=
    fun name => hs.get? _ (under_append ..)
  constructor
  · intro nodeID p hp
    rw [hplan]
    exact h.present nodeID p (hm ▸ hp)
  · intro nodeID e p he hvalue hp
    rw [hm]
    exact h.saved nodeID e p (hplan nodeID ▸ he) hvalue hp

theorem PlansMatch.write {m : MemoryStore} {s : ConsulStore} (h : PlansMatch m s) {name : String} {v : ConsulValue}
    (hv : ∀ p, v = .plan p → p.nodeID ≠ name) :
    PlansMatch m { s with kv := (s.kv.write (planKey name) v).called } := by
  constructor
  · intro nodeID p hp
    obtain ⟨hid, e, he⟩ := h.present nodeID p hp
    refine ⟨hid, ?_⟩
    simp only [KV.get?_called, KV.get?_write]
    split
    · exact ⟨_, rfl⟩
    · exact ⟨e, he⟩
  · intro nodeID e p he hvalue hp
    simp only [KV.get?_called, KV.get?_write] at he
    split at he
    next hk =>
      cases he
      exact absurd (hp.trans (planKey_inj hk).symm) (hv p hvalue)
    next => exact h.saved nodeID e p he hvalue hp

theorem PlansMatch.save {m : MemoryStore} {s : ConsulStore} (h : PlansMatch m s) (p : Plan) :
    PlansMatch (m.savePlan p) { s with kv := (s.kv.write (planKey p.nodeID) (.plan p)).called } := by
  constructor
  · intro nodeID q hq
    simp only [KV.get?_called, KV.get?_write]
    by_cases hid : p.nodeID = nodeID
    · subst hid
      simp only [MemoryStore.savePlan, Function.update_self, Option.some.injEq] at hq
      exact ⟨congrArg Plan.nodeID hq.symm, by simp⟩
    · simp only [MemoryStore.savePlan, Function.update_of_ne (Ne.symm hid)] at hq
      rw [if_neg fun hk => hid (planKey_inj hk)]
      exact h.present nodeID q hq
  · intro nodeID e q he hvalue hq
    simp only [KV.get?_called, KV.get?_write] at he
    split at he
    next hk =>
      cases he
      cases hvalue
      subst hq
      exact Function.update_self ..
    next hk =>
      have hne : nodeID ≠ p.nodeID := fun hid => hk (congrArg planKey hid.symm)
      rw [show (m.savePlan p).plans nodeID = m.plans nodeID from Function.update_of_ne hne ..]
      exact h.saved nodeID e q he hvalue hq

theorem Twin.Related.step (h : s.Related) {c : StoreCall} (hc : s.Coincides c) : (c.step s).Related := by
  cases c with
  | savePlan p now =>
    have hdated : s.consul.dated (s.issue p now) = s.issue p now := if_neg now.2
    obtain ⟨e, he, hindex⟩ := hc
    have hadmit : s.consul.kv.admits (planKey (s.issue p now).nodeID) (casIndex (s.issue p now).version) :=
      (admits_casIndex (v := (s.issue p now).version) (by simp only [Twin.issue]; omega)).mpr
        ⟨e, he, by simp only [Twin.issue]; omega⟩
    constructor
    case guarded => exact h.guarded.savePlan (by simp only [Twin.issue]; omega)
    case nodes =>
      intro id
      exact (h.nodes id).trans (HasNode.of_spares (Spares.savePlan (by decide) s.consul _) id).symm
    case plans =>
      show PlansMatch (s.memory.savePlan _) (s.consul.savePlan (s.issue p now)).2
      rw [savePlan_works h.guarded.works, if_pos hadmit, hdated, planHistKey_eq]
      refine (h.plans.save (s.issue p now)).write fun q hq => ?_
      cases hq
      intro hname
      have hlen := congrArg (fun k => k.toList.length) hname
      simp at hlen
  | getPlan nodeID =>
    have hget : ∀ pfx, s.consul.Spares pfx (s.consul.getValue (planKey nodeID) ConsulValue.plan?).2 :=
      fun _ => Spares.getValue s.consul _ _
    exact ⟨h.guarded.of_spares (hget _), fun id => (h.nodes id).trans (HasNode.of_spares (hget _) id).symm,
      h.plans.of_spares rfl (hget _)⟩
  | rollbackPlan nodeID version =>
    have hnone : (s.memory.history nodeID).find? (fun p => p.version = version) = none := by
      rw [List.find?_eq_none]
      exact fun p hp => by simpa using hc p hp
    have hsame : s.memory.rollbackPlan nodeID version = (.error "version not found", s.memory) := by
      unfold MemoryStore.rollbackPlan
      rw [hnone]
    have hspares := (h.guarded.rollbackPlan nodeID version).2
    constructor
    case guarded => exact h.guarded.of_spares hspares
    case nodes =>
      intro id
      show ((s.memory.rollbackPlan nodeID version).2.nodes.get? id).isSome ↔ _
      rw [hsame]
      exact (h.nodes id).trans (HasNode.of_spares (Spares.rollbackPlan (by decide) s.consul nodeID version) id).symm
    case plans =>
      refine h.plans.of_spares ?_ hspares
      show (s.memory.rollbackPlan nodeID version).2.plans = _
      rw [hsame]
  | write w =>
    refine ⟨?_, h.write_nodes w, ?_⟩
    · show (w.consul s.consul).2.Guarded
      rcases w.consul_plans s.consul with hspares | ⟨v, hv⟩
      · exact h.guarded.of_spares hspares
      · exact hv ▸ h.guarded.setGlobalPlanVersion v
    · show PlansMatch (w.memory s.memory).2 (w.consul s.consul).2
      have hm := w.memory_plans s.memory
      rcases w.consul_plans s.consul with hspares | ⟨v, hv⟩
      · exact h.plans.of_spares hm hspares
      · rw [hv, setGlobalPlanVersion_works h.guarded.works, versionKey_eq]
        exact (h.plans.of_spares hm (.refl _)).write (by simp)

theorem Twin.Related.same_iff (h : s.Related) (c : StoreCall) : s.SameOutcome c ↔ s.Coincides c := by
  cases c with
  | savePlan p now => exact h.savePlan_iff p now
  | getPlan nodeID => exact h.getPlan_iff nodeID
  | rollbackPlan nodeID version => exact h.rollbackPlan_iff nodeID version
  | write w => exact iff_of_true (h.write_agrees w) trivial

/-- The outcomes of a run are the same exactly when the versions coincide with
the indices all along it. -/
theorem same_outcomes_iff (index : Nat) (next : Nat → Nat) (h : ∀ i, i < next i) (calls : List StoreCall) :
    Along StoreCall.step Twin.SameOutcome (Twin.start index next h) calls ↔
      Along StoreCall.step Twin.Coincides (Twin.start index next h) calls :=
  along_congr_of_kept (I := Twin.Related) (fun _ c hs hc => hs.step ((hs.same_iff c).mp hc))
    (fun _ c hs => hs.same_iff c) (Twin.start_related index next h)

/-- The global version is at index 1, and the first plan is of a node of that
name. -/
theorem same_outcomes_of_version_key :
    Along StoreCall.step Twin.SameOutcome (Twin.start 0 (· + 1) Nat.lt_succ_self)
      [.write (.setGlobalPlanVersion 5), .savePlan { nodeID := "version" } ⟨1, by decide⟩, .getPlan "version"] :=
  (same_outcomes_iff 0 (· + 1) Nat.lt_succ_self _).mpr
    ⟨trivial, ⟨_, rfl, rfl⟩, fun _ he => ⟨_, by cases he; exact ⟨rfl, rfl⟩⟩, trivial⟩

/-- The first plan of a node: its version is 1, so Consul is asked for a key
with the index 1, and there is no such key. -/
theorem first_plan_refused : ¬ Along StoreCall.step Twin.SameOutcome (Twin.start 0 (· + 1) Nat.lt_succ_self)
    [.savePlan { nodeID := "a" } ⟨1, by decide⟩] := by
  rintro ⟨h, -⟩
  cases h

end PeerWan
