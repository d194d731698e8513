import PeerWan.Consul.Keys
import PeerWan.Lib.StableSort
import PeerWan.Lib.TwoOrders

/-!
# The order of plan histories in Consul

A listing of Consul is in the order of its keys, and the keys of a plan history
end in the versions as decimal texts. `ListPlanHistory` takes the last plans of
the listing as it is, where `MemoryStore` has the plans in the order in which
they were saved.
-/

namespace PeerWan

open Lib

namespace ConsulStore

/-- What is under the prefix of the history of a node is as `SavePlan` writes it. -/
def HistoryWritten (s : ConsulStore) (nodeID : String) : Prop :=
  ∀ k e, Under (planPrefix ++ nodeID ++ "/") k → s.kv.get? k = some e →
    ∃ p : Plan, e.value = .plan p ∧ 0 < p.version ∧ p.version < 2 ^ 63 ∧ k = planHistKey nodeID p.version

def history (s : ConsulStore) (nodeID : String) : List Plan :=
  (s.listed .planHistory nodeID).filterMap fun e => e.value.plan?

def versions (s : ConsulStore) (nodeID : String) : List Int := (s.history nodeID).map (·.version)

/-- The plans with the highest versions, in the order of their versions. -/
def newest (limit : Int) (plans : List Plan) : List Plan :=
  limited limit (plans.insertionSort fun p q => p.version ≤ q.version)

/-- What is answered are the newest plans. -/
def HistoryAgrees (s : ConsulStore) (nodeID : String) (limit : Int) : Prop :=
  ∀ out, (s.listPlanHistory nodeID limit).1 = .ok out → out = newest limit (s.history nodeID)

/-- For each of the highest versions, the lower ones come before it as texts. -/
def TextsAgree (limit : Int) (versions : List Int) : Prop :=
  ∀ w ∈ versions, versions.countP (w < ·) < limit → ∀ v ∈ versions, v < w → toString v < toString w

instance decidableTextsAgree (limit : Int) (versions : List Int) : Decidable (TextsAgree limit versions) :=
  inferInstanceAs (Decidable (∀ w ∈ versions, _ → ∀ v ∈ versions, _ → _))

section

variable {s : ConsulStore} {nodeID : String} {limit : Int}

theorem limited_eq_rtake {α : Type} (h : 0 < limit) (l : List α) : limited limit l = l.rtake limit.toNat := by
  unfold limited
  split
  · rfl
  · have hle : l.length ≤ limit.toNat := by omega
    exact (rtake_of_length_le hle).symm

/-- The in-memory store, which has the plans as they were saved, answers the newest. -/
theorem memory_newest (h : 0 < limit) {plans : List Plan} (hsaved : plans.Pairwise fun p q => p.version < q.version) :
    MemoryStore.limited limit plans = newest limit plans := by
  have hsorted : plans.insertionSort (fun p q => p.version ≤ q.version) = plans :=
    (hsaved.imp fun h => h.le).insertionSort_eq
  rw [newest, hsorted, limited_eq_rtake h, MemoryStore.limited]
  split
  next hno =>
    have hle : plans.length ≤ limit.toNat := by omega
    exact (rtake_of_length_le hle).symm
  next hcut => rfl

theorem append_lt_append_iff (l : List Char) {a b : List Char} : l ++ a < l ++ b ↔ a < b := by
  induction l with
  | nil => rfl
  | cons c l ih => simp [ih]

theorem planHistKey_lt {v w : Int} : planHistKey nodeID v < planHistKey nodeID w ↔ toString v < toString w := by
  rw [planHistKey, planHistKey, String.lt_iff_toList_lt, String.toList_append, @String.toList_append _ (toString w),
    append_lt_append_iff, ← String.lt_iff_toList_lt]

theorem history_eq : s.history nodeID = (s.kv.keys (planPrefix ++ nodeID ++ "/")).filterMap fun k =>
    (s.kv.get? k).bind fun e => e.value.plan? := List.filterMap_filterMap ..

theorem history_pairwise (h : s.HistoryWritten nodeID) :
    (s.history nodeID).Pairwise fun p q => toString p.version < toString q.version := by
  have hkeys : (s.kv.keys (planPrefix ++ nodeID ++ "/")).Pairwise (· < ·) :=
    (List.sortedLE_insertionSort.sortedLT_of_nodup (KV.nodup_keys ..)).pairwise
  rw [history_eq, List.pairwise_filterMap]
  refine hkeys.imp_of_mem fun {k k'} hk hk' hlt p hp q hq => ?_
  have hversion : ∀ {k p}, k ∈ s.kv.keys (planPrefix ++ nodeID ++ "/") →
      ((s.kv.get? k).bind fun e => e.value.plan?) = some p → k = planHistKey nodeID p.version := by
    intro k p hk hp
    obtain ⟨e, he, hplan⟩ := Option.bind_eq_some_iff.mp hp
    obtain ⟨p', hp', -, -, hkey⟩ := h k e (KV.mem_keys.mp hk).1 he
    rw [ConsulValue.plan?_eq_some, hp'] at hplan
    cases hplan
    exact hkey
  rw [hversion hk hp, hversion hk' hq, planHistKey_lt] at hlt
  exact hlt

theorem listPlanHistory_failed {err : String} (h : s.kv.fails s.kv.calls = some err) :
    (s.listPlanHistory nodeID limit).1 = .error err := by
  rw [listPlanHistory_eq, listValues, KV.list, withKV, KV.request_failed h]
  rfl

theorem listPlanHistory_answered (h : s.kv.fails s.kv.calls = none) :
    (s.listPlanHistory nodeID limit).1 = .ok (limited limit (s.history nodeID)) := by
  rw [listPlanHistory_eq, listValues, KV.list, withKV, KV.request_answered h]
  rfl

theorem sorted_pairwise (h : s.HistoryWritten nodeID) :
    ((s.history nodeID).insertionSort fun p q => p.version ≤ q.version).Pairwise fun p q => p.version < q.version := by
  have hne : (s.history nodeID).Pairwise fun p q => p.version ≠ q.version :=
    (history_pairwise h).imp fun hlt heq => absurd hlt (by rw [heq]; exact lt_irrefl _)
  have hperm := List.perm_insertionSort (fun p q : Plan => p.version ≤ q.version) (s.history nodeID)
  have hsorted := (stableSort_insertionSort Plan.version (s.history nodeID)).sorted
  exact (hsorted.and (hperm.symm.pairwise hne Ne.symm)).imp fun h => lt_of_le_of_ne h.1 h.2

/-- The newest plans are answered exactly when the versions agree with their texts. -/
theorem historyAgrees_iff (h : s.HistoryWritten nodeID) (hlimit : 0 < limit) :
    s.HistoryAgrees nodeID limit ↔ (s.kv.fails s.kv.calls = none → TextsAgree limit (s.versions nodeID)) := by
  cases hfail : s.kv.fails s.kv.calls with
  | some err =>
    refine iff_of_true (fun out hout => ?_) nofun
    rw [listPlanHistory_failed hfail] at hout
    cases hout
  | none =>
    have hperm := List.perm_insertionSort (fun p q : Plan => p.version ≤ q.version) (s.history nodeID)
    have htexts := rtake_eq_rtake_iff (n := limit.toNat) (fun p q : Plan => lt_asymm (a := p.version) (b := q.version))
      (fun p q : Plan => lt_asymm (a := toString p.version) (b := toString q.version)) (history_pairwise h)
      (sorted_pairwise h) hperm.symm
    have hagrees : s.HistoryAgrees nodeID limit ↔ (s.history nodeID).rtake limit.toNat =
        ((s.history nodeID).insertionSort fun p q => p.version ≤ q.version).rtake limit.toNat := by
      unfold HistoryAgrees
      rw [listPlanHistory_answered hfail, newest, limited_eq_rtake hlimit, limited_eq_rtake hlimit]
      exact ⟨fun h => h _ rfl, fun h out hout => (Except.ok.inj hout).symm.trans h⟩
    rw [hagrees, htexts, imp_iff_right rfl, TextsAgree, versions]
    simp only [List.forall_mem_map, hperm.mem_iff, hperm.countP_eq, List.countP_map, Function.comp_def, Int.lt_toNat]

end

def withVersions (nodeID : String) (vs : List Int) : ConsulStore where
  kv := vs.foldl (fun kv v => kv.write (planHistKey nodeID v) (.plan { nodeID := nodeID, version := v }))
    (ConsulStore.empty 0 Nat.succ Nat.lt_succ_self).kv

theorem withVersions_written {nodeID : String} {vs : List Int} (h : ∀ v ∈ vs, 0 < v ∧ v < 2 ^ 63) :
    (withVersions nodeID vs).HistoryWritten nodeID := by
  intro k e _ he
  induction vs using List.reverseRecOn with
  | nil => cases he
  | append_singleton vs v ih =>
    rw [withVersions, List.foldl_append, List.foldl_cons, List.foldl_nil, KV.get?_write] at he
    split at he
    next hk =>
      cases he
      obtain ⟨hpos, hlt⟩ := h v (by simp)
      exact ⟨_, rfl, hpos, hlt, hk.symm⟩
    next => exact ih (fun v hv => h v (List.mem_append_left _ hv)) he

theorem historyAgrees_same_digits : (withVersions "a" [10, 11, 12]).HistoryAgrees "a" 2 :=
  (historyAgrees_iff (withVersions_written (by decide)) (by decide)).mpr fun _ => by decide

theorem historyAgrees_counterexample : (withVersions "a" [9, 10]).HistoryWritten "a" ∧
    ((withVersions "a" [9, 10]).listPlanHistory "a" 1).1 = .ok [{ nodeID := "a", version := 9 }] ∧
    ¬ (withVersions "a" [9, 10]).HistoryAgrees "a" 1 := by
  refine ⟨withVersions_written (by decide), by decide, fun h => ?_⟩
  exact absurd (h _ rfl) (by decide)

end ConsulStore

end PeerWan
