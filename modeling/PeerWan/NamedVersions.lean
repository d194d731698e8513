import PeerWan.Versions
import PeerWan.Consul.Unstored
import PeerWan.Controller.Mirrored
import PeerWan.Controller.SavedPlans

/-!
# Whether a version names one plan

The counter that numbers the plans lives in the process: a rollback sets it back
and a restart starts it again, while a store may keep what it has. As long as
neither takes it behind a saved plan, versions are issued in order. What a
rollback then makes of a listed version is the store's part: a `MemoryStore`
lists what it was given, and Consul takes no plans at all.
-/

namespace PeerWan

open Lib

-- ---------------------------------------------------------------------------
-- Versions in order
-- ---------------------------------------------------------------------------

/-- Versions are issued in order, and the counter is not behind them. -/
structure Counters.Ordered (s : Counters) : Prop where
  issued : s.issued.Pairwise (· < ·)
  positive : ∀ v ∈ s.issued, 0 < v
  bound : ∀ v ∈ s.issued, v ≤ s.plan
  nonneg : 0 ≤ s.plan

theorem Counters.Ordered.save {s : Counters} (h : s.Ordered) (hr : s.plan + 1 < 2 ^ 63) :
    (CounterOp.save.apply s).Ordered ∧ (CounterOp.save.apply s).plan = s.plan + 1 := by
  have hn := h.nonneg
  have hv : int64 (s.plan + 1) = s.plan + 1 := int64_of_bounds (by omega) hr
  simp only [CounterOp.apply, hv]
  refine ⟨⟨?_, ?_, ?_, by simp only; omega⟩, trivial⟩
  · rw [List.pairwise_append]
    refine ⟨h.issued, List.pairwise_singleton _ _, fun v hv w hw => ?_⟩
    have := h.bound v hv
    rw [List.mem_singleton] at hw
    omega
  · intro v hv
    rw [List.mem_append, List.mem_singleton] at hv
    rcases hv with hv | rfl
    · exact h.positive v hv
    · omega
  · intro v hv
    rw [List.mem_append, List.mem_singleton] at hv
    rcases hv with hv | rfl
    · exact (h.bound v hv).trans (Int.le_add_one le_rfl)
    · exact le_rfl

theorem Counters.Ordered.saves {s : Counters} (h : s.Ordered) (k : Nat) (hr : s.plan + k < 2 ^ 63) :
    (s.after (.replicate k .save)).Ordered ∧ (s.after (.replicate k .save)).plan = s.plan + k := by
  induction k generalizing s with
  | zero => exact ⟨h, by simp⟩
  | succ k ih =>
    obtain ⟨ho, hp⟩ := h.save (by omega)
    rw [List.replicate_succ, Counters.after_cons]
    obtain ⟨ho', hp'⟩ := ih ho (by rw [hp]; omega)
    exact ⟨ho', by rw [hp', hp]; omega⟩

theorem Counters.Ordered.bump {s : Counters} (h : s.Ordered) (hr : s.plan + 1 < 2 ^ 63) :
    (CounterOp.bump.apply s).Ordered := by
  have hn := h.nonneg
  have hv : int64 (s.plan + 1) = s.plan + 1 := int64_of_bounds (by omega) hr
  simp only [CounterOp.apply, hv]
  exact ⟨h.issued, h.positive, fun v hv => (h.bound v hv).trans (Int.le_add_one le_rfl), by simp only; omega⟩

theorem Counters.Ordered.moveTo {s : Counters} (h : s.Ordered) {v : Int} (hv : 0 ≤ v)
    (hb : ∀ w ∈ s.issued, w ≤ v) (stored : Int) : Counters.Ordered ⟨v, stored, s.issued⟩ :=
  ⟨h.issued, h.positive, hb, hv⟩

section

variable {σ : Type} [NodeStore σ]

/-- The event neither wraps the counter nor moves it behind a saved plan. -/
structure KeepsVersions [CountedStore σ] (c : Controller σ) (e : Env × Event) : Prop where
  room : c.planVersion + CountedStore.nodeCount c.store + 2 < 2 ^ 63
  rollback : ∀ auth nodeID version p, e.2 = .request (.rollback auth (some (nodeID, version))) →
    auth.jwt = true → (NodeStore.rollbackPlan nodeID version c.store).1 = .ok p →
    0 ≤ version ∧ ∀ q ∈ c.saved, q.version ≤ version
  restart : e.2 = .restart → ∀ q ∈ c.saved, q.version ≤ 0

theorem KeepsVersions.counters [CountingStore σ] (host : Host) {c : Controller σ} {e : Env × Event}
    (hk : KeepsVersions c e) (h : c.counters.Ordered) : (Event.step host e c).counters.Ordered := by
  obtain ⟨env, ev⟩ := e
  have hroom : c.counters.plan + (CountingStore.view c.store).nodeCount + 2 < 2 ^ 63 := hk.room
  have recomputed : (recomputeAllPlans host env 1 c).2.counters.Ordered ∧
      (recomputeAllPlans host env 1 c).2.counters.plan + 1 < 2 ^ 63 := by
    rcases recomputeAllPlans_counters host env 1 c with ⟨e, -, hm⟩ | ⟨n, hn, -, hm⟩
    · rw [hm]
      exact ⟨h, by omega⟩
    · obtain ⟨ho, hp⟩ := h.saves n (by omega)
      rw [hm]
      exact ⟨ho, by omega⟩
  cases ev with
  | request r =>
    obtain ⟨ops, hops, hm⟩ := serve_moves host env r c
    rw [Event.step, hm]
    generalize hcode : decide ((serve host env r c).1.code = 200) = ok at hops
    cases hops with
    | refused => exact h
    | unlisted => exact h
    | @register k _ _ hk' =>
      obtain ⟨ho, hp⟩ := h.saves k (by omega)
      rw [Counters.after_append]
      exact ho.bump (by rw [hp]; omega)
    | prepare => exact h.bump (by omega)
    | policy => exact h.bump (by omega)
    | health =>
      obtain ⟨ho, hp⟩ := h.save (by omega)
      exact ho.bump (by rw [hp]; omega)
    | plan => exact (h.save (by omega)).1
    | mismatch => exact ⟨h.issued, h.positive, h.bound, h.nonneg⟩
    | @rollback auth nodeID version =>
      obtain ⟨hjwt, p, hp⟩ := rollback_succeeds (of_decide_eq_true hcode)
      obtain ⟨h0, hb⟩ := hk.rollback auth nodeID version p rfl hjwt hp
      exact h.moveTo h0 (by simpa [Controller.counters] using hb) _
  | tick => exact recomputed.1
  | watch => exact recomputed.1.bump recomputed.2
  | restart => exact h.moveTo le_rfl (by simpa [Controller.counters] using hk.restart rfl) _

/-- The versions of the plans saved, and the counter, over any store. -/
def VersionsInOrder (c : Controller σ) : Prop := Counters.Ordered ⟨c.planVersion, 0, c.saved.map Plan.version⟩

variable [CountedStore σ]

theorem versionsInOrder_mirrored {c : Controller (Mirrored σ)} :
    VersionsInOrder (c.mapStore Mirrored.store) ↔ c.counters.Ordered := by
  constructor
  · rintro ⟨hissued, hpositive, hbound, hnonneg⟩
    exact ⟨hissued, hpositive, hbound, hnonneg⟩
  · rintro ⟨hissued, hpositive, hbound, hnonneg⟩
    exact ⟨hissued, hpositive, hbound, hnonneg⟩

theorem KeepsVersions.step (host : Host) {c : Controller σ} {e : Env × Event} (hk : KeepsVersions c e)
    (h : VersionsInOrder c) : VersionsInOrder (Event.step host e c) := by
  have hmirrored : KeepsVersions c.mirrored e := ⟨hk.room, hk.rollback, hk.restart⟩
  rw [step_mirrored]
  exact versionsInOrder_mirrored.mpr (hmirrored.counters host (versionsInOrder_mirrored.mp h))

theorem versionsInOrder_along (host : Host) (st : σ) {es : List (Env × Event)}
    (h : Along (Event.step host) KeepsVersions (start st) es) :
    Throughout (Event.step host) VersionsInOrder (start st) es :=
  throughout_of_along (fun _ _ ho hk => hk.step host ho)
    ⟨List.Pairwise.nil, fun _ hv => absurd hv List.not_mem_nil, fun _ hv => absurd hv List.not_mem_nil, le_rfl⟩ h

end

section

variable {σ : Type}

def VersionsUnique (c : Controller σ) : Prop :=
  ∀ p ∈ c.saved, ∀ q ∈ c.saved, p.nodeID = q.nodeID → p.version = q.version → p = q

instance (c : Controller σ) : Decidable (VersionsUnique c) :=
  inferInstanceAs (Decidable (∀ p ∈ c.saved, ∀ q ∈ c.saved, p.nodeID = q.nodeID → p.version = q.version → p = q))

variable {c : Controller σ}

theorem VersionsInOrder.unique (h : VersionsInOrder c) {p q : Plan} (hp : p ∈ c.saved) (hq : q ∈ c.saved)
    (hv : p.version = q.version) : p = q :=
  List.inj_on_of_nodup_map (h.issued.imp ne_of_lt) hp hq hv

theorem VersionsInOrder.version_pos (h : VersionsInOrder c) {p : Plan} (hp : p ∈ c.saved) : 0 < p.version :=
  h.positive _ (List.mem_map_of_mem hp)

end

-- ---------------------------------------------------------------------------
-- Rollbacks to what is listed
-- ---------------------------------------------------------------------------

/-- Each version that is listed for the node is that of one plan, which a
rollback installs. -/
def RollbackDenotes {σ : Type} [NodeStore σ] (nodeID : String) (st : σ) : Prop :=
  ∀ limit l, (NodeStore.listPlanHistory nodeID limit st).1 = .ok l → ∀ p ∈ l,
    (∀ q ∈ l, q.version = p.version → q = p) ∧
    (NodeStore.rollbackPlan nodeID p.version st).1 = .ok p ∧
    (NodeStore.getPlan nodeID (NodeStore.rollbackPlan nodeID p.version st).2).1 = .ok (some p)

def HistoryLogged (c : Controller MemoryStore) : Prop := ∀ id, (c.store.history id).Sublist c.saved

theorem limited_sublist (limit : Int) (l : List Plan) : (MemoryStore.limited limit l).Sublist l := by
  unfold MemoryStore.limited
  split
  · exact .refl l
  · exact (List.drop_sublist _ _)

theorem HistoryLogged.denotes {c : Controller MemoryStore} (hl : HistoryLogged c) (ho : VersionsInOrder c)
    (nodeID : String) : RollbackDenotes nodeID c.store := by
  rintro limit l ⟨⟩ p hp
  have hmem : p ∈ c.store.history nodeID := (limited_sublist limit _).subset hp
  have huniq : ∀ q ∈ c.store.history nodeID, q.version = p.version → q = p := fun q hq hv =>
    ho.unique ((hl nodeID).subset hq) ((hl nodeID).subset hmem) hv
  have hfind : (c.store.history nodeID).find? (fun q => q.version = p.version) = some p := by
    obtain ⟨q, hq⟩ : ∃ q, (c.store.history nodeID).find? (fun q => q.version = p.version) = some q := by
      rw [← Option.isSome_iff_exists, List.find?_isSome]
      exact ⟨p, hmem, by simp⟩
    rw [hq, huniq q (List.mem_of_find?_eq_some hq) (by simpa using List.find?_some hq)]
  refine ⟨fun q hq hv => huniq q ((limited_sublist limit _).subset hq) hv, ?_, ?_⟩
  · rw [MemoryStore.store_rollbackPlan, MemoryStore.rollbackPlan, hfind]
  · rw [MemoryStore.store_rollbackPlan, MemoryStore.rollbackPlan, hfind]
    simp [NodeStore.getPlan]

/-- What a `MemoryStore` lists for its nodes has been saved, in that order. -/
theorem historyLogged_invariant :
    SavingInvariant fun (m : MemoryStore) plans => ∀ id, (m.history id).Sublist plans where
  upsertNode _ _ _ h := h
  listNodes _ _ _ h := h
  getNode _ _ _ h := h
  savePlan p m l h := by
    intro id
    show (Function.update m.history p.nodeID _ id).Sublist _
    by_cases hid : id = p.nodeID
    · rw [hid, Function.update_self]
      exact (List.drop_sublist _ _).trans ((h _).append (.refl _))
    · rw [Function.update_of_ne hid]
      exact (h id).trans (List.sublist_append_left _ _)
  rollbackPlan nodeID version m l h := by
    rw [MemoryStore.store_rollbackPlan, MemoryStore.rollbackPlan]
    split <;> exact h
  setGlobalPlanVersion _ _ _ h := h
  updatePolicy req m l h := by
    rw [MemoryStore.store_updatePolicy, MemoryStore.updatePolicy]
    split <;> exact h
  saveTask _ _ _ _ h := h
  saveHealth _ _ _ _ h := h
  listHealth _ _ _ h := h
  appendAudit _ _ _ h := h
  getSettings _ _ h := h
  reopen _ _ _ := fun _ => List.nil_sublist _

theorem historyLogged_along (host : Host) (es : List (Env × Event)) :
    Throughout (Event.step host) HistoryLogged (start MemoryStore.new) es :=
  historyLogged_invariant.throughout (c := start MemoryStore.new) (fun _ => List.nil_sublist _) host es

-- ---------------------------------------------------------------------------
-- Consul
-- ---------------------------------------------------------------------------

namespace ConsulStore

def nodeCount (s : ConsulStore) : Nat := (s.kv.keys nodePrefix).length

variable {s s' : ConsulStore}

theorem Spares.nodeCount (h : s.Spares nodePrefix s') : s'.nodeCount = s.nodeCount :=
  congrArg List.length (KV.keys_congr_isSome fun k hk => congrArg Option.isSome (h.get? k hk))

theorem nodeCount_putValue (s : ConsulStore) (k : String) (v : ConsulValue) :
    (s.putValue k v).2.nodeCount ≤ s.nodeCount + 1 := by
  unfold putValue withKV KV.put KV.request
  split
  · exact Nat.le_succ _
  · exact KV.length_keys_write_le k v nodePrefix s.kv

theorem nodeCount_upsertNode (n : Node) (s : ConsulStore) : (s.upsertNode n).2.nodeCount ≤ s.nodeCount + 1 := by
  have hput := nodeCount_putValue s (nodeKey n.id) (.node n)
  unfold ConsulStore.upsertNode
  split
  next heq => rw [heq] at hput; exact hput
  next heq => rw [heq] at hput; exact hput

theorem exists_of_getNode {id : String} {n : Node} (h : (s.getNode id).1 = .ok (some n)) :
    ∃ e, (s.getNode id).2.kv.get? (nodeKey id) = some e := by
  unfold ConsulStore.getNode ConsulStore.getValue withKV KV.get KV.request at h ⊢
  cases hfails : s.kv.fails s.kv.calls with
  | some err => simp [hfails] at h
  | none =>
    cases hentry : s.kv.get? (nodeKey id) with
    | none => simp [hfails, hentry] at h
    | some e =>
      refine ⟨e, ?_⟩
      simp only [hentry]
      cases e.value.node? with
      | none => exact hentry
      | some m => exact hentry

theorem nodeCount_updatePolicy (req : PolicyRequest) (s : ConsulStore) :
    (s.updatePolicy req).2.nodeCount ≤ s.nodeCount := by
  have hget : (s.getNode req.nodeID).2.nodeCount = s.nodeCount := (Spares.getValue s _ _).nodeCount
  unfold ConsulStore.updatePolicy
  split
  next heq => rw [heq] at hget; exact hget.le
  next heq => rw [heq] at hget; exact hget.le
  next n s' heq =>
    have hfound : (s.getNode req.nodeID).1 = .ok (some n) := by rw [heq]
    obtain ⟨e, he⟩ := exists_of_getNode hfound
    rw [heq] at hget he
    refine le_of_eq (Eq.trans ?_ hget)
    unfold putValue withKV KV.put KV.request
    split
    · rfl
    · exact congrArg List.length (KV.keys_write_of_get? he _ nodePrefix)

theorem version_rollbackPlan {p : Plan} {nodeID : String} {v : Int} (h : (s.rollbackPlan nodeID v).1 = .ok p) :
    p.version = v := by
  unfold ConsulStore.rollbackPlan at h
  split at h
  next => cases h
  next => cases h
  next =>
    split at h
    · cases h
    · dsimp only at h
      split at h
      · cases h
      · exact Except.ok.inj h ▸ rfl

theorem length_listNodes {l : List Node} (h : s.listNodes.1 = .ok l) : l.length ≤ s.nodeCount := by
  unfold ConsulStore.listNodes ConsulStore.listValues withKV KV.list KV.request at h
  split at h
  next => cases h
  next es s' heq =>
    split at heq
    · cases heq
    · injection heq with hes _
      rw [← Except.ok.inj h, ← Except.ok.inj hes]
      exact (List.length_filterMap_le _ _).trans (List.length_filterMap_le _ _)

theorem nodeCount_write (w : StoreWrite) (h : ∀ b ∈ w.prefixes, Apart nodePrefix b) (s : ConsulStore) :
    (w.consul s).2.nodeCount = s.nodeCount := (w.spares h s).nodeCount

end ConsulStore

open ConsulStore in
instance ConsulStore.countedStore : CountedStore ConsulStore where
  nodeCount := nodeCount
  rollbackPlan_version h := version_rollbackPlan h
  rollbackPlan nodeID v s := (Spares.rollbackPlan (by decide) s nodeID v).nodeCount
  setGlobalPlanVersion v s := nodeCount_write (.setGlobalPlanVersion v) (by dsimp only [StoreWrite.prefixes]; decide) s
  listNodes_length h := length_listNodes h
  listNodes _ s := (Spares.listValues s _ _).nodeCount
  upsertNode := nodeCount_upsertNode
  savePlan p s := (Spares.savePlan (by decide) s p).nodeCount
  getNode _ s := (Spares.getValue s _ _).nodeCount
  updatePolicy := nodeCount_updatePolicy
  saveTask now t s := nodeCount_write (.saveTask now t) (by dsimp only [StoreWrite.prefixes]; decide) s
  saveHealth now r s := nodeCount_write (.saveHealth now r) (by dsimp only [StoreWrite.prefixes]; decide) s
  listHealth _ s := (Spares.listValues s _ _).nodeCount
  appendAudit entry s := nodeCount_write (.appendAudit entry) (by dsimp only [StoreWrite.prefixes]; decide) s
  getSettings s := by
    show (s.getSettings.2).nodeCount = s.nodeCount
    rw [getSettings_store]
    exact (Spares.getValue s _ _).nodeCount

/-- As long as the versions of the plans are positive, Consul has none. -/
theorem unstored_invariant :
    SavingInvariant fun (s : ConsulStore) plans => (∀ p ∈ plans, 0 < p.version) → Unstored s.kv where
  upsertNode n _ _ h hpos := (h hpos).stores (.upsertNode n)
  listNodes _ _ _ h hpos := (h hpos).listValues _ _
  getNode _ _ _ h hpos := (h hpos).getValue _ _
  savePlan p s l h hpos := by
    have hold : Unstored s.kv := h fun q hq => hpos q (List.mem_append_left _ hq)
    exact hold.savePlan (hpos p (List.mem_append_right _ List.mem_cons_self))
  rollbackPlan nodeID version _ _ h hpos := ((h hpos).rollbackPlan nodeID version).1
  setGlobalPlanVersion v _ _ h hpos := (h hpos).setGlobalPlanVersion v
  updatePolicy req _ _ h hpos := (h hpos).stores (.updatePolicy req)
  saveTask now t _ _ h hpos := (h hpos).stores (.saveTask now t)
  saveHealth now r _ _ h hpos := (h hpos).stores (.saveHealth now r)
  listHealth _ _ _ h hpos := (h hpos).listValues _ _
  appendAudit entry _ _ h hpos := (h hpos).stores (.appendAudit entry)
  getSettings s _ h hpos := (getSettings_store s).symm ▸ (h hpos).getValue _ _
  reopen _ _ h := h

theorem Unstored.denotes {s : ConsulStore} (h : Unstored s.kv) {nodeID : String} (hname : ¬ OnVersionKey nodeID) :
    RollbackDenotes nodeID s := by
  intro limit l hl p hp
  rcases h.listPlanHistory hname limit with hnone | ⟨err, herr⟩
  · obtain rfl : [] = l := Except.ok.inj (hnone.symm.trans hl)
    cases hp
  · cases herr.symm.trans hl

-- ---------------------------------------------------------------------------
-- Both stores
-- ---------------------------------------------------------------------------

/-- In a run that keeps to `KeepsVersions`, saved plans of one node differ in
version, whatever the store and whichever of its calls fail. Over an in-memory
store each listed version is one plan, which a rollback installs; a Consul that
had no plans lists none. -/
theorem versions_name_plans (host : Host) {σ : Type} [NodeStore σ] [CountedStore σ] (st : σ)
    (es : List (Env × Event)) (h : Along (Event.step host) KeepsVersions (start st) es)
    (es' : List (Env × Event)) (h' : Along (Event.step host) KeepsVersions (start MemoryStore.new) es')
    (s : ConsulStore) (hnew : Unstored s.kv) (es'' : List (Env × Event))
    (h'' : Along (Event.step host) KeepsVersions (start s) es'') :
    Throughout (Event.step host) VersionsUnique (start st) es ∧
    Throughout (Event.step host) (fun c => ∀ nodeID, RollbackDenotes nodeID c.store) (start MemoryStore.new) es' ∧
    Throughout (Event.step host) (fun c => ∀ nodeID, ¬ OnVersionKey nodeID → RollbackDenotes nodeID c.store)
      (start s) es'' := by
  refine ⟨?_, ?_, ?_⟩
  · refine (versionsInOrder_along host st h).mono fun c ho => ?_
    exact fun p hp q hq _ hv => ho.unique hp hq hv
  · exact ((historyLogged_along host es').and (versionsInOrder_along host _ h')).mono
      fun c hc nodeID => hc.1.denotes hc.2 nodeID
  · have hunstored := unstored_invariant.throughout (c := start s) (fun _ => hnew) host es''
    refine (hunstored.and (versionsInOrder_along host s h'')).mono fun c hc nodeID hname => ?_
    exact Unstored.denotes (hc.1 fun p hp => hc.2.version_pos hp) hname

/-- A plan is saved, saved again, rolled back to, and then the counter comes
through the same versions a second time. -/
def sampleRollbackRun : List (Env × Event) :=
  [({ now := 1 }, .request (.register { jwt := true } (some { id := "a", publicKey := "ka" }))),
   ({ now := 2 }, .request (.plan { jwt := true } "a")),
   ({ now := 3 }, .request (.rollback { jwt := true } (some ("a", 1)))),
   ({ now := 4 }, .request (.plan { jwt := true } "a")),
   ({ now := 5 }, .request (.plan { jwt := true } "a"))]

theorem rollback_reissues_version :
    ¬ Throughout (Event.step Host.sample) VersionsUnique (start MemoryStore.new) sampleRollbackRun :=
  fun h => absurd h.final (by decide)

/-- A node that registers, a rollback to the plan it got, and a second plan. -/
def sampleForwardRun : List (Env × Event) :=
  [({ now := 1 }, .request (.register { jwt := true } (some { id := "a", publicKey := "ka" }))),
   ({ now := 2 }, .request (.rollback { jwt := true } (some ("a", 1)))),
   ({ now := 3 }, .request (.plan { jwt := true } "a"))]

theorem versions_name_plans_forward :
    Throughout (Event.step Host.sample) VersionsUnique (start MemoryStore.new) sampleForwardRun ∧
    Throughout (Event.step Host.sample) (fun c => ∀ nodeID, RollbackDenotes nodeID c.store)
      (start MemoryStore.new) sampleForwardRun ∧
    Throughout (Event.step Host.sample) (fun c => ∀ nodeID, ¬ OnVersionKey nodeID → RollbackDenotes nodeID c.store)
      (start unstoredConsul) sampleForwardRun := by
  have hmemory : Along (Event.step Host.sample) KeepsVersions (start MemoryStore.new) sampleForwardRun := by
    refine ⟨⟨by decide, by simp, by simp⟩, ⟨by decide, ?_, by simp⟩, ⟨by decide, by simp, by simp⟩, trivial⟩
    rintro auth nodeID version p ⟨⟩ - -
    decide
  have hconsul : Along (Event.step Host.sample) KeepsVersions (start unstoredConsul) sampleForwardRun := by
    refine ⟨⟨by decide, by simp, by simp⟩, ⟨by decide +kernel, ?_, by simp⟩, ⟨by decide +kernel, by simp, by simp⟩,
      trivial⟩
    rintro auth nodeID version p ⟨⟩ - -
    decide +kernel
  refine versions_name_plans Host.sample MemoryStore.new _ hmemory _ hmemory unstoredConsul ?_ _ hconsul
  rintro name e ⟨⟩

end PeerWan
