import PeerWan.Consul.Agreement
import PeerWan.FailedSaves

/-!
# Plans that Consul never takes

`SavePlan` checks the version of a plan against the index of its key, and the
key of a node's first plan has no index. So a positive version is refused, and
nothing else ever writes the key: from then on there is no plan to read, none in
the history and none to go back to, whatever is requested in which order and
whichever requests to Consul fail. Only nodes that are called as the key of the
global version, or below it, get past the check.
-/

namespace PeerWan

open Lib ConsulStore

-- ---------------------------------------------------------------------------
-- The keys of plans
-- ---------------------------------------------------------------------------

/-- The name's first part is that of the key of the global version. -/
def OnVersionKey (name : String) : Prop := name.toList.takeWhile (· ≠ '/') = "version".toList

instance decidableOnVersionKey (name : String) : Decidable (OnVersionKey name) := inferInstanceAs (Decidable (_ = _))

theorem takeWhile_slash (front rest : List Char) :
    (front ++ '/' :: rest).takeWhile (· ≠ '/') = front.takeWhile (· ≠ '/') := by
  induction front with
  | nil => rfl
  | cons c front ih =>
    rw [List.cons_append, List.takeWhile_cons, List.takeWhile_cons, ih]

theorem onVersionKey_below (name rest : String) : OnVersionKey (name ++ "/" ++ rest) ↔ OnVersionKey name := by
  have hlist : (name ++ "/" ++ rest).toList = name.toList ++ '/' :: rest.toList := by
    simp [String.toList_append]
  rw [OnVersionKey, hlist, takeWhile_slash]
  rfl

/-- Keys of plans stand at and below the version's key alone, and so do the nodes of the plans there. -/
def Unstored (kv : KV ConsulValue) : Prop :=
  ∀ name e, kv.get? (planKey name) = some e →
    OnVersionKey name ∧ ∀ p, e.value.plan? = some p → OnVersionKey p.nodeID

/-- An answer of `SavePlan` to a plan that Consul does not take: the check of its
version failed, or the request did. -/
def Refusal (failing : Nat → Option String) (r : Reply Unit) : Prop :=
  r = .error "plan CAS failed" ∨ ∃ n err, failing n = some err ∧ r = .error err

section

variable {kv kv' : KV ConsulValue} {s s' : ConsulStore} {p : Plan} {nodeID name : String}

theorem Unstored.keeps (h : Unstored kv) (hkeeps : kv.Keeps (Under planPrefix) kv') : Unstored kv' := by
  intro name e he
  have hget : kv'.get? (planKey name) = kv.get? (planKey name) := hkeeps.get? _ (under_append planPrefix name)
  exact h name e (hget ▸ he)

theorem Unstored.write (h : Unstored kv) (hname : OnVersionKey name) {v : ConsulValue}
    (hv : ∀ p, v.plan? = some p → OnVersionKey p.nodeID) : Unstored (kv.write (planKey name) v) := by
  intro name' e he
  rw [KV.get?_write] at he
  split at he
  next heq =>
    obtain rfl := planKey_inj heq
    obtain rfl := Option.some.inj he
    exact ⟨hname, hv⟩
  next => exact h name' e he

theorem Unstored.request {f : KV ConsulValue → β × KV ConsulValue} (h : Unstored kv)
    (hf : Unstored (f kv).2) : Unstored (kv.request f).2 := by
  unfold KV.request
  split
  · exact h
  · exact hf

theorem Unstored.absent (h : Unstored kv) (hname : ¬ OnVersionKey name) : kv.get? (planKey name) = none := by
  cases he : kv.get? (planKey name) with
  | none => rfl
  | some e => exact absurd (h name e he).1 hname

-- ---------------------------------------------------------------------------
-- Saving and going back
-- ---------------------------------------------------------------------------

/-- A key that is absent has no index, so the check fails. -/
theorem Unstored.savePlan_refused (h : Unstored s.kv) (hname : ¬ OnVersionKey p.nodeID) (hpos : 0 < p.version) :
    Refusal s.kv.fails (s.savePlan p).1 ∧ Unstored (s.savePlan p).2.kv := by
  have hindex : casIndex p.version ≠ 0 := by
    rw [casIndex, if_pos hpos]
    omega
  have hadmits : s.kv.admits (planKey p.nodeID) (casIndex p.version) = false := by
    rw [KV.admits, h.absent hname]
    exact decide_eq_false hindex
  have hcas : Unstored (s.withKV (s.kv.cas (planKey p.nodeID) (.plan (s.dated p)) (casIndex p.version))).2.kv ∧
      ((s.withKV (s.kv.cas (planKey p.nodeID) (.plan (s.dated p)) (casIndex p.version))).1 = .ok false ∨
        ∃ n err, s.kv.fails n = some err ∧
          (s.withKV (s.kv.cas (planKey p.nodeID) (.plan (s.dated p)) (casIndex p.version))).1 = .error err) := by
    unfold withKV KV.cas KV.request
    split
    next err hfails => exact ⟨h, .inr ⟨_, err, hfails, rfl⟩⟩
    next =>
      dsimp only
      rw [hadmits]
      exact ⟨h, .inl rfl⟩
  unfold ConsulStore.savePlan
  dsimp only
  rw [dated_nodeID, dated_version]
  split
  next err _ heq =>
    rw [heq] at hcas
    rcases hcas.2 with hanswered | ⟨n, err', hfails, hfailed⟩
    · cases hanswered
    · exact ⟨.inr ⟨n, err', hfails, congrArg Except.error (Except.error.inj hfailed)⟩, hcas.1⟩
  next heq => rw [heq] at hcas; exact ⟨.inl rfl, hcas.1⟩
  next heq =>
    rw [heq] at hcas
    rcases hcas.2 with hanswered | ⟨_, _, _, hfailed⟩
    · cases hanswered
    · cases hfailed

theorem Unstored.savePlan_named (h : Unstored s.kv) (hname : OnVersionKey p.nodeID) :
    Unstored (s.savePlan p).2.kv := by
  have hv : ∀ q, (ConsulValue.plan (s.dated p)).plan? = some q → OnVersionKey q.nodeID := by
    intro q hq
    obtain rfl := Option.some.inj hq
    rwa [dated_nodeID]
  have hcas : Unstored (s.withKV (s.kv.cas (planKey p.nodeID) (.plan (s.dated p)) (casIndex p.version))).2.kv := by
    refine h.request ?_
    split
    · exact h.write hname hv
    · exact h
  unfold ConsulStore.savePlan
  dsimp only
  rw [dated_nodeID, dated_version]
  split
  next heq => rw [heq] at hcas; exact hcas
  next heq => rw [heq] at hcas; exact hcas
  next heq =>
    rw [heq] at hcas
    refine hcas.request ?_
    rw [planHistKey_eq]
    exact hcas.write ((onVersionKey_below ..).mpr hname) hv

theorem Unstored.savePlan (h : Unstored s.kv) (hpos : 0 < p.version) : Unstored (s.savePlan p).2.kv := by
  by_cases hname : OnVersionKey p.nodeID
  · exact h.savePlan_named hname
  · exact (h.savePlan_refused hname hpos).2

theorem Unstored.rollbackPlan (h : Unstored s.kv) (nodeID : String) (version : Int) :
    Unstored (s.rollbackPlan nodeID version).2.kv ∧
      (¬ OnVersionKey nodeID → ∃ err, (s.rollbackPlan nodeID version).1 = .error err) := by
  have hget : Unstored (s.withKV (s.kv.get (planHistKey nodeID version))).2.kv := h.request h
  have hread : ∀ e, (s.withKV (s.kv.get (planHistKey nodeID version))).1 = .ok (some e) →
      OnVersionKey nodeID ∧ ∀ p, e.value.plan? = some p → OnVersionKey p.nodeID := by
    intro e he
    unfold withKV KV.get KV.request at he
    split at he
    next => cases he
    next =>
      have hentry := h _ e (planHistKey_eq nodeID version ▸ Except.ok.inj he)
      exact ⟨(onVersionKey_below ..).mp hentry.1, hentry.2⟩
  unfold ConsulStore.rollbackPlan
  split
  next heq => rw [heq] at hget; exact ⟨hget, fun _ => ⟨_, rfl⟩⟩
  next heq => rw [heq] at hget; exact ⟨hget, fun _ => ⟨_, rfl⟩⟩
  next e s' heq =>
    rw [heq] at hget hread
    obtain ⟨hname, hplans⟩ := hread e rfl
    refine ⟨?_, fun hother => absurd hname hother⟩
    cases hp : e.value.plan? with
    | none => exact hget
    | some p =>
      have hsave : Unstored (s'.savePlan { p with version := version }).2.kv := hget.savePlan_named (hplans p hp)
      dsimp only
      split
      next heq => rw [heq] at hsave; exact hsave
      next heq => rw [heq] at hsave; exact hsave

-- ---------------------------------------------------------------------------
-- Reading
-- ---------------------------------------------------------------------------

theorem Unstored.getPlan (h : Unstored s.kv) (hname : ¬ OnVersionKey nodeID) :
    (s.getPlan nodeID).1 = .ok none ∨ ∃ err, (s.getPlan nodeID).1 = .error err := by
  have hread : ∀ e, (s.withKV (s.kv.get (planKey nodeID))).1 ≠ .ok (some e) := by
    unfold withKV KV.get KV.request
    split
    next => rintro _ ⟨⟩
    next =>
      dsimp only
      rw [h.absent hname]
      rintro _ ⟨⟩
  unfold ConsulStore.getPlan ConsulStore.getValue
  split
  next => exact .inr ⟨_, rfl⟩
  next => exact .inl rfl
  next e _ heq => exact absurd (congrArg Prod.fst heq) (hread e)

theorem Unstored.listPlanHistory (h : Unstored s.kv) (hname : ¬ OnVersionKey nodeID) (limit : Int) :
    (s.listPlanHistory nodeID limit).1 = .ok [] ∨ ∃ err, (s.listPlanHistory nodeID limit).1 = .error err := by
  have hkeys : s.kv.keys (planPrefix ++ nodeID ++ "/") = [] := by
    refine List.eq_nil_iff_forall_not_mem.mpr fun k hk => ?_
    obtain ⟨⟨rest, hrest⟩, e, he⟩ := KV.mem_keys.mp hk
    have hkey : k = planKey (nodeID ++ "/" ++ String.ofList rest) := by
      rw [planKey, ← String.append_assoc, ← String.append_assoc, ← String.toList_inj, String.toList_append,
        String.toList_ofList, hrest]
    exact hname ((onVersionKey_below ..).mp (h _ e (hkey ▸ he)).1)
  have hlist : (s.withKV (s.kv.list (planPrefix ++ nodeID ++ "/"))).1 = .ok [] ∨
      ∃ err, (s.withKV (s.kv.list (planPrefix ++ nodeID ++ "/"))).1 = .error err := by
    unfold withKV KV.list KV.request
    split
    next => exact .inr ⟨_, rfl⟩
    next =>
      dsimp only
      rw [hkeys]
      exact .inl rfl
  unfold ConsulStore.listPlanHistory ConsulStore.listValues
  rcases hr : s.withKV (s.kv.list (planPrefix ++ nodeID ++ "/")) with ⟨r, s'⟩
  rw [hr] at hlist
  rcases hlist with rfl | ⟨err, rfl⟩
  · refine .inl ?_
    simp [limited]
  · exact .inr ⟨_, rfl⟩

-- ---------------------------------------------------------------------------
-- The other calls
-- ---------------------------------------------------------------------------

theorem Unstored.getValue (h : Unstored s.kv) (k : String) (decode : ConsulValue → Option α) :
    Unstored (s.getValue k decode).2.kv := h.keeps (Spares.getValue s k decode)

theorem Unstored.listValues (h : Unstored s.kv) (pfx : String) (decode : ConsulValue → Option α) :
    Unstored (s.listValues pfx decode).2.kv := h.keeps (Spares.listValues s pfx decode)

theorem Unstored.setGlobalPlanVersion (h : Unstored s.kv) (v : Int) :
    Unstored (s.setGlobalPlanVersion v).2.kv := by
  refine h.request ?_
  rw [versionKey_eq]
  have hversion : OnVersionKey "version" := by decide
  exact h.write hversion (by rintro _ ⟨⟩)

theorem listPlanHistory_store (s : ConsulStore) (nodeID : String) (limit : Int) :
    (s.listPlanHistory nodeID limit).2 = (s.listValues (planPrefix ++ nodeID ++ "/") ConsulValue.plan?).2 := by
  unfold ConsulStore.listPlanHistory
  rcases s.listValues (planPrefix ++ nodeID ++ "/") ConsulValue.plan? with ⟨_ | _, _⟩ <;> rfl

theorem listTasks_store (s : ConsulStore) (nodeID : String) (limit : Int) :
    (s.listTasks nodeID limit).2 = (s.listValues taskPref ConsulValue.task?).2 := by
  unfold ConsulStore.listTasks
  rcases s.listValues taskPref ConsulValue.task? with ⟨_ | _, _⟩ <;> rfl

theorem listHealthHistory_store (s : ConsulStore) (nodeID : String) (since : Int) :
    (s.listHealthHistory nodeID since).2 =
      (s.listValues (healthHistPrefix ++ nodeID ++ "/") ConsulValue.health?).2 := by
  unfold ConsulStore.listHealthHistory
  rcases s.listValues (healthHistPrefix ++ nodeID ++ "/") ConsulValue.health? with ⟨_ | _, _⟩ <;> rfl

theorem listAudit_store (s : ConsulStore) (limit : Int) :
    (s.listAudit limit).2 = (s.listValues auditPrefix ConsulValue.audit?).2 := by
  unfold ConsulStore.listAudit
  rcases s.listValues auditPrefix ConsulValue.audit? with ⟨_ | _, _⟩ <;> rfl

theorem getSettings_store (s : ConsulStore) :
    s.getSettings.2 = (s.getValue settingsKey ConsulValue.settings?).2 := by
  unfold ConsulStore.getSettings
  rcases s.getValue settingsKey ConsulValue.settings? with ⟨_ | _, _⟩ <;> rfl

theorem Unstored.getGlobalPlanVersion (h : Unstored s.kv) : Unstored s.getGlobalPlanVersion.2.kv := by
  have hget : Unstored (s.withKV (s.kv.get versionKey)).2.kv := h.request h
  unfold ConsulStore.getGlobalPlanVersion
  split
  next heq => rw [heq] at hget; exact hget
  next heq => rw [heq] at hget; exact hget
  next heq => rw [heq] at hget; exact hget

theorem Unstored.stores (h : Unstored s.kv) (w : StoreWrite) : Unstored (w.consul s).2.kv := by
  rcases w.consul_plans s with hspares | ⟨v, heq⟩
  · exact h.keeps hspares
  · rw [heq]
    exact h.setGlobalPlanVersion v

/-- After a call the same requests fail as before, and there is still no plan. -/
structure StaysUnstored (s s' : ConsulStore) : Prop where
  fails : s'.kv.fails = s.kv.fails
  unstored : Unstored s.kv → Unstored s'.kv

theorem StaysUnstored.getValue (s : ConsulStore) (k : String) (decode : ConsulValue → Option α) :
    StaysUnstored s (s.getValue k decode).2 where
  fails := KV.Keeps.fails (Spares.getValue s k decode : s.Spares planPrefix _)
  unstored h := h.getValue k decode

theorem StaysUnstored.listValues (s : ConsulStore) (pfx : String) (decode : ConsulValue → Option α) :
    StaysUnstored s (s.listValues pfx decode).2 where
  fails := KV.Keeps.fails (Spares.listValues s pfx decode : s.Spares planPrefix _)
  unstored h := h.listValues pfx decode

theorem StaysUnstored.stores (s : ConsulStore) (w : StoreWrite) : StaysUnstored s (w.consul s).2 where
  fails := by
    have hspares : s.Spares "-" (w.consul s).2 := w.spares (by cases w <;> dsimp only [StoreWrite.prefixes] <;> decide) s
    exact hspares.fails
  unstored h := h.stores w

theorem StaysUnstored.getGlobalPlanVersion (s : ConsulStore) : StaysUnstored s s.getGlobalPlanVersion.2 where
  fails := by
    have hget : (s.withKV (s.kv.get versionKey)).2.kv.fails = s.kv.fails :=
      KV.Keeps.fails (P := fun _ => False) (KV.Keeps.request (fun kv => .refl kv) s.kv)
    unfold ConsulStore.getGlobalPlanVersion
    split
    next heq => rw [heq] at hget; exact hget
    next heq => rw [heq] at hget; exact hget
    next heq => rw [heq] at hget; exact hget
  unstored h := h.getGlobalPlanVersion

theorem StaysUnstored.rollbackPlan (s : ConsulStore) (nodeID : String) (version : Int) :
    StaysUnstored s (s.rollbackPlan nodeID version).2 where
  fails := by
    have hspares : s.Spares "-" (s.rollbackPlan nodeID version).2 := Spares.rollbackPlan (by decide) s nodeID version
    exact hspares.fails
  unstored h := (h.rollbackPlan nodeID version).1

end

-- ---------------------------------------------------------------------------
-- Runs
-- ---------------------------------------------------------------------------

/-- As long as the versions of the plans are positive, no plan of another node has been stored. -/
structure Refusing (failing : Nat → Option String) (w : Ledger ConsulStore) : Prop where
  fails : w.store.kv.fails = failing
  refused : (∀ x ∈ w.saves, 0 < x.1.version) →
    Unstored w.store.kv ∧ ∀ x ∈ w.saves, ¬ OnVersionKey x.1.nodeID → Refusal failing x.2

section

variable {w : Ledger ConsulStore} {failing : Nat → Option String}

theorem Refusing.call (h : Refusing failing w) {f : ConsulStore → α × ConsulStore}
    (hf : StaysUnstored w.store (f w.store).2) : Refusing failing (Ledger.call f w).2 :=
  ⟨hf.fails.trans h.fails, fun hpos => ⟨hf.unstored (h.refused hpos).1, (h.refused hpos).2⟩⟩

theorem Refusing.savePlan (h : Refusing failing w) (p : Plan) : Refusing failing (Ledger.savePlan p w).2 := by
  have hkeeps : w.store.kv.Keeps (fun _ => False) (w.store.savePlan p).2.kv := savePlan_keeps w.store id id
  refine ⟨hkeeps.fails.trans h.fails, fun hpos => ?_⟩
  have hsaves : (Ledger.savePlan p w).2.saves = w.saves ++ [(p, (w.store.savePlan p).1)] := by
    rw [Ledger.saves, Ledger.savePlan, List.filterMap_append]
    rfl
  rw [hsaves] at hpos ⊢
  obtain ⟨hunstored, hrefused⟩ := h.refused fun x hx => hpos x (List.mem_append_left _ hx)
  have hversion : 0 < p.version := hpos _ (List.mem_append_right _ List.mem_cons_self)
  refine ⟨hunstored.savePlan hversion, fun x hx hother => ?_⟩
  rcases List.mem_append.mp hx with hold | hnew
  · exact hrefused x hold hother
  · obtain rfl := List.mem_singleton.mp hnew
    exact h.fails ▸ (hunstored.savePlan_refused hother hversion).1

theorem Refusing.setGlobalPlanVersion (h : Refusing failing w) (v : Int) :
    Refusing failing (Ledger.setGlobalPlanVersion v w).2 := by
  have hsaves : (Ledger.setGlobalPlanVersion v w).2.saves = w.saves := by
    rw [Ledger.saves, Ledger.setGlobalPlanVersion, List.filterMap_append]
    exact List.append_nil _
  have hcall := h.call (StaysUnstored.stores w.store (.setGlobalPlanVersion v))
  refine ⟨hcall.fails, fun hpos => ?_⟩
  rw [hsaves] at hpos ⊢
  exact hcall.refused hpos

end

theorem refusing_invariant (failing : Nat → Option String) : StoreInvariant (Refusing failing) where
  upsertNode n w h := h.call (.stores w.store (.upsertNode n))
  listNodes _ w h := h.call (.listValues w.store _ _)
  getNode _ w h := h.call (.getValue w.store _ _)
  savePlan p _ h := h.savePlan p
  getPlan _ w h := h.call (.getValue w.store _ _)
  listPlanHistory nodeID limit w h :=
    h.call ((listPlanHistory_store w.store nodeID limit).symm ▸ .listValues w.store _ _)
  rollbackPlan nodeID version w h := h.call (.rollbackPlan w.store nodeID version)
  setGlobalPlanVersion v _ h := h.setGlobalPlanVersion v
  getGlobalPlanVersion w h := h.call (.getGlobalPlanVersion w.store)
  updatePolicy req w h := h.call (.stores w.store (.updatePolicy req))
  saveTask now t w h := h.call (.stores w.store (.saveTask now t))
  getTask _ w h := h.call (.getValue w.store _ _)
  listTasks _ nodeID limit w h := h.call ((listTasks_store w.store nodeID limit).symm ▸ .listValues w.store _ _)
  saveHealth now r w h := h.call (.stores w.store (.saveHealth now r))
  listHealth _ w h := h.call (.listValues w.store _ _)
  listHealthHistory nodeID since w h :=
    h.call ((listHealthHistory_store w.store nodeID since).symm ▸ .listValues w.store _ _)
  pruneHealthBefore cutoff w h := h.call (.stores w.store (.pruneHealthBefore cutoff))
  appendAudit entry w h := h.call (.stores w.store (.appendAudit entry))
  listAudit limit w h := h.call ((listAudit_store w.store limit).symm ▸ .listValues w.store _ _)
  getSettings w h := h.call ((getSettings_store w.store).symm ▸ .getValue w.store _ _)
  updateSettings cfg w h := h.call (.stores w.store (.updateSettings cfg))
  reopen _ h := h

/-- Over a Consul that has no plans, whatever is requested and whichever of its
own requests fail, no plan of a node that is not called as the version's key is
ever stored: each `SavePlan` of one was refused by the check of its version,
unless its request failed, and there is nothing to read, to list or to go back to. -/
theorem plans_unstored (host : Host) (s : ConsulStore) (hnew : Unstored s.kv)
    (es : List (Env × Event)) (nodeID : String) (hname : ¬ OnVersionKey nodeID)
    (hpos : ∀ x ∈ (run (Event.step host) (start (⟨s, []⟩ : Ledger ConsulStore)) es).store.saves, 0 < x.1.version) :
    (∀ x ∈ (run (Event.step host) (start (⟨s, []⟩ : Ledger ConsulStore)) es).store.saves,
      x.1.nodeID = nodeID → Refusal s.kv.fails x.2) ∧
    let st := (run (Event.step host) (start s) es).store
    ((st.getPlan nodeID).1 = .ok none ∨ ∃ err, (st.getPlan nodeID).1 = .error err) ∧
    (∀ limit, (st.listPlanHistory nodeID limit).1 = .ok [] ∨ ∃ err, (st.listPlanHistory nodeID limit).1 = .error err) ∧
    ∀ version, ∃ err, (st.rollbackPlan nodeID version).1 = .error err := by
  have hstart : Refusing s.kv.fails (start (⟨s, []⟩ : Ledger ConsulStore)).store :=
    ⟨rfl, fun _ => ⟨hnew, by rintro _ ⟨⟩⟩⟩
  obtain ⟨hunstored, hrefused⟩ := ((refusing_invariant s.kv.fails).run host es hstart).refused hpos
  have herase : (run (Event.step host) (start s) es).store =
      (run (Event.step host) (start (⟨s, []⟩ : Ledger ConsulStore)) es).store.store :=
    congrArg Controller.store (Ledger.storeMap.run host (start (⟨s, []⟩ : Ledger ConsulStore)) (fun _ => rfl) es)
  refine ⟨fun x hx hid => hrefused x hx (hid ▸ hname), ?_⟩
  intro st
  have hst : Unstored st.kv := (congrArg (fun s : ConsulStore => Unstored s.kv) herase).mpr hunstored
  exact ⟨hst.getPlan hname, hst.listPlanHistory hname, fun version => (hst.rollbackPlan nodeID version).2 hname⟩

/-- Two nodes, a report and a tick of the leader, while Consul refuses nothing. -/
def unstoredRun : List (Env × Event) := [
  ({}, .request (.register { jwt := true } (some { id := "a", publicKey := "key-a", cidrs := ["10.1.0.0/16"] }))),
  ({}, .request (.register { jwt := true } (some { id := "b", publicKey := "key-b", cidrs := ["10.2.0.0/16"] }))),
  ({}, .request (.health { jwt := true } (some { nodeID := "a", status := "up" }))),
  ({}, .tick)]

def unstoredConsul : ConsulStore := ConsulStore.empty 0 (· + 1) Nat.lt_succ_self

theorem plans_unstored_pair :
    let saves := (run (Event.step .sample) (start (⟨unstoredConsul, []⟩ : Ledger ConsulStore)) unstoredRun).store.saves
    saves.map (fun x => (x.1.nodeID, x.1.version)) = [("a", 1), ("a", 3), ("b", 4), ("a", 6), ("a", 8), ("b", 9)] ∧
    (∀ x ∈ saves, x.1.nodeID = "a" → Refusal unstoredConsul.kv.fails x.2) ∧
    let st := (run (Event.step .sample) (start unstoredConsul) unstoredRun).store
    ∀ version, ∃ err, (st.rollbackPlan "a" version).1 = .error err := by
  obtain ⟨hsaves, -, -, hback⟩ :=
    plans_unstored .sample unstoredConsul (by rintro name e ⟨⟩) unstoredRun "a" (by decide) (by decide +kernel)
  exact ⟨by decide +kernel, hsaves, hback⟩

end PeerWan
