import PeerWan.Consul.Store

/-!
# What the calls of the Consul store do

The keys of the store fall into families, and a call touches those of its own.
Where Consul answers every request, a call is what it writes.
-/

namespace PeerWan

open Lib

namespace ConsulStore

-- ---------------------------------------------------------------------------
-- Families of keys
-- ---------------------------------------------------------------------------

def Under (pfx k : String) : Prop := pfx.toList <+: k.toList

abbrev Apart (a b : String) : Prop := ¬ a.toList <+: b.toList ∧ ¬ b.toList <+: a.toList

theorem under_append (pfx rest : String) : Under pfx (pfx ++ rest) := ⟨rest.toList, String.toList_append.symm⟩

theorem under_append₃ (pfx a b c : String) : Under pfx (pfx ++ a ++ b ++ c) := by
  rw [String.append_assoc, String.append_assoc]
  exact under_append pfx _

theorem Under.trans {a b k : String} (h : Under a b) (hk : Under b k) : Under a k := List.IsPrefix.trans h hk

theorem Apart.not_under {a b k : String} (h : Apart a b) (hk : Under b k) : ¬ Under a k := by
  intro ha
  rcases List.prefix_or_prefix_of_prefix ha hk with hp | hp
  · exact h.1 hp
  · exact h.2 hp

theorem Apart.under {a b c : String} (h : Apart a b) (hc : Under b c) : Apart a c :=
  ⟨fun ha => h.not_under hc ha, fun hc' => h.2 (hc.trans hc')⟩

theorem versionKey_eq : versionKey = planKey "version" := by decide

theorem planHistKey_eq (nodeID : String) (version : Int) :
    planHistKey nodeID version = planKey (nodeID ++ "/" ++ toString version) := by
  simp only [planHistKey, planKey, String.append_assoc]

theorem planKey_inj {nodeID nodeID' : String} (h : planKey nodeID = planKey nodeID') : nodeID = nodeID' :=
  (String.append_right_inj _).mp h

theorem planHistKey_inj {nodeID nodeID' : String} {v v' : Int} (h : planHistKey nodeID v = planHistKey nodeID' v') :
    nodeID = nodeID' ∧ v = v' := by
  rw [planHistKey_eq, planHistKey_eq] at h
  have hlist := congrArg String.toList (planKey_inj h)
  simp only [String.toList_append, List.append_assoc] at hlist
  have hback : (toString v).toList = (toString v').toList := by
    rw [← rtakeWhile_last nodeID.toList (slash_not_mem_toString v),
      ← rtakeWhile_last nodeID'.toList (slash_not_mem_toString v')]
    exact congrArg _ hlist
  refine ⟨String.toList_inj.mp ?_, toString_int_injective (String.toList_inj.mp hback)⟩
  rw [hback] at hlist
  exact List.append_cancel_right hlist

theorem version_ne_planHistKey (nodeID : String) (v : Int) : versionKey ≠ planHistKey nodeID v := by
  intro h
  rw [planHistKey_eq, versionKey_eq] at h
  have hmem : '/' ∈ (nodeID ++ "/" ++ toString v).toList := by simp
  rw [← planKey_inj h] at hmem
  revert hmem
  decide

-- ---------------------------------------------------------------------------
-- What the calls leave alone
-- ---------------------------------------------------------------------------

/-- The store after a call that has not touched the keys under a prefix. -/
def Spares (pfx : String) (s s' : ConsulStore) : Prop := s.kv.Keeps (Under pfx) s'.kv

variable {s : ConsulStore} {pfx k : String}

theorem Spares.putValue (hk : ¬ Under pfx k) (s : ConsulStore) (v : ConsulValue) :
    s.Spares pfx (s.putValue k v).2 :=
  KV.Keeps.request (fun kv => .write hk v kv) s.kv

theorem Spares.getValue (s : ConsulStore) (k : String) (decode : ConsulValue → Option α) :
    s.Spares pfx (s.getValue k decode).2 := by
  have hget : s.Spares pfx (s.withKV (s.kv.get k)).2 := KV.Keeps.request (fun kv => .refl kv) s.kv
  unfold ConsulStore.getValue
  split
  next heq => rw [heq] at hget; exact hget
  next heq => rw [heq] at hget; exact hget
  next heq => rw [heq] at hget; split <;> exact hget

theorem Spares.listValues (s : ConsulStore) (b : String) (decode : ConsulValue → Option α) :
    s.Spares pfx (s.listValues b decode).2 := by
  have hlist : s.Spares pfx (s.withKV (s.kv.list b)).2 := KV.Keeps.request (fun kv => .refl kv) s.kv
  unfold ConsulStore.listValues
  split
  next heq => rw [heq] at hlist; exact hlist
  next heq => rw [heq] at hlist; exact hlist

theorem Spares.deleteBefore (cutoff : Int) (es : List (KVEntry ConsulValue)) (s : ConsulStore)
    (h : ∀ e ∈ es, ¬ Under pfx e.key) : s.Spares pfx (s.deleteBefore cutoff es) := by
  unfold ConsulStore.deleteBefore
  induction es generalizing s with
  | nil => exact .refl _
  | cons e es ih =>
    rw [List.foldl_cons]
    have hdelete : s.Spares pfx (s.withKV (s.kv.delete e.key)).2 :=
      KV.Keeps.request (fun kv => .erase (h e List.mem_cons_self) kv) s.kv
    refine KV.Keeps.trans ?_ (ih _ fun e he => h e (List.mem_cons_of_mem _ he))
    split
    · split
      · exact hdelete
      · exact .refl _
    · exact .refl _

theorem Spares.pruneHealth {b : String} (hb : Apart pfx b) (cutoff : Int) (s : ConsulStore) :
    s.Spares pfx (s.pruneHealth b cutoff).2 := by
  have hlist : s.Spares pfx (s.withKV (s.kv.list b)).2 := KV.Keeps.request (fun kv => .refl kv) s.kv
  unfold ConsulStore.pruneHealth
  split
  next heq => rw [heq] at hlist; exact hlist
  next es s' heq =>
    rw [heq] at hlist
    refine hlist.trans (Spares.deleteBefore cutoff es s' fun e he => hb.not_under ?_)
    unfold withKV KV.list KV.request at heq
    split at heq
    · cases heq
    · cases heq
      exact KV.mem_listing he

theorem dated_nodeID (s : ConsulStore) (p : Plan) : (s.dated p).nodeID = p.nodeID := by
  unfold dated
  split <;> rfl

theorem dated_version (s : ConsulStore) (p : Plan) : (s.dated p).version = p.version := by
  unfold dated
  split <;> rfl

theorem savePlan_keeps {P : String → Prop} (s : ConsulStore) {p : Plan} (hplan : ¬ P (planKey p.nodeID))
    (hhist : ¬ P (planHistKey p.nodeID p.version)) : s.kv.Keeps P (s.savePlan p).2.kv := by
  have hcas : s.kv.Keeps P (s.withKV (s.kv.cas (planKey p.nodeID) (.plan (s.dated p))
      (casIndex p.version))).2.kv := by
    refine KV.Keeps.request (fun kv => ?_) s.kv
    split
    · exact .write hplan _ kv
    · exact .refl kv
  unfold ConsulStore.savePlan
  dsimp only
  rw [dated_nodeID, dated_version]
  split
  next heq => rw [heq] at hcas; exact hcas
  next heq => rw [heq] at hcas; exact hcas
  next heq =>
    rw [heq] at hcas
    exact hcas.trans (KV.Keeps.request (fun kv => .write hhist _ kv) _)

theorem Spares.savePlan (h : Apart pfx planPrefix) (s : ConsulStore) (p : Plan) :
    s.Spares pfx (s.savePlan p).2 :=
  savePlan_keeps s (h.not_under (under_append ..)) (h.not_under (under_append₃ ..))

theorem Spares.rollbackPlan (h : Apart pfx planPrefix) (s : ConsulStore) (nodeID : String) (v : Int) :
    s.Spares pfx (s.rollbackPlan nodeID v).2 := by
  have hget : s.Spares pfx (s.withKV (s.kv.get (planHistKey nodeID v))).2 :=
    KV.Keeps.request (fun kv => .refl kv) s.kv
  unfold ConsulStore.rollbackPlan
  split
  next heq => rw [heq] at hget; exact hget
  next heq => rw [heq] at hget; exact hget
  next e s' heq =>
    rw [heq] at hget
    cases e.value.plan? with
    | none => exact hget
    | some p =>
      have hsave := Spares.savePlan h s' { p with version := v }
      dsimp only
      split
      next heq => rw [heq] at hsave; exact hget.trans hsave
      next heq => rw [heq] at hsave; exact hget.trans hsave

-- ---------------------------------------------------------------------------
-- Where every request is answered
-- ---------------------------------------------------------------------------

theorem getValue_works (hw : s.kv.Works) (k : String)
    (decode : ConsulValue → Option α) : s.getValue k decode =
    (match s.kv.get? k with
      | none => .ok none
      | some e => match decode e.value with
        | none => .error "invalid value"
        | some a => .ok (some a), { s with kv := s.kv.called }) := by
  unfold getValue withKV
  rw [KV.get_works hw]
  cases s.kv.get? k with
  | none => rfl
  | some e => cases h : decode e.value <;> simp [h]

theorem listValues_works (hw : s.kv.Works) (pfx : String) (decode : ConsulValue → Option α) :
    s.listValues pfx decode =
      (.ok (((s.kv.keys pfx).filterMap s.kv.get?).filterMap fun e => decode e.value),
        { s with kv := s.kv.called }) := by
  unfold listValues withKV KV.list
  rw [KV.request_works hw]

theorem listPlanHistory_eq (s : ConsulStore) (nodeID : String) (limit : Int) :
    (s.listPlanHistory nodeID limit).1 =
      (s.listValues (planPrefix ++ nodeID ++ "/") ConsulValue.plan?).1.map (limited limit) := by
  unfold listPlanHistory
  rcases s.listValues (planPrefix ++ nodeID ++ "/") ConsulValue.plan? with ⟨r, s'⟩
  cases r <;> rfl

theorem getGlobalPlanVersion_works (hw : s.kv.Works) :
    s.getGlobalPlanVersion.1 = .ok ((s.kv.value? versionKey).elim 0 ConsulValue.scanVersion) := by
  unfold getGlobalPlanVersion withKV KV.value?
  rw [KV.get_works hw]
  cases s.kv.get? versionKey <;> rfl

theorem putValue_works (hw : s.kv.Works) (k : String) (v : ConsulValue) :
    s.putValue k v = (.ok (), { s with kv := (s.kv.write k v).called }) := by
  unfold putValue withKV
  rw [KV.put_works hw]

theorem setGlobalPlanVersion_works (hw : s.kv.Works) (v : Int) :
    s.setGlobalPlanVersion v = (.ok (), { s with kv := (s.kv.write versionKey (.version v)).called }) := by
  unfold ConsulStore.setGlobalPlanVersion putValue
  rw [KV.put_works hw]
  rfl

theorem savePlan_works (hw : s.kv.Works) (p : Plan) : s.savePlan p =
    if s.kv.admits (planKey p.nodeID) (casIndex p.version) then
      (.ok (), { s with kv := ((s.kv.write (planKey p.nodeID) (.plan (s.dated p))).called.write
        (planHistKey p.nodeID p.version) (.plan (s.dated p))).called })
    else (.error "plan CAS failed", { s with kv := s.kv.called }) := by
  unfold savePlan
  simp only [dated_nodeID, dated_version, withKV, KV.cas_works hw]
  cases s.kv.admits (planKey p.nodeID) (casIndex p.version) with
  | true => simp [putValue, withKV, KV.put_works (show (s.kv.write _ _).called.Works from hw)]
  | false => simp

theorem admits_casIndex {kv : KV ConsulValue} {k : String} {v : Int} (hv : 0 < v) :
    kv.admits k (casIndex v) ↔ ∃ e, kv.get? k = some e ∧ (e.modifyIndex : Int) = v := by
  rw [KV.admits_iff, casIndex, if_pos hv]
  constructor
  · rintro (⟨h, -⟩ | ⟨-, e, he, hindex⟩)
    · omega
    · exact ⟨e, he, by omega⟩
  · rintro ⟨e, he, hindex⟩
    exact .inr ⟨by omega, e, he, by omega⟩

end ConsulStore

end PeerWan
