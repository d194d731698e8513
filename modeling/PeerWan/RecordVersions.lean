import PeerWan.Lib.Runs
import PeerWan.Controller.Records
import PeerWan.Text

/-!
# What the version of a record says

`UpsertNode` counts the versions of each node and stamps the record with the
count. `UpdatePolicy` edits the record in place and leaves the stamp. So a
version names one content exactly in the runs where no policy post changes
anything.
-/

namespace PeerWan

open Lib

/-- Every record carries the count its node stands at. -/
def Stamped (m : MemoryStore) : Prop :=
  ∀ id n, m.nodes.get? id = some n → n.configVersion = MemoryStore.versionString (m.version id)

/-- The record of a node is as it was, or its count has moved on. -/
def Advances (id : String) (m m' : MemoryStore) : Prop :=
  (m'.version id = m.version id ∧ m'.nodes.get? id = m.nodes.get? id) ∨ m.version id < m'.version id

/-- A policy post that is accepted and says something new of the node. -/
def EditsPolicy (m : MemoryStore) (r : Request) : Prop :=
  ∃ auth body req n, r = .policy auth body ∧ PolicyAccepted m auth body req n ∧ n.withPolicy req ≠ n

theorem versionString_injective : Function.Injective MemoryStore.versionString := by
  intro v w h
  unfold MemoryStore.versionString at h
  rw [← String.toList_inj, String.toList_append, String.toList_append] at h
  have hnumeral := List.append_cancel_left h
  have hcast := toString_int_injective (String.toList_inj.mp hnumeral : toString (v : Int) = toString (w : Int))
  exact Int.ofNat.inj hcast

-- ---------------------------------------------------------------------------
-- One request
-- ---------------------------------------------------------------------------

section

variable (host : Host) (env : Env) (r : Request) (c : Controller MemoryStore)

theorem recomputed_records (entry : AuditEntry) :
    (bumpPlanVersion (recomputeAllPlans host env 1 (c.audited entry)).2).store.nodes = c.store.nodes ∧
      (bumpPlanVersion (recomputeAllPlans host env 1 (c.audited entry)).2).store.version = c.store.version :=
  ⟨recomputed_nodes host env c entry, (recomputeAllPlans_aside host env 1 (c.audited entry)).version⟩

theorem registerSave_cases (m : MemoryStore) (req : NodeRegistrationRequest) :
    (registerSave m req).2 = m ∨ ∃ n, (registerSave m req).2 = (m.upsertNode n).2 := by
  rw [registerSave]
  split
  · exact .inr ⟨_, rfl⟩
  · exact .inl rfl

theorem served_versions :
    ((serve host env r c).2.store.nodes = c.store.nodes ∧ (serve host env r c).2.store.version = c.store.version) ∨
    (∃ n, (serve host env r c).2.store.nodes = (c.store.upsertNode n).2.nodes ∧
      (serve host env r c).2.store.version = (c.store.upsertNode n).2.version) ∨
    ∃ auth body req n, r = .policy auth body ∧ PolicyAccepted c.store auth body req n ∧
      (serve host env r c).2.store.nodes = c.store.nodes.put (n.withPolicy req) ∧
      (serve host env r c).2.store.version = c.store.version := by
  have hserved := served host env r c
  generalize serve host env r c = out at hserved
  cases hserved with
  | refused h => exact .inl (by rw [h.state]; exact ⟨rfl, rfl⟩)
  | @register auth body req _ _ _ h hcode hout =>
    subst hout
    have hrecords := recomputed_records host env { c with store := (registerSave c.store req).2 }
    rcases registerSave_cases c.store req with hkept | ⟨n, hn⟩
    · rw [hkept] at hrecords ⊢
      exact .inl (hrecords _)
    · rw [hn] at hrecords ⊢
      exact .inr (.inl ⟨n, hrecords _⟩)
  | prepareKeeps => exact .inl ⟨rfl, rfl⟩
  | prepareWrites h => exact .inr (.inl ⟨_, rfl, rfl⟩)
  | policy h hcode hout =>
    subst hout
    exact .inr (.inr ⟨_, _, _, _, rfl, h, rfl, rfl⟩)
  | @health _ _ report =>
    have haside := healthSave_aside host env report c
    exact .inl ⟨haside.nodes, haside.version⟩
  | plan => exact .inl ⟨(getPlanSave_aside host env c).nodes, (getPlanSave_aside host env c).version⟩
  | rollback | mismatch => exact .inl ⟨rfl, rfl⟩

theorem Stamped.upsertNode (h : Stamped m) (n : Node) (m' : MemoryStore)
    (hnodes : m'.nodes = (m.upsertNode n).2.nodes) (hversion : m'.version = (m.upsertNode n).2.version) :
    Stamped m' := by
  intro id a ha
  rw [hnodes] at ha
  rw [hversion]
  simp only [MemoryStore.upsertNode, Table.get?_put] at ha ⊢
  by_cases hid : n.id = id
  · subst hid
    obtain rfl := Option.some.inj ((if_pos rfl).symm.trans ha)
    simp
  · rw [if_neg hid] at ha
    rw [Function.update_of_ne (Ne.symm hid)]
    exact h id a ha

theorem Stamped.step (host : Host) (c : Controller MemoryStore) (e : Env × Request) (h : Stamped c.store) :
    Stamped (Request.step host e c).store := by
  rcases served_versions host e.1 e.2 c with ⟨hnodes, hversion⟩ | ⟨n, hnodes, hversion⟩ |
    ⟨auth, body, req, n, -, hacc, hnodes, hversion⟩
  · intro id a ha
    rw [Request.step, hnodes] at ha
    rw [Request.step, hversion]
    exact h id a ha
  · exact h.upsertNode n _ hnodes hversion
  · intro id a ha
    rw [Request.step, hnodes, Table.get?_put] at ha
    rw [Request.step, hversion]
    split at ha
    next hid =>
      obtain rfl := Option.some.inj ha
      have hkey : n.id = id := hid
      exact h id n (hkey ▸ (Table.key_of_get? hacc.node) ▸ hacc.node)
    next => exact h id a ha

theorem served_count (id : String) :
    c.store.version id ≤ (serve host env r c).2.store.version id := by
  rcases served_versions host env r c with ⟨-, hversion⟩ | ⟨n, -, hversion⟩ | ⟨-, -, -, -, -, -, -, hversion⟩
  · rw [hversion]
  · rw [hversion]
    by_cases hid : id = n.id
    · subst hid
      simp [MemoryStore.upsertNode]
    · simp [MemoryStore.upsertNode, Function.update_of_ne hid]
  · rw [hversion]

/-- A request that edits no policy only moves records on under a new count. -/
theorem served_advances (h : ¬ EditsPolicy c.store r) (id : String) :
    Advances id c.store (serve host env r c).2.store := by
  rcases served_versions host env r c with ⟨hnodes, hversion⟩ | ⟨n, hnodes, hversion⟩ |
    ⟨auth, body, req, n, hr, hacc, hnodes, hversion⟩
  · exact .inl ⟨by rw [hversion], by rw [hnodes]⟩
  · by_cases hid : id = n.id
    · subst hid
      refine .inr ?_
      rw [hversion]
      simp [MemoryStore.upsertNode]
    · refine .inl ⟨?_, ?_⟩
      · rw [hversion]
        exact Function.update_of_ne hid ..
      · rw [hnodes]
        exact (Table.get?_put ..).trans (if_neg (Ne.symm hid))
  · have hsame : n.withPolicy req = n := by
      by_contra hne
      exact h ⟨auth, body, req, n, hr, hacc, hne⟩
    refine .inl ⟨by rw [hversion], ?_⟩
    rw [hnodes, hsame, Table.get?_put]
    split
    next hid => rw [← hid, Table.key_of_get? hacc.node, hacc.node]
    next => rfl

end

-- ---------------------------------------------------------------------------
-- Moments of a run
-- ---------------------------------------------------------------------------

/-- The store after the first `i` requests. -/
def storeAt (host : Host) (es : List (Env × Request)) (i : Nat) : MemoryStore :=
  (run (Request.step host) (start MemoryStore.new) (es.take i)).store

/-- Between any two moments: a version names one content, the count in it only
grows, and a request that changes a record changes its version. -/
structure VersionsIdentify (host : Host) (es : List (Env × Request)) : Prop where
  content : ∀ i j id a b, (storeAt host es i).nodes.get? id = some a → (storeAt host es j).nodes.get? id = some b →
    a.configVersion = b.configVersion → a = b
  grows : ∀ i j id a b, i ≤ j → (storeAt host es i).nodes.get? id = some a →
    (storeAt host es j).nodes.get? id = some b → ∃ v w, a.configVersion = MemoryStore.versionString v ∧
      b.configVersion = MemoryStore.versionString w ∧ v ≤ w
  changes : ∀ i id a b, (storeAt host es i).nodes.get? id = some a →
    (storeAt host es (i + 1)).nodes.get? id = some b → a ≠ b → a.configVersion ≠ b.configVersion

theorem Advances.trans {id : String} (h : Advances id a b) (h' : Advances id b c) : Advances id a c := by
  rcases h with ⟨hv, hn⟩ | h
  · rcases h' with ⟨hv', hn'⟩ | h'
    · exact .inl ⟨hv'.trans hv, hn'.trans hn⟩
    · exact .inr (hv ▸ h')
  · rcases h' with ⟨hv', -⟩ | h'
    · exact .inr (hv' ▸ h)
    · exact .inr (h.trans h')

theorem Advances.content {id : String} (h : Advances id m m') (hm : Stamped m) (hm' : Stamped m')
    (ha : m.nodes.get? id = some a) (hb : m'.nodes.get? id = some b) (hv : a.configVersion = b.configVersion) :
    a = b := by
  rcases h with ⟨-, hsame⟩ | hlt
  · exact Option.some.inj (ha.symm.trans (hsame.symm.trans hb))
  · rw [hm id a ha, hm' id b hb] at hv
    exact absurd (versionString_injective hv) hlt.ne

theorem stampedAt (host : Host) (es : List (Env × Request)) (i : Nat) : Stamped (storeAt host es i) :=
  (throughout_of_invariant (Stamped.step host)
    (fun _ _ h => by cases h) es).take i

theorem countAt_mono (host : Host) (es : List (Env × Request)) (id : String) (hij : i ≤ j) :
    (storeAt host es i).version id ≤ (storeAt host es j).version id :=
  related_of_along (R := fun c c' => c.store.version id ≤ c'.store.version id) (P := fun _ _ => True)
    (fun _ => le_refl _) (fun _ _ _ => le_trans) (fun c e _ => served_count host e.1 e.2 c id)
    (along_of_invariant (I := fun _ => True) (fun _ _ _ => trivial) (fun _ _ _ => trivial) trivial es) hij

/-- The versions of a run identify records exactly when no policy post of the
run changes the record it is about. -/
theorem versionsIdentify_iff (host : Host) (es : List (Env × Request)) :
    VersionsIdentify host es ↔
      Along (Request.step host) (fun c e => ¬ EditsPolicy c.store e.2) (start MemoryStore.new) es := by
  constructor
  · intro h
    rw [along_iff_forall_take]
    rintro i hi ⟨auth, body, req, n, hr, hacc, hne⟩
    have hwrites : Writes host es[i].1 (storeAt host es i) es[i].2 (n.withPolicy req) := by
      rw [hr]
      exact .policy hacc
    have hafter : (storeAt host es (i + 1)).nodes.get? req.nodeID = some (n.withPolicy req) := by
      rw [storeAt, run_take_succ hi]
      refine (congrArg (Table.get? · req.nodeID) hwrites.served).trans ?_
      rw [Table.get?_put]
      exact if_pos (Table.key_of_get? hacc.node)
    exact hne (h.content i (i + 1) _ _ _ hacc.node hafter rfl).symm
  · intro h
    have hadvances : ∀ i j id, i ≤ j → Advances id (storeAt host es i) (storeAt host es j) := fun i j id hij =>
      related_of_along (R := fun c c' => Advances id c.store c'.store) (fun _ => .inl ⟨rfl, rfl⟩)
        (fun _ _ _ => .trans) (fun c e he => served_advances host e.1 e.2 c he id) h hij
    have hcontent : ∀ i j id a b, (storeAt host es i).nodes.get? id = some a →
        (storeAt host es j).nodes.get? id = some b → a.configVersion = b.configVersion → a = b := by
      intro i j id a b ha hb hv
      rcases le_total i j with hij | hij
      · exact (hadvances i j id hij).content (stampedAt host es i) (stampedAt host es j) ha hb hv
      · exact ((hadvances j i id hij).content (stampedAt host es j) (stampedAt host es i) hb ha hv.symm).symm
    refine ⟨hcontent, fun i j id a b hij ha hb => ?_, fun i id a b ha hb hne hv => ?_⟩
    · exact ⟨_, _, stampedAt host es i id a ha, stampedAt host es j id b hb, countAt_mono host es id hij⟩
    · exact hne (hcontent i (i + 1) id a b ha hb hv)

/-- The egress peer changes, and the record stays at its first version. -/
theorem versionsIdentify_counterexample :
    ¬ ∀ (host : Host) (es : List (Env × Request)), VersionsIdentify host es := by
  intro h
  have hrun := h .sample
    [({}, .register { jwt := true } (some { id := "a", publicKey := "ka", cidrs := ["10.1.0.0/16"] })),
      ({}, .policy { jwt := true } (some { nodeID := "a", egressPeer := "b" }))]
  let registered : Node := {
    id := "a"
    publicKey := "ka"
    cidrs := ["10.1.0.0/16"]
    configVersion := "v0.0.1"
    version := "v0.0.1" }
  have hsame := hrun.content 1 2 "a" registered { registered with egressPeerID := "b" } (by decide) (by decide) rfl
  exact absurd (congrArg Node.egressPeerID hsame) (by decide)

end PeerWan
