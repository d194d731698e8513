import PeerWan.Controller.Effects

/-!
# Registering again

A register that brings nothing new is answered without a write, unless it is
forced. `nodeEqual` decides what is new, and looks at a part of the record. What
a register has just stored is nothing new to the same request.
-/

namespace PeerWan

open Lib

-- ---------------------------------------------------------------------------
-- Requests that bring nothing new
-- ---------------------------------------------------------------------------

/-- In each field that `nodeEqual` compares, the request is empty or as the
record is. The overlay of a record stays once it has one, and a record without
router ID gets it from the overlay. -/
structure AddsNothing (existing : Node) (req : NodeRegistrationRequest) : Prop where
  publicKey : req.publicKey = "" ∨ req.publicKey = "stub-public-key" ∨ req.publicKey = existing.publicKey
  listenPort : req.listenPort = 0 ∨ req.listenPort = existing.listenPort
  overlayIP : existing.overlayIP ≠ "" ∨ req.overlayIP = ""
  asn : req.asn = 0 ∨ req.asn = existing.asn
  routerID : req.routerID = existing.routerID ∧ (req.routerID = "" → beforeSlash existing.overlayIP = none) ∨
    req.routerID = "" ∧ existing.routerID ≠ ""
  endpoints : req.endpoints = [] ∨ req.endpoints = existing.endpoints
  cidrs : req.cidrs = [] ∨ req.cidrs = existing.cidrs

instance decidableAddsNothing (existing : Node) (req : NodeRegistrationRequest) :
    Decidable (AddsNothing existing req) :=
  decidable_of_iff
    ((req.publicKey = "" ∨ req.publicKey = "stub-public-key" ∨ req.publicKey = existing.publicKey) ∧
      (req.listenPort = 0 ∨ req.listenPort = existing.listenPort) ∧
      (existing.overlayIP ≠ "" ∨ req.overlayIP = "") ∧ (req.asn = 0 ∨ req.asn = existing.asn) ∧
      (req.routerID = existing.routerID ∧ (req.routerID = "" → beforeSlash existing.overlayIP = none) ∨
        req.routerID = "" ∧ existing.routerID ≠ "") ∧
      (req.endpoints = [] ∨ req.endpoints = existing.endpoints) ∧
      (req.cidrs = [] ∨ req.cidrs = existing.cidrs))
    ⟨fun ⟨hpub, hport, hover, hasn, hrouter, hends, hcidrs⟩ => ⟨hpub, hport, hover, hasn, hrouter, hends, hcidrs⟩,
      fun h => ⟨h.publicKey, h.listenPort, h.overlayIP, h.asn, h.routerID, h.endpoints, h.cidrs⟩⟩

theorem routerID_withRouterID (n : Node) :
    (withRouterID n).routerID = if n.routerID = "" then (beforeSlash n.overlayIP).getD "" else n.routerID := by
  unfold withRouterID
  split <;> rfl

theorem withRouterID_eq (n : Node) : withRouterID n = { n with routerID := (withRouterID n).routerID } := by
  unfold withRouterID
  split <;> rfl

theorem getD_beforeSlash_eq_empty {s : String} : (beforeSlash s).getD "" = "" ↔ beforeSlash s = none := by
  cases h : beforeSlash s with
  | none => simp
  | some t => simp [beforeSlash_ne_empty h]

theorem kept_or {α : Type} [DecidableEq α] {a b zero : α} : (if a = zero then b else a) = b ↔ a = zero ∨ a = b := by
  by_cases h : a = zero <;> simp [h]

theorem overlayIP_mergeExisting (e n : Node) :
    (mergeExisting e n).overlayIP = if e.overlayIP ≠ "" then e.overlayIP else n.overlayIP := by
  unfold mergeExisting
  by_cases h : e.overlayIP = ""
  · by_cases hn : n.overlayIP = "" <;> simp [h, hn]
  · simp [h]

theorem overlay_kept_iff (e n : Node) :
    (mergeExisting e n).overlayIP = e.overlayIP ↔ e.overlayIP ≠ "" ∨ n.overlayIP = "" := by
  rw [overlayIP_mergeExisting]
  by_cases h : e.overlayIP = "" <;> simp [h]

theorem routerID_kept_iff {e n : Node} (h : (mergeExisting e n).overlayIP = e.overlayIP) :
    (withRouterID (mergeExisting e n)).routerID = e.routerID ↔
      n.routerID = e.routerID ∧ (n.routerID = "" → beforeSlash e.overlayIP = none) ∨
        n.routerID = "" ∧ e.routerID ≠ "" := by
  rw [routerID_withRouterID, h]
  show (if (if n.routerID = "" then e.routerID else n.routerID) = "" then _ else
    if n.routerID = "" then e.routerID else n.routerID) = _ ↔ _
  by_cases hn : n.routerID = ""
  · by_cases he : e.routerID = ""
    · simp [hn, he, getD_beforeSlash_eq_empty]
    · simp [hn, he]
  · simp [hn]

theorem publicKey_toNode (req : NodeRegistrationRequest) (s : String) :
    req.toNode.publicKey = "" ∨ req.toNode.publicKey = s ↔
      req.publicKey = "" ∨ req.publicKey = "stub-public-key" ∨ req.publicKey = s := by
  have hpub : req.toNode.publicKey = if req.publicKey = "stub-public-key" then "" else req.publicKey := rfl
  rw [hpub]
  by_cases h : req.publicKey = "stub-public-key" <;> simp [h]

theorem nodeEqual_registered_iff {existing : Node} {req : NodeRegistrationRequest} (hid : existing.id = req.id) :
    nodeEqual existing (registeredNode (some existing) req) = true ↔ AddsNothing existing req := by
  have hnode : registeredNode (some existing) req =
    { mergeExisting existing req.toNode with
      routerID := (withRouterID (mergeExisting existing req.toNode)).routerID } := withRouterID_eq _
  have hoverlay := overlay_kept_iff existing req.toNode
  rw [hnode]
  simp only [nodeEqual, Bool.and_eq_true, decide_eq_true_eq]
  constructor
  · rintro ⟨⟨⟨⟨⟨⟨⟨-, hpub⟩, hport⟩, hover⟩, hasn⟩, hrouter⟩, hends⟩, hcidrs⟩
    exact {
      publicKey := (publicKey_toNode req _).mp (kept_or.mp hpub.symm)
      listenPort := kept_or.mp hport.symm
      overlayIP := hoverlay.mp hover.symm
      asn := kept_or.mp hasn.symm
      routerID := (routerID_kept_iff hover.symm).mp hrouter.symm
      endpoints := kept_or.mp hends.symm
      cidrs := kept_or.mp hcidrs.symm }
  · rintro ⟨hpub, hport, hover, hasn, hrouter, hends, hcidrs⟩
    have hkept := hoverlay.mpr hover
    exact ⟨⟨⟨⟨⟨⟨⟨hid, (kept_or.mpr ((publicKey_toNode req _).mpr hpub)).symm⟩, (kept_or.mpr hport).symm⟩,
      hkept.symm⟩, (kept_or.mpr hasn).symm⟩, ((routerID_kept_iff hkept).mpr hrouter).symm⟩,
      (kept_or.mpr hends).symm⟩, (kept_or.mpr hcidrs).symm⟩

-- ---------------------------------------------------------------------------
-- What was registered is nothing new
-- ---------------------------------------------------------------------------

theorem kept_or_sent {α : Type} [DecidableEq α] (a b zero : α) : a = zero ∨ a = if a = zero then b else a := by
  by_cases h : a = zero <;> simp [h]

theorem addsNothing_routerID {n : Node} {r : String} (h : r = "" ∨ r = n.routerID) :
    r = (withRouterID n).routerID ∧ (r = "" → beforeSlash n.overlayIP = none) ∨
      r = "" ∧ (withRouterID n).routerID ≠ "" := by
  rw [routerID_withRouterID]
  by_cases hr : r = ""
  · by_cases hn : n.routerID = ""
    · rw [if_pos hn]
      cases hslash : beforeSlash n.overlayIP with
      | none => exact .inl ⟨hr, fun _ => rfl⟩
      | some t => exact .inr ⟨hr, beforeSlash_ne_empty hslash⟩
    · exact .inr ⟨hr, by rwa [if_neg hn]⟩
  · have hn := h.resolve_left hr
    exact .inl ⟨by rw [if_neg (hn ▸ hr), hn], fun hempty => absurd hempty hr⟩

/-- Every rule of the merge is a fixed point on what it gives. -/
theorem addsNothing_registered (m : MemoryStore) (existing : Option Node) (req : NodeRegistrationRequest) :
    AddsNothing (m.upsertNode (registeredNode existing req)).1 req := by
  have hpub := publicKey_toNode req
  cases existing with
  | none =>
    have hnode := withRouterID_eq req.toNode
    have hrouter := addsNothing_routerID (n := req.toNode) (r := req.routerID) (.inr rfl)
    simp only [MemoryStore.upsertNode, registeredNode]
    rw [hnode]
    constructor
    case routerID => exact hrouter
    case publicKey => exact (hpub _).mp (.inr rfl)
    case overlayIP => exact (em (req.overlayIP = "")).symm
    all_goals exact .inr rfl
  | some e =>
    have hnode := withRouterID_eq (mergeExisting e req.toNode)
    have hrouter := addsNothing_routerID (n := mergeExisting e req.toNode) (r := req.routerID) (kept_or_sent ..)
    simp only [MemoryStore.upsertNode, registeredNode]
    rw [hnode]
    constructor
    case routerID => exact hrouter
    case publicKey => exact (hpub _).mp (kept_or_sent ..)
    case overlayIP =>
      rw [overlayIP_mergeExisting]
      by_cases h : e.overlayIP = ""
      · rw [if_neg (not_not.mpr h)]
        exact (em (req.overlayIP = "")).symm
      · rw [if_pos h]
        exact .inl h
    all_goals exact kept_or_sent ..

theorem registerWrites_iff {existing : Node} {req : NodeRegistrationRequest} (hid : existing.id = req.id) :
    registerWrites (some existing) req = true ↔ req.force = true ∨ ¬ AddsNothing existing req := by
  rw [registerWrites, Bool.or_eq_true, Bool.not_eq_true', ← Bool.not_eq_true, nodeEqual_registered_iff hid]

section

variable {host : Host} {env : Env} {auth : Credentials} {m : MemoryStore} {req : NodeRegistrationRequest}

theorem get?_registerSave (m : MemoryStore) (req : NodeRegistrationRequest)
    (h : registerWrites (m.nodes.get? req.id) req = true) :
    (registerSave m req).2.nodes.get? req.id =
      some (m.upsertNode (registeredNode (m.nodes.get? req.id) req)).1 := by
  rw [registerSave, if_pos h]
  show (m.nodes.put (m.upsertNode (registeredNode (m.nodes.get? req.id) req)).1).get? req.id = _
  rw [Table.get?_put, if_pos]
  exact registeredNode_id _ req

/-- Written or not, the record that is left is one to which the request adds nothing. -/
theorem registerSave_adds (m : MemoryStore) (hforce : req.force = false) :
    ∃ n, (registerSave m req).2.nodes.get? req.id = some n ∧ AddsNothing n req := by
  by_cases hw : registerWrites (m.nodes.get? req.id) req = true
  · exact ⟨_, get?_registerSave m req hw, addsNothing_registered m _ req⟩
  · rw [registerSave, if_neg hw]
    cases he : m.nodes.get? req.id with
    | none =>
      rw [he] at hw
      exact absurd rfl hw
    | some e =>
      rw [he, registerWrites_iff (Table.key_of_get? he), hforce] at hw
      exact ⟨e, rfl, not_not.mp (not_or.mp hw).2⟩

theorem registerSave_kept (hforce : req.force = false) (h : m.nodes.get? req.id = some n) (hn : AddsNothing n req) :
    (registerSave m req).2 = m := by
  have hw : ¬ registerWrites (m.nodes.get? req.id) req = true := by
    rw [h, registerWrites_iff (Table.key_of_get? h), hforce]
    exact not_or.mpr ⟨Bool.false_ne_true, not_not.mpr hn⟩
  rw [registerSave, if_neg hw]

theorem registered_leaves (saved : Node) (c : Controller MemoryStore) :
    (registered host env saved c).2.store.nodes = c.store.nodes ∧
      (registered host env saved c).2.store.version = c.store.version := by
  obtain ⟨-, entry, h⟩ := registered_eq host env saved c
  rw [h]
  exact ⟨(recomputeAllPlans_aside host env 1 _).nodes, (recomputeAllPlans_aside host env 1 _).version⟩

variable (host env) in
theorem register_records {body : Option NodeRegistrationRequest} {c : Controller MemoryStore}
    (h : RegisterAccepted c.store auth body req) :
    (register host env auth body c).2.store.nodes = (registerSave c.store req).2.nodes ∧
      (register host env auth body c).2.store.version = (registerSave c.store req).2.version := by
  rw [register_accepted host env h]
  exact registered_leaves _ _

end

def NodeRegistrationRequest.withForce (sent : NodeRegistrationRequest) (force : Bool) : NodeRegistrationRequest :=
  { sent with force := force }

@[simp] theorem force_withForce (sent : NodeRegistrationRequest) (force : Bool) :
    (sent.withForce force).force = force := rfl

theorem force_withToken (sent : NodeRegistrationRequest) (token : String) :
    (sent.withToken token).force = sent.force := by
  unfold NodeRegistrationRequest.withToken
  split <;> rfl

theorem RegisterAccepted.force {m : MemoryStore} {auth : Credentials} {sent req : NodeRegistrationRequest}
    {force : Bool} (h : RegisterAccepted m auth (some (sent.withForce force)) req) : req.force = force := by
  obtain ⟨_, hbody, hreq⟩ := h.body
  rw [hreq, force_withToken, ← Option.some.inj hbody, force_withForce]

/-- The same request without force, at two moments with nothing in between. -/
theorem register_again (host : Host) (env env' : Env) (auth : Credentials) (sent : NodeRegistrationRequest)
    (c : Controller MemoryStore) :
    let first := (register host env auth (some (sent.withForce false)) c).2
    let second := (register host env' auth (some (sent.withForce false)) first).2
    second.store.nodes = first.store.nodes ∧ second.store.version = first.store.version := by
  intro first second
  have hrefused : ∀ (env : Env) (c : Controller MemoryStore),
      (¬ ∃ req, RegisterAccepted c.store auth (some (sent.withForce false)) req) →
        (register host env auth (some (sent.withForce false)) c).2 = c := fun env c h =>
    (register_refused host env fun req hreq => h ⟨req, hreq⟩).state
  by_cases hagain : ∃ req, RegisterAccepted first.store auth (some (sent.withForce false)) req
  · obtain ⟨req, hagain⟩ := hagain
    by_cases h : ∃ req, RegisterAccepted c.store auth (some (sent.withForce false)) req
    · obtain ⟨req', h⟩ := h
      obtain rfl := h.unique hagain
      have hforce := h.force
      obtain ⟨n, hn, hadds⟩ := registerSave_adds c.store hforce
      rw [← (register_records host env h).1] at hn
      have hsecond := register_records host env' hagain
      rw [registerSave_kept hforce hn hadds] at hsecond
      exact hsecond
    · have hsame : first = c := hrefused env c h
      exact absurd ⟨req, hsame ▸ hagain⟩ h
  · have hsame : second = first := hrefused env' first hagain
    rw [hsame]
    exact ⟨rfl, rfl⟩

-- ---------------------------------------------------------------------------
-- The shortcut and the full path
-- ---------------------------------------------------------------------------

/-- The record of the node that a request names, once the request is handled. -/
def recordAfter (host : Host) (env : Env) (auth : Credentials) (sent : NodeRegistrationRequest)
    (c : Controller MemoryStore) : Option Node :=
  (register host env auth (some sent) c).2.store.nodes.get? sent.id

/-- The same but for the versions. Maps are compared by what they hold. -/
structure Node.SameContent (a b : Node) : Prop where
  fields : { a with version := "", configVersion := "", peerEndpoints := ∅ } =
    { b with version := "", configVersion := "", peerEndpoints := ∅ }
  peerEndpoints : ∀ id, a.peerEndpoints.get? id = b.peerEndpoints.get? id

/-- With force and without, the request leaves the same record. -/
def ShortcutAgrees (host : Host) (env : Env) (auth : Credentials) (sent : NodeRegistrationRequest)
    (c : Controller MemoryStore) : Prop :=
  ∃ n n', recordAfter host env auth (sent.withForce false) c = some n ∧
    recordAfter host env auth (sent.withForce true) c = some n' ∧ n.SameContent n'

/-- The full path over a record to which the request adds nothing: the policy goes, and
the peer endpoints are those of the request if it has any. -/
theorem registeredNode_of_addsNothing {existing : Node} {req : NodeRegistrationRequest} (hid : existing.id = req.id)
    (h : AddsNothing existing req) : registeredNode (some existing) req =
      { existing.withPolicy {} with
        version := ""
        configVersion := ""
        peerEndpoints := if req.peerEndpoints = ∅ then existing.peerEndpoints else req.peerEndpoints } := by
  have hequal := (nodeEqual_registered_iff hid).mpr h
  have hnode : registeredNode (some existing) req =
    { mergeExisting existing req.toNode with
      routerID := (withRouterID (mergeExisting existing req.toNode)).routerID } := withRouterID_eq _
  rw [hnode] at hequal ⊢
  simp only [nodeEqual, Bool.and_eq_true, decide_eq_true_eq] at hequal
  obtain ⟨⟨⟨⟨⟨⟨⟨-, hpub⟩, hport⟩, hover⟩, hasn⟩, hrouter⟩, hends⟩, hcidrs⟩ := hequal
  simp only [← hrouter, Node.withPolicy, Node.mk.injEq]
  exact ⟨hid.symm, hpub.symm, hends.symm, hcidrs.symm, rfl, rfl, hport.symm, hover.symm, hasn.symm, trivial,
    rfl, rfl, rfl, rfl, rfl, rfl, rfl, rfl⟩

theorem AddsNothing.withForce {existing : Node} {req : NodeRegistrationRequest} (force : Bool) :
    AddsNothing existing (req.withForce force) ↔ AddsNothing existing req :=
  ⟨fun h => ⟨h.publicKey, h.listenPort, h.overlayIP, h.asn, h.routerID, h.endpoints, h.cidrs⟩,
    fun h => ⟨h.publicKey, h.listenPort, h.overlayIP, h.asn, h.routerID, h.endpoints, h.cidrs⟩⟩

/-- Nothing is lost where there is no policy, and nothing is missed where the
request has no other peer endpoints. -/
theorem sameContent_registered_iff {existing : Node} {req : NodeRegistrationRequest} (hid : existing.id = req.id)
    (h : AddsNothing existing req) (m : MemoryStore) :
    existing.SameContent (m.upsertNode (registeredNode (some existing) req)).1 ↔
      existing.policyFields = {} ∧
        (req.peerEndpoints = ∅ ∨ ∀ id, req.peerEndpoints.get? id = existing.peerEndpoints.get? id) := by
  simp only [MemoryStore.upsertNode, registeredNode_of_addsNothing hid h]
  constructor
  · rintro ⟨hfields, hends⟩
    refine ⟨congrArg Node.policyFields hfields, or_iff_not_imp_left.mpr fun hreq id => ?_⟩
    have hid := hends id
    rw [if_neg hreq] at hid
    exact hid.symm
  · rintro ⟨hpolicy, hends⟩
    refine ⟨?_, fun id => ?_⟩
    · simp only [Node.policyFields, PolicyFields.mk.injEq] at hpolicy
      obtain ⟨hegress, hrules, hroute, hbypass, hnext⟩ := hpolicy
      simp only [Node.withPolicy, Node.mk.injEq, true_and, and_true]
      exact ⟨hegress, hrules, hroute, hbypass, hnext⟩
    · by_cases hreq : req.peerEndpoints = ∅
      · rw [if_pos hreq]
      · rw [if_neg hreq]
        exact (hends.resolve_left hreq id).symm

section

variable {host : Host} {env : Env} {auth : Credentials} {sent req : NodeRegistrationRequest}
  {c : Controller MemoryStore}

theorem RegisterAccepted.withForce {m : MemoryStore} (h : RegisterAccepted m auth (some sent) req) (force : Bool) :
    RegisterAccepted m auth (some (sent.withForce force)) (req.withForce force) := by
  obtain ⟨⟨_, hbody, hreq⟩, hnamed, hauth⟩ := h
  obtain rfl := Option.some.inj hbody
  refine ⟨⟨_, rfl, ?_⟩, hnamed, hauth⟩
  rw [hreq]
  unfold NodeRegistrationRequest.withToken
  split
  next hempty => exact (if_pos hempty).symm
  next hempty => exact (if_neg hempty).symm

theorem RegisterAccepted.id_eq {m : MemoryStore} (h : RegisterAccepted m auth (some sent) req) : req.id = sent.id := by
  obtain ⟨_, hbody, hreq⟩ := h.body
  obtain rfl := Option.some.inj hbody
  rw [hreq]
  unfold NodeRegistrationRequest.withToken
  split <;> rfl

theorem recordAfter_eq (h : RegisterAccepted c.store auth (some sent) req)
    (he : c.store.nodes.get? req.id = some existing) (force : Bool) :
    recordAfter host env auth (sent.withForce force) c =
      some (if force = true ∨ ¬ AddsNothing existing req then
        (c.store.upsertNode (registeredNode (some existing) req)).1 else existing) := by
  have hkey : existing.id = (req.withForce force).id := Table.key_of_get? he
  have hstored : c.store.nodes.get? (req.withForce force).id = some existing := he
  have hwrites := registerWrites_iff hkey
  rw [AddsNothing.withForce, ← hstored, force_withForce] at hwrites
  show (register host env auth (some (sent.withForce force)) c).2.store.nodes.get? sent.id = _
  rw [← h.id_eq, (register_records host env (h.withForce force)).1]
  by_cases hw : registerWrites (c.store.nodes.get? (req.withForce force).id) (req.withForce force) = true
  · rw [if_pos (hwrites.mp hw)]
    rw [show req.id = (req.withForce force).id from rfl, get?_registerSave c.store _ hw, hstored]
    rfl
  · rw [if_neg fun h => hw (hwrites.mpr h), registerSave, if_neg hw]
    exact he

theorem Node.SameContent.refl (n : Node) : n.SameContent n := ⟨rfl, fun _ => rfl⟩

/-- The shortcut agrees with the full path exactly where the request is not
taken for a repetition, or where the full path would change nothing that
`nodeEqual` does not look at. -/
theorem shortcutAgrees_iff (h : RegisterAccepted c.store auth (some sent) req)
    (he : c.store.nodes.get? req.id = some existing) :
    ShortcutAgrees host env auth sent c ↔ ¬ AddsNothing existing req ∨ (existing.policyFields = {} ∧
      (req.peerEndpoints = ∅ ∨ ∀ id, req.peerEndpoints.get? id = existing.peerEndpoints.get? id)) := by
  have hid : existing.id = req.id := Table.key_of_get? he
  unfold ShortcutAgrees
  rw [recordAfter_eq h he, recordAfter_eq h he, if_pos (Or.inl rfl)]
  simp only [Option.some.injEq, exists_and_left, exists_eq_left', Bool.false_eq_true, false_or]
  by_cases hadds : AddsNothing existing req
  · rw [if_neg (not_not.mpr hadds), sameContent_registered_iff hid hadds, or_iff_right (not_not.mpr hadds)]
  · rw [if_pos hadds]
    exact iff_of_true (.refl _) (.inl hadds)

end

def sampleExisting : Node where
  id := "edge"
  publicKey := "ka"
  cidrs := ["10.1.0.0/24"]

def existingStore : Controller MemoryStore :=
  start { MemoryStore.new with nodes := (∅ : Table Node.id).put sampleExisting }

/-- A request for other peer endpoints and nothing else, which `nodeEqual` does
not see. -/
def sampleEndpoints : NodeRegistrationRequest where
  id := "edge"
  peerEndpoints := (∅ : StrMap String).put ("hub", "192.0.2.1:51820")

theorem get?_existingStore : existingStore.store.nodes.get? "edge" = some sampleExisting := rfl

theorem sampleEndpoints_accepted :
    RegisterAccepted existingStore.store { jwt := true } (some sampleEndpoints) sampleEndpoints :=
  ⟨⟨_, rfl, rfl⟩, by decide, rfl⟩

def sampleNewKey : NodeRegistrationRequest where
  id := "edge"
  publicKey := "kb"

theorem shortcutAgrees_new_key :
    ShortcutAgrees Host.sample {} { jwt := true } sampleNewKey existingStore := by
  have haccepted : RegisterAccepted existingStore.store { jwt := true } (some sampleNewKey) sampleNewKey :=
    ⟨⟨_, rfl, rfl⟩, by decide, rfl⟩
  have hadds : ¬ AddsNothing sampleExisting sampleNewKey := by decide
  exact (shortcutAgrees_iff haccepted get?_existingStore).mpr (.inl hadds)

theorem shortcutAgrees_counterexample : ¬ ∀ (host : Host) (env : Env) (auth : Credentials)
    (sent req : NodeRegistrationRequest) (c : Controller MemoryStore) (existing : Node),
    RegisterAccepted c.store auth (some sent) req → c.store.nodes.get? req.id = some existing →
      ShortcutAgrees host env auth sent c := by
  intro h
  obtain ⟨n, n', hn, hn', hsame⟩ :=
    h Host.sample {} { jwt := true } _ _ existingStore sampleExisting sampleEndpoints_accepted rfl
  have hadds : AddsNothing sampleExisting sampleEndpoints := by decide
  rw [recordAfter_eq sampleEndpoints_accepted get?_existingStore] at hn hn'
  rw [if_neg fun h => h.elim Bool.false_ne_true (not_not.mpr hadds)] at hn
  rw [if_pos (Or.inl rfl)] at hn'
  obtain rfl := Option.some.inj hn
  obtain rfl := Option.some.inj hn'
  exact absurd (hsame.peerEndpoints "hub") (by decide)

end PeerWan
