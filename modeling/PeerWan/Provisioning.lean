import PeerWan.Lib.Runs
import PeerWan.Controller.Records

/-!
# What a prepared node keeps

Prepare makes a record with a token, a key pair and an overlay address, and its
install command carries the token. Register merges each request into that
record: token, private key and overlay address stay, the public key does not.
-/

namespace PeerWan

open Lib

-- ---------------------------------------------------------------------------
-- The install command stays valid
-- ---------------------------------------------------------------------------

structure Provision where
  provisionToken : String
  privateKey : String
  overlayIP : String
  deriving DecidableEq

def Node.provision (n : Node) : Provision where
  provisionToken := n.provisionToken
  privateKey := n.privateKey
  overlayIP := n.overlayIP

/-- A record with a token has an address: both come from prepare, and register
only fills an address that is missing. -/
def Node.Provisioned (n : Node) : Prop := n.provisionToken ≠ "" → n.overlayIP ≠ ""

theorem withRouterID_provision (n : Node) : (withRouterID n).provision = n.provision := by
  unfold withRouterID
  split <;> rfl

theorem Node.Provisioned.congr {a b : Node} (h : a.provision = b.provision) (hb : b.Provisioned) :
    a.Provisioned := by
  have htoken : a.provisionToken = b.provisionToken := congrArg Provision.provisionToken h
  have hoverlay : a.overlayIP = b.overlayIP := congrArg Provision.overlayIP h
  rw [Node.Provisioned, htoken, hoverlay]
  exact hb

theorem registeredNode_provision {n : Node} (req : NodeRegistrationRequest) (h : n.overlayIP ≠ "") :
    (registeredNode (some n) req).provision = n.provision := by
  rw [registeredNode, withRouterID_provision]
  simp [mergeExisting, Node.provision, NodeRegistrationRequest.toNode, h]

section

variable {m : MemoryStore} {auth : Credentials} {body : Option NodeRegistrationRequest}
  {req : NodeRegistrationRequest}

theorem RegisterAccepted.provisioned (h : RegisterAccepted m auth body req)
    (hm : ∀ n, m.nodes.get? req.id = some n → n.Provisioned) :
    (registeredNode (m.nodes.get? req.id) req).Provisioned := by
  cases hn : m.nodes.get? req.id with
  | none =>
    have hauth := h.auth
    rw [hn] at hauth
    have hnew : (registeredNode none req).provision = req.toNode.provision := withRouterID_provision _
    refine Node.Provisioned.congr hnew fun htoken => ?_
    rw [if_neg (show req.provisionToken ≠ "" from htoken)] at hauth
    exact absurd hauth (by simp [validToken])
  | some n =>
    by_cases hoverlay : n.overlayIP = ""
    · have htoken : n.provisionToken = "" := by
        by_contra htoken
        exact hm n hn htoken hoverlay
      have hmerged : (registeredNode (some n) req).provision = (mergeExisting n req.toNode).provision :=
        withRouterID_provision _
      exact Node.Provisioned.congr hmerged fun h => absurd htoken h
    · exact (hm n hn).congr (registeredNode_provision req hoverlay)

end

theorem assignOverlay_ne (env : Env) (m : MemoryStore) : (assignOverlay env m).1 ≠ "" := by
  simp only [assignOverlay, MemoryStore.store_listNodes]
  split
  · next i _ =>
    intro h
    have hlength := congrArg String.length h
    simp [String.length_append] at hlength
  · simp

theorem prepareNode_provisioned (host : Host) (env : Env) (m : MemoryStore) (id priv : String) :
    (prepareNode host env m id priv).Provisioned := fun _ => assignOverlay_ne env m

section

variable {host : Host} {env : Env} {m : MemoryStore} {r : Request} {a n : Node}

theorem Writes.provisioned (h : Writes host env m r a) (hm : ∀ id n, m.nodes.get? id = some n → n.Provisioned) :
    a.Provisioned := by
  cases h with
  | register h hw => exact h.provisioned (hm _)
  | @prepare auth body httpAddr id priv h => exact prepareNode_provisioned host env m id priv
  | @policy auth body req n h => exact Node.Provisioned.congr (b := n) rfl (hm _ _ h.node)

theorem Writes.provision (h : Writes host env m r a) (hn : m.nodes.get? a.id = some n) (hp : n.Provisioned)
    (htoken : n.provisionToken ≠ "") : a.provision = n.provision := by
  cases h with
  | @register auth body req h hw =>
    have hid : m.nodes.get? req.id = some n := by simpa [MemoryStore.upsertNode] using hn
    rw [hid]
    exact registeredNode_provision req (hp htoken)
  | @prepare auth body httpAddr id priv h =>
    have hid : m.nodes.get? id = some n := hn
    have hnone := h.token
    rw [hid] at hnone
    exact absurd hnone htoken
  | @policy auth body req n' h =>
    have hid : m.nodes.get? n'.id = some n := hn
    rw [Table.key_of_get? h.node, h.node] at hid
    rw [Option.some.inj hid]
    rfl

end

def AllProvisioned (c : Controller MemoryStore) : Prop :=
  ∀ id n, c.store.nodes.get? id = some n → n.Provisioned

theorem AllProvisioned.step (host : Host) (c : Controller MemoryStore) (e : Env × Request)
    (h : AllProvisioned c) : AllProvisioned (Request.step host e c) := by
  intro id n hn
  rcases served_record host e.1 c e.2 id with hsame | ⟨a, ha, -, hput⟩
  · exact h id n (hsame.symm.trans hn)
  · rw [← Option.some.inj (hput.symm.trans hn)]
    exact ha.provisioned h

theorem allProvisioned_start : AllProvisioned (start MemoryStore.new) := fun _ _ hn => by cases hn

/-- The record has what `n` was handed out with, and the token is good for it. -/
def StillValid (id : String) (n : Node) (c : Controller MemoryStore) : Prop :=
  validToken (c.store.nodes.get? id) n.provisionToken = true ∧
    ∃ n', c.store.nodes.get? id = some n' ∧ n'.provision = n.provision

theorem stillValid_of_record {id : String} {n n' : Node} {c : Controller MemoryStore}
    (hn : c.store.nodes.get? id = some n') (h : n'.provision = n.provision) (htoken : n.provisionToken ≠ "") :
    StillValid id n c := by
  have hsame : n'.provisionToken = n.provisionToken := congrArg Provision.provisionToken h
  exact ⟨by simp [hn, validToken, hsame, htoken], n', hn, h⟩

theorem StillValid.step {host : Host} {id : String} {n : Node} (htoken : n.provisionToken ≠ "")
    (c : Controller MemoryStore) (e : Env × Request) (hc : AllProvisioned c) (h : StillValid id n c) :
    StillValid id n (Request.step host e c) := by
  obtain ⟨-, n', hn', hsame⟩ := h
  have htoken' : n'.provisionToken ≠ "" := by
    rw [show n'.provisionToken = n.provisionToken from congrArg Provision.provisionToken hsame]
    exact htoken
  rcases served_record host e.1 c e.2 id with hkept | ⟨a, ha, rfl, hput⟩
  · exact stillValid_of_record (hkept.trans hn') hsame htoken
  · exact stillValid_of_record hput ((ha.provision hn' (hc _ _ hn') htoken').trans hsame) htoken

/-- Once a record of a run has a token, token, private key and address stay
through whatever requests follow. -/
theorem provision_kept (host : Host) (es es' : List (Env × Request)) {id : String} {n : Node}
    (hn : (run (Request.step host) (start MemoryStore.new) es).store.nodes.get? id = some n)
    (htoken : n.provisionToken ≠ "") :
    Throughout (Request.step host) (StillValid id n) (run (Request.step host) (start MemoryStore.new) es) es' := by
  have hreached : AllProvisioned (run (Request.step host) (start MemoryStore.new) es) :=
    (throughout_of_invariant (AllProvisioned.step host) allProvisioned_start es).final
  have hboth := throughout_of_invariant (I := fun c => AllProvisioned c ∧ StillValid id n c)
    (fun c e h => ⟨AllProvisioned.step host c e h.1, StillValid.step htoken c e h.1 h.2⟩)
    ⟨hreached, stillValid_of_record hn rfl htoken⟩ es'
  exact hboth.mono fun c h => h.2

def samplePrepare : Env × Request :=
  ({ now := 7, privateKey := some "priv" }, .prepare { jwt := true } "http://controller:8080" (some "edge"))

def sampleNode : Node where
  id := "edge"
  privateKey := "priv"
  version := "v0.0.1"
  configVersion := "v0.0.1"
  overlayIP := "10.10.1.1/32"
  listenPort := 8082
  asn := 65000
  routerID := "10.10.1.1"
  provisionToken := "pt-7"

theorem provision_kept_edge :
    Throughout (Request.step Host.sample) (StillValid "edge" sampleNode)
      (run (Request.step Host.sample) (start MemoryStore.new) [samplePrepare])
      [({}, .register { token := "pt-7" } (some { id := "edge", publicKey := "own", overlayIP := "10.9.0.1/32" }))] :=
  provision_kept Host.sample [samplePrepare] _ (by decide) (by decide)

-- ---------------------------------------------------------------------------
-- The key pair comes apart
-- ---------------------------------------------------------------------------

def Node.KeyPair (host : Host) (n : Node) : Prop :=
  n.privateKey ≠ "" → n.publicKey = host.publicKey n.privateKey

def KeysMatch (host : Host) (c : Controller MemoryStore) : Prop :=
  ∀ id n, c.store.nodes.get? id = some n → n.KeyPair host

/-- A register is answered with a key pair, if with a private key at all. -/
def AnswersPair (host : Host) (c : Controller MemoryStore) (e : Env × Request) : Prop :=
  match e.2 with
  | .register auth body => ∀ cfg, (register host e.1 auth body c).1.body = .config cfg →
      cfg.privateKey ≠ "" → cfg.publicKey = host.publicKey cfg.privateKey
  | _ => True

/-- A register for a node that has a private key sends its public key, or none. -/
def SendsOwnKey (host : Host) (c : Controller MemoryStore) (e : Env × Request) : Prop :=
  match e.2 with
  | .register auth body => ∀ req n, RegisterAccepted c.store auth body req →
      c.store.nodes.get? req.id = some n → n.privateKey ≠ "" →
        req.toNode.publicKey = "" ∨ req.toNode.publicKey = host.publicKey n.privateKey
  | _ => True

theorem registeredNode_keys (existing : Option Node) (req : NodeRegistrationRequest) :
    (registeredNode existing req).privateKey = (existing.getD {}).privateKey ∧
      (registeredNode existing req).publicKey =
        if req.toNode.publicKey = "" then (existing.getD {}).publicKey else req.toNode.publicKey := by
  have hrouter : ∀ n : Node, (withRouterID n).privateKey = n.privateKey ∧ (withRouterID n).publicKey = n.publicKey := by
    intro n
    unfold withRouterID
    split <;> exact ⟨rfl, rfl⟩
  cases existing with
  | none =>
    refine ⟨(hrouter _).1, (hrouter _).2.trans ?_⟩
    by_cases h : req.toNode.publicKey = "" <;> simp [h]
  | some n => exact ⟨(hrouter _).1, (hrouter _).2⟩

theorem registeredNode_keyPair (host : Host) {existing : Option Node} (req : NodeRegistrationRequest)
    (hpair : ∀ n, existing = some n → n.KeyPair host) :
    (registeredNode existing req).KeyPair host ↔ ∀ n, existing = some n → n.privateKey ≠ "" →
      req.toNode.publicKey = "" ∨ req.toNode.publicKey = host.publicKey n.privateKey := by
  obtain ⟨hpriv, hpub⟩ := registeredNode_keys existing req
  rw [Node.KeyPair, hpriv, hpub]
  cases existing with
  | none => simp
  | some n =>
    simp only [Option.getD_some, Option.some.injEq, forall_eq']
    refine imp_congr_right fun hkey => ?_
    by_cases hsent : req.toNode.publicKey = ""
    · simpa [hsent] using hpair n rfl hkey
    · simp [hsent]

theorem keyPair_of_nodeEqual {host : Host} {n a : Node} (h : nodeEqual n a = true)
    (hpriv : a.privateKey = n.privateKey) (hn : n.KeyPair host) : a.KeyPair host := by
  have hpub : n.publicKey = a.publicKey := by
    simp only [nodeEqual, Bool.and_eq_true, decide_eq_true_eq] at h
    tauto
  rw [Node.KeyPair, hpriv, ← hpub]
  exact hn

section

variable {host : Host} {env : Env} {auth : Credentials} {body : Option NodeRegistrationRequest}
  {req : NodeRegistrationRequest} {c : Controller MemoryStore}

theorem register_nodes (h : RegisterAccepted c.store auth body req) :
    (register host env auth body c).2.store.nodes = (registerSave c.store req).2.nodes := by
  rw [register_accepted host env h, registered_nodes]

theorem keysMatch_put {t : Table Node.id} {a : Node} (ht : ∀ id n, t.get? id = some n → n.KeyPair host) :
    (∀ id n, (t.put a).get? id = some n → n.KeyPair host) ↔ a.KeyPair host := by
  constructor
  · intro h
    exact h a.id a (by rw [Table.get?_put, if_pos rfl])
  · intro ha id n hn
    rw [Table.get?_put] at hn
    split at hn
    · exact Option.some.inj hn ▸ ha
    · exact ht id n hn

theorem KeysMatch.register (hc : KeysMatch host c) (h : RegisterAccepted c.store auth body req) :
    KeysMatch host (register host env auth body c).2 ↔ SendsOwnKey host c (env, .register auth body) := by
  have hsends : SendsOwnKey host c (env, .register auth body) ↔
      (registeredNode (c.store.nodes.get? req.id) req).KeyPair host := by
    rw [registeredNode_keyPair host req (hc _)]
    constructor
    · exact fun hs n hn => hs req n h hn
    · rintro hs req' n h' hn
      obtain rfl := h.unique h'
      exact hs n hn
  rw [hsends, KeysMatch, register_nodes h, registerSave]
  by_cases hw : registerWrites (c.store.nodes.get? req.id) req = true
  · rw [if_pos hw]
    exact keysMatch_put hc
  · rw [if_neg hw]
    refine iff_of_true hc ?_
    cases hn : c.store.nodes.get? req.id with
    | none => exact absurd (by simp [hn, registerWrites]) hw
    | some n =>
      rw [hn, registerWrites] at hw
      have hequal : nodeEqual n (registeredNode (some n) req) = true := by
        by_contra hne
        exact hw (by simp [hne])
      exact keyPair_of_nodeEqual hequal (registeredNode_keys (some n) req).1 (hc _ n hn)

theorem registerSave_stored (m : MemoryStore) (req : NodeRegistrationRequest) :
    (registerSave m req).2.nodes.get? req.id = some (registerSave m req).1 := by
  rw [registerSave]
  by_cases hw : registerWrites (m.nodes.get? req.id) req = true
  · rw [if_pos hw]
    simp [MemoryStore.upsertNode]
  · rw [if_neg hw]
    cases hn : m.nodes.get? req.id with
    | none => exact absurd (by simp [hn, registerWrites]) hw
    | some n => rfl

theorem registered_config (saved : Node) : ∃ cfg, (registered host env saved c).1 = ⟨200, .config cfg⟩ ∧
    cfg.privateKey = saved.privateKey ∧ cfg.publicKey = saved.publicKey := ⟨_, rfl, rfl, rfl⟩

theorem KeysMatch.answers (h : RegisterAccepted c.store auth body req)
    (hnext : KeysMatch host (PeerWan.register host env auth body c).2) :
    AnswersPair host c (env, .register auth body) := by
  intro cfg hcfg
  obtain ⟨cfg', hresp, hpriv, hpub⟩ := @registered_config host env { c with store := (registerSave c.store req).2 }
    (registerSave c.store req).1
  rw [register_accepted host env h, hresp] at hcfg
  obtain rfl := Body.config.inj hcfg
  rw [hpriv, hpub]
  refine hnext req.id _ ?_
  rw [register_nodes h]
  exact registerSave_stored c.store req

end

theorem Writes.keyPair {host : Host} {env : Env} {c : Controller MemoryStore} {r : Request} {a : Node}
    (h : Writes host env c.store r a) (hc : KeysMatch host c)
    (hr : ∀ auth body, r ≠ .register auth body) : a.KeyPair host := by
  cases h with
  | register => exact absurd rfl (hr _ _)
  | prepare => exact fun _ => rfl
  | @policy auth body req n h =>
    have hn : n.KeyPair host := hc _ n h.node
    exact hn

/-- A request keeps every pair together exactly when it sends no foreign key. -/
theorem KeysMatch.step (host : Host) (c : Controller MemoryStore) (e : Env × Request) (hc : KeysMatch host c) :
    KeysMatch host (Request.step host e c) ↔ SendsOwnKey host c e := by
  obtain ⟨env, r⟩ := e
  by_cases hr : ∃ auth body, r = .register auth body
  · obtain ⟨auth, body, rfl⟩ := hr
    by_cases ha : ∃ req, RegisterAccepted c.store auth body req
    · obtain ⟨req, ha⟩ := ha
      exact hc.register ha
    · have hrefused := register_refused host env fun req h => ha ⟨req, h⟩
      rw [Request.step, serve, hrefused.state]
      exact iff_of_true hc fun req n h => absurd ⟨req, h⟩ ha
  · have hr' : ∀ auth body, r ≠ .register auth body := fun auth body h => hr ⟨auth, body, h⟩
    have hsends : SendsOwnKey host c (env, r) := by
      cases r with
      | register auth body => exact absurd rfl (hr' auth body)
      | prepare | policy | health | plan | rollback => trivial
    refine iff_of_true ?_ hsends
    intro id n hn
    rcases served_record host env c r id with hsame | ⟨a, ha, -, hput⟩
    · exact hc id n (hsame.symm.trans hn)
    · exact Option.some.inj (hput.symm.trans hn) ▸ ha.keyPair hc hr'

theorem answersPair_of_step {host : Host} {c : Controller MemoryStore} {e : Env × Request}
    (hnext : KeysMatch host (Request.step host e c)) : AnswersPair host c e := by
  obtain ⟨env, r⟩ := e
  cases r with
  | register auth body =>
    by_cases ha : ∃ req, RegisterAccepted c.store auth body req
    · obtain ⟨req, ha⟩ := ha
      exact hnext.answers ha
    · obtain ⟨code, text, -, hout⟩ := register_refused host env fun req h => ha ⟨req, h⟩
      intro cfg hcfg
      rw [hout] at hcfg
      cases hcfg
  | prepare | policy | health | plan | rollback => trivial

/-- In a run from the empty store the stored and the answered private keys go
with the public keys exactly when no register sends a foreign public key for a
node that has a private key. -/
theorem keys_match_iff (host : Host) (es : List (Env × Request)) :
    (Throughout (Request.step host) (KeysMatch host) (start MemoryStore.new) es ∧
      Along (Request.step host) (AnswersPair host) (start MemoryStore.new) es) ↔
    Along (Request.step host) (SendsOwnKey host) (start MemoryStore.new) es := by
  have hstart : KeysMatch host (start MemoryStore.new) := fun _ _ hn => by cases hn
  rw [throughout_iff_along (I := fun _ => True) (fun _ _ _ => trivial)
    (fun c e _ hc => KeysMatch.step host c e hc) trivial hstart]
  refine ⟨And.left, fun h => ⟨h, ?_⟩⟩
  have hboth := (along_congr_of_kept (Q := fun c e => SendsOwnKey host c e ∧ AnswersPair host c e)
    (fun c e hc he => (KeysMatch.step host c e hc).mpr he)
    (fun c e hc => ⟨fun he => ⟨he, answersPair_of_step ((KeysMatch.step host c e hc).mpr he)⟩, And.left⟩)
    hstart).mp h
  exact hboth.mono fun c e he => he.2

/-- The agent of a prepared node registers with a key of its own: the record
keeps the prepared private key, and the answer carries both. -/
theorem register_splits_pair :
    ¬ ∀ (host : Host) (es : List (Env × Request)),
      Throughout (Request.step host) (KeysMatch host) (start MemoryStore.new) es ∧
        Along (Request.step host) (AnswersPair host) (start MemoryStore.new) es := by
  intro h
  have hrun := (h Host.sample [samplePrepare,
    ({}, .register { token := "pt-7" } (some { id := "edge", publicKey := "own" }))]).2.2.1
  exact absurd (hrun _ rfl (by decide)) (by decide)

end PeerWan
