import PeerWan.Agent.Endpoints
import PeerWan.Agent.Plan
import PeerWan.Mesh
import PeerWan.Provisioning

/-!
# Enrollment

From the install command of a prepare (`pkg/api/prepare.go`) to the agent that
it starts (`cmd/agent/main.go`). Whatever requests come in between, the agent
is let in with the token of its command and comes up with the address and the
private key that were made for it, and all the others learn the public key of
that pair. What it announces is the same for every agent that is installed so.
-/

namespace PeerWan

open Lib

-- ---------------------------------------------------------------------------
-- The agent that an install command starts
-- ---------------------------------------------------------------------------

/-- The flags that only the registration reads, with the values they have where
the install script sets none. -/
structure Install where
  id : String
  publicKey : String := "stub-public-key"
  endpoints : String := "127.0.0.1:51820"
  cidrs : String := "10.10.1.0/24"
  autoEndpoint : Bool := true

def splitAndTrim (s : String) : List String :=
  ((s.toList.splitOn ',').map fun part => trimSpace (String.ofList part)).filter (· ≠ "")

/-- What `main` registers with. -/
def registration (flags : Flags) (inst : Install) (s : Surroundings) : NodeRegistrationRequest where
  id := inst.id
  publicKey := inst.publicKey
  endpoints :=
    let eps := if inst.autoEndpoint then detectEndpoints s flags.listenPort else []
    if eps.length > 0 then eps else splitAndTrim inst.endpoints
  cidrs := splitAndTrim inst.cidrs
  listenPort := flags.listenPort
  overlayIP := if flags.provisionToken ≠ "" ∧ flags.overlayIP = "10.10.1.1/32" then "" else flags.overlayIP
  asn := flags.asn
  routerID := flags.routerID
  provisionToken := flags.provisionToken

-- ---------------------------------------------------------------------------
-- Texts that are not blank
-- ---------------------------------------------------------------------------

theorem trimSpace_ne_empty {s : String} {c : Char} (hc : c ∈ s.toList) (hspace : isSpace c = false) :
    trimSpace s ≠ "" := by
  intro hblank
  have hnil : (s.toList.dropWhile isSpace).rdropWhile isSpace = [] := by
    simpa [trimSpace] using congrArg String.toList hblank
  rw [← List.takeWhile_append_dropWhile (p := isSpace) (l := s.toList), List.mem_append] at hc
  rcases hc with hc | hc
  · exact absurd (List.mem_takeWhile_imp hc) (by simp [hspace])
  · exact absurd (List.rdropWhile_eq_nil_iff.mp hnil c hc) (by simp [hspace])

theorem firstNonEmpty_cons {v : String} (h : trimSpace v ≠ "") (vals : List String) :
    firstNonEmpty (v :: vals) = v := by
  rw [firstNonEmpty, List.find?_cons_of_pos (by simpa using h)]
  rfl

theorem registered_boots (host : Host) (env : Env) (saved : Node) (c : Controller MemoryStore) :
    ∃ cfg, (registered host env saved c).1 = ⟨200, .config cfg⟩ ∧
      cfg.overlayIP = saved.overlayIP ∧ cfg.privateKey = saved.privateKey :=
  ⟨_, rfl, rfl, rfl⟩

theorem assignOverlay_not_blank (env : Env) (m : MemoryStore) : trimSpace (assignOverlay env m).1 ≠ "" := by
  simp only [assignOverlay, MemoryStore.store_listNodes]
  split
  · next i _ =>
    exact trimSpace_ne_empty (c := '1') (by simp [String.toList_append]) (by decide)
  · dsimp only
    exact trimSpace_ne_empty (c := '1') (by decide) (by decide)

-- ---------------------------------------------------------------------------
-- The record of a handed out command
-- ---------------------------------------------------------------------------

/-- A record with a token has an address and a key pair. -/
def Node.Enrollable (host : Host) (n : Node) : Prop :=
  n.provisionToken ≠ "" →
    trimSpace n.overlayIP ≠ "" ∧ trimSpace n.privateKey ≠ "" ∧ n.publicKey = host.publicKey n.privateKey

/-- What may come to the controller around an enrollment of `id`: reports are
those of agents, a register for the node itself brings no key pair of its own,
a private key is not blank, and the process is not restarted. -/
structure Accompanies (id : String) (e : Env × Event) : Prop where
  reports : ReportsFromAgents e
  keeps : ∀ auth sent, e.2 = .request (.register auth (some sent)) → sent.id = id →
    sent.publicKey = "" ∨ sent.publicKey = "stub-public-key"
  generates : ∀ priv, e.1.privateKey = some priv → trimSpace priv ≠ ""
  runs : e.2 ≠ .restart

theorem Node.Enrollable.provisioned {host : Host} {n : Node} (h : n.Enrollable host) : n.Provisioned := by
  intro htoken hoverlay
  refine (h htoken).1 ?_
  rw [hoverlay]
  rfl

def Node.identity (n : Node) : Provision × String := (n.provision, n.publicKey)

theorem Node.Enrollable.congr {host : Host} {a n : Node} (h : a.identity = n.identity) (hn : n.Enrollable host) :
    a.Enrollable host := by
  have htoken : a.provisionToken = n.provisionToken := congrArg (fun i => i.1.provisionToken) h
  have hoverlay : a.overlayIP = n.overlayIP := congrArg (fun i => i.1.overlayIP) h
  have hpriv : a.privateKey = n.privateKey := congrArg (fun i => i.1.privateKey) h
  have hpub : a.publicKey = n.publicKey := congrArg Prod.snd h
  rw [Node.Enrollable, htoken, hoverlay, hpriv, hpub]
  exact hn

theorem placeholder_toNode {req : NodeRegistrationRequest}
    (h : req.publicKey = "" ∨ req.publicKey = "stub-public-key") : req.toNode.publicKey = "" := by
  rcases h with h | h <;> simp [NodeRegistrationRequest.toNode, h]

theorem registeredNode_identity {host : Host} {n : Node} {req : NodeRegistrationRequest}
    (h : n.Enrollable host) (htoken : n.provisionToken ≠ "")
    (hkey : req.publicKey = "" ∨ req.publicKey = "stub-public-key") :
    (registeredNode (some n) req).identity = n.identity := by
  refine Prod.ext (registeredNode_provision req (h.provisioned htoken)) ?_
  exact (registeredNode_keys (some n) req).2.trans (if_pos (placeholder_toNode hkey))

section

variable {host : Host} {env : Env} {m : MemoryStore} {r : Request} {a : Node}

/-- A record that a request writes is good for an enrollment, and as it was
where it had a token. -/
theorem Writes.identity (h : Writes host env m r a) (he : Accompanies a.id (env, .request r))
    (hm : ∀ n, m.nodes.get? a.id = some n → n.Enrollable host) :
    a.Enrollable host ∧ ∀ n, m.nodes.get? a.id = some n → n.provisionToken ≠ "" → a.identity = n.identity := by
  cases h with
  | @register auth body req h hw =>
    have hid : (m.upsertNode (registeredNode (m.nodes.get? req.id) req)).1.id = req.id :=
      registeredNode_id _ req
    rw [hid] at he hm ⊢
    have hkey : req.publicKey = "" ∨ req.publicKey = "stub-public-key" := by
      obtain ⟨⟨sent, rfl, rfl⟩, -, -⟩ := h
      have hsent : (sent.withToken auth.token).id = sent.id ∧
          (sent.withToken auth.token).publicKey = sent.publicKey := by
        unfold NodeRegistrationRequest.withToken
        split <;> exact ⟨rfl, rfl⟩
      exact hsent.2 ▸ he.keeps auth sent rfl hsent.1.symm
    have hauth := h.auth
    cases hn : m.nodes.get? req.id with
    | none =>
      refine ⟨fun htoken => ?_, by rintro _ ⟨⟩⟩
      have hown : (m.upsertNode (registeredNode none req)).1.provisionToken = req.provisionToken :=
        congrArg Provision.provisionToken (withRouterID_provision req.toNode)
      rw [hn, if_neg (show req.provisionToken ≠ "" from hown ▸ htoken)] at hauth
      cases hauth
    | some n =>
      have hsame : (m.upsertNode (registeredNode (some n) req)).1.identity =
        (registeredNode (some n) req).identity := rfl
      have henroll := hm n hn
      refine ⟨fun htoken => ?_, ?_⟩
      · have hown : (m.upsertNode (registeredNode (some n) req)).1.provisionToken = n.provisionToken :=
          congrArg Provision.provisionToken (withRouterID_provision (mergeExisting n req.toNode))
        exact (henroll.congr (hsame.trans (registeredNode_identity henroll (hown ▸ htoken) hkey))) htoken
      · rintro _ ⟨⟩ htoken
        exact hsame.trans (registeredNode_identity henroll htoken hkey)
  | @prepare auth httpAddr body id priv h =>
    refine ⟨fun _ => ⟨assignOverlay_not_blank env m, he.generates priv h.key, rfl⟩, fun n hn htoken => ?_⟩
    have hnone := h.token
    rw [show m.nodes.get? id = some n from hn] at hnone
    exact absurd hnone htoken
  | @policy auth body req n h =>
    have hid : n.id = req.nodeID := Table.key_of_get? h.node
    have hnode : m.nodes.get? (n.withPolicy req).id = some n := hid.symm ▸ h.node
    refine ⟨(hm n hnode).congr rfl, fun n' hn' htoken => ?_⟩
    obtain rfl := Option.some.inj (hnode.symm.trans hn')
    rfl

end

-- ---------------------------------------------------------------------------
-- From the command to the registration
-- ---------------------------------------------------------------------------

section

variable {host : Host} {env : Env} {c : Controller MemoryStore} {id : String}

structure Ready (host : Host) (id : String) (c : Controller MemoryStore) : Prop where
  up : AllUp c.store
  record : ∀ n, c.store.nodes.get? id = some n → n.Enrollable host

/-- The record of `id` has a token, and is known so. -/
def Known (id : String) (i : Provision × String) (c : Controller MemoryStore) : Prop :=
  ∃ n, c.store.nodes.get? id = some n ∧ n.provisionToken ≠ "" ∧ n.identity = i

theorem Ready.step {e : Env × Event} (h : Ready host id c) (he : Accompanies id e) :
    Ready host id (Event.step host e c) ∧ ∀ i, Known id i c → Known id i (Event.step host e c) := by
  have hup : AllUp (Event.step host e c).store := (h.up.step he.reports).1
  have of_nodes : (Event.step host e c).store.nodes = c.store.nodes →
      Ready host id (Event.step host e c) ∧ ∀ i, Known id i c → Known id i (Event.step host e c) := by
    intro hnodes
    refine ⟨⟨hup, hnodes ▸ h.record⟩, fun i hi => ?_⟩
    rw [Known, hnodes]
    exact hi
  obtain ⟨env, e⟩ := e
  cases e with
  | request r =>
    rcases served_record host env c r id with hsame | ⟨a, ha, rfl, hput⟩
    · refine ⟨⟨hup, fun n hn => h.record n (hsame.symm.trans hn)⟩, ?_⟩
      rintro i ⟨n, hn, hi⟩
      exact ⟨n, hsame.trans hn, hi⟩
    · obtain ⟨henroll, hkept⟩ := ha.identity he h.record
      refine ⟨⟨hup, fun n hn => ?_⟩, ?_⟩
      · obtain rfl := Option.some.inj (hput.symm.trans hn)
        exact henroll
      · rintro i ⟨n, hn, htoken, rfl⟩
        have hsame := hkept n hn htoken
        have htoken' : a.provisionToken = n.provisionToken := congrArg (fun i => i.1.provisionToken) hsame
        exact ⟨a, hput, htoken' ▸ htoken, hsame⟩
  | tick => exact of_nodes (recomputeAllPlans_aside host env 1 c).nodes
  | watch => exact of_nodes (recomputeAllPlans_aside host env 1 c).nodes
  | restart => exact absurd rfl he.runs

theorem Ready.run {es : List (Env × Event)} (h : Ready host id c) (hes : ∀ e ∈ es, Accompanies id e) :
    Ready host id (run (Event.step host) c es) ∧
      ∀ i, Known id i c → Known id i (run (Event.step host) c es) := by
  induction es generalizing c with
  | nil => exact ⟨h, fun i hi => hi⟩
  | cons e es ih =>
    obtain ⟨hstep, hkept⟩ := h.step (hes e List.mem_cons_self)
    obtain ⟨hrun, hknown⟩ := ih hstep fun e' he' => hes e' (List.mem_cons_of_mem e he')
    exact ⟨hrun, fun i hi => hknown i (hkept i hi)⟩

theorem ready_start (host : Host) (id : String) : Ready host id (start MemoryStore.new) :=
  ⟨⟨by rintro _ ⟨⟩, by rintro _ ⟨⟩⟩, by rintro _ ⟨⟩⟩

theorem prepare_again {auth : Credentials} (httpAddr : String) {n : Node} (hjwt : auth.jwt = true) (hid : id ≠ "")
    (hn : c.store.nodes.get? id = some n) (htoken : n.provisionToken ≠ "") :
    prepare host env auth httpAddr (some id) c = prepared host httpAddr id n c := by
  simp [prepare, hjwt, hid, hn, htoken]

theorem prepare_answers {auth : Credentials} {httpAddr : String} {p : PrepareResponse}
    (h : (prepare host env auth httpAddr (some id) c).1 = ⟨200, .prepared p⟩) : p.id = id ∧
      ∃ n, (prepare host env auth httpAddr (some id) c).2.store.nodes.get? id = some n ∧ n.provisionToken ≠ "" ∧
        n.provision = ⟨p.provisionToken, p.privateKey, p.overlayIP⟩ := by
  by_cases hjwt : auth.jwt = true
  · by_cases hid : id = ""
    · simp [prepare, hjwt, hid, Response.error] at h
    · by_cases htoken : ((c.store.nodes.get? id).getD {}).provisionToken = ""
      · cases hkey : env.privateKey with
        | none => simp [prepare, hjwt, hid, htoken, hkey, Response.error] at h
        | some priv =>
          rw [prepare_writes host env httpAddr ⟨hjwt, rfl, hid, htoken, hkey⟩] at h ⊢
          obtain rfl := Body.prepared.inj (congrArg Response.body h)
          refine ⟨rfl, (c.store.upsertNode (prepareNode host env c.store id priv)).1, ?_, ?_, rfl⟩
          · exact (Table.get?_put ..).trans (if_pos rfl)
          · intro hblank
            have hlength := congrArg String.length hblank
            simp [MemoryStore.upsertNode, prepareNode, preparedNode, String.length_append] at hlength
      · cases hn : c.store.nodes.get? id with
        | none =>
          rw [hn] at htoken
          exact absurd rfl htoken
        | some n =>
          rw [hn] at htoken
          rw [prepare_again httpAddr hjwt hid hn htoken] at h ⊢
          obtain rfl := Body.prepared.inj (congrArg Response.body h)
          exact ⟨rfl, n, hn, htoken, rfl⟩
  · simp [prepare, hjwt, Response.error] at h

end

-- ---------------------------------------------------------------------------
-- The agent comes up
-- ---------------------------------------------------------------------------

/-- The agent comes up as what its command stands for. The others have it in
their plans, and it has them. -/
structure Enrolled (host : Host) (p : PrepareResponse) (flags : Flags) (cidrs : List String)
    (cfg : NodeConfigResponse) (c : Controller MemoryStore) : Prop where
  id : (bootNode flags cfg).id = p.id
  overlayIP : (bootNode flags cfg).overlayIP = p.overlayIP
  privateKey : (bootCtx flags cfg).privateKey = p.privateKey
  known : ∀ n ∈ c.store.nodes.rows, n.id ≠ p.id → ∃ plan, c.store.plans n.id = some plan ∧
    ∃ q ∈ plan.peers, q.id = p.id ∧ q.publicKey = host.publicKey p.privateKey ∧
      q.allowedIPs = (p.overlayIP :: cidrs).eraseDups
  knows : ∀ n ∈ c.store.nodes.rows, n.id ≠ p.id → n.Complete → n.toPeer ∈ cfg.wireGuardPeers

section

variable {host : Host} {env : Env} {c : Controller MemoryStore} {n : Node} {flags : Flags} {inst : Install}
  {s : Surroundings}

theorem registration_accepted {auth : Credentials} (hn : c.store.nodes.get? inst.id = some n) (hid : inst.id ≠ "")
    (htoken : n.provisionToken ≠ "") (hflag : flags.provisionToken = n.provisionToken) :
    RegisterAccepted c.store auth (some (registration flags inst s)) (registration flags inst s) := by
  have hsent : (registration flags inst s).provisionToken ≠ "" := hflag.trans_ne htoken
  refine ⟨⟨_, rfl, ?_⟩, hid, ?_⟩
  · rw [NodeRegistrationRequest.withToken, if_neg hsent]
  · rw [if_neg hsent, show c.store.nodes.get? (registration flags inst s).id = some n from hn]
    simpa [validToken, registration, hflag] using htoken

theorem registered_record (henroll : n.Enrollable host) (hn : c.store.nodes.get? inst.id = some n)
    (htoken : n.provisionToken ≠ "") (hkey : inst.publicKey = "stub-public-key")
    (hcidrs : splitAndTrim inst.cidrs ≠ []) :
    (registerSave c.store (registration flags inst s)).1.identity = n.identity ∧
      (registerSave c.store (registration flags inst s)).1.id = inst.id ∧
      (registerSave c.store (registration flags inst s)).1.cidrs = splitAndTrim inst.cidrs := by
  have hrecord : c.store.nodes.get? (registration flags inst s).id = some n := hn
  have hannounced : (registeredNode (some n) (registration flags inst s)).cidrs = splitAndTrim inst.cidrs := by
    have hrouter : ∀ a : Node, (withRouterID a).cidrs = a.cidrs := by
      intro a
      unfold withRouterID
      split <;> rfl
    refine (hrouter _).trans (if_neg ?_)
    exact hcidrs
  rw [registerSave, hrecord]
  split
  · have hplaceholder : (registration flags inst s).publicKey = "" ∨
        (registration flags inst s).publicKey = "stub-public-key" := .inr hkey
    exact ⟨registeredNode_identity henroll htoken hplaceholder, registeredNode_id _ _, hannounced⟩
  next hkept =>
    refine ⟨rfl, Table.key_of_get? hn, ?_⟩
    have hequal : nodeEqual n (registeredNode (some n) (registration flags inst s)) = true := by
      rw [registerWrites] at hkept
      by_contra hne
      exact hkept (by simp [hne])
    have hcidrs' : n.cidrs = (registeredNode (some n) (registration flags inst s)).cidrs := by
      simp only [nodeEqual, Bool.and_eq_true, decide_eq_true_eq] at hequal
      exact hequal.2
    exact hcidrs'.trans hannounced

/-- After a register every node has a plan, and the node that has registered is
in it. -/
theorem registered_known {saved : Node} {n' : Node} (hup : AllUp c.store) (hsaved : saved ∈ c.store.nodes.rows)
    (hcomplete : saved.Complete) (hn' : n' ∈ c.store.nodes.rows) (hother : n'.id ≠ saved.id) :
    ∃ plan, (registered host env saved c).2.store.plans n'.id = some plan ∧ saved.toPeer ∈ plan.peers := by
  obtain ⟨-, entry, hout⟩ := registered_eq host env saved c
  rw [hout, recomputeAllPlans_eq]
  rcases savePlans_plans host env ((c.audited entry).store.nodes.range (env.nodeOrder 1)) (c.audited entry).store.health
    ((c.audited entry).store.nodes.range (env.nodeOrder 1)) (c.audited entry) n'.id with
    ⟨hnone, -⟩ | ⟨k, -, -, v, hplan⟩
  · exact absurd (List.mem_map_of_mem (Table.mem_range.mpr hn')) hnone
  · refine ⟨_, hplan, mem_buildPeerPlan.mpr ⟨saved, Table.mem_range.mpr hsaved, Ne.symm hother, hcomplete, ?_, rfl⟩⟩
    exact hup.not_down saved.id

theorem registration_enrolls {auth : Credentials} {p : PrepareResponse} (h : Ready host inst.id c)
    (hn : c.store.nodes.get? inst.id = some n) (htoken : n.provisionToken ≠ "") (hp : p.id = inst.id)
    (hprovision : n.provision = ⟨p.provisionToken, p.privateKey, p.overlayIP⟩)
    (hflag : flags.provisionToken = p.provisionToken) (hkey : inst.publicKey = "stub-public-key")
    (hcidrs : splitAndTrim inst.cidrs ≠ []) (hpub : host.publicKey p.privateKey ≠ "") :
    ∃ cfg, (register host env auth (some (registration flags inst s)) c).1 = ⟨200, .config cfg⟩ ∧
      Enrolled host p flags (splitAndTrim inst.cidrs) cfg
        (register host env auth (some (registration flags inst s)) c).2 := by
  have htokens : n.provisionToken = p.provisionToken := congrArg Provision.provisionToken hprovision
  have hid : inst.id ≠ "" := (Table.key_of_get? hn) ▸ h.up.named n (Table.get?_eq_some.mp hn).1
  have hacc : RegisterAccepted c.store auth (some (registration flags inst s)) (registration flags inst s) :=
    registration_accepted hn hid htoken (hflag.trans htokens.symm)
  obtain ⟨hidentity, hsid, hscidrs⟩ := @registered_record host c n flags inst s (h.record n hn) hn htoken hkey hcidrs
  have hstored := (Table.get?_eq_some.mp (registerSave_stored c.store (registration flags inst s))).1
  have hup := h.up.register hacc
  have henroll := (h.record n hn).congr hidentity
  rw [register_accepted host env hacc]
  generalize registerSave c.store (registration flags inst s) = saved at *
  obtain ⟨saved, m⟩ := saved
  dsimp only at *
  have hsame : saved.provision = ⟨p.provisionToken, p.privateKey, p.overlayIP⟩ :=
    (congrArg Prod.fst hidentity).trans hprovision
  have hoverlay : saved.overlayIP = p.overlayIP := congrArg Provision.overlayIP hsame
  have hpriv : saved.privateKey = p.privateKey := congrArg Provision.privateKey hsame
  have htoken' : saved.provisionToken ≠ "" := by
    rw [show saved.provisionToken = p.provisionToken from congrArg Provision.provisionToken hsame, ← htokens]
    exact htoken
  obtain ⟨hblank, hblank', hpair⟩ := henroll htoken'
  have hpublic : saved.publicKey = host.publicKey p.privateKey := hpair.trans (by rw [hpriv])
  have hcomplete : saved.Complete := ⟨hscidrs ▸ hcidrs, hpublic ▸ hpub⟩
  have hnodes := registered_nodes host env saved { c with store := m }
  obtain ⟨cfg, hanswer, hcfgoverlay, hcfgpriv⟩ := registered_boots host env saved { c with store := m }
  obtain ⟨hcfgid, hcfgpeers⟩ := registered_answer saved (congrArg Response.body hanswer)
  refine ⟨cfg, hanswer, ?_, ?_, ?_, fun n' hn' hother => ?_, fun n' hn' hother hc => ?_⟩
  · exact hcfgid.trans (hsid.trans hp.symm)
  · rw [bootNode, hcfgoverlay, firstNonEmpty_cons hblank, hoverlay]
  · rw [bootCtx, hcfgpriv, firstNonEmpty_cons hblank', hpriv]
  · rw [hnodes] at hn'
    obtain ⟨plan, hplan, hpeer⟩ := @registered_known host env { c with store := m } saved n' hup hstored hcomplete hn'
      (hother.trans_eq (hp.trans hsid.symm))
    refine ⟨plan, hplan, saved.toPeer, hpeer, hsid.trans hp.symm, hpublic, ?_⟩
    have hne : saved.overlayIP ≠ "" := fun hempty => hblank (by rw [hempty]; rfl)
    rw [show saved.toPeer.allowedIPs = saved.allowedIPs from rfl, saved.allowedIPs_eq, Node.prefixes, if_neg hne,
      hoverlay, hscidrs]
    rfl
  · rw [hnodes] at hn'
    have hmesh := hup.isMesh (env.nodeOrder 0) saved.id
    rw [hcfgpeers]
    exact (hmesh.1 n'.toPeer).mpr ⟨n', hn', hother.trans_eq (hp.trans hsid.symm), hc, rfl⟩

end

/-- In a run from the empty store, an agent that is started with the token of
an answered prepare enrolls: whatever may accompany it before the prepare and
after it, the registration is accepted, the agent comes up with the address and
the private key of the answer, every other record gets a plan with the public
key of that pair, and the agent gets every complete node. -/
theorem enrolls (host : Host) (hpub : ∀ priv, host.publicKey priv ≠ "") (flags : Flags) (inst : Install)
    (s : Surroundings) (before after : List (Env × Event)) (prep : Env × Event) (env : Env)
    (auth auth' : Credentials) (httpAddr : String) (p : PrepareResponse)
    (hcalm : ∀ e ∈ before ++ prep :: after, Accompanies inst.id e)
    (hprep : prep.2 = .request (.prepare auth httpAddr (some inst.id)))
    (hanswer : (serve host prep.1 (.prepare auth httpAddr (some inst.id))
      (run (Event.step host) (start MemoryStore.new) before)).1 = ⟨200, .prepared p⟩)
    (hflag : flags.provisionToken = p.provisionToken) (hkey : inst.publicKey = "stub-public-key")
    (hcidrs : splitAndTrim inst.cidrs ≠ []) :
    let c := run (Event.step host) (start MemoryStore.new) (before ++ prep :: after)
    let out := register host env auth' (some (registration flags inst s)) c
    ∃ cfg, out.1 = ⟨200, .config cfg⟩ ∧ Enrolled host p flags (splitAndTrim inst.cidrs) cfg out.2 := by
  obtain ⟨env₀, e⟩ := prep
  obtain rfl : e = _ := hprep
  have hbefore := ((ready_start host inst.id).run fun e he => hcalm e (List.mem_append_left _ he)).1
  obtain ⟨hid, n, hn, htoken, hprovision⟩ := prepare_answers hanswer
  obtain ⟨hready, -⟩ := hbefore.step (hcalm _ (List.mem_append_right before List.mem_cons_self))
  obtain ⟨hafter, hknown⟩ := hready.run fun e he =>
    hcalm e (List.mem_append_right before (List.mem_cons_of_mem _ he))
  obtain ⟨n', hn', htoken', hsame⟩ := hknown n.identity ⟨n, hn, htoken, rfl⟩
  have hprovision' : n'.provision = n.provision := congrArg Prod.fst hsame
  rw [run_append, run_cons]
  exact registration_enrolls hafter hn' htoken' hid (hprovision'.trans hprovision) hflag hkey hcidrs (hpub _)

def Host.keyed : Host := { Host.sample with publicKey := fun priv => "pub-" ++ priv }

def edgePrepare : Env × Event := ({ now := 7, privateKey := some "priv" },
  .request (.prepare { jwt := true } "http://controller:8080" (some "edge")))

def edgeAnswer : PrepareResponse where
  id := "edge"
  publicKey := "pub-priv"
  privateKey := "priv"
  overlayIP := "10.10.1.1/32"
  listenPort := 8082
  provisionToken := "pt-7"
  command := installCommand "http://controller:8080" "edge" "pt-7"

/-- Another node registers, and the address of the prepared one is edited. -/
def edgeMeanwhile : List (Env × Event) := [
  ({}, .request (.register { jwt := true } (some { id := "hub", publicKey := "key", cidrs := ["10.1.0.0/16"] }))),
  ({}, .request (.register { jwt := true } (some { id := "edge", overlayIP := "10.9.0.1/32" })))]

theorem enrolls_edge :
    let c := run (Event.step .keyed) (start MemoryStore.new) ([] ++ edgePrepare :: edgeMeanwhile)
    let out := register .keyed {} { token := "pt-7" }
      (some (registration { provisionToken := "pt-7" } { id := "edge" } ⟨none, fun _ => none, []⟩)) c
    ∃ cfg, out.1 = ⟨200, .config cfg⟩ ∧
      Enrolled .keyed edgeAnswer { provisionToken := "pt-7" } ["10.10.1.0/24"] cfg out.2 := by
  have hcidrs : splitAndTrim ({ id := "edge" } : Install).cidrs = ["10.10.1.0/24"] := by decide
  have hoverlay : (assignOverlay edgePrepare.1 MemoryStore.new).1 = "10.10.1.1/32" := by decide
  have hkeys : ∀ priv, Host.keyed.publicKey priv ≠ "" := by
    intro priv h
    have hlength := congrArg String.length h
    simp [Host.keyed, String.length_append] at hlength
  have hanswer : (serve .keyed edgePrepare.1 (.prepare { jwt := true } "http://controller:8080" (some "edge"))
      (start MemoryStore.new)).1 = ⟨200, .prepared edgeAnswer⟩ := by
    have hwrites : PrepareWrites MemoryStore.new edgePrepare.1 { jwt := true } (some "edge") "edge" "priv" :=
      ⟨rfl, rfl, by decide, rfl, rfl⟩
    rw [serve, prepare_writes .keyed edgePrepare.1 _ hwrites]
    simp only [prepared, prepareNode, preparedNode, start, hoverlay]
    rfl
  have hcalm : ∀ e ∈ [] ++ edgePrepare :: edgeMeanwhile, Accompanies "edge" e := by
    simp only [edgePrepare, edgeMeanwhile, List.nil_append, List.mem_cons, List.not_mem_nil, or_false]
    rintro e (rfl | rfl | rfl)
    · refine ⟨by rintro _ _ ⟨⟩, by rintro _ _ ⟨⟩, ?_, by rintro ⟨⟩⟩
      rintro priv ⟨⟩
      decide
    · refine ⟨by rintro _ _ ⟨⟩, ?_, by rintro _ ⟨⟩, by rintro ⟨⟩⟩
      rintro _ _ ⟨⟩ h
      exact absurd h (by decide)
    · refine ⟨by rintro _ _ ⟨⟩, ?_, by rintro _ ⟨⟩, by rintro ⟨⟩⟩
      rintro _ _ ⟨⟩ -
      exact .inl rfl
  rw [← hcidrs]
  exact enrolls .keyed hkeys { provisionToken := "pt-7" } { id := "edge" } _ [] edgeMeanwhile edgePrepare {}
    { jwt := true } _ "http://controller:8080" edgeAnswer hcalm rfl hanswer rfl rfl (by rw [hcidrs]; decide)

end PeerWan
