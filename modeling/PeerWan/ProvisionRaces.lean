import PeerWan.Lib.Pieces
import PeerWan.Provisioning

/-!
# Handlers that overtake one another

Register and prepare read a record and later write it whole, and the server
handles each request in a goroutine of its own. So a handler may write what it
made of a record that is no longer there. Both are cut here at their calls of
the store up to the write; what follows the write touches no record.
-/

namespace PeerWan

open Lib

-- ---------------------------------------------------------------------------
-- Handlers, call by call
-- ---------------------------------------------------------------------------

inductive HandlerPhase where
  | register (body : Option NodeRegistrationRequest)
  | registerRead (req : NodeRegistrationRequest) (existing : Option Node)
  | registerSaved (saved : Node)
  | prepare (httpAddr : String) (body : Option String)
  | prepareKeyed (httpAddr id priv : String)
  | prepareAssigned (httpAddr id priv overlay : String)
  | answered (r : Response)

structure HandlerCall where
  env : Env
  auth : Credentials
  phase : HandlerPhase

/-- Up to the next call of the store, and through it. -/
def HandlerCall.move {σ : Type} [NodeStore σ] (host : Host) (call : HandlerCall) (c : Controller σ) :
    HandlerPhase × Controller σ :=
  match call.phase with
  | .register none => (.answered (.error 400 "invalid payload"), c)
  | .register (some req) =>
    let req := req.withToken call.auth.token
    if req.id = "" then (.answered (.error 400 "id is required"), c)
    else if req.provisionToken = "" && !call.auth.jwt then (.answered (.error 401 "unauthorized"), c)
    else
      let (existing, st) := NodeStore.getNode req.id c.store
      let existing := Reply.getD existing none
      if req.provisionToken ≠ "" && !validToken existing req.provisionToken then
        (.answered (.error 401 "invalid provision token"), { c with store := st })
      else (.registerRead req existing, { c with store := st })
  | .registerRead req existing =>
    if registerWrites existing req then
      match NodeStore.upsertNode (registeredNode existing req) c.store with
      | (.error _, st) => (.answered (.error 500 "failed to persist node"), { c with store := st })
      | (.ok saved, st) => (.registerSaved saved, { c with store := st })
    else (.registerSaved (existing.getD {}), c)
  | .registerSaved saved =>
    let (r, c) := registered host call.env saved c
    (.answered r, c)
  | .prepare httpAddr body =>
    if !call.auth.jwt then (.answered (.error 401 "unauthorized"), c)
    else match body with
      | none => (.answered (.error 400 "invalid payload"), c)
      | some id =>
        if id = "" then (.answered (.error 400 "invalid payload"), c)
        else
          let (existing, st) := NodeStore.getNode id c.store
          let existing := (Reply.getD existing none).getD {}
          if existing.provisionToken ≠ "" then
            let (r, c) := prepared host httpAddr id existing { c with store := st }
            (.answered r, c)
          else match call.env.privateKey with
            | none => (.answered (.error 500 "failed to generate key"), { c with store := st })
            | some priv => (.prepareKeyed httpAddr id priv, { c with store := st })
  | .prepareKeyed httpAddr id priv =>
    let (overlay, st) := assignOverlay call.env c.store
    (.prepareAssigned httpAddr id priv overlay, { c with store := st })
  | .prepareAssigned httpAddr id priv overlay =>
    let node := preparedNode host call.env id priv overlay
    match NodeStore.upsertNode node c.store with
    | (.error _, st) => (.answered (.error 500 "failed to save node"), { c with store := st })
    | (.ok _, st) =>
      let (r, c) := prepared host httpAddr id node { c with store := st }
      (.answered r, c)
  | .answered r => (.answered r, c)

section

variable {σ : Type} [NodeStore σ]

def HandlerCall.moves (host : Host) (call : HandlerCall) (x : HandlerPhase × Controller σ) :
    HandlerPhase × Controller σ :=
  { call with phase := x.1 }.move host x.2

variable (host : Host) (env : Env) (auth : Credentials) (c : Controller σ)

/-- From the record that was read to the answer. -/
theorem moves_registerRead (phase : HandlerPhase) (req : NodeRegistrationRequest) (existing : Option Node) :
    HandlerCall.moves host ⟨env, auth, phase⟩
        (HandlerCall.moves host ⟨env, auth, phase⟩ (.registerRead req existing, c)) =
      Prod.map .answered id (
        if registerWrites existing req then
          match NodeStore.upsertNode (registeredNode existing req) c.store with
          | (.error _, st) => (.error 500 "failed to persist node", { c with store := st })
          | (.ok saved, st) => registered host env saved { c with store := st }
        else registered host env (existing.getD {}) c) := by
  rw [show HandlerCall.moves host ⟨env, auth, phase⟩ (.registerRead req existing, c) =
    if registerWrites existing req then
      match NodeStore.upsertNode (registeredNode existing req) c.store with
      | (.error _, st) => (.answered (.error 500 "failed to persist node"), { c with store := st })
      | (.ok saved, st) => (.registerSaved saved, { c with store := st })
    else (.registerSaved (existing.getD {}), c) from rfl]
  split
  next =>
    rcases NodeStore.upsertNode (registeredNode existing req) c.store with ⟨saved, st⟩
    cases saved <;> rfl
  next => rfl

theorem moves_register (body : Option NodeRegistrationRequest) :
    (HandlerCall.moves host ⟨env, auth, .register body⟩)^[3] (.register body, c) =
      Prod.map .answered id (register host env auth body c) := by
  cases body with
  | none => rfl
  | some req =>
    show HandlerCall.moves host _ (HandlerCall.moves host _ (HandlerCall.moves host _ (.register (some req), c))) = _
    generalize hmove : HandlerCall.moves host ⟨env, auth, .register (some req)⟩ (.register (some req), c) = x
    rw [HandlerCall.moves, HandlerCall.move] at hmove
    rw [register]
    dsimp only at hmove ⊢
    by_cases hid : (req.withToken auth.token).id = ""
    · rw [if_pos hid] at hmove ⊢
      subst hmove
      rfl
    rw [if_neg hid] at hmove ⊢
    by_cases hauth : ((req.withToken auth.token).provisionToken = "" && !auth.jwt) = true
    · rw [if_pos hauth] at hmove ⊢
      subst hmove
      rfl
    rw [if_neg hauth] at hmove ⊢
    generalize NodeStore.getNode (req.withToken auth.token).id c.store = got at hmove ⊢
    split at hmove
    next htoken =>
      rw [if_pos htoken]
      subst hmove
      rfl
    next htoken =>
      rw [if_neg htoken]
      subst hmove
      exact moves_registerRead host env auth { c with store := got.2 } _ _ _

theorem moves_prepare (httpAddr : String) (body : Option String) :
    (HandlerCall.moves host ⟨env, auth, .prepare httpAddr body⟩)^[3] (.prepare httpAddr body, c) =
      Prod.map .answered id (prepare host env auth httpAddr body c) := by
  show HandlerCall.moves host _ (HandlerCall.moves host _ (HandlerCall.moves host _ (.prepare httpAddr body, c))) = _
  generalize hmove : HandlerCall.moves host ⟨env, auth, .prepare httpAddr body⟩ (.prepare httpAddr body, c) = x
  rw [HandlerCall.moves, HandlerCall.move] at hmove
  unfold prepare
  dsimp only at hmove ⊢
  by_cases hauth : (!auth.jwt) = true
  · rw [if_pos hauth] at hmove ⊢
    subst hmove
    rfl
  rw [if_neg hauth] at hmove ⊢
  cases body with
  | none =>
    subst hmove
    rfl
  | some id =>
    dsimp only at hmove ⊢
    by_cases hid : id = ""
    · rw [if_pos hid] at hmove ⊢
      subst hmove
      rfl
    rw [if_neg hid] at hmove ⊢
    generalize NodeStore.getNode id c.store = got at hmove ⊢
    split at hmove
    next htoken =>
      rw [if_pos htoken]
      subst hmove
      rfl
    next htoken =>
      rw [if_neg htoken]
      cases hkey : env.privateKey with
      | none =>
        rw [hkey] at hmove
        subst hmove
        rfl
      | some priv =>
        rw [hkey] at hmove
        subst hmove
        simp only [HandlerCall.moves, HandlerCall.move]
        rcases NodeStore.upsertNode _ _ with ⟨saved, st⟩
        cases saved <;> rfl

end

-- ---------------------------------------------------------------------------
-- What a move does
-- ---------------------------------------------------------------------------

/-- One move over the memory store. -/
inductive HandlerCall.Does (host : Host) (call : HandlerCall) (c : Controller MemoryStore) :
    HandlerPhase × Controller MemoryStore → Prop
  | refused (code : Nat) (text : String) : Does host call c (.answered (.error code text), c)
  | reads (req : NodeRegistrationRequest)
      (h : req.provisionToken = "" ∨ validToken (c.store.nodes.get? req.id) req.provisionToken) :
      Does host call c (.registerRead req (c.store.nodes.get? req.id), c)
  | writes (req : NodeRegistrationRequest) (existing : Option Node) (h : call.phase = .registerRead req existing)
      (saved : Node) (store : MemoryStore) (hid : saved.id = req.id)
      (hsaved : saved.provision = (registeredNode existing req).provision)
      (hnodes : store.nodes = c.store.nodes.put saved) :
      Does host call c (.registerSaved saved, { c with store := store })
  | skips (req : NodeRegistrationRequest) (n : Node) (h : call.phase = .registerRead req (some n)) :
      Does host call c (.registerSaved n, c)
  | registers (saved : Node) (h : call.phase = .registerSaved saved) (cfg : NodeConfigResponse)
      (c' : Controller MemoryStore) (hid : cfg.id = saved.id) (hkey : cfg.privateKey = saved.privateKey)
      (hoverlay : cfg.overlayIP = saved.overlayIP) (hnodes : c'.store.nodes = c.store.nodes) :
      Does host call c (.answered ⟨200, .config cfg⟩, c')
  | repeats (httpAddr id : String) (n : Node) (h : c.store.nodes.get? id = some n) :
      Does host call c (.answered (prepared host httpAddr id n c).1, (prepared host httpAddr id n c).2)
  | keys (httpAddr id priv : String) (h : ((c.store.nodes.get? id).getD {}).provisionToken = "") :
      Does host call c (.prepareKeyed httpAddr id priv, c)
  | assigns (httpAddr id priv overlay : String) (h : call.phase = .prepareKeyed httpAddr id priv)
      (hoverlay : overlay ≠ "") :
      Does host call c (.prepareAssigned httpAddr id priv overlay, c)
  | prepares (httpAddr id priv overlay : String) (h : call.phase = .prepareAssigned httpAddr id priv overlay)
      (saved : Node) (store : MemoryStore) (hid : saved.id = id) (hsaved : saved.overlayIP = overlay)
      (hnodes : store.nodes = c.store.nodes.put saved) :
      Does host call c
        (.answered (prepared host httpAddr id (preparedNode host call.env id priv overlay) { c with store := store }).1,
        (prepared host httpAddr id (preparedNode host call.env id priv overlay) { c with store := store }).2)
  | rests (r : Response) (h : call.phase = .answered r) : Does host call c (.answered r, c)

theorem HandlerCall.move_does (host : Host) (call : HandlerCall) (c : Controller MemoryStore) :
    call.Does host c (call.move host c) := by
  unfold HandlerCall.move
  cases hphase : call.phase with
  | register body =>
    cases body with
    | none => exact .refused ..
    | some req =>
      dsimp only
      split
      · exact .refused ..
      split
      · exact .refused ..
      rw [MemoryStore.store_getNode, Reply.getD_ok]
      refine iteInduction (fun _ => .refused ..) fun htoken => ?_
      · refine .reads _ ?_
        by_cases hempty : (req.withToken call.auth.token).provisionToken = ""
        · exact .inl hempty
        · exact .inr (by simpa [hempty] using htoken)
  | registerRead req existing =>
    dsimp only
    split
    · rw [MemoryStore.store_upsertNode]
      exact .writes req existing hphase _ _ (registeredNode_id existing req) rfl rfl
    next hskips =>
      cases existing with
      | none => exact absurd rfl hskips
      | some n => exact .skips req n hphase
  | registerSaved saved =>
    exact .registers saved hphase _ _ rfl rfl rfl (registered_nodes host call.env saved c)
  | prepare httpAddr body =>
    dsimp only
    split
    · exact .refused ..
    cases body with
    | none => exact .refused ..
    | some id =>
      dsimp only
      split
      · exact .refused ..
      rw [MemoryStore.store_getNode, Reply.getD_ok]
      refine iteInduction (fun htoken => ?_) fun htoken => ?_
      · cases hn : c.store.nodes.get? id with
        | none =>
          rw [hn] at htoken
          exact absurd rfl htoken
        | some n => exact .repeats httpAddr id n hn
      · cases call.env.privateKey with
        | none => exact .refused ..
        | some priv => exact .keys httpAddr id priv (by simpa using htoken)
  | prepareKeyed httpAddr id priv =>
    dsimp only
    rw [assignOverlay_store]
    exact .assigns httpAddr id priv _ hphase (assignOverlay_ne call.env c.store)
  | prepareAssigned httpAddr id priv overlay =>
    dsimp only
    rw [MemoryStore.store_upsertNode]
    exact .prepares httpAddr id priv overlay hphase _ _ rfl rfl rfl
  | answered r => exact .rests r hphase

-- ---------------------------------------------------------------------------
-- Many handlers at once
-- ---------------------------------------------------------------------------

structure Crowd where
  controller : Controller MemoryStore
  calls : List HandlerCall

inductive CrowdEvent where
  | register (env : Env) (auth : Credentials) (body : Option NodeRegistrationRequest)
  | prepare (env : Env) (auth : Credentials) (httpAddr : String) (body : Option String)
  | move (i : Nat)
  | request (e : Env × Request)

def Crowd.start : Crowd := ⟨PeerWan.start MemoryStore.new, []⟩

def CrowdEvent.step (host : Host) (e : CrowdEvent) (s : Crowd) : Crowd :=
  match e with
  | .register env auth body => { s with calls := s.calls ++ [⟨env, auth, .register body⟩] }
  | .prepare env auth httpAddr body => { s with calls := s.calls ++ [⟨env, auth, .prepare httpAddr body⟩] }
  | .move i =>
    match s.calls[i]? with
    | none => s
    | some call =>
      let (phase, c) := call.move host s.controller
      ⟨c, s.calls.modify i fun call => { call with phase := phase }⟩
  | .request e => { s with controller := Request.step host e s.controller }

/-- A record that was read has an address if it has a token, and a register
without a record has no token. -/
def HandlerPhase.Sound : HandlerPhase → Prop
  | .registerRead req existing => (∀ n, existing = some n → n.id = req.id ∧ n.Provisioned) ∧
      (existing = none → req.provisionToken = "")
  | .prepareAssigned _ _ _ overlay => overlay ≠ ""
  | _ => True

/-- A call that will write a record for the node which it makes of another one
than there is, or of none. -/
def HandlerPhase.Stale (id : String) (p : Provision) : HandlerPhase → Prop
  | .registerRead req existing => req.id = id ∧ existing.map Node.provision ≠ some p
  | .prepareKeyed _ id' _ => id' = id
  | .prepareAssigned _ id' _ _ => id' = id
  | _ => False

/-- What is answered for the node is what its record has. -/
def Body.Hands (id : String) (p : Provision) : Body → Prop
  | .prepared r => r.id = id → (⟨r.provisionToken, r.privateKey, r.overlayIP⟩ : Provision) = p
  | .config cfg => cfg.id = id → cfg.privateKey = p.privateKey ∧ cfg.overlayIP = p.overlayIP
  | _ => True

def HandlerPhase.Hands (id : String) (p : Provision) : HandlerPhase → Prop
  | .registerSaved saved => saved.id = id → saved.provision = p
  | .answered r => r.body.Hands id p
  | _ => True

def Controller.Provides (id : String) (p : Provision) (c : Controller MemoryStore) : Prop :=
  ∃ n, c.store.nodes.get? id = some n ∧ n.provision = p

structure Crowd.Sound (s : Crowd) : Prop where
  records : AllProvisioned s.controller
  calls : ∀ call ∈ s.calls, call.phase.Sound

/-- From `first` on, calls answer with what the record has, and no call is about
to replace it. -/
structure Crowd.Settled (id : String) (p : Provision) (first : Nat) (s : Crowd) : Prop where
  provides : s.controller.Provides id p
  fresh : ∀ call ∈ s.calls, ¬ call.phase.Stale id p
  hands : ∀ i call, first ≤ i → s.calls[i]? = some call → call.phase.Hands id p

section

variable {host : Host} {call : HandlerCall} {c c' : Controller MemoryStore} {phase : HandlerPhase} {id : String}
  {p : Provision}

theorem registeredNode_provisioned {req : NodeRegistrationRequest} {existing : Option Node}
    (h : (HandlerPhase.registerRead req existing).Sound) : (registeredNode existing req).Provisioned := by
  cases existing with
  | none =>
    have hnew : (registeredNode none req).provision = req.toNode.provision := withRouterID_provision _
    exact Node.Provisioned.congr hnew fun htoken => absurd (h.2 rfl) htoken
  | some n =>
    have hn : n.Provisioned := (h.1 n rfl).2
    by_cases hoverlay : n.overlayIP = ""
    · have hmerged : (registeredNode (some n) req).provision = (mergeExisting n req.toNode).provision :=
        withRouterID_provision _
      exact Node.Provisioned.congr hmerged fun htoken => absurd hoverlay (hn htoken)
    · exact hn.congr (registeredNode_provision req hoverlay)

theorem allProvisioned_put {a : Node} (h : AllProvisioned c) (ha : a.Provisioned)
    (hnodes : c'.store.nodes = c.store.nodes.put a) : AllProvisioned c' := by
  intro id n hn
  rw [hnodes, Table.get?_put] at hn
  split at hn
  · exact Option.some.inj hn ▸ ha
  · exact h id n hn

theorem HandlerCall.Does.sound (h : call.Does host c (phase, c')) (hc : AllProvisioned c) (hcall : call.phase.Sound) :
    AllProvisioned c' ∧ phase.Sound := by
  cases h with
  | refused | skips | repeats | keys | rests => exact ⟨hc, trivial⟩
  | reads req htoken =>
    refine ⟨hc, fun n hn => ⟨Table.key_of_get? hn, hc _ n hn⟩, fun hnone => ?_⟩
    refine htoken.resolve_right fun hvalid => ?_
    rw [hnone] at hvalid
    cases hvalid
  | writes req existing hphase saved store _ hsaved hnodes =>
    rw [hphase] at hcall
    exact ⟨allProvisioned_put hc ((registeredNode_provisioned hcall).congr hsaved) hnodes, trivial⟩
  | registers saved _ cfg _ _ _ _ hnodes =>
    refine ⟨fun id n hn => hc id n ?_, trivial⟩
    rw [← hnodes]
    exact hn
  | assigns _ _ _ overlay _ hoverlay => exact ⟨hc, hoverlay⟩
  | prepares httpAddr id priv overlay hphase saved store _ hsaved hnodes =>
    rw [hphase] at hcall
    exact ⟨allProvisioned_put hc (fun _ => hsaved.trans_ne hcall) hnodes, trivial⟩

theorem registeredNode_kept {req : NodeRegistrationRequest} {existing : Option Node} (htoken : p.provisionToken ≠ "")
    (hsound : (HandlerPhase.registerRead req existing).Sound) (hid : req.id = id)
    (hfresh : ¬ (HandlerPhase.registerRead req existing).Stale id p) : (registeredNode existing req).provision = p := by
  have hread : existing.map Node.provision = some p := by
    by_contra hother
    exact hfresh ⟨hid, hother⟩
  obtain ⟨n, rfl, rfl⟩ := Option.map_eq_some_iff.mp hread
  exact registeredNode_provision req ((hsound.1 n rfl).2 htoken)

theorem HandlerCall.Does.settled (h : call.Does host c (phase, c')) (hcall : call.phase.Sound)
    (htoken : p.provisionToken ≠ "") (hprovides : c.Provides id p) (hfresh : ¬ call.phase.Stale id p) :
    c'.Provides id p ∧ ¬ phase.Stale id p ∧ (call.phase.Hands id p → phase.Hands id p) := by
  obtain ⟨n, hn, hp⟩ := hprovides
  cases h with
  | refused code text => exact ⟨⟨n, hn, hp⟩, fun h => h, fun _ => trivial⟩
  | reads req _ =>
    refine ⟨⟨n, hn, hp⟩, ?_, fun _ => trivial⟩
    rintro ⟨rfl, hother⟩
    rw [hn] at hother
    exact hother (congrArg some hp)
  | writes req existing hphase saved store hid hsaved hnodes =>
    rw [hphase] at hcall hfresh
    by_cases hnode : saved.id = id
    · have hkept := hsaved.trans (registeredNode_kept htoken hcall (hid.symm.trans hnode) hfresh)
      exact ⟨⟨saved, by simp [hnodes, hnode], hkept⟩, fun h => h, fun _ _ => hkept⟩
    · exact ⟨⟨n, by simp [hnodes, hnode, hn], hp⟩, fun h => h, fun _ hsame => absurd hsame hnode⟩
  | skips req a hphase =>
    rw [hphase] at hcall hfresh
    refine ⟨⟨n, hn, hp⟩, fun h => h, fun _ hid => ?_⟩
    by_contra hother
    exact hfresh ⟨(hcall.1 a rfl).1.symm.trans hid, fun heq => hother (Option.some.inj heq)⟩
  | registers saved hphase cfg _ hid hkey hoverlay hnodes =>
    refine ⟨⟨n, hnodes ▸ hn, hp⟩, fun h => h, fun hhands hcfg => ?_⟩
    rw [hphase] at hhands
    have hsaved := hhands (hid.symm.trans hcfg)
    exact ⟨hkey.trans (congrArg Provision.privateKey hsaved), hoverlay.trans (congrArg Provision.overlayIP hsaved)⟩
  | repeats httpAddr id' n' hn' =>
    refine ⟨⟨n, hn, hp⟩, fun h => h, ?_⟩
    rintro - rfl
    obtain rfl := Option.some.inj (hn.symm.trans hn')
    exact hp
  | keys httpAddr id' priv hnone =>
    refine ⟨⟨n, hn, hp⟩, ?_, fun _ => trivial⟩
    rintro rfl
    rw [hn] at hnone
    exact htoken ((congrArg Provision.provisionToken hp).symm.trans hnone)
  | assigns _ id' _ _ hphase _ =>
    rw [hphase] at hfresh
    exact ⟨⟨n, hn, hp⟩, hfresh, fun _ => trivial⟩
  | prepares httpAddr id' priv overlay hphase saved store hid _ hnodes =>
    rw [hphase] at hfresh
    have hnode : saved.id ≠ id := hid.trans_ne hfresh
    exact ⟨⟨n, by simp [prepared, bumpPlanVersion, hnodes, hnode, hn], hp⟩, fun h => h,
      fun _ hsame => absurd hsame hfresh⟩
  | rests r hphase =>
    rw [hphase]
    exact ⟨⟨n, hn, hp⟩, fun h => h, fun hhands => hhands⟩

variable {s : Crowd} {first : Nat}

theorem forall_mem_append_one {P : HandlerCall → Prop} (h : ∀ call ∈ s.calls, P call) (hcall : P call) :
    ∀ a ∈ s.calls ++ [call], P a := by
  intro a ha
  rcases List.mem_append.mp ha with hold | hnew
  · exact h a hold
  · exact List.mem_singleton.mp hnew ▸ hcall

theorem Crowd.Sound.step (h : s.Sound) (e : CrowdEvent) : (e.step host s).Sound := by
  cases e with
  | register | prepare => exact ⟨h.records, forall_mem_append_one h.calls trivial⟩
  | move i =>
    rw [CrowdEvent.step]
    cases hi : s.calls[i]? with
    | none => exact h
    | some call =>
      obtain ⟨hrecords, hphase⟩ := (call.move_does host s.controller).sound h.records
        (h.calls call (List.mem_of_getElem? hi))
      exact ⟨hrecords, forall_mem_modify h.calls fun _ _ => hphase⟩
  | request e => exact ⟨AllProvisioned.step host s.controller e h.records, h.calls⟩

theorem sound_start : Crowd.start.Sound := ⟨allProvisioned_start, by rintro _ ⟨⟩⟩

theorem Controller.Provides.request (h : c.Provides id p) (hc : AllProvisioned c) (htoken : p.provisionToken ≠ "")
    (e : Env × Request) : (Request.step host e c).Provides id p := by
  obtain ⟨n, hn, rfl⟩ := h
  exact (StillValid.step htoken c e hc (stillValid_of_record hn rfl htoken)).2

theorem Crowd.Settled.arrive (h : s.Settled id p first) (hstale : ¬ call.phase.Stale id p)
    (hhands : call.phase.Hands id p) : Crowd.Settled id p first { s with calls := s.calls ++ [call] } where
  provides := h.provides
  fresh := forall_mem_append_one h.fresh hstale
  hands i a hfirst hi := by
    rw [List.getElem?_append] at hi
    split at hi
    · exact h.hands i a hfirst hi
    · obtain rfl := List.mem_singleton.mp (List.mem_of_getElem? hi)
      exact hhands

theorem Crowd.Settled.step (h : s.Settled id p first) (hs : s.Sound) (htoken : p.provisionToken ≠ "") (e : CrowdEvent) :
    (e.step host s).Settled id p first := by
  cases e with
  | register | prepare => exact h.arrive (fun hstale => hstale) trivial
  | move i =>
    rw [CrowdEvent.step]
    cases hi : s.calls[i]? with
    | none => exact h
    | some call =>
      have hmem := List.mem_of_getElem? hi
      obtain ⟨hprovides, hfresh, hhands⟩ := (call.move_does host s.controller).settled (hs.calls call hmem) htoken
        h.provides (h.fresh call hmem)
      refine ⟨hprovides, forall_mem_modify h.fresh fun _ _ => hfresh, fun j a hfirst ha => ?_⟩
      rw [List.getElem?_modify] at ha
      obtain ⟨b, hb, rfl⟩ := Option.map_eq_some_iff.mp ha
      by_cases hij : i = j
      · subst hij
        rw [if_pos rfl]
        obtain rfl := Option.some.inj (hi.symm.trans hb)
        exact hhands (h.hands i call hfirst hi)
      · rw [if_neg hij]
        exact h.hands j b hfirst hb
  | request e => exact ⟨h.provides.request hs.records htoken e, h.fresh, h.hands⟩

end

def alonePrepare : List CrowdEvent :=
  [.prepare { now := 7, privateKey := some "priv" } { jwt := true } "http://controller:8080" (some "edge"),
    .move 0, .move 0, .move 0]

/-- A register with the token and another prepare, one in the midst of the other. -/
def registerAndPrepare : List CrowdEvent :=
  [.register {} { token := "pt-7" } (some { id := "edge", cidrs := ["10.1.0.0/16"] }),
    .prepare { now := 8, privateKey := some "priv2" } { jwt := true } "http://controller:8080" (some "edge"),
    .move 1, .move 2, .move 1, .move 1]

end PeerWan
