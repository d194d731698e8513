import PeerWan.Controller.Handlers
import PeerWan.Lib.Runs

/-!
# A store beside the plans saved

What the calls of the handlers keep between a store and the plans that have been
given to it, every event keeps.
-/

namespace PeerWan

open Lib

/-- Every call keeps `J`, with `SavePlan` adding to the plans. -/
structure SavingInvariant {σ : Type} [NodeStore σ] (J : σ → List Plan → Prop) : Prop where
  upsertNode : ∀ n s l, J s l → J (NodeStore.upsertNode n s).2 l
  listNodes : ∀ o s l, J s l → J (NodeStore.listNodes o s).2 l
  getNode : ∀ id s l, J s l → J (NodeStore.getNode id s).2 l
  savePlan : ∀ p s l, J s l → J (NodeStore.savePlan p s).2 (l ++ [p])
  rollbackPlan : ∀ nodeID version s l, J s l → J (NodeStore.rollbackPlan nodeID version s).2 l
  setGlobalPlanVersion : ∀ v s l, J s l → J (NodeStore.setGlobalPlanVersion v s).2 l
  updatePolicy : ∀ req s l, J s l → J (NodeStore.updatePolicy req s).2 l
  saveTask : ∀ now t s l, J s l → J (NodeStore.saveTask now t s).2 l
  saveHealth : ∀ now r s l, J s l → J (NodeStore.saveHealth now r s).2 l
  listHealth : ∀ o s l, J s l → J (NodeStore.listHealth o s).2 l
  appendAudit : ∀ entry s l, J s l → J (NodeStore.appendAudit entry s).2 l
  getSettings : ∀ s l, J s l → J (NodeStore.getSettings s).2 l
  reopen : ∀ s l, J s l → J (NodeStore.reopen s) l

def Controller.Has {σ : Type} (J : σ → List Plan → Prop) (c : Controller σ) : Prop := J c.store c.saved

namespace SavingInvariant

variable {σ : Type} [NodeStore σ] {J : σ → List Plan → Prop} (h : SavingInvariant J)

include h

-- ---------------------------------------------------------------------------
-- Reads and plans
-- ---------------------------------------------------------------------------

section

variable {s : σ} {l : List Plan} (hs : J s l)

include hs

theorem loadSettingsOrDefault : J (PeerWan.loadSettingsOrDefault s).2 l := by
  have hread := h.getSettings s l hs
  unfold PeerWan.loadSettingsOrDefault
  rcases hget : NodeStore.getSettings s with ⟨r, s'⟩
  rw [hget] at hread
  cases r <;> exact hread

theorem admitted (auth : Credentials) (nodeID : String) : J (PeerWan.admitted auth nodeID s).2 l := by
  have hread := h.getNode nodeID s l hs
  unfold PeerWan.admitted PeerWan.agentAuthorized
  split
  · exact hs
  split
  · exact hs
  rcases hget : NodeStore.getNode nodeID s with ⟨r, s'⟩
  rw [hget] at hread
  rcases r with err | n
  · exact hread
  · cases n <;> exact hread

theorem assignOverlay (env : Env) : J (PeerWan.assignOverlay env s).2 l := by
  have hread := h.listNodes (env.nodeOrder 0) s l hs
  unfold PeerWan.assignOverlay
  dsimp only
  split <;> exact hread

end

variable {c : Controller σ} (hc : c.Has J) (host : Host) (env : Env)

include hc

theorem savePlanWithRules (node : Node) (peers : List Peer) (rules : List PolicyRule) :
    (PeerWan.savePlanWithRules host env node peers rules c).Has J := by
  refine h.loadSettingsOrDefault (h.loadSettingsOrDefault ?_)
  exact h.setGlobalPlanVersion _ _ _ (h.savePlan _ _ _ hc)

theorem recomputeAllPlans (k : Nat) : (PeerWan.recomputeAllPlans host env k c).2.Has J := by
  have hloop : ∀ (peers : Node → List Peer) (rules : Node → List PolicyRule) (l : List Node) (c : Controller σ),
      c.Has J →
        (l.foldl (fun c n => PeerWan.savePlanWithRules host env n (peers n) (rules n) c) c).Has J := by
    intro peers rules l
    induction l with
    | nil => exact fun _ hc => hc
    | cons n l ih => exact fun c hc => ih _ (h.savePlanWithRules hc host env n _ _)
  have hlist := h.listNodes (env.nodeOrder k) c.store c.saved hc
  unfold PeerWan.recomputeAllPlans
  rcases hnodes : NodeStore.listNodes (env.nodeOrder k) c.store with ⟨r, s⟩
  rw [hnodes] at hlist
  cases r with
  | error err => exact hlist
  | ok nodes =>
    exact hloop _ _ nodes { c with store := (NodeStore.listHealth (env.healthOrder k) s).2 }
      (h.listHealth _ _ _ hlist)

-- ---------------------------------------------------------------------------
-- The handlers
-- ---------------------------------------------------------------------------

theorem registered (saved : Node) : (PeerWan.registered host env saved c).2.Has J := by
  unfold PeerWan.registered
  dsimp only
  generalize haudit : NodeStore.appendAudit _ c.store = out
  have hread : J (NodeStore.listHealth (env.healthOrder 0) (NodeStore.listNodes (env.nodeOrder 0) out.2).2).2 c.saved :=
    h.listHealth _ _ _ (h.listNodes _ _ _ (haudit ▸ h.appendAudit _ _ _ hc))
  have hrecomputed := h.recomputeAllPlans (c := { c with store := _ }) hread host env 1
  refine h.loadSettingsOrDefault (h.loadSettingsOrDefault ?_)
  split
  next heq =>
    rw [heq] at hrecomputed
    exact hrecomputed
  next heq =>
    rw [heq] at hrecomputed
    exact hrecomputed

theorem register (auth : Credentials) (body : Option NodeRegistrationRequest) :
    (PeerWan.register host env auth body c).2.Has J := by
  cases body with
  | none => exact hc
  | some sent =>
    unfold PeerWan.register
    dsimp only
    split
    · exact hc
    split
    · exact hc
    have hread := h.getNode (sent.withToken auth.token).id c.store c.saved hc
    rcases hget : NodeStore.getNode (sent.withToken auth.token).id c.store with ⟨existing, s⟩
    rw [hget] at hread
    dsimp only
    split
    · exact hread
    split
    · have hsave := h.upsertNode (registeredNode (Reply.getD existing none) (sent.withToken auth.token)) s _ hread
      rcases hup : NodeStore.upsertNode (registeredNode (Reply.getD existing none) (sent.withToken auth.token)) s
        with ⟨r, s'⟩
      rw [hup] at hsave
      cases r with
      | error err => exact hsave
      | ok saved => exact h.registered (c := { c with store := s' }) hsave host env saved
    · exact h.registered (c := { c with store := s }) hread host env _

theorem prepare (auth : Credentials) (httpAddr : String) (body : Option String) :
    (PeerWan.prepare host env auth httpAddr body c).2.Has J := by
  unfold PeerWan.prepare
  split
  · exact hc
  cases body with
  | none => exact hc
  | some id =>
    dsimp only
    split
    · exact hc
    have hread := h.getNode id c.store c.saved hc
    rcases hget : NodeStore.getNode id c.store with ⟨existing, s⟩
    rw [hget] at hread
    dsimp only
    split
    · exact hread
    cases env.privateKey with
    | none => exact hread
    | some priv =>
      have hsave := h.upsertNode (preparedNode host env id priv (PeerWan.assignOverlay env s).1)
        (PeerWan.assignOverlay env s).2 c.saved (h.assignOverlay hread env)
      dsimp only
      rcases hup : NodeStore.upsertNode (preparedNode host env id priv (PeerWan.assignOverlay env s).1)
        (PeerWan.assignOverlay env s).2 with ⟨r, s'⟩
      rw [hup] at hsave
      cases r <;> exact hsave

theorem policy (auth : Credentials) (body : Option PolicyRequest) : (PeerWan.policy env auth body c).2.Has J := by
  unfold PeerWan.policy
  split
  · exact hc
  cases body with
  | none => exact hc
  | some req =>
    dsimp only
    split
    · exact hc
    split
    · exact hc
    have hsave := h.updatePolicy req.normalize c.store c.saved hc
    rcases hup : NodeStore.updatePolicy req.normalize c.store with ⟨r, s⟩
    rw [hup] at hsave
    cases r with
    | error err => exact hsave
    | ok => exact h.getNode _ _ _ (h.saveTask _ _ _ _ hsave)

theorem health (auth : Credentials) (body : Option HealthReport) :
    (PeerWan.health host env auth body c).2.Has J := by
  cases body with
  | none => exact hc
  | some sent =>
    unfold PeerWan.health
    dsimp only
    split
    · exact hc
    have hadmit := h.admitted hc auth sent.nodeID
    rcases hauth : PeerWan.admitted auth sent.nodeID c.store with ⟨ok, s⟩
    rw [hauth] at hadmit
    cases ok with
    | false => exact hadmit
    | true =>
      have hsave := h.saveHealth env.now { sent with timestamp := env.now } s c.saved hadmit
      dsimp only
      rcases hput : NodeStore.saveHealth env.now { sent with timestamp := env.now } s with ⟨r, s'⟩
      rw [hput] at hsave
      cases r with
      | error err => exact hsave
      | ok =>
        have hlist := h.listNodes (env.nodeOrder 0) s' c.saved hsave
        refine h.appendAudit _ _ _ ?_
        exact h.savePlanWithRules (c := { c with store := (NodeStore.listNodes (env.nodeOrder 0) s').2 }) hlist
          host env _ _ _

theorem getPlan (auth : Credentials) (nodeID : String) : (PeerWan.getPlan host env auth nodeID c).2.Has J := by
  unfold PeerWan.getPlan
  split
  · exact hc
  have hadmit := h.admitted hc auth nodeID
  rcases hauth : PeerWan.admitted auth nodeID c.store with ⟨ok, s⟩
  rw [hauth] at hadmit
  cases ok with
  | false => exact hadmit
  | true =>
    have hlist := h.listNodes (env.nodeOrder 0) s c.saved hadmit
    dsimp only
    rcases hnodes : NodeStore.listNodes (env.nodeOrder 0) s with ⟨r, s'⟩
    rw [hnodes] at hlist
    cases r with
    | error err => exact hlist
    | ok nodes =>
      refine h.loadSettingsOrDefault (h.loadSettingsOrDefault ?_)
      exact h.savePlanWithRules (c := { c with store := (NodeStore.listHealth (env.healthOrder 0) s').2 })
        (h.listHealth _ _ _ hlist) host env _ _ _

theorem rollback (auth : Credentials) (body : Option (String × Int)) :
    (PeerWan.rollback host env auth body c).2.Has J := by
  unfold PeerWan.rollback
  split
  · exact hc
  cases body with
  | none => exact hc
  | some target =>
    obtain ⟨nodeID, version⟩ := target
    dsimp only
    split
    · exact hc
    have hback := h.rollbackPlan nodeID version c.store c.saved hc
    rcases hroll : NodeStore.rollbackPlan nodeID version c.store with ⟨r, s⟩
    rw [hroll] at hback
    cases r with
    | error err => exact hback
    | ok p =>
      dsimp only
      split
      · exact hback
      · exact h.appendAudit _ _ _ (h.setGlobalPlanVersion _ _ _ hback)

theorem step (e : Env × Event) : (Event.step host e c).Has J := by
  obtain ⟨env, ev⟩ := e
  cases ev with
  | request r =>
    cases r with
    | register auth body => exact h.register hc host env auth body
    | prepare auth httpAddr body => exact h.prepare hc host env auth httpAddr body
    | policy auth body => exact h.policy hc env auth body
    | health auth body => exact h.health hc host env auth body
    | plan auth nodeID => exact h.getPlan hc host env auth nodeID
    | rollback auth body => exact h.rollback hc host env auth body
  | tick => exact h.recomputeAllPlans hc host env 1
  | watch => exact h.recomputeAllPlans hc host env 1
  | restart => exact h.reopen _ _ hc

theorem throughout (es : List (Env × Event)) : Throughout (Event.step host) (Controller.Has J) c es :=
  throughout_of_invariant (I := Controller.Has J) (fun _ e hc => h.step hc host e) hc es

end SavingInvariant

end PeerWan
