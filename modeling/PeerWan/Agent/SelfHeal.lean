import PeerWan.Agent.Convergence
import PeerWan.Agent.NatRules

/-!
# Healing

At every tick `ensureRuntimeState` of `pkg/agent/plan.go` writes and applies
the plan at hand once more, so that what users have deleted of the files, the
routes, the rules and the firewall comes back. Here users may do anything to
them between two messages, but for the default route of the main table, from
which the agent learns its way out. The next tick leaves what it would have
left without them wherever the plan says something, and what they left
elsewhere.
-/

namespace PeerWan

open Lib

-- ---------------------------------------------------------------------------
-- The machine of an agent
-- ---------------------------------------------------------------------------

/-- What an agent writes: the kernel, the two files, the firewall. -/
structure Box where
  kernel : Kernel
  wg : Option String := none
  bgp : Option String := none
  nat : NatHost

/-- What surrounds one message. The interface and the default device of `nat`
are not read. -/
structure World where
  ex : Expander
  order : RouteTable → MapOrder String
  neighborOrder : MapOrder (String × Int)
  files : FileErrors
  /-- The error of `applyWireGuard`, if it has one, and that of `vtysh`. -/
  wireguard : Option String
  vtysh : Option String
  nat : NatCall
  verify : Except String Unit
  script : String × Option String

def FileErrors.result (errs : FileErrors) : Except String Unit :=
  match errs.mkdir, errs.writeWG, errs.writeBGP with
  | some err, _, _ => .error ("mkdir output: " ++ err)
  | none, some err, _ => .error ("write wireguard config: " ++ err)
  | none, none, some err => .error ("write bgp config: " ++ err)
  | none, none, none => .ok ()

def natCall (w : World) (iface : String) (k : Kernel) : NatCall :=
  { w.nat with
    iface := if iface = "" then "wg0" else iface
    primaryDev := (detectPrimaryRoute k).2 }

/-- `ApplyConfigs`; what WireGuard and FRR make of the files is left to them. -/
def Box.applyConfigs (w : World) (iface : String) (b : Box) : Except String Unit × Box :=
  match w.wireguard with
  | some err => (.error err, b)
  | none =>
    let b := { b with nat := NatHost.step (natCall w iface b.kernel) b.nat }
    match w.vtysh with
    | some err => (.error ("vtysh apply bgp: " ++ err), b)
    | none => (.ok (), b)

def World.applied (w : World) : Except String Unit :=
  match w.wireguard, w.vtysh with
  | some err, _ => .error err
  | none, some err => .error ("vtysh apply bgp: " ++ err)
  | none, none => .ok ()

def World.outcomes (w : World) : Outcomes where
  render := w.files.result
  applied := w.applied
  verify := w.verify
  script := w.script

def Box.render (w : World) (call : RenderCall) (b : Box) : Except String Unit × Box :=
  let (result, out, k) := renderAndWrite w.ex w.order w.neighborOrder w.files call b.kernel
  (result, { b with kernel := k, wg := out.wg.or b.wg, bgp := out.bgp.or b.bgp })

def Effect.perform (ctx : WsCtx) (w : World) (e : Effect) (b : Box) : Box :=
  match e with
  | .render call => (b.render w call).2
  | .applyConfigs => (b.applyConfigs w ctx.iface).2
  | .report .. | .diag .. | .step .. => b

/-- The outcomes that the handlers go by are those of what they do. -/
theorem outcomes_render (w : World) (call : RenderCall) (b : Box) : (b.render w call).1 = w.outcomes.render := by
  unfold Box.render renderAndWrite World.outcomes FileErrors.result
  cases w.files.mkdir with
  | some err => rfl
  | none =>
    cases w.files.writeWG with
    | some err => rfl
    | none => cases w.files.writeBGP <;> rfl

theorem outcomes_applied (w : World) (iface : String) (b : Box) : (b.applyConfigs w iface).1 = w.outcomes.applied := by
  unfold Box.applyConfigs World.outcomes World.applied
  cases w.wireguard with
  | some err => rfl
  | none => cases w.vtysh <;> rfl

structure Machine where
  agent : Agent
  box : Box

/-- What users do, which may be anything but a change of the default route. -/
structure Meddling where
  change : Box → Box
  default : ∀ b, (change b).kernel.get? .main zeroPrefix = b.kernel.get? .main zeroPrefix

inductive MachineEvent where
  | message (w : World) (m : Message)
  | meddle (f : Meddling)

def MachineEvent.step (ctx : WsCtx) (e : MachineEvent) (s : Machine) : Machine :=
  match e with
  | .message w m =>
    let (agent, effects) := m.handle ctx w.outcomes s.agent
    ⟨agent, run (Effect.perform ctx w) s.box effects⟩
  | .meddle f => { s with box := f.change s.box }

def MachineEvent.isMessage : MachineEvent → Bool
  | .message .. => true
  | .meddle .. => false

-- ---------------------------------------------------------------------------
-- One rendering
-- ---------------------------------------------------------------------------

/-- What the plan of a call assigns to a table: the routes to its peers and
those of its policy. -/
def Assigns (ex : Expander) (primary : String × String) (call : RenderCall) (t : RouteTable) (pfx : String) : Prop :=
  (t = .main ∧ pfx ∈ desiredPrefixes call.peers) ∨
    lastAt pfx (planRoutes ex primary call.plan call.iface t) ≠ none

section

variable {w : World} {call : RenderCall} {b b' : Box}

theorem render_ok (h : w.files.result = .ok ()) : (b.render w call).2 =
    { b with
      kernel := applyStaticRoutes w.ex w.order call.plan call.iface b.kernel
      wg := some (renderConfig call.listening (call.wgPeers w.ex) call.privateKey)
      bgp := some (renderBGP w.ex w.neighborOrder call.asn
        (if call.listening.routerID = "" then call.listening.overlayIP else call.listening.routerID) call.iface
        (neighborOverlayIPs call.peers) call.listening.cidrs call.plan) } := by
  unfold FileErrors.result at h
  unfold Box.render renderAndWrite
  cases hmkdir : w.files.mkdir with
  | some err => simp [hmkdir] at h
  | none =>
    cases hwg : w.files.writeWG with
    | some err => simp [hmkdir, hwg] at h
    | none =>
      cases hbgp : w.files.writeBGP with
      | some err => simp [hmkdir, hwg, hbgp] at h
      | none => rfl

theorem render_failed (h : w.files.result ≠ .ok ()) : (b.render w call).2.kernel = b.kernel := by
  unfold FileErrors.result at h
  unfold Box.render renderAndWrite
  cases hmkdir : w.files.mkdir with
  | some err => rfl
  | none =>
    cases hwg : w.files.writeWG with
    | some err => rfl
    | none =>
      cases hbgp : w.files.writeBGP with
      | some err => rfl
      | none => simp [hmkdir, hwg, hbgp] at h

theorem zeroPrefix_not_desired (peers : List Peer) : zeroPrefix ∉ desiredPrefixes peers := by
  intro h
  exact absurd (isPeerPrefix_of_desired h) (by decide)

theorem applyConfigs_frame (iface : String) : (b.applyConfigs w iface).2.kernel = b.kernel ∧
    (b.applyConfigs w iface).2.wg = b.wg ∧ (b.applyConfigs w iface).2.bgp = b.bgp := by
  unfold Box.applyConfigs
  cases w.wireguard with
  | some err => exact ⟨rfl, rfl, rfl⟩
  | none => cases w.vtysh <;> exact ⟨rfl, rfl, rfl⟩

theorem perform_default {ctx : WsCtx} (e : Effect)
    (h : b.kernel.get? .main zeroPrefix = b'.kernel.get? .main zeroPrefix) :
    (e.perform ctx w b).kernel.get? .main zeroPrefix = (e.perform ctx w b').kernel.get? .main zeroPrefix := by
  cases e with
  | render call =>
    by_cases hok : w.files.result = .ok ()
    · simp only [Effect.perform, render_ok hok, Kernel.get?_main, detectPrimaryRoute_eq, Kernel.synced,
        if_neg (zeroPrefix_not_desired _), h]
    · simp only [Effect.perform, render_failed hok, h]
  | applyConfigs => simp only [Effect.perform, (applyConfigs_frame _).1, h]
  | report | diag | step => exact h

end

-- ---------------------------------------------------------------------------
-- A tick
-- ---------------------------------------------------------------------------

/-- What the rules of a plan, the firewall of the box and its files are after a
call, and its routes where the plan assigns one, compared with those of another
box. -/
structure Healed (w : World) (ctx : WsCtx) (call : RenderCall) (k : Kernel) (b b' : Box) : Prop where
  wg : b.wg = b'.wg
  bgp : b.bgp = b'.bgp
  routes : ∀ t, t ≠ .t52 → ∀ pfx, Assigns w.ex (detectPrimaryRoute k) call t pfx →
    b.kernel.get? t pfx = b'.kernel.get? t pfx
  rules : ∀ r ∈ planRules w.ex call.plan call.iface, r ∈ b.kernel.rules
  nat : ∀ c, (natCall w ctx.iface b.kernel).config = some c → ∀ r ∈ c.rules, r ∈ b.nat.rules

/-- Nothing else is changed of the main table and of table 100, and the rules of the
plan are all that is added to the rules. -/
structure Spares (w : World) (call : RenderCall) (b b' : Box) : Prop where
  routes : ∀ t, t ≠ .t52 → ∀ pfx, ¬ Assigns w.ex (detectPrimaryRoute b.kernel) call t pfx →
    b'.kernel.get? t pfx = b.kernel.get? t pfx
  rules : b'.kernel.rules = b.kernel.rules ∪ (planRules w.ex call.plan call.iface).toFinset

section

variable {ctx : WsCtx} {w : World} {b b' : Box} {call : RenderCall}

theorem perform_reports (nodeID version status message : String) (client : Bool) (logs : List String) :
    run (Effect.perform ctx w) b (reportPolicyStatus ctx client nodeID version status message logs) = b := by
  unfold reportPolicyStatus
  split <;> rfl

theorem perform_diag (client : Bool) (node : Node) (cfg : NodeConfigResponse) :
    run (Effect.perform ctx w) b (runPolicyDiag ctx client node cfg) = b := by
  unfold runPolicyDiag
  split <;> rfl

theorem perform_refresh {t : RefreshTexts} {client : Bool} {base : Node} {cfg : NodeConfigResponse}
    (hfiles : w.files.result = .ok ()) (happly : ctx.apply = true) :
    run (Effect.perform ctx w) b (refresh t ctx client w.outcomes base cfg).2 =
      ((b.render w (renderCall ctx base cfg)).2.applyConfigs w ctx.iface).2 := by
  have hrender : w.outcomes.render = .ok () := hfiles
  unfold refresh
  simp only [hrender, happly, if_true]
  cases w.outcomes.applied with
  | error err => simp only [run_append, run_cons, run_nil, perform_reports, Effect.perform]
  | ok => simp only [run_append, run_cons, run_nil, perform_reports, perform_diag, Effect.perform]

theorem applyConfigs_nat (hwg : w.wireguard = none) (hnat : ∀ r, w.nat.fails r = none) {c : NatState}
    (hc : (natCall w ctx.iface b.kernel).config = some c) :
    ∀ r ∈ c.rules, r ∈ (b.applyConfigs w ctx.iface).2.nat.rules := by
  intro r hr
  have hcall : (b.applyConfigs w ctx.iface).2.nat = NatHost.step (natCall w ctx.iface b.kernel) b.nat := by
    unfold Box.applyConfigs
    rw [hwg]
    cases w.vtysh <;> rfl
  obtain ⟨-, hrules, -⟩ := ensureNAT_eq (h := b.nat) hc
  have hok : (ensureRules (natCall w ctx.iface b.kernel).fails c.labelled (cleaned c b.nat)).1 = none :=
    ensureRules_eq_none.mpr fun r _ => .inr (hnat r)
  rw [hcall, NatHost.step, hrules]
  exact (mem_ensureRules hok r).mpr (.inr hr)

theorem get?_applied {t : RouteTable} (ht : t ≠ .t52) (k : Kernel) (pfx : String) :
    (applyStaticRoutes w.ex w.order call.plan call.iface k).get? t pfx =
      (lastAt pfx (planRoutes w.ex (detectPrimaryRoute k) call.plan call.iface t)).or
        (if t = .main ∧ pfx ∈ desiredPrefixes call.peers then some { dev := syncDevice call.iface }
          else k.get? t pfx) := by
  cases t with
  | t52 => exact absurd rfl ht
  | main =>
    rw [Kernel.get?_main, Kernel.synced]
    simp only [true_and]
    rfl
  | t100 =>
    rw [Kernel.get?_t100, planRoutes_t100 w.ex (detectPrimaryRoute k) ("", "")]
    simp

/-- Two boxes with one default route come out of a refresh alike. -/
theorem refreshed_alike {t : RefreshTexts} {client : Bool} {base : Node} {cfg : NodeConfigResponse}
    (hfiles : w.files.result = .ok ()) (happly : ctx.apply = true) (hwg : w.wireguard = none)
    (hnat : ∀ r, w.nat.fails r = none) (h : b.kernel.get? .main zeroPrefix = b'.kernel.get? .main zeroPrefix) :
    let heal (b : Box) := run (Effect.perform ctx w) b (refresh t ctx client w.outcomes base cfg).2
    Healed w ctx (renderCall ctx base cfg) b.kernel (heal b) (heal b') ∧
      Spares w (renderCall ctx base cfg) b (heal b) := by
  have hprimary : detectPrimaryRoute b.kernel = detectPrimaryRoute b'.kernel := by
    rw [detectPrimaryRoute_eq, detectPrimaryRoute_eq, h]
  intro heal
  have hheal : ∀ b, heal b = ((b.render w (renderCall ctx base cfg)).2.applyConfigs w ctx.iface).2 := fun b =>
    perform_refresh hfiles happly
  have hframe : ∀ b, (heal b).kernel = (b.render w (renderCall ctx base cfg)).2.kernel ∧
      (heal b).wg = (b.render w (renderCall ctx base cfg)).2.wg ∧
      (heal b).bgp = (b.render w (renderCall ctx base cfg)).2.bgp := fun b => hheal b ▸ applyConfigs_frame ctx.iface
  have hkernel : ∀ b, (heal b).kernel =
      applyStaticRoutes w.ex w.order (renderCall ctx base cfg).plan (renderCall ctx base cfg).iface b.kernel := by
    intro b
    rw [(hframe b).1, render_ok hfiles]
  have hrules := Kernel.rules_applyStaticRoutes w.ex w.order (renderCall ctx base cfg).plan
    (renderCall ctx base cfg).iface b.kernel
  refine ⟨⟨?_, ?_, fun t ht pfx hpfx => ?_, fun r hr => ?_, fun c hc => ?_⟩, fun t ht pfx hpfx => ?_, ?_⟩
  · rw [(hframe b).2.1, (hframe b').2.1, render_ok hfiles, render_ok hfiles]
  · rw [(hframe b).2.2, (hframe b').2.2, render_ok hfiles, render_ok hfiles]
  · rw [hkernel, hkernel, get?_applied ht, get?_applied ht, ← hprimary]
    cases hlast : lastAt pfx (planRoutes w.ex (detectPrimaryRoute b.kernel) (renderCall ctx base cfg).plan
        (renderCall ctx base cfg).iface t) with
    | some hop => rfl
    | none =>
      have hpeer := hpfx.resolve_right (not_not.mpr hlast)
      simp only [hpeer, and_self, if_true]
  · rw [hkernel, hrules]
    exact Finset.mem_union_right _ (List.mem_toFinset.mpr hr)
  · have hsame : (heal b).kernel = (b.render w (renderCall ctx base cfg)).2.kernel := (hframe b).1
    rw [hsame] at hc
    rw [hheal b]
    exact applyConfigs_nat hwg hnat hc
  · rw [hkernel, get?_applied ht]
    obtain ⟨hpeer, hlast⟩ := not_or.mp hpfx
    rw [not_not.mp hlast, if_neg hpeer, Option.none_or]
  · rw [hkernel, hrules]

end

-- ---------------------------------------------------------------------------
-- Runs
-- ---------------------------------------------------------------------------

/-- Two machines whose agents have heard the same, with the same way out. -/
structure Alike (s s' : Machine) : Prop where
  agent : s.agent = s'.agent
  default : s.box.kernel.get? .main zeroPrefix = s'.box.kernel.get? .main zeroPrefix

section

variable {ctx : WsCtx} {s s' : Machine}

theorem Alike.message (h : Alike s s') (w : World) (m : Message) :
    Alike (MachineEvent.step ctx (.message w m) s) (MachineEvent.step ctx (.message w m) s') := by
  have hrun : ∀ (effects : List Effect) (b b' : Box),
      b.kernel.get? .main zeroPrefix = b'.kernel.get? .main zeroPrefix →
        (run (Effect.perform ctx w) b effects).kernel.get? .main zeroPrefix =
          (run (Effect.perform ctx w) b' effects).kernel.get? .main zeroPrefix := by
    intro effects
    induction effects with
    | nil => exact fun b b' h => h
    | cons e effects ih => exact fun b b' h => ih _ _ (perform_default e h)
  simp only [MachineEvent.step, h.agent]
  exact ⟨rfl, hrun _ _ _ h.default⟩

theorem Alike.meddle (h : Alike s s') (f : Meddling) : Alike (MachineEvent.step ctx (.meddle f) s) s' :=
  ⟨h.agent, (f.default s.box).trans h.default⟩

/-- Without what users do, the agent hears the same and has the same way out. -/
theorem alike_calm (ctx : WsCtx) (es : List MachineEvent) (h : Alike s s') :
    Alike (run (MachineEvent.step ctx) s es) (run (MachineEvent.step ctx) s' (es.filter MachineEvent.isMessage)) := by
  induction es generalizing s s' with
  | nil => exact h
  | cons e es ih =>
    cases e with
    | message w m => exact ih (h.message w m)
    | meddle f => exact ih (h.meddle f)

end

def edgeBox : WsCtx := { apply := true, controller := "http://controller:8080", nodeID := "edge" }

def edgeWorld : World where
  ex := .literal
  order := fun _ => default
  neighborOrder := default
  files := {}
  wireguard := none
  vtysh := none
  nat := { abortedCall with fails := fun _ => none }
  verify := .ok ()
  script := ("", none)

def deletion : Meddling where
  change b := { b with kernel := ⟨Function.update b.kernel.routes .t100 ∅, ∅⟩ }
  default b := by simp [Kernel.get?]

def edgePlan : NodeConfigResponse where
  id := "edge"
  configVersion := "dynamic-v1"
  wireGuardPeers := (samplePlan "a").peers
  policyRules := (samplePlan "a").policyRules

def edgeEvents : List MachineEvent :=
  [.message edgeWorld (.plan (some edgePlan)), .meddle deletion]

end PeerWan
