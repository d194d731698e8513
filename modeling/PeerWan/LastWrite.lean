import PeerWan.Agent.Threads

/-!
# The plan written last

Plans reach the agent in the order of their versions, one handler each. What
the agent ends with is decided by the last update of the shared variables and
by the last write: the newest plan is in place exactly when its handler updates
last, and what is written last was read after that.
-/

namespace PeerWan

open Lib

def Act.updates : Act → Bool
  | .update _ => true
  | _ => false

def Act.writes : Act → Bool
  | .write _ ok => ok
  | .healWrite ok => ok
  | _ => false

/-- The schedule updates from handler `k` last, and writes last what that
handler or a later round of the self-heal loop has read. -/
def LastWins (k : Nat) (as : List Act) : Prop :=
  ∃ before between w after, as = before ++ .update k :: (between ++ w :: after) ∧
    (∀ a ∈ between ++ w :: after, a.updates = false) ∧ (∀ a ∈ after, a.writes = false) ∧
    (w = .write k true ∨ w = .healWrite true ∧ .healRead ∈ between)

/-- The shared variables and the last write are those of the plan. -/
def Runtime.Shows (ctx : WsCtx) (r : Runtime) (cfg : NodeConfigResponse) : Prop :=
  r.latestCfg = cfg ∧ (∃ base, r.latestNode = absorb ctx.asn cfg base) ∧
    ∃ base, r.written = some (writtenOf ctx cfg base)

def Runtime.start (node : Node) (cfgs : List NodeConfigResponse) : Runtime where
  latestNode := node
  threads := cfgs.map fun cfg => { job := .plan cfg }

-- ---------------------------------------------------------------------------
-- Plan handlers carry their own plan
-- ---------------------------------------------------------------------------

/-- Each handler is of its own plan, and carries no other. -/
def Pushed (ctx : WsCtx) (cfgs : List NodeConfigResponse) : List Thread → Prop :=
  EachThread fun i t => ∃ c, cfgs[i]? = some c ∧ t.job = .plan c ∧ ∀ cfg ∈ t.phase.plan, cfg = received ctx c

theorem Pushed.start (ctx : WsCtx) (node : Node) (cfgs : List NodeConfigResponse) :
    Pushed ctx cfgs (Runtime.start node cfgs).threads := by
  intro i t ht
  obtain ⟨c, hc, rfl⟩ := Option.map_eq_some_iff.mp (List.getElem?_map ▸ ht)
  exact ⟨c, hc, rfl, nofun⟩

theorem Pushed.carried {ctx : WsCtx} {cfgs : List NodeConfigResponse} {r : Runtime}
    (h : Pushed ctx cfgs r.threads) (hp : r.phase i = some p) (hplan : p.plan = some cfg) :
    ∃ c, cfgs[i]? = some c ∧ cfg = received ctx c := by
  obtain ⟨t, ht, rfl⟩ := Option.map_eq_some_iff.mp hp
  obtain ⟨c, hc, -, hcarried⟩ := h i t ht
  exact ⟨c, hc, hcarried cfg hplan⟩

theorem Pushed.advance {ctx : WsCtx} {cfgs : List NodeConfigResponse} {r : Runtime}
    (h : Pushed ctx cfgs r.threads) (hp : r.phase i = some p) (hplan : ∀ cfg ∈ q.plan, cfg ∈ p.plan) :
    Pushed ctx cfgs (r.advance i q).threads :=
  EachThread.advance h fun _ ht ⟨c, hc, hjob, hcarried⟩ =>
    ⟨c, hc, hjob, fun cfg hcfg => hcarried cfg (Runtime.phase_eq hp ht ▸ hplan cfg hcfg)⟩

theorem Pushed.step {ctx : WsCtx} {cfgs : List NodeConfigResponse} {a : Act} {r r' : Runtime}
    (hm : Moved ctx r a r') (h : Pushed ctx cfgs r.threads) : Pushed ctx cfgs r'.threads := by
  cases hm with
  | read ht hready =>
    refine EachThread.advance h fun u hu ⟨c, hc, hjob, _⟩ => ⟨c, hc, hjob, fun cfg hcfg => ?_⟩
    rw [Option.some.inj (ht.symm.trans hu), hjob, Job.read] at hcfg
    exact (Option.some.inj hcfg).symm
  | update hbased => exact h.advance hbased fun _ hcfg => hcfg
  | write hmerged => exact h.advance hmerged fun _ hcfg => hcfg
  | writeFails hmerged => exact h.advance hmerged fun _ hcfg => by cases hcfg
  | finish hwritten => exact h.advance hwritten fun _ hcfg => by cases hcfg
  | healRead | healSkips | healWrite | healFails => exact h

theorem Pushed.after {ctx : WsCtx} {cfgs : List NodeConfigResponse} {as : List Act} {r r' : Runtime}
    (h : Pushed ctx cfgs r.threads) (hexec : exec (Act.step ctx) r as = some r') :
    Pushed ctx cfgs r'.threads :=
  exec_keeps (I := fun r => Pushed ctx cfgs r.threads) (fun _ _ _ _ hstep => Pushed.step (moved hstep)) hexec h

-- ---------------------------------------------------------------------------
-- After the last update
-- ---------------------------------------------------------------------------

theorem Moved.written_eq {ctx : WsCtx} {a : Act} {r r' : Runtime} (hm : Moved ctx r a r')
    (ha : a.writes = false) : r'.written = r.written := by
  cases hm with
  | write | healWrite => cases ha
  | _ => rfl

theorem exec_written {ctx : WsCtx} {as : List Act} {r r' : Runtime}
    (h : exec (Act.step ctx) r as = some r') (has : ∀ a ∈ as, a.writes = false) : r'.written = r.written :=
  exec_keeps (I := fun s => s.written = r.written)
    (fun a ha _ _ hstep hw => ((moved hstep).written_eq (has a ha)).trans hw) h rfl

def Runtime.Heals (P : NodeConfigResponse → Prop) (r : Runtime) : Prop :=
  ∀ cfg base, r.healer = some (cfg, base) → P cfg

theorem Moved.latest_eq {ctx : WsCtx} {a : Act} {r r' : Runtime} (hm : Moved ctx r a r')
    (ha : a.updates = false) : r'.latestCfg = r.latestCfg ∧ r'.latestNode = r.latestNode := by
  cases hm with
  | update => cases ha
  | _ => exact ⟨rfl, rfl⟩

theorem exec_latest {ctx : WsCtx} {as : List Act} {r r' : Runtime}
    (h : exec (Act.step ctx) r as = some r') (has : ∀ a ∈ as, a.updates = false) :
    r'.latestCfg = r.latestCfg ∧ r'.latestNode = r.latestNode := by
  refine exec_keeps (I := fun s => s.latestCfg = r.latestCfg ∧ s.latestNode = r.latestNode)
    (fun a ha s s' hstep hs => ?_) h ⟨rfl, rfl⟩
  obtain ⟨hcfg, hnode⟩ := (moved hstep).latest_eq (has a ha)
  exact ⟨hcfg.trans hs.1, hnode.trans hs.2⟩

theorem Moved.heals {ctx : WsCtx} {a : Act} {r r' : Runtime} (hm : Moved ctx r a r')
    (h : a = .healRead ∨ r.Heals (· = r.latestCfg)) : r'.Heals (· = r.latestCfg) := by
  intro cfg base hread
  cases hm with
  | healRead =>
    cases hread
    rfl
  | healSkips hidle => rw [hidle] at hread; cases hread
  | healWrite | healFails => cases hread
  | _ => exact (h.resolve_left nofun) cfg base hread

theorem heals_of_read {ctx : WsCtx} {as : List Act} {r r' : Runtime}
    (hexec : exec (Act.step ctx) r as = some r') (has : ∀ a ∈ as, a.updates = false)
    (hread : .healRead ∈ as) : r'.Heals (· = r.latestCfg) := by
  obtain ⟨before, after, rfl⟩ := List.append_of_mem hread
  simp only [exec_append, exec_cons] at hexec
  obtain ⟨r₁, hbefore, r₂, hstep, hafter⟩ := hexec
  simp only [List.forall_mem_append, List.forall_mem_cons] at has
  have hcfg₁ := (exec_latest hbefore has.1).1
  have hcfg₂ := ((moved hstep).latest_eq has.2.1).1.trans hcfg₁
  have hheals₂ : r₂.Heals (· = r.latestCfg) := hcfg₁ ▸ (moved hstep).heals (.inl rfl)
  refine (exec_keeps (I := fun s => s.latestCfg = r.latestCfg ∧ s.Heals (· = r.latestCfg))
    (fun a ha s s' hs hI => ?_) hafter ⟨hcfg₂, hheals₂⟩).2
  have hheals := (moved hs).heals (.inr (hI.1.symm ▸ hI.2))
  exact ⟨((moved hs).latest_eq (has.2.2 a ha)).1.trans hI.1, hI.1 ▸ hheals⟩

theorem shows_of_lastWins {ctx : WsCtx} {node : Node} {cfgs : List NodeConfigResponse}
    {c : NodeConfigResponse} {as : List Act} {r : Runtime}
    (hexec : exec (Act.step ctx) (.start node (cfgs ++ [c])) as = some r) (h : LastWins cfgs.length as) :
    r.Shows ctx (received ctx c) := by
  obtain ⟨before, between, w, after, rfl, hupdates, hwrites, hw⟩ := h
  obtain ⟨r₁, hbefore, hexec⟩ := exec_append.mp hexec
  obtain ⟨r₂, hupdate, hrest⟩ := exec_cons.mp hexec
  have hpush₁ := (Pushed.start ctx node (cfgs ++ [c])).after hbefore
  have hpush₂ := hpush₁.step (moved hupdate)
  have htaken : r₂.latestCfg = received ctx c ∧ ∃ base, r₂.latestNode = absorb ctx.asn (received ctx c) base := by
    cases moved hupdate with
    | update hbased =>
      obtain ⟨c', hc', rfl⟩ := hpush₁.carried hbased rfl
      obtain rfl : c = c' := by simpa using hc'
      exact ⟨rfl, _, rfl⟩
  have hlatest := exec_latest hrest hupdates
  obtain ⟨r₃, hbetween, hrest⟩ := exec_append.mp hrest
  obtain ⟨r₄, hwrite, hafter⟩ := exec_cons.mp hrest
  have hwritten₄ : ∃ base, r₄.written = some (writtenOf ctx (received ctx c) base) := by
    rcases hw with rfl | ⟨rfl, hread⟩
    · cases moved hwrite with
      | write hmerged =>
        obtain ⟨c', hc', rfl⟩ := (hpush₂.after hbetween).carried hmerged rfl
        obtain rfl : c = c' := by simpa using hc'
        exact ⟨_, rfl⟩
    · have hheals := heals_of_read hbetween (List.forall_mem_append.mp hupdates).1 hread
      cases moved hwrite with
      | healWrite hheld =>
        obtain rfl := (hheals _ _ hheld).trans htaken.1
        exact ⟨_, rfl⟩
  exact ⟨hlatest.1.trans htaken.1, hlatest.2.symm ▸ htaken.2, (exec_written hafter hwrites).symm ▸ hwritten₄⟩

-- ---------------------------------------------------------------------------
-- Before the newest plan is taken
-- ---------------------------------------------------------------------------

def Phase.early : Phase → Bool
  | .ready | .based .. => true
  | .merged .. | .written .. | .done => false

/-- The plan is nowhere but in its own handler. -/
structure Untouched (p : NodeConfigResponse) (r : Runtime) : Prop where
  cfg : r.latestCfg ≠ p
  heals : r.Heals (· ≠ p)
  written : ∀ w ∈ r.written, w.plan ≠ p

theorem Runtime.advance_early {r : Runtime} (hp : r.phase i = some p) (hpq : q.early → p.early)
    (h : ∀ q' ∈ (r.advance i q).phase k, q'.early) : ∀ q' ∈ r.phase k, q'.early := by
  intro q' hq'
  rw [Runtime.advance_phase] at h
  split at h
  next hik =>
    subst hik
    obtain rfl := Option.some.inj (hp.symm.trans hq')
    exact hpq (h q (by simp [hp]))
  next => exact h q' hq'

theorem Runtime.ne_of_early {r : Runtime} (hp : r.phase i = some p) (hq : q.early = false)
    (h : ∀ q' ∈ (r.advance i q).phase k, q'.early) : i ≠ k := by
  rintro rfl
  have hearly := h q (by simp [Runtime.advance_phase, hp])
  simp [hq] at hearly

theorem Moved.early {ctx : WsCtx} {a : Act} {r r' : Runtime} (hm : Moved ctx r a r')
    (h : ∀ q ∈ r'.phase k, q.early) : ∀ q ∈ r.phase k, q.early := by
  cases hm with
  | read ht hready =>
    exact Runtime.advance_early (by rw [Runtime.phase, ht, Option.map_some]) (fun _ => by rw [hready]; rfl) h
  | update hbased => exact Runtime.advance_early hbased (fun _ => rfl) h
  | write hmerged => exact Runtime.advance_early hmerged (fun he => by cases he) h
  | writeFails hmerged => exact Runtime.advance_early hmerged (fun he => by cases he) h
  | finish hwritten => exact Runtime.advance_early hwritten (fun he => by cases he) h
  | healRead | healSkips | healWrite | healFails => exact h

theorem Untouched.step {ctx : WsCtx} {cfgs : List NodeConfigResponse} {p : NodeConfigResponse} {k : Nat}
    (hne : ∀ i c, cfgs[i]? = some c → received ctx c = p → i = k) {a : Act} {r r' : Runtime}
    (hm : Moved ctx r a r') (hpush : Pushed ctx cfgs r.threads)
    (h : (∀ q ∈ r.phase k, q.early) → Untouched p r) (hearly : ∀ q ∈ r'.phase k, q.early) :
    Untouched p r' := by
  have hu := h (hm.early hearly)
  -- A handler other than `k` carries another plan.
  have hother {i : Nat} {q : Phase} {cfg : NodeConfigResponse} (hq : r.phase i = some q)
      (hplan : q.plan = some cfg) (hik : i ≠ k) : cfg ≠ p := by
    obtain ⟨c, hc, rfl⟩ := hpush.carried hq hplan
    exact fun hp => hik (hne i c hc hp)
  cases hm with
  | read | writeFails | finish | healSkips => exact ⟨hu.cfg, hu.heals, hu.written⟩
  | update hbased =>
    exact ⟨hother hbased rfl (Runtime.ne_of_early hbased rfl hearly), hu.heals, hu.written⟩
  | write hmerged =>
    refine ⟨hu.cfg, hu.heals, fun w hw => ?_⟩
    cases hw
    exact hother hmerged rfl (Runtime.ne_of_early hmerged rfl hearly)
  | healRead =>
    refine ⟨hu.cfg, fun cfg base hread => ?_, hu.written⟩
    cases hread
    exact hu.cfg
  | healWrite hheld =>
    refine ⟨hu.cfg, fun cfg base hread => (by cases hread), fun w hw => ?_⟩
    cases hw
    exact hu.heals _ _ hheld
  | healFails => exact ⟨hu.cfg, fun cfg base hread => (by cases hread), hu.written⟩

theorem heals_of_not_read {ctx : WsCtx} {P : NodeConfigResponse → Prop} {as : List Act} {r r' : Runtime}
    (hexec : exec (Act.step ctx) r as = some r') (hread : .healRead ∉ as) (h : r.Heals P) : r'.Heals P := by
  refine exec_keeps (I := Runtime.Heals P) (fun a ha s s' hstep hs => ?_) hexec h
  cases moved hstep with
  | healRead | healSkips => exact absurd ha hread
  | healWrite | healFails => exact fun cfg base hnone => by cases hnone
  | _ => exact hs

theorem untouched_after {ctx : WsCtx} {node : Node} {cfgs : List NodeConfigResponse}
    {p : NodeConfigResponse} {k : Nat} (hblank : {} ≠ p)
    (hne : ∀ i c, cfgs[i]? = some c → received ctx c = p → i = k) {as : List Act} {r : Runtime}
    (hexec : exec (Act.step ctx) (.start node cfgs) as = some r) (hearly : ∀ q ∈ r.phase k, q.early) :
    Untouched p r := by
  have hstart : Untouched p (Runtime.start node cfgs) :=
    ⟨hblank, fun _ _ hread => (by cases hread), fun _ hw => (by cases hw)⟩
  refine (exec_keeps (I := fun s => Pushed ctx cfgs s.threads ∧ ((∀ q ∈ s.phase k, q.early) → Untouched p s))
    (fun a _ s s' hstep hI => ?_) hexec ⟨.start ctx node cfgs, fun _ => hstart⟩).2 hearly
  exact ⟨hI.1.step (moved hstep), Untouched.step hne (moved hstep) hI.1 hI.2⟩

/-- A schedule that leaves the newest plan in place updates from its handler
last, and writes last what was read after that. -/
theorem lastWins_of_shows {ctx : WsCtx} {node : Node} {cfgs : List NodeConfigResponse}
    {p : NodeConfigResponse} {k : Nat} (hblank : {} ≠ p)
    (hne : ∀ i c, cfgs[i]? = some c → received ctx c = p → i = k) {as : List Act} {r : Runtime}
    (hexec : exec (Act.step ctx) (.start node cfgs) as = some r) (h : r.Shows ctx p) : LastWins k as := by
  obtain ⟨hcfg, -, base, hwritten⟩ := h
  rcases last_picked Act.updates as with hnone | ⟨before, u, later, rfl, hu, hlater⟩
  · exact absurd ((exec_latest hexec hnone).1.symm.trans hcfg) hblank
  obtain ⟨r₁, hbefore, hexec⟩ := exec_append.mp hexec
  obtain ⟨r₂, hupdate, hrest⟩ := exec_cons.mp hexec
  have hpush₁ := (Pushed.start ctx node cfgs).after hbefore
  have hpush₂ := hpush₁.step (moved hupdate)
  -- The handler that updates last is `k`, so the plan was nowhere else before.
  obtain ⟨rfl, huntouched⟩ : u = .update k ∧ Untouched p { r₂ with latestCfg := r₁.latestCfg } := by
    have hcfg₂ := (exec_latest hrest hlater).1.symm.trans hcfg
    cases moved hupdate with
    | @update i cfg base hbased =>
      obtain ⟨c, hc, rfl⟩ := hpush₁.carried hbased rfl
      obtain rfl := hne i c hc hcfg₂
      have hu := untouched_after hblank hne hbefore fun q hq => by
        rw [← Option.some.inj (hbased.symm.trans hq)]; rfl
      exact ⟨rfl, hu.cfg, hu.heals, hu.written⟩
    | _ => cases hu
  rcases last_picked Act.writes later with hnone | ⟨between, w, after, rfl, hw, hafter⟩
  · exact absurd rfl (huntouched.written _ ((exec_written hrest hnone).symm.trans hwritten))
  obtain ⟨r₃, hbetween, hrest⟩ := exec_append.mp hrest
  obtain ⟨r₄, hwrite, hrest⟩ := exec_cons.mp hrest
  have hwritten₄ := (exec_written hrest hafter).symm.trans hwritten
  refine ⟨before, between, w, after, rfl, hlater, hafter, ?_⟩
  cases moved hwrite with
  | @write i cfg base hmerged =>
    obtain ⟨c, hc, rfl⟩ := (hpush₂.after hbetween).carried hmerged rfl
    have hp : received ctx c = p := congrArg Written.plan (Option.some.inj hwritten₄)
    exact .inl (by rw [hne i c hc hp])
  | @healWrite cfg base hheld =>
    have hp : cfg = p := congrArg Written.plan (Option.some.inj hwritten₄)
    refine .inr ⟨rfl, ?_⟩
    by_contra hread
    exact heals_of_not_read hbetween hread huntouched.heals _ _ hheld hp
  | _ => cases hw

-- ---------------------------------------------------------------------------
-- Plans in the order of their versions
-- ---------------------------------------------------------------------------

def NodeConfigResponse.version (cfg : NodeConfigResponse) : Int := parseNumericVersion cfg.configVersion

theorem received_version (ctx : WsCtx) (cfg : NodeConfigResponse) : (received ctx cfg).version = cfg.version := by
  unfold received
  split <;> rfl

def Increasing (cfgs : List NodeConfigResponse) : Prop := (0 :: cfgs.map (·.version)).Pairwise (· < ·)

instance (cfgs : List NodeConfigResponse) : Decidable (Increasing cfgs) := inferInstanceAs (Decidable (List.Pairwise _ _))

theorem Increasing.last_unique {cfgs : List NodeConfigResponse} {c c' : NodeConfigResponse}
    (h : Increasing (cfgs ++ [c])) (hi : (cfgs ++ [c])[i]? = some c') (heq : c'.version = c.version) :
    i = cfgs.length := by
  obtain ⟨hlt, rfl⟩ := List.getElem?_eq_some_iff.mp hi
  rw [List.length_append, List.length_singleton] at hlt
  by_contra hne
  have hpair := List.pairwise_iff_getElem.mp (List.pairwise_cons.mp h).2 i cfgs.length
    (by simpa using hlt) (by simp) (by omega)
  rw [List.getElem_map, List.getElem_map, heq, List.getElem_concat_length rfl] at hpair
  exact absurd hpair (lt_irrefl _)

def planV (n : String) (egress : String) : NodeConfigResponse where
  id := "edge"
  configVersion := "dynamic-v" ++ n
  egressPeerID := egress

def inTurn : List Act :=
  [.read 0, .update 0, .write 0 true, .finish 0 true, .read 1, .update 1, .write 1 true, .finish 1 true]

/-- The older plan's handler is held up until the newer one's has finished. -/
def overtaken : List Act :=
  [.read 0, .read 1, .update 1, .write 1 true, .finish 1 true, .update 0, .write 0 true, .finish 0 true]

end PeerWan
