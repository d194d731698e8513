import PeerWan.VersionTexts

/-!
# Waiting for a version

`GET /api/v1/plan` with `waitVersion` looks at the counter every half second, for
twenty seconds at most, until it is past that version. A client sends the number
of the plan that it was answered last. Between two looks anything may happen to
the controller; and the request that is answered counts a plan itself.
-/

namespace PeerWan

open Lib
open CountingStore (view)

/-- `strconv.ParseInt` with its error dropped: what is no number is zero, and one out
of range is the bound that it is past. -/
def waitTarget (waitStr : String) : Int :=
  match parseInt waitStr with
  | some v => v
  | none =>
    let (negative, ds) := match waitStr.toList with
      | '-' :: ds => (true, ds)
      | '+' :: ds => (false, ds)
      | ds => (false, ds)
    if ds = [] ∨ !ds.all Char.isDigit then 0 else if negative then -2 ^ 63 else 2 ^ 63 - 1

theorem waitTarget_toString {v : Int} (hv : IsInt64 v) : waitTarget (toString v) = v := by
  rw [waitTarget, parseInt_toString, if_pos (show int64 v = v from hv)]

def halfSecond : Int := 500000000

def twentySeconds : Int := 20000000000

inductive PollPhase where
  | idle
  /-- Without a version the request does not wait. -/
  | waiting (nodeID : String) (target : Option Int) (deadline : Int)

/-- A client and its controller: `echo` is the version that the client sends next, and
`sleeps` counts how often the request under way has slept. -/
structure Poll (σ : Type) where
  controller : Controller σ
  echo : String := ""
  phase : PollPhase := .idle
  /-- Before it the request does not look. -/
  wake : Int := 0
  sleeps : Nat := 0
  answers : Nat := 0

inductive PollEvent where
  | controller (env : Env) (e : Event)
  | ask (now : Int) (auth : Credentials) (nodeID : String)
  | look (env : Env)

variable {σ : Type} [NodeStore σ]

def Response.echo (r : Response) (old : String) : String :=
  match r.body with
  | .config cfg => toString (parseNumericVersion cfg.configVersion)
  | _ => old

/-- The credentials were checked before the wait. -/
def Poll.answer (host : Host) (env : Env) (nodeID : String) (s : Poll σ) : Poll σ :=
  let (r, c) := getPlan host env { jwt := true } nodeID s.controller
  { s with
    controller := c
    echo := r.echo s.echo
    phase := .idle
    answers := s.answers + if r.code = 200 then 1 else 0 }

def PollEvent.step (host : Host) (e : PollEvent) (s : Poll σ) : Poll σ :=
  match e with
  | .controller env e => { s with controller := Event.step host (env, e) s.controller }
  | .ask now auth nodeID =>
    match s.phase with
    | .waiting .. => s
    | .idle =>
      if nodeID = "" then s
      else
        let (ok, st) := admitted auth nodeID s.controller.store
        let s := { s with controller := { s.controller with store := st } }
        if ok then
          let target := if s.echo = "" then none else some (waitTarget s.echo)
          { s with phase := .waiting nodeID target (now + twentySeconds), wake := now, sleeps := 0 }
        else s
  | .look env =>
    match s.phase with
    | .idle => s
    | .waiting nodeID none _ => s.answer host env nodeID
    | .waiting nodeID (some target) deadline =>
      if env.now < deadline ∧ s.controller.planVersion ≤ target then
        { s with wake := env.now + halfSecond, sleeps := s.sleeps + 1 }
      else s.answer host env nodeID

-- ---------------------------------------------------------------------------
-- How long a request waits
-- ---------------------------------------------------------------------------

/-- Nobody looks before it has slept. -/
def Poll.Paced (s : Poll σ) : PollEvent → Prop
  | .look env => s.wake ≤ env.now
  | _ => True

/-- Each sleep takes half a second of the twenty, and the last one began in time. -/
def Poll.OnTime (s : Poll σ) : Prop :=
  match s.phase with
  | .idle => s.sleeps ≤ 40
  | .waiting _ _ deadline =>
    deadline - twentySeconds + s.sleeps * halfSecond ≤ s.wake ∧ (s.sleeps = 0 ∨ s.wake < deadline + halfSecond)

omit [NodeStore σ] in
theorem Poll.OnTime.sleeps_le {s : Poll σ} (h : s.OnTime) : s.sleeps ≤ 40 := by
  unfold Poll.OnTime at h
  split at h
  · exact h
  · simp only [twentySeconds, halfSecond] at h
    omega

theorem Poll.OnTime.answer {s : Poll σ} (h : s.OnTime) (host : Host) (env : Env) (nodeID : String) :
    (s.answer host env nodeID).OnTime := h.sleeps_le

theorem Poll.OnTime.step {s : Poll σ} {e : PollEvent} (h : s.OnTime) (hpaced : s.Paced e) (host : Host) :
    (e.step host s).OnTime := by
  cases e with
  | controller env e => exact h
  | ask now auth nodeID =>
    rw [PollEvent.step]
    cases hphase : s.phase with
    | waiting nodeID target deadline => exact h
    | idle =>
      dsimp only
      split
      · exact h
      · split
        · exact ⟨by simp [twentySeconds], .inl rfl⟩
        · simpa [Poll.OnTime, hphase] using h.sleeps_le
  | look env =>
    have hwake : s.wake ≤ env.now := hpaced
    rw [PollEvent.step]
    cases hphase : s.phase with
    | idle => exact h
    | waiting nodeID target deadline =>
      cases target with
      | none => exact h.answer host env nodeID
      | some target =>
        dsimp only
        split
        next hsleeps =>
          have hold := h
          simp only [Poll.OnTime, hphase, twentySeconds, halfSecond] at hold
          simp only [Poll.OnTime, twentySeconds, halfSecond]
          omega
        next => exact h.answer host env nodeID

/-- However the counter moves, a request that looks only after it has slept has slept
forty times at most, so it is answered by its 41st look. -/
theorem poll_bounded (host : Host) (c : Controller σ) (echo : String) (es : List PollEvent)
    (hpaced : Along (PollEvent.step host) Poll.Paced { controller := c, echo := echo } es) :
    Throughout (PollEvent.step host) (fun s => s.sleeps ≤ 40 ∧
      ∀ env, s.sleeps = 40 → s.wake ≤ env.now → (PollEvent.step host (.look env) s).phase = .idle)
      { controller := c, echo := echo } es := by
  have hstart : Poll.OnTime ({ controller := c, echo := echo } : Poll σ) := Nat.zero_le 40
  refine (throughout_of_along (fun s e h hp => h.step hp host) hstart hpaced).mono fun s h => ⟨h.sleeps_le, ?_⟩
  intro env hforty hwake
  rw [PollEvent.step]
  cases hphase : s.phase with
  | idle => exact hphase
  | waiting nodeID target deadline =>
    simp only [Poll.OnTime, hphase, hforty, twentySeconds, halfSecond] at h
    cases target with
    | none => rfl
    | some target =>
      dsimp only
      rw [if_neg]
      · rfl
      · omega

/-- A request for the sixth version of a controller that has none yet sleeps twice. -/
theorem poll_bounded_new_controller : Throughout (PollEvent.step Host.sample) (fun s => s.sleeps ≤ 40 ∧
      ∀ env, s.sleeps = 40 → s.wake ≤ env.now → (PollEvent.step Host.sample (.look env) s).phase = .idle)
    { controller := start MemoryStore.new, echo := "5" }
    [.ask 0 { jwt := true } "a", .look {}, .look { now := halfSecond }] := by
  refine poll_bounded Host.sample (start MemoryStore.new) "5" _ ?_
  simp only [along_cons, along_nil, Poll.Paced]
  decide +kernel

-- ---------------------------------------------------------------------------
-- A client that echoes
-- ---------------------------------------------------------------------------

/-- The event neither wraps the counter nor moves it back. -/
structure StaysAhead [CountingStore σ] (c : Controller σ) (e : Env × Event) : Prop where
  room : c.planVersion + (view c.store).nodeCount + 2 < 2 ^ 63
  rollback : ∀ auth nodeID version, e.2 = .request (.rollback auth (some (nodeID, version))) →
    c.planVersion ≤ version
  restart : e.2 ≠ .restart

section

variable [CountingStore σ] {c : Controller σ} {host : Host}

theorem issued_le_after (s : Counters) (ops : List CounterOp) : s.issued.length ≤ (s.after ops).issued.length := by
  induction ops generalizing s with
  | nil => exact le_refl _
  | cons op ops ih =>
    refine le_trans ?_ (ih _)
    cases op <;> simp [CounterOp.apply]

theorem plan_save {s : Counters} (h : 0 ≤ s.plan) (hroom : s.plan + 1 < 2 ^ 63) :
    (CounterOp.save.apply s).plan = s.plan + 1 := int64_of_bounds (by omega) hroom

theorem plan_bump {s : Counters} (h : 0 ≤ s.plan) (hroom : s.plan + 1 < 2 ^ 63) :
    (CounterOp.bump.apply s).plan = s.plan + 1 := int64_of_bounds (by omega) hroom

theorem plan_saves {s : Counters} (h : 0 ≤ s.plan) (k : Nat) (hroom : s.plan + k < 2 ^ 63) :
    (s.after (.replicate k .save)).plan = s.plan + k := by
  induction k generalizing s with
  | zero => simp
  | succ k ih =>
    have hsave := plan_save h (by omega)
    rw [List.replicate_succ, Counters.after_cons, ih (by omega) (by omega), hsave]
    omega

/-- Apart from a rollback, the operations of a request take the counter forward. -/
theorem plan_le_after {s : Counters} {n : Nat} {r : Request} {ok : Bool} {ops : List CounterOp}
    (hops : RequestOps n r ok ops) (h : 0 ≤ s.plan) (hroom : s.plan + n + 2 < 2 ^ 63)
    (hback : ∀ auth nodeID version, r = .rollback auth (some (nodeID, version)) → s.plan ≤ version) :
    s.plan ≤ (s.after ops).plan := by
  cases hops with
  | refused => exact le_refl _
  | unlisted => exact le_refl _
  | @register k _ _ hk =>
    have hsaves := plan_saves h k (by omega)
    rw [Counters.after_append]
    have hbump := plan_bump (s := s.after (.replicate k .save)) (by omega) (by omega)
    exact le_trans (by omega) hbump.ge
  | prepare => exact le_trans (by omega) (plan_bump h (by omega)).ge
  | policy => exact le_trans (by omega) (plan_bump h (by omega)).ge
  | health =>
    have hsave := plan_save h (by omega)
    have hbump := plan_bump (s := CounterOp.save.apply s) (by omega) (by omega)
    exact le_trans (by omega) hbump.ge
  | plan => exact le_trans (by omega) (plan_save h (by omega)).ge
  | mismatch => exact le_refl _
  | @rollback auth nodeID version => exact hback auth nodeID version rfl

theorem planVersion_le_step {env : Env} {e : Event} (hkeeps : StaysAhead c (env, e)) (h : 0 ≤ c.planVersion) :
    c.planVersion ≤ (Event.step host (env, e) c).planVersion := by
  have hroom := hkeeps.room
  have hrecomputed : c.planVersion ≤ (recomputeAllPlans host env 1 c).2.planVersion ∧
      (recomputeAllPlans host env 1 c).2.planVersion + 1 < 2 ^ 63 := by
    rcases recomputeAllPlans_counters host env 1 c with ⟨e, -, hm⟩ | ⟨n, hn, -, hm⟩
    · have hplan := congrArg Counters.plan hm
      simp only [Controller.counters] at hplan
      omega
    · have hsaves := plan_saves (s := c.counters) h n (by simp only [Controller.counters]; omega)
      have hplan := congrArg Counters.plan hm
      rw [hsaves] at hplan
      simp only [Controller.counters] at hplan
      omega
  cases e with
  | request r =>
    obtain ⟨ops, hops, hm⟩ := serve_moves host env r c
    have hplan := plan_le_after hops (s := c.counters) h hroom
      fun auth nodeID version hr => hkeeps.rollback auth nodeID version (congrArg Event.request hr)
    rw [← hm] at hplan
    exact hplan
  | tick => exact hrecomputed.1
  | watch =>
    have hbump := plan_bump (s := (recomputeAllPlans host env 1 c).2.counters) (h.trans hrecomputed.1) hrecomputed.2
    rw [← bumpPlanVersion_counters] at hbump
    exact hrecomputed.1.trans (le_trans (Int.le_add_one (le_refl _)) hbump.ge)
  | restart => exact absurd rfl hkeeps.restart

theorem saved_le_step (env : Env) (e : Event) (c : Controller σ) :
    c.saved.length ≤ (Event.step host (env, e) c).saved.length := by
  have hissued (ops : List CounterOp) {c' : Controller σ} (hm : c'.counters = c.counters.after ops) :
      c.saved.length ≤ c'.saved.length := by
    have hle := issued_le_after c.counters ops
    rw [← hm] at hle
    simpa [Controller.counters] using hle
  have hrecomputed : c.saved.length ≤ (recomputeAllPlans host env 1 c).2.saved.length := by
    rcases recomputeAllPlans_counters host env 1 c with ⟨e, -, hm⟩ | ⟨n, -, -, hm⟩
    · exact hissued [] hm
    · exact hissued _ hm
  cases e with
  | request r =>
    obtain ⟨ops, -, hm⟩ := serve_moves host env r c
    exact hissued ops hm
  | tick => exact hrecomputed
  | watch => exact hrecomputed
  | restart => exact le_refl _

/-- The answer is named after the counter, which it leaves one further on. -/
theorem getPlan_counts (host : Host) (env : Env) (auth : Credentials) (nodeID : String) (c : Controller σ) :
    ((getPlan host env auth nodeID c).1.code = 200 ∧
      (∃ cfg, (getPlan host env auth nodeID c).1.body = .config cfg ∧
        cfg.configVersion = planConfigVersion env c.planVersion) ∧
      (getPlan host env auth nodeID c).2.counters = CounterOp.save.apply c.counters) ∨
    ((getPlan host env auth nodeID c).1.code ≠ 200 ∧
      (∃ text, (getPlan host env auth nodeID c).1.body = .error text) ∧
      (getPlan host env auth nodeID c).2.counters = c.counters) := by
  obtain ⟨ops, hops, hm⟩ := getPlan_moves host env auth nodeID c
  generalize hcode : decide ((getPlan host env auth nodeID c).1.code = 200) = ok at hops
  have hbody : (getPlan host env auth nodeID c).1.code = 200 ∧ (∃ cfg,
      (getPlan host env auth nodeID c).1.body = .config cfg ∧
        cfg.configVersion = planConfigVersion env c.planVersion) ∨
      (getPlan host env auth nodeID c).1.code ≠ 200 ∧
        ∃ text, (getPlan host env auth nodeID c).1.body = .error text := by
    unfold getPlan
    split
    · exact .inr ⟨by simp, _, rfl⟩
    split
    · exact .inr ⟨by simp, _, rfl⟩
    · split
      · exact .inr ⟨by simp, _, rfl⟩
      · exact .inl ⟨rfl, _, rfl, rfl⟩
  rcases hbody with ⟨hok, hconfig⟩ | ⟨hrefused, herror⟩
  · rw [decide_eq_true hok] at hcode
    subst hcode
    cases hops with
    | plan => exact .inl ⟨hok, hconfig, hm⟩
  · rw [decide_eq_false hrefused] at hcode
    subst hcode
    cases hops with
    | refused => exact .inr ⟨hrefused, herror, hm⟩

/-- Nothing takes the counter back, and the clock is printed as a time. -/
def Poll.Keeps (s : Poll σ) : PollEvent → Prop
  | .controller env e => StaysAhead s.controller (env, e)
  | .ask .. => True
  | .look env => env.reading.Printed ∧ s.controller.planVersion + 1 < 2 ^ 63

/-- What the client sends is a version that the counter has left behind. -/
structure Poll.Echoing (n : Nat) (s : Poll σ) : Prop where
  nonneg : 0 ≤ s.controller.planVersion
  echo : s.echo = "" ∨ ∃ v, s.echo = toString v ∧ IsInt64 v ∧ v < s.controller.planVersion
  target : ∀ nodeID t deadline, s.phase = .waiting nodeID (some t) deadline → t < s.controller.planVersion
  sleeps : s.sleeps = 0
  answers : n + s.answers ≤ s.controller.saved.length

theorem parseNumericVersion_answer {env : Env} (ht : env.reading.Printed) {v : Int} (h : 0 ≤ v) (hv : IsInt64 v) :
    parseNumericVersion (planConfigVersion env v) = v := by
  rcases lt_or_eq_of_le h with hpos | rfl
  · exact parseNumericVersion_planConfigVersion env hpos hv
  · rw [planConfigVersion, if_neg (lt_irrefl _), parseNumericVersion, if_neg]
    rintro ⟨rest, hrest⟩
    refine numbered_ne_printed ht (String.ofList rest) (String.toList_inj.mp ?_)
    have hlist : (String.ofList rest).toList = rest := String.toList_ofList
    rw [String.toList_append, hlist]
    exact hrest

variable {n : Nat} {s : Poll σ} {e : PollEvent}

theorem Poll.Echoing.answer (h : s.Echoing n) {env : Env} (ht : env.reading.Printed)
    (hroom : s.controller.planVersion + 1 < 2 ^ 63) (nodeID : String) : (s.answer host env nodeID).Echoing n := by
  have hnonneg := h.nonneg
  rcases getPlan_counts host env { jwt := true } nodeID s.controller with
    ⟨hok, ⟨cfg, hbody, hversion⟩, hm⟩ | ⟨hrefused, ⟨text, hbody⟩, hm⟩
  · have hplan : (getPlan host env { jwt := true } nodeID s.controller).2.planVersion = s.controller.planVersion + 1 :=
      (congrArg Counters.plan hm).trans (plan_save hnonneg hroom)
    have hsaved : (getPlan host env { jwt := true } nodeID s.controller).2.saved.length =
        s.controller.saved.length + 1 := by
      have hissued := congrArg (fun m : Counters => m.issued.length) hm
      simpa [Controller.counters, CounterOp.apply] using hissued
    refine ⟨?_, .inr ⟨s.controller.planVersion, ?_, ?_, ?_⟩, by rintro _ _ _ ⟨⟩, h.sleeps, ?_⟩
    · exact hplan ▸ by omega
    · rw [Poll.answer]
      dsimp only
      rw [Response.echo, hbody]
      dsimp only
      rw [hversion, parseNumericVersion_answer ht hnonneg (int64_of_bounds hnonneg (by omega))]
    · exact int64_of_bounds hnonneg (by omega)
    · exact hplan ▸ by omega
    · have hanswers := h.answers
      simp only [Poll.answer, if_pos hok, hsaved]
      omega
  · have hplan : (getPlan host env { jwt := true } nodeID s.controller).2.planVersion = s.controller.planVersion :=
      congrArg Counters.plan hm
    have hsaved : (getPlan host env { jwt := true } nodeID s.controller).2.saved.length =
        s.controller.saved.length := by
      have hissued := congrArg (fun m : Counters => m.issued.length) hm
      simpa [Controller.counters] using hissued
    refine ⟨hplan ▸ hnonneg, ?_, by rintro _ _ _ ⟨⟩, h.sleeps, ?_⟩
    · rw [Poll.answer]
      dsimp only
      rw [Response.echo, hbody, hplan]
      exact h.echo
    · simp only [Poll.answer, if_neg hrefused, hsaved]
      exact h.answers

theorem Poll.Echoing.step (h : s.Echoing n) (hkeeps : s.Keeps e) : (e.step host s).Echoing n := by
  cases e with
  | controller env e =>
    have hplan : s.controller.planVersion ≤ (Event.step host (env, e) s.controller).planVersion :=
      planVersion_le_step hkeeps h.nonneg
    refine ⟨h.nonneg.trans hplan, ?_, fun nodeID t deadline hphase => ?_, h.sleeps, ?_⟩
    · refine h.echo.imp_right ?_
      rintro ⟨v, hv, hint, hlt⟩
      exact ⟨v, hv, hint, hlt.trans_le hplan⟩
    · exact (h.target nodeID t deadline hphase).trans_le hplan
    · exact h.answers.trans (saved_le_step env e s.controller)
  | ask now auth nodeID =>
    rw [PollEvent.step]
    cases hphase : s.phase with
    | waiting nodeID' target deadline => exact h
    | idle =>
      dsimp only
      split
      · exact h
      · split
        · refine ⟨h.nonneg, h.echo, ?_, rfl, h.answers⟩
          rintro nodeID' t deadline hwaiting
          injection hwaiting with _ htarget _
          split at htarget
          next => cases htarget
          next hecho =>
            obtain ⟨v, hv, hint, hlt⟩ := h.echo.resolve_left hecho
            rw [hv, waitTarget_toString hint] at htarget
            exact Option.some.inj htarget ▸ hlt
        · exact ⟨h.nonneg, h.echo, by rintro _ _ _ ⟨⟩, h.sleeps, h.answers⟩
  | look env =>
    obtain ⟨ht, hroom⟩ := hkeeps
    rw [PollEvent.step]
    cases hphase : s.phase with
    | idle => exact h
    | waiting nodeID target deadline =>
      cases target with
      | none => exact h.answer ht hroom nodeID
      | some target =>
        have hpast := h.target nodeID target deadline hphase
        dsimp only
        rw [if_neg (by omega)]
        exact h.answer ht hroom nodeID

end

/-- As long as nothing takes the counter back, a client that sends the version it was
answered last never waits: its own request has moved the counter past that version. So
each of its requests that is answered stores one more plan at once. -/
theorem echoing_client_never_waits [CountingStore σ] (host : Host) (c : Controller σ) (h : 0 ≤ c.planVersion)
    (es : List PollEvent) (hkeeps : Along (PollEvent.step host) Poll.Keeps { controller := c } es) :
    Throughout (PollEvent.step host) (fun s => s.sleeps = 0 ∧ c.saved.length + s.answers ≤ s.controller.saved.length)
      { controller := c } es := by
  have hstart : Poll.Echoing c.saved.length ({ controller := c } : Poll σ) :=
    ⟨h, .inl rfl, by rintro _ _ _ ⟨⟩, rfl, le_refl _⟩
  exact (throughout_of_along (fun s e h hk => h.step hk) hstart hkeeps).mono fun s h => ⟨h.sleeps, h.answers⟩

/-- Two requests, the second of which names the version that the first was answered. -/
theorem echoing_client_never_waits_twice : Throughout (PollEvent.step Host.sample)
    (fun s => s.sleeps = 0 ∧ (start MemoryStore.new).saved.length + s.answers ≤ s.controller.saved.length)
    { controller := start MemoryStore.new }
    [.ask 0 { jwt := true } "a", .look { nowText := "2024" },
      .controller {} (.request (.plan { jwt := true } "b")), .ask 1 { jwt := true } "a",
      .look { nowText := "2024" }] := by
  have hprinted : Reading.Printed (Env.reading { nowText := "2024" }) := ⟨'2', ['0', '2', '4'], rfl, rfl⟩
  refine echoing_client_never_waits Host.sample (start MemoryStore.new) (le_refl 0) _ ?_
  simp only [along_cons, along_nil, Poll.Keeps, and_true, true_and]
  refine ⟨⟨hprinted, by decide +kernel⟩, ⟨by decide +kernel, ?_, ?_⟩, hprinted, by decide +kernel⟩
  · rintro auth nodeID version ⟨⟩
  · rintro ⟨⟩

end PeerWan
