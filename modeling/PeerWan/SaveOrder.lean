import Mathlib.Order.Bounds.Basic
import PeerWan.Controller.Effects
import PeerWan.Lib.Runs
import PeerWan.Lib.Window

/-!
# Concurrent saves of one node

`savePlanWithRules` runs in every HTTP handler that changes a plan and in the
leader's ticker. It takes a number from `planVersion`, and then publishes the
plan with that number in three places: the store, the global version, and the
agent's connection. Nothing holds the four steps together, so calls for one
node may overtake each other after they have their numbers.
-/

namespace PeerWan

open Lib

-- ---------------------------------------------------------------------------
-- Moves
-- ---------------------------------------------------------------------------

structure SaveArgs where
  env : Env := {}
  node : Node
  peers : List Peer := []
  rules : List PolicyRule := []

/-- Where a call stands, with its number once it has one. -/
inductive SaveStage where
  | called
  | numbered (version : Int)
  | saved (version : Int)
  | published (version : Int)
  | sent (version : Int)
  deriving DecidableEq, Repr

structure SaveCall where
  args : SaveArgs
  stage : SaveStage := .called

def SaveArgs.plan (host : Host) (a : SaveArgs) (version : Int) : Plan :=
  planOf host a.env version (withListenPort a.node) a.peers a.rules

/-- `pushed` has the version of each plan that was sent: the message itself has
it only as text, and no code reads it there. -/
structure Saves (σ : Type) where
  ctl : Controller σ
  calls : List SaveCall
  pushed : List Int := []

inductive SaveStep where
  | addInt64
  | savePlan
  | setGlobalPlanVersion
  | send
  deriving DecidableEq, Repr

structure SaveMove where
  step : SaveStep
  call : Nat
  deriving DecidableEq, Repr

section

variable {σ : Type} [NodeStore σ]

def Saves.advance (s : Saves σ) (i : Nat) (stage : SaveStage) : Saves σ :=
  { s with calls := s.calls.modify i fun call => { call with stage := stage } }

def Saves.move (host : Host) (m : SaveMove) (s : Saves σ) : Option (Saves σ) :=
  match m.step, s.calls[m.call]? with
  | .addInt64, some { stage := .called, .. } =>
    let version := int64 (s.ctl.planVersion + 1)
    some { s.advance m.call (.numbered version) with ctl := { s.ctl with planVersion := version } }
  | .savePlan, some { args := a, stage := .numbered version } =>
    let p := a.plan host version
    let (_, st) := NodeStore.savePlan p s.ctl.store
    some { s.advance m.call (.saved version) with ctl := { s.ctl with store := st, saved := s.ctl.saved ++ [p] } }
  | .setGlobalPlanVersion, some { stage := .saved version, .. } =>
    let (_, st) := NodeStore.setGlobalPlanVersion version s.ctl.store
    some { s.advance m.call (.published version) with ctl := { s.ctl with store := st } }
  | .send, some { args := a, stage := .published version } =>
    let node := withListenPort a.node
    let (settings, st) := loadSettingsOrDefault s.ctl.store
    let (interval, st) := diagIntervalSeconds host st
    let cfg := configOf node (a.plan host version).configVersion a.peers a.rules settings.geoIP interval
      "ws plan push"
    some { s.advance m.call (.sent version) with
      ctl := { s.ctl with
        store := st
        sent := s.ctl.sent ++ [{ type := "plan", nodeID := node.id, payload := .plan cfg }] }
      pushed := s.pushed ++ [version] }
  | _, _ => none

def Saves.start (ctl : Controller σ) (args : List SaveArgs) : Saves σ where
  ctl := ctl
  calls := args.map fun a => { args := a }

/-- The number of a call that is through. -/
def SaveStage.version? : SaveStage → Option Int
  | .sent version => some version
  | _ => none

def Saves.Finished (s : Saves σ) : Prop := ∀ call ∈ s.calls, call.stage.version?.isSome

def Saves.versions (s : Saves σ) : Set Int := {v | ∃ call ∈ s.calls, call.stage.version? = some v}

/-- Undisturbed, the four moves are the function. -/
theorem moves_savePlanWithRules (host : Host) {s : Saves σ} (hi : s.calls[i]? = some { args := a }) :
    ∃ version, exec (Saves.move host) s [⟨.addInt64, i⟩, ⟨.savePlan, i⟩, ⟨.setGlobalPlanVersion, i⟩, ⟨.send, i⟩] =
      some { s.advance i (.sent version) with
        ctl := savePlanWithRules host a.env a.node a.peers a.rules s.ctl
        pushed := s.pushed ++ [version] } := by
  refine ⟨int64 (s.ctl.planVersion + 1), ?_⟩
  simp [exec, Saves.move, hi, Saves.advance, List.modify_modify_eq, Function.comp_def, SaveArgs.plan,
    savePlanWithRules]

end

-- ---------------------------------------------------------------------------
-- The newest plan in four places
-- ---------------------------------------------------------------------------

/-- The highest number is that of the current plan, of the global version and
of the plan sent last, and the history is in order. -/
structure Saves.Newest (host : Host) (nodeID : String) (s : Saves MemoryStore) : Prop where
  current : ∃ call ∈ s.calls, ∃ v, call.stage.version? = some v ∧ IsGreatest s.versions v ∧
    (NodeStore.getPlan nodeID s.ctl.store).1 = .ok (some (call.args.plan host v))
  history : ∀ limit,
    ((Reply.getD (NodeStore.listPlanHistory nodeID limit s.ctl.store).1 []).map (·.version)).Pairwise (· < ·)
  stored : ∃ v, (NodeStore.getGlobalPlanVersion s.ctl.store).1 = .ok v ∧ IsGreatest s.versions v
  pushed : ∃ v, s.pushed.getLast? = some v ∧ IsGreatest s.versions v

def order (step : SaveStep) (ms : List SaveMove) : List Nat :=
  (ms.filter (·.step = step)).map (·.call)

/-- The number a call gets by its place among those that ask for one. -/
def number (planVersion : Int) (ms : List SaveMove) (i : Nat) : Int :=
  int64 (planVersion + (order .addInt64 ms).idxOf i + 1)

/-- The call that comes last has the highest number. -/
def EndsHighest (number : Nat → Int) (order : List Nat) : Prop :=
  ∃ i, order.getLast? = some i ∧ ∀ j ∈ order, number j ≤ number i

/-- No call overtakes a call of a lower number where it shows: among the plans
that the history keeps, and at the end of each of the three steps. -/
structure InOrder (number : Nat → Int) (old : List Int) (ms : List SaveMove) : Prop where
  saved : ((order .savePlan ms).rtake 20).Pairwise fun i j => number i < number j
  older : (old.rtake (20 - (order .savePlan ms).length)).Pairwise (· < ·)
  resumed : ∀ v ∈ old.rtake (20 - (order .savePlan ms).length), ∀ i ∈ (order .savePlan ms).rtake 20, v < number i
  save : EndsHighest number (order .savePlan ms)
  publish : EndsHighest number (order .setGlobalPlanVersion ms)
  send : EndsHighest number (order .send ms)

-- ---------------------------------------------------------------------------
-- Where a schedule leads
-- ---------------------------------------------------------------------------

def stageAt (c₀ : Int) (ms : List SaveMove) (i : Nat) : SaveStage :=
  if i ∉ order .addInt64 ms then .called
  else if i ∉ order .savePlan ms then .numbered (number c₀ ms i)
  else if i ∉ order .setGlobalPlanVersion ms then .saved (number c₀ ms i)
  else if i ∉ order .send ms then .published (number c₀ ms i)
  else .sent (number c₀ ms i)

section

variable {c₀ v : Int} {ms : List SaveMove} {i : Nat}

theorem order_append (step : SaveStep) (ms : List SaveMove) (m : SaveMove) :
    order step (ms ++ [m]) = order step ms ++ if m.step = step then [m.call] else [] := by
  by_cases h : m.step = step <;> simp [order, h]

theorem number_append (c₀ : Int) (h : i ∈ order .addInt64 ms) (m : SaveMove) :
    number c₀ (ms ++ [m]) i = number c₀ ms i := by
  rw [number, order_append, List.idxOf_append_of_mem h, number]

theorem number_last (c₀ : Int) (h : i ∉ order .addInt64 ms) :
    number c₀ (ms ++ [⟨.addInt64, i⟩]) i = int64 (c₀ + (order .addInt64 ms).length + 1) := by
  rw [number, order_append, List.idxOf_append_of_notMem h]
  simp

theorem stageAt_append_ne {m : SaveMove} (h : i ≠ m.call) (c₀ : Int) :
    stageAt c₀ (ms ++ [m]) i = stageAt c₀ ms i := by
  have hmem : ∀ step, i ∈ order step (ms ++ [m]) ↔ i ∈ order step ms := by
    intro step
    rw [order_append]
    split <;> simp [h]
  by_cases hi : i ∈ order .addInt64 ms
  · simp [stageAt, hmem, hi, number_append]
  · simp [stageAt, hmem, hi]

theorem stageAt_called (h : stageAt c₀ ms i = .called) : i ∉ order .addInt64 ms := by
  unfold stageAt at h
  split_ifs at h with hi
  exact hi

theorem stageAt_numbered (h : stageAt c₀ ms i = .numbered v) :
    i ∈ order .addInt64 ms ∧ i ∉ order .savePlan ms ∧ v = number c₀ ms i := by
  unfold stageAt at h
  split_ifs at h with h₁ h₂
  exact ⟨h₁, h₂, (SaveStage.numbered.inj h).symm⟩

theorem stageAt_saved (h : stageAt c₀ ms i = .saved v) :
    i ∈ order .savePlan ms ∧ i ∉ order .setGlobalPlanVersion ms ∧ v = number c₀ ms i := by
  unfold stageAt at h
  split_ifs at h with h₁ h₂ h₃
  exact ⟨h₂, h₃, (SaveStage.saved.inj h).symm⟩

theorem stageAt_published (h : stageAt c₀ ms i = .published v) :
    i ∈ order .setGlobalPlanVersion ms ∧ i ∉ order .send ms ∧ v = number c₀ ms i := by
  unfold stageAt at h
  split_ifs at h with h₁ h₂ h₃ h₄
  exact ⟨h₃, h₄, (SaveStage.published.inj h).symm⟩

theorem version?_stageAt : (stageAt c₀ ms i).version? = some v ↔
    (∀ step, i ∈ order step ms) ∧ v = number c₀ ms i := by
  unfold stageAt
  constructor
  · intro h
    split_ifs at h with h₁ h₂ h₃ h₄ <;> simp only [SaveStage.version?, reduceCtorEq, Option.some.injEq] at h
    refine ⟨fun step => ?_, h.symm⟩
    cases step with
    | addInt64 => exact h₁
    | savePlan => exact h₂
    | setGlobalPlanVersion => exact h₃
    | send => exact h₄
  · rintro ⟨h, rfl⟩
    simp [h, SaveStage.version?]

end

structure Stepwise (ms : List SaveMove) : Prop where
  save : ∀ i ∈ order .savePlan ms, i ∈ order .addInt64 ms
  publish : ∀ i ∈ order .setGlobalPlanVersion ms, i ∈ order .savePlan ms
  send : ∀ i ∈ order .send ms, i ∈ order .setGlobalPlanVersion ms

theorem Stepwise.published_numbered (h : Stepwise ms) :
    ∀ i ∈ order .setGlobalPlanVersion ms, i ∈ order .addInt64 ms :=
  fun i hi => h.save i (h.publish i hi)

theorem Stepwise.sent_numbered (h : Stepwise ms) : ∀ i ∈ order .send ms, i ∈ order .addInt64 ms :=
  fun i hi => h.published_numbered i (h.send i hi)

structure Saves.After (host : Host) (nodeID : String) (s₀ : Saves MemoryStore) (ms : List SaveMove)
    (s : Saves MemoryStore) : Prop where
  stepwise : Stepwise ms
  known : ∀ i ∈ order .addInt64 ms, ∃ call, s₀.calls[i]? = some call
  calls : ∀ i, s.calls[i]? =
    (s₀.calls[i]?).map fun call : SaveCall => { call with stage := stageAt s₀.ctl.planVersion ms i }
  counter : int64 (s.ctl.planVersion + 1) = int64 (s₀.ctl.planVersion + (order .addInt64 ms).length + 1)
  current : ∀ i call, (order .savePlan ms).getLast? = some i → s₀.calls[i]? = some call →
    s.ctl.store.plans nodeID = some (call.args.plan host (number s₀.ctl.planVersion ms i))
  history : (s.ctl.store.history nodeID).map (·.version) =
    keep 20 ((s₀.ctl.store.history nodeID).map (·.version))
      ((order .savePlan ms).map (number s₀.ctl.planVersion ms))
  stored : ∀ i, (order .setGlobalPlanVersion ms).getLast? = some i →
    s.ctl.store.globalPlanVersion = number s₀.ctl.planVersion ms i
  pushed : s.pushed = (order .send ms).map (number s₀.ctl.planVersion ms)

/-- What a move does to a `MemoryStore`, and where it finds its call. -/
inductive Saves.Moved (host : Host) (s : Saves MemoryStore) : SaveMove → Saves MemoryStore → Prop
  | addInt64 : s.calls[i]? = some ⟨a, .called⟩ → Moved host s ⟨.addInt64, i⟩
      { s.advance i (.numbered (int64 (s.ctl.planVersion + 1))) with
        ctl := { s.ctl with planVersion := int64 (s.ctl.planVersion + 1) } }
  | savePlan : s.calls[i]? = some ⟨a, .numbered v⟩ → Moved host s ⟨.savePlan, i⟩
      { s.advance i (.saved v) with
        ctl := { s.ctl with
          store := s.ctl.store.savePlan (a.plan host v)
          saved := s.ctl.saved ++ [a.plan host v] } }
  | setGlobalPlanVersion : s.calls[i]? = some ⟨a, .saved v⟩ → Moved host s ⟨.setGlobalPlanVersion, i⟩
      { s.advance i (.published v) with
        ctl := { s.ctl with store := { s.ctl.store with globalPlanVersion := v } } }
  | send (message : WSMessage) : s.calls[i]? = some ⟨a, .published v⟩ → Moved host s ⟨.send, i⟩
      { s.advance i (.sent v) with
        ctl := { s.ctl with sent := s.ctl.sent ++ [message] }
        pushed := s.pushed ++ [v] }

section

variable {host : Host} {nodeID : String} {s₀ s s' : Saves MemoryStore} {ms : List SaveMove} {i : Nat}

theorem Saves.After.advance (h : s₀.After host nodeID ms s) {m : SaveMove} {stage : SaveStage}
    (hstage : stageAt s₀.ctl.planVersion (ms ++ [m]) m.call = stage) :
    ∀ i, (s.advance m.call stage).calls[i]? = (s₀.calls[i]?).map
      fun call : SaveCall => { call with stage := stageAt s₀.ctl.planVersion (ms ++ [m]) i } := by
  intro i
  rw [Saves.advance, List.getElem?_modify, h.calls]
  by_cases hi : i = m.call
  · subst hi
    simp [hstage, Function.comp_def]
  · simp [stageAt_append_ne hi, Ne.symm hi]

theorem Saves.After.call (h : s₀.After host nodeID ms s) {a : SaveArgs} {stage : SaveStage}
    (hi : s.calls[i]? = some ⟨a, stage⟩) :
    stageAt s₀.ctl.planVersion ms i = stage ∧ ∃ call, s₀.calls[i]? = some call ∧ call.args = a := by
  rw [h.calls] at hi
  obtain ⟨call, hcall, heq⟩ := Option.map_eq_some_iff.mp hi
  exact ⟨congrArg SaveCall.stage heq, call, hcall, congrArg SaveCall.args heq⟩

theorem map_number_append (c₀ : Int) {l : List Nat} (h : ∀ i ∈ l, i ∈ order .addInt64 ms) (m : SaveMove) :
    l.map (number c₀ (ms ++ [m])) = l.map (number c₀ ms) :=
  List.map_congr_left fun i hi => number_append c₀ (h i hi) m

theorem Saves.moved {m : SaveMove} (h : s.move host m = some s') : s.Moved host m s' := by
  obtain ⟨step, i⟩ := m
  simp only [Saves.move] at h
  split at h
  next hi => cases h; exact .addInt64 hi
  next hi => cases h; exact .savePlan hi
  next hi => cases h; exact .setGlobalPlanVersion hi
  next hi => cases h; exact .send _ hi
  next => cases h

theorem Saves.After.current_append (h : s₀.After host nodeID ms s) {m : SaveMove} (hm : m.step ≠ .savePlan) :
    ∀ i call, (order .savePlan (ms ++ [m])).getLast? = some i → s₀.calls[i]? = some call →
      s.ctl.store.plans nodeID = some (call.args.plan host (number s₀.ctl.planVersion (ms ++ [m]) i)) := by
  intro i call hi hcall
  rw [order_append, if_neg hm, List.append_nil] at hi
  rw [number_append _ (h.stepwise.save i (List.mem_of_getLast? hi))]
  exact h.current i call hi hcall

theorem Saves.After.history_append (h : s₀.After host nodeID ms s) {m : SaveMove} (hm : m.step ≠ .savePlan) :
    (s.ctl.store.history nodeID).map (·.version) =
      keep 20 ((s₀.ctl.store.history nodeID).map (·.version))
        ((order .savePlan (ms ++ [m])).map (number s₀.ctl.planVersion (ms ++ [m]))) := by
  rw [order_append, if_neg hm, List.append_nil, map_number_append _ h.stepwise.save]
  exact h.history

theorem Saves.After.stored_append (h : s₀.After host nodeID ms s) {m : SaveMove}
    (hm : m.step ≠ .setGlobalPlanVersion) : ∀ i, (order .setGlobalPlanVersion (ms ++ [m])).getLast? = some i →
      s.ctl.store.globalPlanVersion = number s₀.ctl.planVersion (ms ++ [m]) i := by
  intro i hi
  rw [order_append, if_neg hm, List.append_nil] at hi
  rw [number_append _ (h.stepwise.published_numbered i (List.mem_of_getLast? hi))]
  exact h.stored i hi

theorem Saves.After.pushed_append (h : s₀.After host nodeID ms s) {m : SaveMove} (hm : m.step ≠ .send) :
    s.pushed = (order .send (ms ++ [m])).map (number s₀.ctl.planVersion (ms ++ [m])) := by
  rw [order_append, if_neg hm, List.append_nil, map_number_append _ h.stepwise.sent_numbered]
  exact h.pushed

theorem Saves.After.addInt64 (h : s₀.After host nodeID ms s) (hi : s.calls[i]? = some ⟨a, .called⟩) :
    s₀.After host nodeID (ms ++ [⟨.addInt64, i⟩])
      { s.advance i (.numbered (int64 (s.ctl.planVersion + 1))) with
        ctl := { s.ctl with planVersion := int64 (s.ctl.planVersion + 1) } } := by
  have hnew := stageAt_called (h.call hi).1
  have hnumber : int64 (s.ctl.planVersion + 1) = number s₀.ctl.planVersion (ms ++ [⟨.addInt64, i⟩]) i :=
    h.counter.trans (number_last _ hnew).symm
  have hunsaved : i ∉ order .savePlan ms := fun hi => hnew (h.stepwise.save i hi)
  have horder : ∀ step, step ≠ .addInt64 → order step (ms ++ [⟨.addInt64, i⟩]) = order step ms := by
    intro step hstep
    simp [order_append, hstep.symm]
  constructor
  case stepwise =>
    refine ⟨fun j hj => ?_, by simpa [horder] using h.stepwise.publish, by simpa [horder] using h.stepwise.send⟩
    rw [horder _ (by decide)] at hj
    simp [order_append, h.stepwise.save j hj]
  case calls => exact h.advance (m := ⟨.addInt64, i⟩) (by simp [stageAt, order_append, hunsaved, hnumber])
  case known =>
    simpa [order_append] using fun j hj => hj.elim (h.known j) fun hj => hj ▸ (h.call hi).2.imp fun _ => And.left
  case counter =>
    show int64 (int64 (s.ctl.planVersion + 1) + 1) = _
    rw [h.counter, int64_int64_add]
    simp [order_append, add_assoc]
  case current => exact h.current_append (by simp)
  case history => exact h.history_append (by simp)
  case stored => exact h.stored_append (by simp)
  case pushed => exact h.pushed_append (by simp)

theorem Saves.After.savePlan (h : s₀.After host nodeID ms s) (hnode : ∀ call ∈ s₀.calls, call.args.node.id = nodeID)
    (hi : s.calls[i]? = some ⟨a, .numbered v⟩) : s₀.After host nodeID (ms ++ [⟨.savePlan, i⟩])
      { s.advance i (.saved v) with
        ctl := { s.ctl with
          store := s.ctl.store.savePlan (a.plan host v)
          saved := s.ctl.saved ++ [a.plan host v] } } := by
  obtain ⟨hstage, call, hcall, rfl⟩ := h.call hi
  obtain ⟨hnumbered, hunsaved, rfl⟩ := stageAt_numbered hstage
  have hunpublished : i ∉ order .setGlobalPlanVersion ms := fun hi => hunsaved (h.stepwise.publish i hi)
  have hplanNode : (call.args.plan host (number s₀.ctl.planVersion ms i)).nodeID = nodeID :=
    (withListenPort_id _).trans (hnode call (List.mem_of_getElem? hcall))
  have horder : ∀ step, step ≠ .savePlan → order step (ms ++ [⟨.savePlan, i⟩]) = order step ms := by
    intro step hstep
    simp [order_append, hstep.symm]
  have hlast : order .savePlan (ms ++ [⟨.savePlan, i⟩]) = order .savePlan ms ++ [i] := by simp [order_append]
  constructor
  case stepwise =>
    refine ⟨?_, fun j hj => ?_, by simpa [horder] using h.stepwise.send⟩
    · simpa [horder, hlast] using fun j hj => hj.elim (h.stepwise.save j) (· ▸ hnumbered)
    · rw [horder _ (by decide)] at hj
      simp [hlast, h.stepwise.publish j hj]
  case calls =>
    refine h.advance (m := ⟨.savePlan, i⟩) ?_
    simp [stageAt, horder, hlast, hnumbered, hunpublished, number_append]
  case known => simpa [horder] using h.known
  case counter => simpa [horder] using h.counter
  case current =>
    intro j call' hj hcall'
    obtain rfl : i = j := by simpa [hlast] using hj
    obtain rfl : call = call' := Option.some.inj (hcall.symm.trans hcall')
    rw [number_append _ hnumbered]
    simp [MemoryStore.savePlan, hplanNode]
  case history =>
    have hhistory : (s.ctl.store.savePlan (call.args.plan host (number s₀.ctl.planVersion ms i))).history nodeID =
        (s.ctl.store.history nodeID ++ [call.args.plan host (number s₀.ctl.planVersion ms i)]).rtake 20 := by
      simp [MemoryStore.savePlan, hplanNode]
    show (MemoryStore.history _ nodeID).map _ = _
    rw [hhistory, map_rtake, List.map_append, h.history, hlast, List.map_append,
      map_number_append _ h.stepwise.save, List.map_singleton, List.map_singleton, number_append _ hnumbered,
      keep_append_singleton]
    rfl
  case stored => exact h.stored_append (by simp)
  case pushed => exact h.pushed_append (by simp)

theorem Saves.After.setGlobalPlanVersion (h : s₀.After host nodeID ms s)
    (hi : s.calls[i]? = some ⟨a, .saved v⟩) : s₀.After host nodeID (ms ++ [⟨.setGlobalPlanVersion, i⟩])
      { s.advance i (.published v) with
        ctl := { s.ctl with store := { s.ctl.store with globalPlanVersion := v } } } := by
  obtain ⟨hsaved, hunpublished, rfl⟩ := stageAt_saved (h.call hi).1
  have hnumbered := h.stepwise.save i hsaved
  have hunsent : i ∉ order .send ms := fun hi => hunpublished (h.stepwise.send i hi)
  have horder : ∀ step, step ≠ .setGlobalPlanVersion →
      order step (ms ++ [⟨.setGlobalPlanVersion, i⟩]) = order step ms := by
    intro step hstep
    simp [order_append, hstep.symm]
  have hlast : order .setGlobalPlanVersion (ms ++ [⟨.setGlobalPlanVersion, i⟩]) =
      order .setGlobalPlanVersion ms ++ [i] := by simp [order_append]
  constructor
  case stepwise =>
    refine ⟨by simpa [horder] using h.stepwise.save, ?_, fun j hj => ?_⟩
    · simpa [horder, hlast] using fun j hj => hj.elim (h.stepwise.publish j) (· ▸ hsaved)
    · rw [horder _ (by decide)] at hj
      simp [hlast, h.stepwise.send j hj]
  case calls =>
    refine h.advance (m := ⟨.setGlobalPlanVersion, i⟩) ?_
    simp [stageAt, horder, hlast, hnumbered, hsaved, hunsent, number_append]
  case known => simpa [horder] using h.known
  case counter => simpa [horder] using h.counter
  case current => exact h.current_append (by simp)
  case history => exact h.history_append (by simp)
  case stored =>
    intro j hj
    obtain rfl : i = j := by simpa [hlast] using hj
    rw [number_append _ hnumbered]
  case pushed => exact h.pushed_append (by simp)

theorem Saves.After.send (h : s₀.After host nodeID ms s) (hi : s.calls[i]? = some ⟨a, .published v⟩)
    (message : WSMessage) : s₀.After host nodeID (ms ++ [⟨.send, i⟩])
      { s.advance i (.sent v) with
        ctl := { s.ctl with sent := s.ctl.sent ++ [message] }
        pushed := s.pushed ++ [v] } := by
  obtain ⟨hpublished, -, rfl⟩ := stageAt_published (h.call hi).1
  have hsaved := h.stepwise.publish i hpublished
  have hnumbered := h.stepwise.save i hsaved
  have horder : ∀ step, step ≠ .send → order step (ms ++ [⟨.send, i⟩]) = order step ms := by
    intro step hstep
    simp [order_append, hstep.symm]
  have hlast : order .send (ms ++ [⟨.send, i⟩]) = order .send ms ++ [i] := by simp [order_append]
  constructor
  case stepwise =>
    refine ⟨by simpa [horder] using h.stepwise.save, by simpa [horder] using h.stepwise.publish, ?_⟩
    simpa [horder, hlast] using fun j hj => hj.elim (h.stepwise.send j) (· ▸ hpublished)
  case calls =>
    refine h.advance (m := ⟨.send, i⟩) ?_
    simp [stageAt, horder, hlast, hnumbered, hsaved, hpublished, number_append]
  case known => simpa [horder] using h.known
  case counter => simpa [horder] using h.counter
  case current => exact h.current_append (by simp)
  case history => exact h.history_append (by simp)
  case stored => exact h.stored_append (by simp)
  case pushed =>
    rw [hlast, List.map_append, map_number_append _ h.stepwise.sent_numbered, ← h.pushed]
    simp [number_append _ hnumbered]

theorem Saves.After.start (host : Host) (nodeID : String) (ctl : Controller MemoryStore) (args : List SaveArgs) :
    (Saves.start ctl args).After host nodeID [] (Saves.start ctl args) := by
  constructor
  case stepwise => exact ⟨nofun, nofun, nofun⟩
  case known => exact nofun
  case calls => simp [Saves.start, stageAt, order, Function.comp_def]
  case counter => simp [order]
  case current =>
    intro i call hlast
    simp [order] at hlast
  case history => rfl
  case stored =>
    intro i hlast
    simp [order] at hlast
  case pushed => rfl

theorem Saves.After.run {ctl : Controller MemoryStore} {args : List SaveArgs}
    (hnode : ∀ a ∈ args, a.node.id = nodeID)
    (h : exec (Saves.move host) (Saves.start ctl args) ms = some s) :
    (Saves.start ctl args).After host nodeID ms s := by
  induction ms using List.reverseRecOn generalizing s with
  | nil => cases h; exact .start host nodeID ctl args
  | append_singleton ms m ih =>
    obtain ⟨s', hs', hm⟩ := exec_append.mp h
    obtain ⟨_, hmove, ⟨⟩⟩ := exec_cons.mp hm
    have hnode : ∀ call ∈ (Saves.start ctl args).calls, call.args.node.id = nodeID := by
      simpa [Saves.start] using hnode
    cases Saves.moved hmove with
    | addInt64 hi => exact (ih hs').addInt64 hi
    | savePlan hi => exact (ih hs').savePlan hnode hi
    | setGlobalPlanVersion hi => exact (ih hs').setGlobalPlanVersion hi
    | send message hi => exact (ih hs').send hi message

-- ---------------------------------------------------------------------------
-- When all calls are through
-- ---------------------------------------------------------------------------

theorem Stepwise.numbered (h : Stepwise ms) (step : SaveStep) : ∀ i ∈ order step ms, i ∈ order .addInt64 ms := by
  cases step with
  | addInt64 => exact fun _ => id
  | savePlan => exact h.save
  | setGlobalPlanVersion => exact h.published_numbered
  | send => exact h.sent_numbered

theorem Saves.After.mem_order (h : s₀.After host nodeID ms s) (hdone : s.Finished) (step : SaveStep) (i : Nat) :
    i ∈ order step ms ↔ ∃ call, s₀.calls[i]? = some call := by
  constructor
  · exact fun hi => h.known i (h.stepwise.numbered step i hi)
  · rintro ⟨call, hcall⟩
    have hs := h.calls i
    rw [hcall, Option.map_some] at hs
    obtain ⟨v, hv⟩ := Option.isSome_iff_exists.mp (hdone _ (List.mem_of_getElem? hs))
    exact (version?_stageAt.mp hv).1 step

theorem Saves.After.versions (h : s₀.After host nodeID ms s) (hdone : s.Finished) (step : SaveStep) :
    s.versions = {v | ∃ i ∈ order step ms, number s₀.ctl.planVersion ms i = v} := by
  ext v
  constructor
  · rintro ⟨call, hcall, hv⟩
    obtain ⟨i, hi⟩ := List.mem_iff_getElem?.mp hcall
    obtain ⟨hstage, -⟩ := h.call hi
    rw [← hstage] at hv
    obtain ⟨hmem, rfl⟩ := version?_stageAt.mp hv
    exact ⟨i, hmem step, rfl⟩
  · rintro ⟨i, hi, rfl⟩
    obtain ⟨call, hcall⟩ := (h.mem_order hdone step i).mp hi
    have hs := h.calls i
    rw [hcall, Option.map_some] at hs
    exact ⟨_, List.mem_of_getElem? hs,
      version?_stageAt.mpr ⟨fun step => (h.mem_order hdone step i).mpr ⟨call, hcall⟩, rfl⟩⟩

theorem Saves.After.endsHighest (h : s₀.After host nodeID ms s) (hdone : s.Finished) (step : SaveStep) :
    EndsHighest (number s₀.ctl.planVersion ms) (order step ms) ↔
      ∃ i, (order step ms).getLast? = some i ∧ IsGreatest s.versions (number s₀.ctl.planVersion ms i) := by
  rw [h.versions hdone step]
  refine exists_congr fun i => and_congr_right fun hi => ?_
  constructor
  · rintro hmax
    refine ⟨⟨i, List.mem_of_getLast? hi, rfl⟩, ?_⟩
    rintro v ⟨j, hj, rfl⟩
    exact hmax j hj
  · exact fun hgreatest j hj => hgreatest.2 ⟨j, hj, rfl⟩

theorem Saves.After.last (h : s₀.After host nodeID ms s) (hdone : s.Finished) (hcalls : s₀.calls ≠ [])
    (step : SaveStep) : ∃ i, (order step ms).getLast? = some i := by
  obtain ⟨call, hcall⟩ := List.exists_mem_of_ne_nil _ hcalls
  obtain ⟨i, hi⟩ := List.mem_iff_getElem?.mp hcall
  have hne : order step ms ≠ [] := List.ne_nil_of_mem ((h.mem_order hdone step i).mpr ⟨call, hi⟩)
  exact ⟨_, List.getLast?_eq_some_getLast hne⟩

theorem Saves.After.current_iff (h : s₀.After host nodeID ms s) (hdone : s.Finished) (hcalls : s₀.calls ≠ []) :
    (∃ call ∈ s.calls, ∃ v, call.stage.version? = some v ∧ IsGreatest s.versions v ∧
        (NodeStore.getPlan nodeID s.ctl.store).1 = .ok (some (call.args.plan host v))) ↔
      EndsHighest (number s₀.ctl.planVersion ms) (order .savePlan ms) := by
  rw [h.endsHighest hdone]
  obtain ⟨i, hlast⟩ := h.last hdone hcalls .savePlan
  have hmem := List.mem_of_getLast? hlast
  obtain ⟨call, hcall⟩ := (h.mem_order hdone .savePlan i).mp hmem
  have hplan := h.current i call hlast hcall
  constructor
  · rintro ⟨call', -, v, -, hgreatest, hget⟩
    have heq : s.ctl.store.plans nodeID = some (call'.args.plan host v) := Except.ok.inj hget
    have hv : number s₀.ctl.planVersion ms i = v :=
      congrArg Plan.version (Option.some.inj (hplan.symm.trans heq))
    exact ⟨i, hlast, hv ▸ hgreatest⟩
  · rintro ⟨j, hj, hgreatest⟩
    obtain rfl : i = j := Option.some.inj (hlast.symm.trans hj)
    have hs := h.calls i
    rw [hcall, Option.map_some] at hs
    refine ⟨_, List.mem_of_getElem? hs, _, ?_, hgreatest, congrArg Except.ok hplan⟩
    exact version?_stageAt.mpr ⟨fun step => (h.mem_order hdone step i).mpr ⟨call, hcall⟩, rfl⟩

theorem Saves.After.stored_iff (h : s₀.After host nodeID ms s) (hdone : s.Finished) (hcalls : s₀.calls ≠ []) :
    (∃ v, (NodeStore.getGlobalPlanVersion s.ctl.store).1 = .ok v ∧ IsGreatest s.versions v) ↔
      EndsHighest (number s₀.ctl.planVersion ms) (order .setGlobalPlanVersion ms) := by
  rw [h.endsHighest hdone]
  obtain ⟨i, hlast⟩ := h.last hdone hcalls .setGlobalPlanVersion
  have hversion := h.stored i hlast
  constructor
  · rintro ⟨v, hv, hgreatest⟩
    exact ⟨i, hlast, (hversion.symm.trans (Except.ok.inj hv)) ▸ hgreatest⟩
  · rintro ⟨j, hj, hgreatest⟩
    obtain rfl : i = j := Option.some.inj (hlast.symm.trans hj)
    exact ⟨_, congrArg Except.ok hversion, hgreatest⟩

theorem Saves.After.pushed_iff (h : s₀.After host nodeID ms s) (hdone : s.Finished) :
    (∃ v, s.pushed.getLast? = some v ∧ IsGreatest s.versions v) ↔
      EndsHighest (number s₀.ctl.planVersion ms) (order .send ms) := by
  rw [h.endsHighest hdone, h.pushed]
  simp [List.getLast?_map]

theorem Saves.After.history_iff (h : s₀.After host nodeID ms s) (hsaves : order .savePlan ms ≠ []) :
    (∀ limit, ((Reply.getD (NodeStore.listPlanHistory nodeID limit s.ctl.store).1 []).map (·.version)).Pairwise
        (· < ·)) ↔
      ((order .savePlan ms).rtake 20).Pairwise
          (fun i j => number s₀.ctl.planVersion ms i < number s₀.ctl.planVersion ms j) ∧
        (((s₀.ctl.store.history nodeID).map (·.version)).rtake (20 - (order .savePlan ms).length)).Pairwise
          (· < ·) ∧
        ∀ v ∈ ((s₀.ctl.store.history nodeID).map (·.version)).rtake (20 - (order .savePlan ms).length),
          ∀ i ∈ (order .savePlan ms).rtake 20, v < number s₀.ctl.planVersion ms i := by
  have hall : (∀ limit, ((Reply.getD (NodeStore.listPlanHistory nodeID limit s.ctl.store).1 []).map
      (·.version)).Pairwise (· < ·)) ↔ ((s.ctl.store.history nodeID).map (·.version)).Pairwise (· < ·) := by
    refine ⟨fun h => h 0, fun h limit => h.sublist ?_⟩
    show ((MemoryStore.limited limit (s.ctl.store.history nodeID)).map _).Sublist _
    unfold MemoryStore.limited
    split
    · exact .refl _
    · exact (rtake_suffix _).sublist.map _
  rw [hall, h.history, keep_eq_rtake _ (by simpa using hsaves), rtake_append, List.length_map,
    ← map_rtake (number s₀.ctl.planVersion ms), List.pairwise_append, List.pairwise_map]
  simp only [List.mem_map, forall_exists_index, and_imp, forall_apply_eq_imp_iff₂]
  exact and_left_comm

/-- Once concurrent saves of a node are through, the newest plan is on top in
the store, the global version and on the agent if and only if none of them has
overtaken another there. -/
theorem newest_iff_inOrder {ctl : Controller MemoryStore} {args : List SaveArgs} (hargs : args ≠ [])
    (hnode : ∀ a ∈ args, a.node.id = nodeID)
    (hrun : exec (Saves.move host) (Saves.start ctl args) ms = some s) (hdone : s.Finished) :
    s.Newest host nodeID ↔
      InOrder (number ctl.planVersion ms) ((ctl.store.history nodeID).map (·.version)) ms := by
  have h := Saves.After.run hnode hrun
  have hcalls : (Saves.start ctl args).calls ≠ [] := by simpa [Saves.start] using hargs
  obtain ⟨i, hi⟩ := h.last hdone hcalls .savePlan
  have hcurrent := h.current_iff hdone hcalls
  have hhistory := h.history_iff (List.ne_nil_of_mem (List.mem_of_getLast? hi))
  have hstored := h.stored_iff hdone hcalls
  have hpushed := h.pushed_iff hdone
  constructor
  · intro hnew
    obtain ⟨hsaved, holder, hresumed⟩ := hhistory.mp hnew.history
    exact ⟨hsaved, holder, hresumed, hcurrent.mp hnew.current, hstored.mp hnew.stored, hpushed.mp hnew.pushed⟩
  · intro hord
    exact ⟨hcurrent.mpr hord.save, hhistory.mpr ⟨hord.saved, hord.older, hord.resumed⟩, hstored.mpr hord.publish,
      hpushed.mpr hord.send⟩

end

def sampleSaves : List SaveArgs :=
  [{ node := { id := "a" } }, { node := { id := "a" }, rules := [{ pfx := "10.0.0.0/8" }] }]

def savesInTurn : List SaveMove :=
  [⟨.addInt64, 0⟩, ⟨.savePlan, 0⟩, ⟨.setGlobalPlanVersion, 0⟩, ⟨.send, 0⟩,
   ⟨.addInt64, 1⟩, ⟨.savePlan, 1⟩, ⟨.setGlobalPlanVersion, 1⟩, ⟨.send, 1⟩]

/-- The second call saves and publishes between the first one's number and its
save. -/
def savesOvertaking : List SaveMove :=
  [⟨.addInt64, 0⟩, ⟨.addInt64, 1⟩, ⟨.savePlan, 1⟩, ⟨.setGlobalPlanVersion, 1⟩, ⟨.send, 1⟩,
   ⟨.savePlan, 0⟩, ⟨.setGlobalPlanVersion, 0⟩, ⟨.send, 0⟩]

def savedInTurn : Saves MemoryStore :=
  (exec (Saves.move Host.sample) (Saves.start (start MemoryStore.new) sampleSaves) savesInTurn).get (by decide)

theorem newest_in_turn : savedInTurn.Newest Host.sample "a" := by
  refine (newest_iff_inOrder (show sampleSaves ≠ [] by decide) (by decide) (Option.some_get _).symm
    (by unfold Saves.Finished; decide)).mpr ?_
  exact ⟨by decide, by decide, by decide, ⟨1, by decide, by decide⟩, ⟨1, by decide, by decide⟩,
    ⟨1, by decide, by decide⟩⟩

theorem older_plan_on_top :
    ¬ ∀ (host : Host) (nodeID : String) (ctl : Controller MemoryStore) (args : List SaveArgs) (ms : List SaveMove)
      (s : Saves MemoryStore), args ≠ [] → (∀ a ∈ args, a.node.id = nodeID) →
      exec (Saves.move host) (Saves.start ctl args) ms = some s → s.Finished → s.Newest host nodeID := by
  intro h
  have hs := h Host.sample "a" (start MemoryStore.new) sampleSaves savesOvertaking _ (by decide) (by decide)
    (Option.some_get (by decide)).symm (by unfold Saves.Finished; decide)
  exact absurd (hs.history 0) (by decide)

end PeerWan
