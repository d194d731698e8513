import PeerWan.Agent.Session
import PeerWan.Lib.Append

/-!
# Tasks and their steps

`POST /api/v1/tasks` of `pkg/api/tasks.go` creates a task and sends it to its
targets; each agent reports the steps it takes, and `handleTaskStep` of
`pkg/api/ws.go` adds them to the stored task. There is one `readLoop` for each
agent, and nothing holds the task between its `GetTask` and its `SaveTask`.
-/

namespace PeerWan

open Lib

-- ---------------------------------------------------------------------------
-- Creating a task
-- ---------------------------------------------------------------------------

structure TaskRequest where
  nodeID : String := ""
  targets : List String := []
  type : String := ""
  deriving DecidableEq, Repr

def TaskRequest.resolved (req : TaskRequest) : List String :=
  if req.targets = [] ∧ req.nodeID ≠ "" then [req.nodeID] else req.targets

def newTask (env : Env) (req : TaskRequest) : Task where
  id := env.uuid
  nodeID := req.nodeID
  targets := req.resolved
  type := req.type
  status := "running"
  overallStatus := "running"
  steps := [{ name := "dispatch", status := "running", timestamp := env.now, message := "sending to agents" }]
  createdAt := env.now
  updatedAt := env.now

section

variable {σ : Type} [NodeStore σ]

def createTask (env : Env) (auth : Credentials) (body : Option TaskRequest) (c : Controller σ) :
    Except Response Task × Controller σ :=
  if !auth.jwt then (.error (.error 401 "unauthorized"), c)
  else match body with
    | none => (.error (.error 400 "invalid payload"), c)
    | some req =>
      if req.type = "" then (.error (.error 400 "invalid payload"), c)
      else if req.resolved = [] then (.error (.error 400 "targets required"), c)
      else
        let task := newTask env req
        let (_, st) := NodeStore.saveTask env.now task c.store
        let messages := task.targets.map fun t => { type := "task", nodeID := t, payload := .task task.id task.type }
        (.ok task, { c with store := st, sent := c.sent ++ messages })

-- ---------------------------------------------------------------------------
-- A reported step
-- ---------------------------------------------------------------------------

/-- The payload of a `task_step` message: a field that is missing or of the
wrong type is zero. `ts` is in seconds. -/
structure StepReport where
  taskID : String := ""
  name : String := ""
  status : String := ""
  message : String := ""
  ts : Int := 0
  deriving DecidableEq, Repr

def reportedStep (nodeID : String) (now : Int) (r : StepReport) : TaskStep where
  name := r.name
  status := r.status
  message := r.message
  nodeID := nodeID
  timestamp := if r.ts > 0 then r.ts * 1000000000 else now

def Task.withStep (t : Task) (step : TaskStep) (now : Int) : Task :=
  { t with steps := t.steps ++ [step], status := step.status, overallStatus := step.status, updatedAt := now }

/-- What `handleTaskStep` works on: the store, and a buffer nothing reads. -/
structure TaskHub (σ : Type) where
  store : σ
  taskUpd : String → List StepReport

/-- Up to `GetTask`. -/
def TaskHub.lookup (r : StepReport) (h : TaskHub σ) : Option Task × TaskHub σ :=
  if r.taskID = "" then (none, h)
  else
    let taskUpd := Function.update h.taskUpd r.taskID (h.taskUpd r.taskID ++ [r])
    let (t, st) := NodeStore.getTask r.taskID h.store
    (Reply.getD t none, { store := st, taskUpd := taskUpd })

/-- From there to `SaveTask`. -/
def TaskHub.record (nodeID : String) (now : Int) (r : StepReport) (t : Task) (h : TaskHub σ) : TaskHub σ :=
  let (_, st) := NodeStore.saveTask now (t.withStep (reportedStep nodeID now r) now) h.store
  { h with store := st }

/-- A payload that is no object is `none`. -/
def TaskHub.handleTaskStep (nodeID : String) (now : Int) (payload : Option StepReport) (h : TaskHub σ) :
    TaskHub σ :=
  match payload with
  | none => h
  | some r =>
    match h.lookup r with
    | (some t, h) => h.record nodeID now r t
    | (none, h) => h

-- ---------------------------------------------------------------------------
-- Concurrent readLoops
-- ---------------------------------------------------------------------------

/-- The `readLoop` of one agent: the messages to come, each with the time at
which it is handled, and the task that the current handler has read. -/
structure TaskLoop where
  nodeID : String
  inbox : List (StepReport × Int)
  held : Option Task := none
  deriving DecidableEq, Repr

/-- Steps are values here. In the source two copies of a task may share the array
that `append` writes to, but only once two handlers overlap. -/
structure TaskRun (σ : Type) where
  hub : TaskHub σ
  loops : List TaskLoop

inductive TaskMove where
  | get (i : Nat)
  | save (i : Nat)
  deriving DecidableEq, Repr

def TaskRun.step (m : TaskMove) (s : TaskRun σ) : TaskRun σ :=
  match m with
  | .get i =>
    match s.loops[i]? with
    | some { nodeID, inbox := (r, now) :: inbox, held := none } =>
      match s.hub.lookup r with
      | (some t, hub) =>
        { hub := hub, loops := s.loops.set i { nodeID := nodeID, inbox := (r, now) :: inbox, held := some t } }
      | (none, hub) => { hub := hub, loops := s.loops.set i { nodeID := nodeID, inbox := inbox } }
    | _ => s
  | .save i =>
    match s.loops[i]? with
    | some { nodeID, inbox := (r, now) :: inbox, held := some t } =>
      { hub := s.hub.record nodeID now r t, loops := s.loops.set i { nodeID := nodeID, inbox := inbox } }
    | _ => s

def TaskRun.Finished (s : TaskRun σ) : Prop := ∀ l ∈ s.loops, l.inbox = []

/-- No handler gets the task while another is between its get and its save. -/
def TaskRun.Alone (s : TaskRun σ) : TaskMove → Prop
  | .get i => (∃ l, s.loops[i]? = some l ∧ l.inbox ≠ [] ∧ l.held = none) → ∀ l ∈ s.loops, l.held = none
  | .save _ => True

/-- Undisturbed, the two moves of a message are its handler. -/
theorem moves_handleTaskStep {s : TaskRun σ} (hi : s.loops[i]? = some ⟨nodeID, (r, now) :: inbox, none⟩) :
    run TaskRun.step s [.get i, .save i] =
      { hub := s.hub.handleTaskStep nodeID now (some r), loops := s.loops.set i ⟨nodeID, inbox, none⟩ } := by
  have hlt : i < s.loops.length := (List.getElem?_eq_some_iff.mp hi).1
  simp only [run_cons, run_nil, TaskRun.step, hi, TaskHub.handleTaskStep]
  cases h : s.hub.lookup r with
  | mk t hub =>
    cases t with
    | some t => simp [hlt]
    | none => cases inbox <;> simp [hlt]

end

end PeerWan
