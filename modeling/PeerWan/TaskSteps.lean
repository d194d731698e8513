import PeerWan.Controller.Tasks

/-!
# What a task keeps of its steps

Every step an agent reports is to end up in the stored task, whatever the
order in which the handlers of different agents reach the store. And the
status of the task is to stand for all its targets: success when each of them
is through, failure once one of them has failed.
-/

namespace PeerWan

open Lib

-- ---------------------------------------------------------------------------
-- No step is lost
-- ---------------------------------------------------------------------------

/-- The loops of the agents that report on the task, before any has handled a
message. -/
def TaskRun.start (hub : TaskHub σ) (taskID : String) (inboxes : List (String × List (StepReport × Int))) :
    TaskRun σ where
  hub := hub
  loops := inboxes.map fun b =>
    { nodeID := b.1, inbox := b.2.map fun m => ({ m.1 with taskID := taskID }, m.2) }

def TaskLoop.todo (l : TaskLoop) : List TaskStep := l.inbox.map fun m => reportedStep l.nodeID m.2 m.1

def reportedSteps (inboxes : List (String × List (StepReport × Int))) : List TaskStep :=
  inboxes.flatMap fun b => b.2.map fun m => reportedStep b.1 m.2 m.1

def TaskLoop.appender (l : TaskLoop) : Appender TaskStep where
  todo := l.todo
  held := l.held.map Task.steps

def storedSteps (taskID : String) (m : MemoryStore) : List TaskStep :=
  ((m.tasks.get? taskID).map Task.steps).getD []

/-- The handlers as workers that append to the task's steps. -/
def TaskRun.shared (taskID : String) (s : TaskRun MemoryStore) : Shared TaskStep where
  cell := storedSteps taskID s.hub.store
  workers := s.loops.map TaskLoop.appender

def TaskMove.cellMove : TaskMove → CellMove
  | .get i => .read i
  | .save i => .write i

/-- Every message is of the one task, which is stored. -/
structure TaskRun.Of (taskID : String) (s : TaskRun MemoryStore) : Prop where
  stored : ∃ t, s.hub.store.tasks.get? taskID = some t
  inbox : ∀ l ∈ s.loops, ∀ m ∈ l.inbox, m.1.taskID = taskID
  held : ∀ l ∈ s.loops, ∀ t ∈ l.held, t.id = taskID

theorem TaskHub.lookup_stored {h : TaskHub MemoryStore} {r : StepReport} (hid : r.taskID ≠ "")
    (ht : h.store.tasks.get? r.taskID = some t) :
    ∃ taskUpd, h.lookup r = (some t, { h with taskUpd := taskUpd }) := by
  refine ⟨Function.update h.taskUpd r.taskID (h.taskUpd r.taskID ++ [r]), ?_⟩
  simp only [TaskHub.lookup, hid, if_false]
  rw [show NodeStore.getTask r.taskID h.store = (.ok (h.store.tasks.get? r.taskID), h.store) from rfl, ht]
  rfl

structure Task.Recorded (t : Task) (step : TaskStep) (t' : Task) : Prop where
  id : t'.id = t.id
  steps : t'.steps = t.steps ++ [step]
  status : t'.status = step.status
  overallStatus : t'.overallStatus = step.status

theorem TaskHub.record_tasks (h : TaskHub MemoryStore) (nodeID : String) (now : Int) (r : StepReport) (t : Task) :
    ∃ t', (h.record nodeID now r t).store.tasks = h.store.tasks.put t' ∧
      t.Recorded (reportedStep nodeID now r) t' := by
  simp only [TaskHub.record, MemoryStore.store_saveTask, MemoryStore.saveTask]
  split <;> exact ⟨_, rfl, rfl, rfl, rfl, rfl⟩

theorem TaskRun.Of.lookup {s : TaskRun MemoryStore} {i : Nat} {m : StepReport × Int}
    {inbox : List (StepReport × Int)} (h : s.Of taskID) (hid : taskID ≠ "")
    (hl : s.loops[i]? = some ⟨nodeID, m :: inbox, none⟩) :
    ∃ t taskUpd, s.hub.store.tasks.get? taskID = some t ∧
      s.hub.lookup m.1 = (some t, { s.hub with taskUpd := taskUpd }) := by
  obtain ⟨t, ht⟩ := h.stored
  have hm : m.1.taskID = taskID := h.inbox _ (List.mem_of_getElem? hl) m (by simp)
  subst hm
  obtain ⟨taskUpd, hlookup⟩ := TaskHub.lookup_stored hid ht
  exact ⟨t, taskUpd, ht, hlookup⟩

theorem TaskRun.Of.shared_step {s : TaskRun MemoryStore} (h : s.Of taskID) (hid : taskID ≠ "") (m : TaskMove) :
    (TaskRun.step m s).shared taskID = Shared.step m.cellMove (s.shared taskID) := by
  cases m with
  | get i =>
    cases hl : s.loops[i]? with
    | none => simp [TaskRun.step, hl, TaskMove.cellMove, Shared.step, shared]
    | some l =>
      obtain ⟨nodeID, inbox, held⟩ := l
      cases inbox with
      | nil => simp [TaskRun.step, hl, TaskMove.cellMove, Shared.step, shared, TaskLoop.appender, TaskLoop.todo]
      | cons m inbox =>
        cases held with
        | some t => simp [TaskRun.step, hl, TaskMove.cellMove, Shared.step, shared, TaskLoop.appender]
        | none =>
          obtain ⟨t, taskUpd, ht, hlookup⟩ := h.lookup hid hl
          simp [TaskRun.step, hl, hlookup, TaskMove.cellMove, Shared.step, shared, TaskLoop.appender,
            TaskLoop.todo, storedSteps, ht, List.map_set]
  | save i =>
    cases hl : s.loops[i]? with
    | none => simp [TaskRun.step, hl, TaskMove.cellMove, Shared.step, shared]
    | some l =>
      obtain ⟨nodeID, inbox, held⟩ := l
      cases inbox with
      | nil => simp [TaskRun.step, hl, TaskMove.cellMove, Shared.step, shared, TaskLoop.appender, TaskLoop.todo]
      | cons m inbox =>
        cases held with
        | none => simp [TaskRun.step, hl, TaskMove.cellMove, Shared.step, shared, TaskLoop.appender]
        | some t =>
          have ht : t.id = taskID := h.held _ (List.mem_of_getElem? hl) t rfl
          obtain ⟨t', hput, hrec⟩ := s.hub.record_tasks nodeID m.2 m.1 t
          simp [TaskRun.step, hl, TaskMove.cellMove, Shared.step, shared, TaskLoop.appender, TaskLoop.todo,
            storedSteps, hput, hrec.id, ht, hrec.steps, List.map_set]

theorem TaskRun.Of.step {s : TaskRun MemoryStore} (h : s.Of taskID) (hid : taskID ≠ "") (m : TaskMove) :
    (TaskRun.step m s).Of taskID := by
  cases m with
  | get i =>
    simp only [TaskRun.step]
    split
    next nodeID r now inbox hl =>
      obtain ⟨t, taskUpd, ht, hlookup⟩ := h.lookup hid hl
      simp only [hlookup]
      refine ⟨⟨t, ht⟩, fun l hmem => ?_, fun l hmem => ?_⟩
      · rcases List.mem_or_eq_of_mem_set hmem with hmem | rfl
        · exact h.inbox l hmem
        · exact fun m hm => h.inbox ⟨nodeID, (r, now) :: inbox, none⟩ (List.mem_of_getElem? hl) m hm
      · rcases List.mem_or_eq_of_mem_set hmem with hmem | rfl
        · exact h.held l hmem
        · rintro t' ⟨⟩
          exact Table.key_of_get? ht
    next => exact h
  | save i =>
    simp only [TaskRun.step]
    split
    next nodeID r now inbox t hl =>
      have hold := List.mem_of_getElem? hl
      obtain ⟨t', hput, hrec⟩ := s.hub.record_tasks nodeID now r t
      refine ⟨⟨t', ?_⟩, fun l hmem => ?_, fun l hmem => ?_⟩
      · rw [hput, Table.get?_put, if_pos (hrec.id.trans (h.held _ hold t rfl))]
      · rcases List.mem_or_eq_of_mem_set hmem with hmem | rfl
        · exact h.inbox l hmem
        · exact fun m hm => h.inbox _ hold m (List.mem_cons_of_mem _ hm)
      · rcases List.mem_or_eq_of_mem_set hmem with hmem | rfl
        · exact h.held l hmem
        · rintro t' ⟨⟩
    next => exact h

theorem TaskRun.alone_shared (taskID : String) (s : TaskRun MemoryStore) (m : TaskMove) :
    s.Alone m ↔ (s.shared taskID).Alone m.cellMove := by
  cases m with
  | get i =>
    refine imp_congr ?_ ?_
    · simp [shared, TaskLoop.appender, TaskLoop.todo]
    · constructor
      · rintro h j copy ⟨w, hw, hheld⟩
        obtain ⟨l, hl, rfl⟩ := List.mem_map.mp (List.mem_of_getElem? hw)
        simp [TaskLoop.appender, h l hl] at hheld
      · intro h l hl
        obtain ⟨j, hj⟩ := List.mem_iff_getElem?.mp hl
        cases hheld : l.held with
        | none => rfl
        | some t =>
          refine absurd ⟨l.appender, ?_, ?_⟩ (h j t.steps)
          · simp [shared, hj]
          · simp [TaskLoop.appender, hheld]
  | save i => exact Iff.rfl

theorem TaskRun.Of.start {hub : TaskHub MemoryStore} {taskID : String}
    (ht : hub.store.tasks.get? taskID = some t) (inboxes : List (String × List (StepReport × Int))) :
    (TaskRun.start hub taskID inboxes).Of taskID := by
  refine ⟨⟨t, ht⟩, ?_, ?_⟩
  · intro l hl m hm
    obtain ⟨b, -, rfl⟩ := List.mem_map.mp hl
    obtain ⟨m', -, rfl⟩ := List.mem_map.mp hm
    rfl
  · intro l hl
    obtain ⟨b, -, rfl⟩ := List.mem_map.mp hl
    exact nofun

theorem TaskRun.start_pending (hub : TaskHub MemoryStore) (taskID : String)
    (inboxes : List (String × List (StepReport × Int))) :
    ((TaskRun.start hub taskID inboxes).shared taskID).pending = reportedSteps inboxes := by
  simp only [Shared.pending, shared, start, List.map_map, List.flatMap_map, reportedSteps]
  refine List.flatMap_congr fun b _ => ?_
  simp only [Function.comp_apply, TaskLoop.appender, TaskLoop.todo, List.map_map]
  rfl

/-- Once all handlers are through, the task has the steps it was created with
and every reported one exactly once if and only if no handler got the task
while another was about to save it. -/
theorem steps_kept_iff {hub : TaskHub MemoryStore} {task : Task} (hid : task.id ≠ "")
    (htask : hub.store.tasks.get? task.id = some task) (inboxes : List (String × List (StepReport × Int)))
    (ms : List TaskMove) (hdone : (run TaskRun.step (TaskRun.start hub task.id inboxes) ms).Finished) :
    (∃ t, (run TaskRun.step (TaskRun.start hub task.id inboxes) ms).hub.store.tasks.get? task.id = some t ∧
        t.steps.Perm (task.steps ++ reportedSteps inboxes)) ↔
      Along TaskRun.step TaskRun.Alone (TaskRun.start hub task.id inboxes) ms := by
  have hof := TaskRun.Of.start htask inboxes
  have hstep : ∀ s m, TaskRun.Of task.id s → TaskRun.Of task.id (TaskRun.step m s) := fun _ m h => h.step hid m
  have hshared := run_view_of_invariant (TaskRun.shared task.id) TaskMove.cellMove hstep
    (fun _ m h => h.shared_step hid m) hof ms
  rw [along_view_of_invariant (TaskRun.shared task.id) TaskMove.cellMove hstep
    (fun _ m h => h.shared_step hid m) (fun s m _ => s.alone_shared task.id m) hof ms]
  rw [← Shared.perm_iff_alone, ← hshared, TaskRun.start_pending]
  · obtain ⟨t, ht⟩ := (throughout_of_invariant hstep hof ms).final.stored
    have hcell : ((TaskRun.start hub task.id inboxes).shared task.id).cell = task.steps := by
      simp [TaskRun.shared, storedSteps, TaskRun.start, htask]
    rw [hcell]
    simp [ht, TaskRun.shared, storedSteps]
  · intro w hw
    simp only [TaskRun.shared, TaskRun.start, List.mem_map] at hw
    obtain ⟨l, ⟨b, -, rfl⟩, rfl⟩ := hw
    rfl
  · rw [← hshared]
    intro w hw
    obtain ⟨l, hl, rfl⟩ := List.mem_map.mp hw
    simp [TaskLoop.appender, TaskLoop.todo, hdone l hl]

def sampleTask : Task := newTask { now := 1, uuid := "t1" } { targets := ["a", "b"], type := "policy_apply" }

def sampleHub : TaskHub MemoryStore where
  store := MemoryStore.new.saveTask 1 sampleTask
  taskUpd := fun _ => []

def sampleInboxes : List (String × List (StepReport × Int)) :=
  [("a", [({ name := "environment_check", status := "running", ts := 2 }, 0)]),
   ("b", [({ name := "environment_check", status := "running", ts := 3 }, 0)])]

theorem steps_kept_in_turn :
    (∃ t, (run TaskRun.step (TaskRun.start sampleHub sampleTask.id sampleInboxes)
          [.get 0, .save 0, .get 1, .save 1]).hub.store.tasks.get? sampleTask.id = some t ∧
        t.steps.Perm (sampleTask.steps ++ reportedSteps sampleInboxes)) ↔
      Along TaskRun.step TaskRun.Alone (TaskRun.start sampleHub sampleTask.id sampleInboxes)
        [.get 0, .save 0, .get 1, .save 1] :=
  steps_kept_iff (by decide) (by decide) sampleInboxes _ (by unfold TaskRun.Finished; decide)

/-- Two handlers read the task before either has saved it, and the first step
is written over. -/
theorem overlapping_step_lost :
    ¬ ∀ (hub : TaskHub MemoryStore) (task : Task), task.id ≠ "" →
      hub.store.tasks.get? task.id = some task →
      ∀ (inboxes : List (String × List (StepReport × Int))) (ms : List TaskMove),
      (run TaskRun.step (TaskRun.start hub task.id inboxes) ms).Finished →
      ∃ t, (run TaskRun.step (TaskRun.start hub task.id inboxes) ms).hub.store.tasks.get? task.id = some t ∧
        t.steps.Perm (task.steps ++ reportedSteps inboxes) := by
  intro h
  obtain ⟨t, ht, hperm⟩ := h sampleHub sampleTask (by decide) (by decide) sampleInboxes
    [.get 0, .get 1, .save 0, .save 1] (by unfold TaskRun.Finished; decide)
  have hstored : ((run TaskRun.step (TaskRun.start sampleHub sampleTask.id sampleInboxes)
      [.get 0, .get 1, .save 0, .save 1]).hub.store.tasks.get? sampleTask.id).map (·.steps.length) = some 2 := by
    decide
  rw [ht, Option.map_some, Option.some.injEq, hperm.length_eq] at hstored
  revert hstored
  decide

-- ---------------------------------------------------------------------------
-- The status of a task with several targets
-- ---------------------------------------------------------------------------

structure StepSent where
  name : String
  status : String
  message : String
  deriving DecidableEq, Repr

def sentSteps (effects : List Effect) : List StepSent :=
  effects.filterMap fun
    | .step _ _ name status message => some ⟨name, status, message⟩
    | _ => none

/-- A step that reaches the controller from the target at a place in the
task's list. -/
structure Arrival where
  target : Nat
  step : StepSent
  ts : Int := 0
  now : Int := 0
  deriving DecidableEq, Repr

def Arrival.report (taskID : String) (e : Arrival) : StepReport where
  taskID := taskID
  name := e.step.name
  status := e.step.status
  message := e.step.message
  ts := e.ts

def Task.arrive [NodeStore σ] (task : Task) (e : Arrival) (h : TaskHub σ) : TaskHub σ :=
  h.handleTaskStep (task.targets.getD e.target "") e.now (some (e.report task.id))

/-- A merge of what the targets send: from each a beginning of the steps that
`handleWSTask` can emit. -/
structure Reported (task : Task) (es : List Arrival) : Prop where
  target : ∀ e ∈ es, e.target < task.targets.length
  emitted : ∀ i, ∃ ctx o s, (es.filter (·.target = i)).map (·.step) <+:
    sentSteps (handleWSTask ctx o task.id task.type s).2

/-- The task's status stands for all its targets. -/
structure Aggregates (task : Task) (seen : List Arrival) (t : Task) : Prop where
  success : t.status = "success" ∨ t.overallStatus = "success" → ∀ node ∈ task.targets, ∃ e ∈ seen,
    task.targets[e.target]? = some node ∧ e.step.name = "complete" ∧ e.step.status = "success"
  fails : (∃ e ∈ seen, e.step.status = "fail") → t.status = "fail" ∧ t.overallStatus = "fail"
  failed : t.status = "fail" ∨ t.overallStatus = "fail" → ∃ e ∈ seen, e.step.status = "fail"

@[simp] theorem sentSteps_diag (ctx : WsCtx) (client : Bool) (node : Node) (cfg : NodeConfigResponse) :
    sentSteps (runPolicyDiag ctx client node cfg) = [] := by
  unfold runPolicyDiag sentSteps
  split <;> rfl

theorem sentSteps_append (es fs : List Effect) : sentSteps (es ++ fs) = sentSteps es ++ sentSteps fs :=
  List.filterMap_append

@[simp] theorem sentSteps_step (taskID nodeID name status message : String) (es : List Effect) :
    sentSteps (.step taskID nodeID name status message :: es) = ⟨name, status, message⟩ :: sentSteps es := rfl

theorem sentSteps_handleWSTask (ctx : WsCtx) (o : Outcomes) (s : Agent) (hid : taskID ≠ "") (htype : type ≠ "") :
    ∃ rest, sentSteps (handleWSTask ctx o taskID type s).2 =
      ⟨"environment_check", "running", "检查环境"⟩ :: ⟨"environment_check", "success", "环境检查完成"⟩ :: rest := by
  unfold handleWSTask
  simp only [hid, htype, or_self, if_false]
  split
  · simp [sentSteps_append]
  split
  · cases o.verify <;> simp [sentSteps_append]
  · cases (handlePlan ctx true o s.latestCfg s.latestNode { s with currentTask := taskID }).1 with
    | error e => simp [sentSteps_append]
    | ok => cases o.verify <;> simp [sentSteps_append]

theorem Reported.first {task : Task} {es : List Arrival} (h : Reported task es) (hid : task.id ≠ "")
    (htype : task.type ≠ "") (i : Nat) : ∃ rest, (es.filter (·.target = i)).map (·.step) <+:
      ⟨"environment_check", "running", "检查环境"⟩ :: ⟨"environment_check", "success", "环境检查完成"⟩ :: rest := by
  obtain ⟨ctx, o, s, hpre⟩ := h.emitted i
  obtain ⟨rest, hsent⟩ := sentSteps_handleWSTask ctx o s hid htype
  exact ⟨rest, hsent ▸ hpre⟩

-- ---------------------------------------------------------------------------
-- The status after each step
-- ---------------------------------------------------------------------------

/-- The status of a stored task is that of the step handled last. -/
theorem stored_status {task : Task} (hid : task.id ≠ "") (es : List Arrival) {h : TaskHub MemoryStore} {t : Task}
    (ht : h.store.tasks.get? task.id = some t) (hst : t.overallStatus = t.status) :
    ∃ t', (run task.arrive h es).store.tasks.get? task.id = some t' ∧
      t'.status = (es.map (·.step.status)).getLastD t.status ∧ t'.overallStatus = t'.status := by
  induction es generalizing h t with
  | nil => exact ⟨t, ht, rfl, hst⟩
  | cons e es ih =>
    obtain ⟨taskUpd, hlookup⟩ := TaskHub.lookup_stored (r := e.report task.id) hid ht
    obtain ⟨t', hput, hrec⟩ := ({ h with taskUpd := taskUpd } : TaskHub MemoryStore).record_tasks
      (task.targets.getD e.target "") e.now (e.report task.id) t
    have hstep : (task.arrive e h).store.tasks.get? task.id = some t' := by
      simp only [Task.arrive, TaskHub.handleTaskStep, hlookup]
      rw [hput, Table.get?_put, if_pos (hrec.id.trans (Table.key_of_get? ht))]
    obtain ⟨t'', ht'', hstatus, hsame⟩ := ih hstep (hrec.overallStatus.trans hrec.status.symm)
    refine ⟨t'', ht'', ?_, hsame⟩
    rw [hstatus, hrec.status, List.map_cons, List.getLastD_cons]
    rfl

theorem createTask_ok {env : Env} {auth : Credentials} {body : Option TaskRequest} {c c' : Controller MemoryStore}
    {task : Task} (h : createTask env auth body c = (.ok task, c')) :
    (∃ req, task = newTask env req) ∧ task.targets ≠ [] ∧ task.type ≠ "" ∧
      ∃ t, c'.store.tasks.get? task.id = some t ∧ t.status = "running" ∧ t.overallStatus = "running" := by
  unfold createTask at h
  split at h
  · cases h
  split at h
  · cases h
  next req =>
    split at h
    · cases h
    split at h
    · cases h
    next htype htargets =>
      cases h
      refine ⟨⟨req, rfl⟩, htargets, htype, ?_⟩
      simp only [MemoryStore.saveTask]
      split <;> exact ⟨_, by rw [Table.get?_put]; exact if_pos rfl, rfl, rfl⟩

theorem Reported.running_iff {task : Task} {es : List Arrival} (h : Reported task es) (hid : task.id ≠ "")
    (htype : task.type ≠ "") :
    (∀ e ∈ es, e.step.status = "running") ↔ ∀ i, (es.filter (·.target = i)).length ≤ 1 := by
  constructor
  · intro hall i
    obtain ⟨rest, hpre⟩ := h.first hid htype i
    match hfilter : es.filter (·.target = i) with
    | [] => simp [hfilter]
    | [_] => simp [hfilter]
    | e :: e' :: _ =>
      have hmem : e' ∈ es.filter (·.target = i) := by simp [hfilter]
      rw [hfilter] at hpre
      simp only [List.map_cons, List.cons_prefix_cons] at hpre
      exact absurd (hall e' (List.mem_filter.mp hmem).1) (by simp [hpre.2.1])
  · intro hlen e he
    obtain ⟨rest, hpre⟩ := h.first hid htype e.target
    have hmem : e ∈ es.filter (·.target = e.target) := List.mem_filter.mpr ⟨he, by simp⟩
    match hfilter : es.filter (·.target = e.target) with
    | [] => simp [hfilter] at hmem
    | [e'] =>
      rw [hfilter] at hmem hpre
      simp only [List.map_cons, List.cons_prefix_cons] at hpre
      rw [List.mem_singleton.mp hmem, hpre.1]
    | _ :: _ :: _ => exact absurd (hlen e.target) (by simp [hfilter])

theorem Reported.first_success {task : Task} {before after : List Arrival} {e : Arrival}
    (h : Reported task (before ++ e :: after)) (hid : task.id ≠ "") (htype : task.type ≠ "")
    (hbefore : ∀ e ∈ before, e.step.status = "running") (he : e.step.status ≠ "running") :
    e.step.name = "environment_check" ∧ e.step.status = "success" := by
  obtain ⟨rest, hpre⟩ := h.first hid htype e.target
  rw [List.filter_append, List.filter_cons_of_pos (by simp)] at hpre
  match hfilter : before.filter (·.target = e.target) with
  | [] =>
    simp only [hfilter, List.nil_append, List.map_cons, List.cons_prefix_cons] at hpre
    simp [hpre.1] at he
  | [_] =>
    simp only [hfilter, List.cons_append, List.nil_append, List.map_cons, List.cons_prefix_cons] at hpre
    simp [hpre.2.1]
  | _ :: e' :: _ =>
    have hmem : e' ∈ before.filter (·.target = e.target) := by simp [hfilter]
    simp only [hfilter, List.cons_append, List.map_cons, List.cons_prefix_cons] at hpre
    exact absurd (hbefore e' (List.mem_filter.mp hmem).1) (by simp [hpre.2.1])

/-- The status is right after every step exactly when no target has got beyond
the first step of its environment check. -/
theorem aggregates_iff {env : Env} {auth : Credentials} {body : Option TaskRequest} {c c' : Controller MemoryStore}
    {task : Task} (hid : env.uuid ≠ "") (hcreated : createTask env auth body c = (.ok task, c'))
    (taskUpd : String → List StepReport) {es : List Arrival} (hes : Reported task es) :
    (∀ seen, seen <+: es → ∃ t,
        (run task.arrive { store := c'.store, taskUpd := taskUpd } seen).store.tasks.get? task.id = some t ∧
          Aggregates task seen t) ↔
      ∀ i, (es.filter (·.target = i)).length ≤ 1 := by
  obtain ⟨⟨req, rfl⟩, htargets, htype, t₀, ht₀, hst₀, hov₀⟩ := createTask_ok hcreated
  have hstatus := fun es => stored_status (h := { store := c'.store, taskUpd := taskUpd }) hid es ht₀
    (hov₀.trans hst₀.symm)
  rw [hst₀] at hstatus
  rw [← hes.running_iff hid htype]
  constructor
  · intro h
    by_contra hall
    obtain ⟨e, hfirst⟩ : ∃ e, es.find? (·.step.status ≠ "running") = some e := by
      rw [← Option.isSome_iff_exists, List.find?_isSome]
      simpa using hall
    obtain ⟨he, before, after, rfl, hbefore⟩ := List.find?_eq_some_iff_append.mp hfirst
    have hbefore : ∀ e ∈ before, e.step.status = "running" := by simpa using hbefore
    obtain ⟨hname, hsuccess⟩ := hes.first_success hid htype hbefore (by simpa using he)
    obtain ⟨t, ht, hagg⟩ := h (before ++ [e]) ⟨after, by simp⟩
    obtain ⟨t', ht', hst, -⟩ := hstatus (before ++ [e])
    obtain rfl : t = t' := Option.some.inj (ht.symm.trans ht')
    have hst : t.status = "success" := by simpa [hsuccess] using hst
    obtain ⟨node, hnode⟩ := List.exists_mem_of_ne_nil _ htargets
    obtain ⟨e', he', -, hcomplete, hsuccess'⟩ := hagg.success (.inl hst) node hnode
    rcases List.mem_append.mp he' with he' | he'
    · simp [hbefore e' he'] at hsuccess'
    · simp [List.mem_singleton.mp he', hname] at hcomplete
  · intro hall seen hseen
    obtain ⟨t, ht, hst, hov⟩ := hstatus seen
    have hrunning : t.status = "running" := by
      rw [hst, List.getLastD_eq_getLast?]
      cases hlast : (seen.map (·.step.status)).getLast? with
      | none => rfl
      | some status =>
        obtain ⟨e, he, rfl⟩ := List.mem_map.mp (List.mem_of_getLast? hlast)
        exact hall e (hseen.subset he)
    refine ⟨t, ht, ?_, ?_, ?_⟩
    · simp [hov, hrunning]
    · rintro ⟨e, he, hfail⟩
      simp [hall e (hseen.subset he)] at hfail
    · simp [hov, hrunning]

/-- The request that creates `sampleTask`. -/
def sampleRequest : TaskRequest := { targets := ["a", "b"], type := "policy_apply" }

def sampleBefore : Controller MemoryStore where
  store := MemoryStore.new
  planVersion := 0
  sent := []
  saved := []

def sampleCreated : Controller MemoryStore :=
  (createTask { now := 1, uuid := "t1" } { jwt := true } (some sampleRequest) sampleBefore).2

def checkStarted : StepSent := ⟨"environment_check", "running", "检查环境"⟩

def checkDone : StepSent := ⟨"environment_check", "success", "环境检查完成"⟩

theorem sample_reported {es : List Arrival} (htarget : ∀ e ∈ es, e.target < sampleTask.targets.length)
    (hsteps : ∀ i, (es.filter (·.target = i)).map (·.step) <+: [checkStarted, checkDone]) :
    Reported sampleTask es := by
  refine ⟨htarget, fun i => ⟨{}, {}, {}, ?_⟩⟩
  obtain ⟨rest, hsent⟩ := sentSteps_handleWSTask {} {} {} (show sampleTask.id ≠ "" by decide)
    (show sampleTask.type ≠ "" by decide)
  rw [hsent]
  exact (hsteps i).trans ⟨rest, rfl⟩

/-- Both agents have begun. -/
theorem aggregates_begun :
    (∀ seen, seen <+: [{ target := 0, step := checkStarted }, { target := 1, step := checkStarted }] → ∃ t,
        (run sampleTask.arrive { store := sampleCreated.store, taskUpd := fun _ => [] } seen).store.tasks.get?
            sampleTask.id = some t ∧ Aggregates sampleTask seen t) ↔
      ∀ i, (([{ target := 0, step := checkStarted }, { target := 1, step := checkStarted }] :
        List Arrival).filter (·.target = i)).length ≤ 1 := by
  have hcreated : createTask { now := 1, uuid := "t1" } { jwt := true } (some sampleRequest) sampleBefore =
      (.ok sampleTask, sampleCreated) := rfl
  refine aggregates_iff (by decide) hcreated (fun _ => []) ?_
  refine sample_reported (by decide) fun i => ?_
  match i with
  | 0 | 1 => decide
  | i + 2 => simp

/-- The first agent has checked its environment, and the task is a success. -/
theorem success_before_complete :
    ¬ ∀ (env : Env) (auth : Credentials) (body : Option TaskRequest) (c c' : Controller MemoryStore) (task : Task),
      env.uuid ≠ "" → createTask env auth body c = (.ok task, c') →
      ∀ (taskUpd : String → List StepReport) (es : List Arrival), Reported task es → ∀ seen, seen <+: es → ∃ t,
        (run task.arrive { store := c'.store, taskUpd := taskUpd } seen).store.tasks.get? task.id = some t ∧
          Aggregates task seen t := by
  intro h
  have hrep : Reported sampleTask [{ target := 0, step := checkStarted }, { target := 0, step := checkDone }] := by
    refine sample_reported (by decide) fun i => ?_
    match i with
    | 0 => decide
    | i + 1 => simp
  obtain ⟨t, ht, hagg⟩ := h { now := 1, uuid := "t1" } { jwt := true } (some sampleRequest)
    sampleBefore sampleCreated sampleTask (by decide) rfl (fun _ => []) _ hrep _ (List.prefix_refl _)
  have hstatus : t.status = "success" := by
    have : (some t).map (·.status) = some "success" := by rw [← ht]; decide
    simpa using this
  obtain ⟨e, he, -, hname, -⟩ := hagg.success (.inl hstatus) "a" (by decide)
  revert e
  decide

end PeerWan
