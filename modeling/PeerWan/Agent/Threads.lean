import PeerWan.Agent.Session

/-!
# Concurrent handlers

`readLoop` starts a goroutine for every message, and the self-heal loop runs
beside them. A handler is cut where another can come in between: it reads the
shared variables, updates them, renders and writes, then applies and reports.
A schedule lists these moves in the order in which they happen.

The plan that is written last is to be the plan that was sent last. No handler
looks at the version of the plan it is about to replace, so it is the schedule
that decides.
-/

namespace PeerWan

open Lib

-- ---------------------------------------------------------------------------
-- Moves
-- ---------------------------------------------------------------------------

inductive Job where
  | plan (cfg : NodeConfigResponse)
  | task (taskID type : String)
  | command (action : String)
  deriving DecidableEq, Repr

/-- Where a handler stands: what it will merge, and into what. -/
inductive Phase where
  | ready
  | based (cfg : NodeConfigResponse) (base : Node)
  | merged (cfg : NodeConfigResponse) (base : Node)
  | written (cfg : NodeConfigResponse) (base : Node)
  | done
  deriving DecidableEq, Repr

def Phase.held : Phase → Option (NodeConfigResponse × Node)
  | .based cfg base | .merged cfg base | .written cfg base => some (cfg, base)
  | .ready | .done => none

def Phase.plan (p : Phase) : Option NodeConfigResponse := p.held.map (·.1)

/-- `origin` numbers the event that sent the message; no code reads it. -/
structure Thread where
  job : Job
  phase : Phase := .ready
  origin : Option Nat := none
  deriving DecidableEq, Repr

/-- A configuration on disk, with the plan whose version its writer reports. -/
structure Written where
  plan : NodeConfigResponse
  call : RenderCall
  deriving DecidableEq, Repr

structure Runtime where
  latestCfg : NodeConfigResponse := {}
  latestNode : Node := {}
  written : Option Written := none
  threads : List Thread := []
  /-- What the self-heal loop has read and is about to render. -/
  healer : Option (NodeConfigResponse × Node) := none
  deriving DecidableEq, Repr

/-- A flag says whether the calls of the move succeed: `RenderAndWrite` for a
write, `ApplyConfigs` for the end of a handler. -/
inductive Act where
  | read (i : Nat)
  | update (i : Nat)
  | write (i : Nat) (ok : Bool)
  | finish (i : Nat) (ok : Bool)
  | healRead
  | healWrite (ok : Bool)
  deriving DecidableEq, Repr

def Runtime.advance (r : Runtime) (i : Nat) (p : Phase) : Runtime :=
  { r with threads := r.threads.modify i fun t => { t with phase := p } }

def Runtime.phase (r : Runtime) (i : Nat) : Option Phase := r.threads[i]?.map (·.phase)

/-- What a handler reads before it goes on. A plan's handler has its plan from
the message; a command does not touch the shared variables. -/
def Job.read (ctx : WsCtx) (r : Runtime) : Job → Phase
  | .plan cfg => .based (received ctx cfg) r.latestNode
  | .task taskID type => if applies taskID type then .based r.latestCfg r.latestNode else .done
  | .command action => if action = "install" then .merged r.latestCfg r.latestNode else .done

def writtenOf (ctx : WsCtx) (cfg : NodeConfigResponse) (base : Node) : Written where
  plan := cfg
  call := renderCall ctx base cfg

def Act.step (ctx : WsCtx) (a : Act) (r : Runtime) : Option Runtime :=
  match a with
  | .read i =>
    match r.threads[i]? with
    | some { job, phase := .ready, .. } => some (r.advance i (job.read ctx r))
    | _ => none
  | .update i =>
    match r.phase i with
    | some (.based cfg base) =>
      some { r.advance i (.merged cfg base) with latestCfg := cfg, latestNode := absorb ctx.asn cfg base }
    | _ => none
  | .write i ok =>
    match r.phase i with
    | some (.merged cfg base) =>
      if ok then some { r.advance i (.written cfg base) with written := some (writtenOf ctx cfg base) }
      else some (r.advance i .done)
    | _ => none
  | .finish i _ =>
    match r.phase i with
    | some (.written _ _) => some (r.advance i .done)
    | _ => none
  | .healRead =>
    match r.healer with
    | some _ => none
    | none =>
      if ctx.apply ∧ r.latestCfg.configVersion ≠ "" then
        some { r with healer := some (r.latestCfg, r.latestNode) }
      else some r
  | .healWrite ok =>
    match r.healer with
    | none => none
    | some (cfg, base) =>
      if ok then some { r with healer := none, written := some (writtenOf ctx cfg base) }
      else some { r with healer := none }

def Runtime.finished (r : Runtime) : Bool := r.threads.all (·.phase = .done) && r.healer = none

-- ---------------------------------------------------------------------------
-- What a move does
-- ---------------------------------------------------------------------------

@[simp] theorem Runtime.advance_latestCfg (r : Runtime) (i : Nat) (p : Phase) :
    (r.advance i p).latestCfg = r.latestCfg := rfl

@[simp] theorem Runtime.advance_latestNode (r : Runtime) (i : Nat) (p : Phase) :
    (r.advance i p).latestNode = r.latestNode := rfl

@[simp] theorem Runtime.advance_written (r : Runtime) (i : Nat) (p : Phase) :
    (r.advance i p).written = r.written := rfl

@[simp] theorem Runtime.advance_healer (r : Runtime) (i : Nat) (p : Phase) :
    (r.advance i p).healer = r.healer := rfl

theorem Runtime.advance_thread (r : Runtime) (i j : Nat) (p : Phase) :
    (r.advance i p).threads[j]? =
      if i = j then r.threads[j]?.map fun t => { t with phase := p } else r.threads[j]? := by
  simp only [advance, List.getElem?_modify]
  split <;> simp

theorem Runtime.advance_phase (r : Runtime) (i j : Nat) (p : Phase) :
    (r.advance i p).phase j = if i = j then (r.phase j).map fun _ => p else r.phase j := by
  simp only [phase, advance_thread]
  split <;> simp [Function.comp_def]

theorem Runtime.phase_eq {r : Runtime} (hp : r.phase i = some p) (ht : r.threads[i]? = some t) : t.phase = p := by
  rw [Runtime.phase, ht] at hp
  exact Option.some.inj hp

def EachThread (P : Nat → Thread → Prop) (threads : List Thread) : Prop :=
  ∀ (i : Nat) (t : Thread), threads[i]? = some t → P i t

theorem EachThread.advance {P : Nat → Thread → Prop} {r : Runtime} (h : EachThread P r.threads)
    (hp : ∀ t, r.threads[i]? = some t → P i t → P i { t with phase := p }) :
    EachThread P (r.advance i p).threads := by
  intro j t ht
  rw [Runtime.advance_thread] at ht
  split at ht
  next hij =>
    subst hij
    obtain ⟨u, hu, rfl⟩ := Option.map_eq_some_iff.mp ht
    exact hp u hu (h i u hu)
  next => exact h j t ht

theorem EachThread.concat {P : Nat → Thread → Prop} {threads : List Thread} (h : EachThread P threads)
    (hp : P threads.length t) : EachThread P (threads ++ [t]) := by
  intro i u hu
  rw [List.getElem?_append] at hu
  split at hu
  · exact h i u hu
  next hi =>
    obtain ⟨hlen, rfl⟩ := List.getElem?_eq_some_iff.mp hu
    rw [List.length_singleton] at hlen
    obtain rfl : i = threads.length := by omega
    simpa using hp

inductive Moved (ctx : WsCtx) (r : Runtime) : Act → Runtime → Prop where
  | read (ht : r.threads[i]? = some t) (hready : t.phase = .ready) :
      Moved ctx r (.read i) (r.advance i (t.job.read ctx r))
  | update (hbased : r.phase i = some (.based cfg base)) :
      Moved ctx r (.update i)
        { r.advance i (.merged cfg base) with latestCfg := cfg, latestNode := absorb ctx.asn cfg base }
  | write (hmerged : r.phase i = some (.merged cfg base)) :
      Moved ctx r (.write i true)
        { r.advance i (.written cfg base) with written := some (writtenOf ctx cfg base) }
  | writeFails (hmerged : r.phase i = some (.merged cfg base)) : Moved ctx r (.write i false) (r.advance i .done)
  | finish (hwritten : r.phase i = some (.written cfg base)) : Moved ctx r (.finish i ok) (r.advance i .done)
  | healRead (hidle : r.healer = none) :
      Moved ctx r .healRead { r with healer := some (r.latestCfg, r.latestNode) }
  | healSkips (hidle : r.healer = none) : Moved ctx r .healRead r
  | healWrite (hread : r.healer = some (cfg, base)) :
      Moved ctx r (.healWrite true) { r with healer := none, written := some (writtenOf ctx cfg base) }
  | healFails : Moved ctx r (.healWrite false) { r with healer := none }

theorem moved {ctx : WsCtx} {a : Act} {r r' : Runtime} (h : a.step ctx r = some r') : Moved ctx r a r' := by
  cases a with
  | read i =>
    simp only [Act.step] at h
    split at h
    next ht => cases h; exact .read ht rfl
    next => cases h
  | update i =>
    simp only [Act.step] at h
    split at h
    next hp => cases h; exact .update hp
    next => cases h
  | write i ok =>
    simp only [Act.step] at h
    split at h
    next hp => cases ok <;> cases h <;> first | exact .write hp | exact .writeFails hp
    next => cases h
  | finish i ok =>
    simp only [Act.step] at h
    split at h
    next hp => cases h; exact .finish hp
    next => cases h
  | healRead =>
    simp only [Act.step] at h
    split at h
    next => cases h
    next hidle =>
      split at h
      · cases h; exact .healRead hidle
      · cases h; exact .healSkips hidle
  | healWrite ok =>
    simp only [Act.step] at h
    split at h
    next => cases h
    next hread => cases ok <;> cases h <;> first | exact .healWrite hread | exact .healFails

-- ---------------------------------------------------------------------------
-- One message at a time
-- ---------------------------------------------------------------------------

def Message.job : Message → Option Job
  | .plan payload => payload.map .plan
  | .task taskID type => some (.task taskID type)
  | .command action _ => some (.command action)
  | .tick => none

def Agent.runtime (s : Agent) (m : Message) : Runtime where
  latestCfg := s.latestCfg
  latestNode := s.latestNode
  threads := (m.job.map fun job => { job := job }).toList

def Outcomes.writes (o : Outcomes) : List Act :=
  match o.render with
  | .error _ => [.write 0 false]
  | .ok () => [.write 0 true, .finish 0 o.applied.isOk]

def Message.moves (ctx : WsCtx) (o : Outcomes) (s : Agent) : Message → List Act
  | .plan none => []
  | .plan (some _) => .read 0 :: .update 0 :: o.writes
  | .task taskID type => if applies taskID type then .read 0 :: .update 0 :: o.writes else [.read 0]
  | .command action _ => if action = "install" then .read 0 :: o.writes else [.read 0]
  | .tick =>
    if ctx.apply ∧ s.latestCfg.configVersion ≠ "" then [.healRead, .healWrite o.render.isOk] else [.healRead]

structure Runtime.Left (ctx : WsCtx) (o : Outcomes) (cfg : NodeConfigResponse) (base : Node)
    (r r' : Runtime) : Prop where
  finished : r'.finished
  written : r'.written = if o.render.isOk then some (writtenOf ctx cfg base) else r.written

theorem exec_writes (ctx : WsCtx) {r : Runtime} (o : Outcomes)
    (hthreads : r.threads = [{ job := job, phase := .merged cfg base }]) (hidle : r.healer = none) :
    ∃ r', exec (Act.step ctx) r o.writes = some r' ∧ r'.latestCfg = r.latestCfg ∧
      r'.latestNode = r.latestNode ∧ r.Left ctx o cfg base r' := by
  obtain ⟨latestCfg, latestNode, written, threads, healer⟩ := r
  subst hthreads hidle
  unfold Outcomes.writes
  cases h : o.render with
  | error e => exact ⟨_, rfl, rfl, rfl, rfl, by rw [h]; rfl⟩
  | ok => exact ⟨_, rfl, rfl, rfl, rfl, by rw [h]; rfl⟩

theorem exec_updates (ctx : WsCtx) {r : Runtime} (o : Outcomes) (hthreads : r.threads = [{ job := job }])
    (hidle : r.healer = none) (hread : job.read ctx r = .based cfg base) :
    ∃ r', exec (Act.step ctx) r (.read 0 :: .update 0 :: o.writes) = some r' ∧ r'.latestCfg = cfg ∧
      r'.latestNode = absorb ctx.asn cfg base ∧ r.Left ctx o cfg base r' := by
  obtain ⟨latestCfg, latestNode, written, threads, healer⟩ := r
  subst hthreads hidle
  obtain ⟨r', hexec, hcfg, hnode, hleft⟩ := exec_writes ctx (r := ⟨cfg, absorb ctx.asn cfg base, written,
    [{ job := job, phase := .merged cfg base }], none⟩) o rfl rfl
  refine ⟨r', ?_, hcfg, hnode, hleft.finished, hleft.written⟩
  refine exec_cons.mpr ⟨_, rfl, exec_cons.mpr ⟨_, ?_, hexec⟩⟩
  rw [hread]
  rfl

theorem exec_reads (ctx : WsCtx) {r : Runtime} (hthreads : r.threads = [{ job := job }])
    (hidle : r.healer = none) (hread : job.read ctx r = .done) :
    ∃ r', exec (Act.step ctx) r [.read 0] = some r' ∧ r'.finished ∧ r'.latestCfg = r.latestCfg ∧
      r'.latestNode = r.latestNode ∧ r'.written = r.written := by
  obtain ⟨latestCfg, latestNode, written, threads, healer⟩ := r
  subst hthreads hidle
  refine ⟨_, exec_cons.mpr ⟨_, rfl, rfl⟩, ?_, rfl, rfl, rfl⟩
  rw [hread]
  rfl

/-- Undisturbed, the moves of a handler do what the session's handler does. -/
theorem moves_handle (ctx : WsCtx) (o : Outcomes) (m : Message) (s : Agent) :
    ∃ r, exec (Act.step ctx) (s.runtime m) (m.moves ctx o s) = some r ∧ r.finished ∧
      r.latestCfg = (m.handle ctx o s).1.latestCfg ∧ r.latestNode = (m.handle ctx o s).1.latestNode ∧
      r.written = if o.render.isOk then (m.rendered ctx s).map (writtenOf ctx · s.latestNode) else none := by
  cases m with
  | plan payload =>
    cases payload with
    | none => exact ⟨_, rfl, rfl, rfl, rfl, by simp [Message.rendered, Agent.runtime]⟩
    | some cfg =>
      obtain ⟨r, hexec, hcfg, hnode, hleft⟩ :=
        exec_updates ctx (r := s.runtime (.plan (some cfg))) o rfl rfl rfl
      exact ⟨r, hexec, hleft.finished, hcfg, hnode, hleft.written⟩
  | task taskID type =>
    obtain ⟨hcfg', hnode'⟩ := task_latest ctx o taskID type s
    simp only [Message.moves, Message.handle, Message.rendered, Message.reapplies, hcfg', hnode']
    by_cases happ : applies taskID type = true
    · obtain ⟨r, hexec, hcfg, hnode, hleft⟩ := exec_updates ctx (r := s.runtime (.task taskID type)) o rfl rfl
        (by rw [Job.read, if_pos happ])
      simp only [happ, if_true]
      exact ⟨r, hexec, hleft.finished, hcfg, hnode, hleft.written⟩
    · obtain ⟨r, hexec, hfinished, hcfg, hnode, hwritten⟩ := exec_reads ctx
        (r := s.runtime (.task taskID type)) rfl rfl (by rw [Job.read, if_neg happ])
      simp only [happ]
      exact ⟨r, hexec, hfinished, hcfg, hnode, by simpa using! hwritten⟩
  | command action cmd =>
    simp only [Message.moves, Message.handle, Message.rendered, Message.reapplies, decide_eq_true_eq]
    by_cases hinstall : action = "install"
    · subst hinstall
      obtain ⟨r, hexec, hcfg, hnode, hleft⟩ := exec_writes ctx
        (r := (s.runtime (.command "install" cmd)).advance 0 (.merged s.latestCfg s.latestNode)) o rfl rfl
      exact ⟨r, exec_cons.mpr ⟨_, rfl, hexec⟩, hleft.finished, hcfg, hnode, hleft.written⟩
    · obtain ⟨r, hexec, hfinished, hcfg, hnode, hwritten⟩ := exec_reads ctx
        (r := s.runtime (.command action cmd)) rfl rfl (by rw [Job.read, if_neg hinstall])
      simp only [hinstall, if_false]
      exact ⟨r, hexec, hfinished, hcfg, hnode, by simpa using! hwritten⟩
  | tick =>
    by_cases hheal : ctx.apply ∧ s.latestCfg.configVersion ≠ ""
    · have hread : Act.step ctx .healRead (s.runtime .tick) =
          some { s.runtime .tick with healer := some (s.latestCfg, s.latestNode) } := if_pos hheal
      simp only [Message.moves, Message.rendered, if_pos hheal]
      cases h : o.render with
      | error e => exact ⟨_, exec_cons.mpr ⟨_, hread, rfl⟩, rfl, rfl, rfl, rfl⟩
      | ok => exact ⟨_, exec_cons.mpr ⟨_, hread, rfl⟩, rfl, rfl, rfl, rfl⟩
    · have hread : Act.step ctx .healRead (s.runtime .tick) = some (s.runtime .tick) := if_neg hheal
      simp only [Message.moves, Message.rendered, if_neg hheal]
      exact ⟨_, exec_cons.mpr ⟨_, hread, rfl⟩, rfl, rfl, rfl, by simp [Agent.runtime]⟩

end PeerWan
