import PeerWan.Agent.Tunnels
import PeerWan.Lib.Runs

/-!
# The tunnel processes

`wstunnelManager` of `pkg/agent/wstunnel.go`: a server and a client for each
host, started anew with each rendering, and a watcher that looks every 15
seconds whether they are still there. A lock makes each call one step; a
watcher whose ticker has fired may wait for it. The binary is there and every
process starts.
-/

namespace PeerWan

open Lib

/-- An `exec.Cmd` that was started. `ProcessState`, here whether the process has
exited, is nil until `Wait` is called, and nothing calls it. -/
structure TunnelCmd where
  pid : Nat
  processState : Option Bool := none
  deriving DecidableEq, Repr

structure TunnelManager where
  server : Option TunnelCmd := none
  clients : StrMap TunnelCmd := ∅
  hostMap : StrMap Int := ∅
  /-- The channel is that of the watcher with this number. -/
  stopCh : Option Nat := none
  port : Int := 0

structure TunnelProcess where
  args : List String
  alive : Bool

inductive WatcherPhase where
  | selecting | locking | returned
  deriving DecidableEq, Repr

structure Watcher where
  closed : Bool
  phase : WatcherPhase

/-- The manager with all processes and watchers there have been. `started` is
whether `startAll` was called last, and not `Shutdown`. -/
structure TunnelHost where
  manager : TunnelManager := {}
  processes : List TunnelProcess := []
  watchers : List Watcher := []
  started : Bool := false

def serverArgs (port : Int) : List String :=
  ["server", "ws://0.0.0.0:" ++ toString port, "--websocket-mask-frame"]

namespace TunnelHost

variable (w : TunnelHost)

def exit (pid : Nat) : TunnelHost :=
  { w with processes := w.processes.modify pid fun p => { p with alive := false } }

def setPhase (i : Nat) (phase : WatcherPhase) : TunnelHost :=
  { w with watchers := w.watchers.modify i fun watcher => { watcher with phase := phase } }

def startServerLocked (port : Int) : TunnelHost :=
  { w with
    manager := { w.manager with server := some { pid := w.processes.length } }
    processes := w.processes ++ [⟨serverArgs port, true⟩] }

def startClientLocked (host : String) (localPort remotePort : Int) : TunnelHost :=
  { w with
    manager := { w.manager with clients := w.manager.clients.put (host, { pid := w.processes.length }) }
    processes := w.processes ++ [⟨TunnelClient.args ⟨host, localPort, remotePort⟩, true⟩] }

def stopAllLocked : TunnelHost :=
  let w := match w.manager.stopCh with
    | some i => { w with
        watchers := w.watchers.modify i fun watcher => { watcher with closed := true }
        manager := { w.manager with stopCh := none } }
    | none => w
  let w := match w.manager.server with
    | some c => w.exit c.pid
    | none => w
  let w := w.manager.clients.rows.foldl (fun w r => w.exit r.2.pid) w
  { w with manager := { w.manager with clients := ∅, server := none } }

def startWatcherLocked : TunnelHost :=
  if w.manager.hostMap.rows = [] ∨ w.manager.port = 0 then w
  else { w with
    watchers := w.watchers ++ [⟨false, .selecting⟩]
    manager := { w.manager with stopCh := some w.watchers.length } }

def startAll (o : MapOrder (String × Int)) (hostToLocal : StrMap Int) (listenPort : Int) : TunnelHost :=
  let w := w.stopAllLocked
  let w := { w with manager := { w.manager with hostMap := hostToLocal, port := listenPort } }
  let w := w.startServerLocked listenPort
  let w := (hostToLocal.range o).foldl (fun w r => w.startClientLocked r.1 r.2 listenPort) w
  { w.startWatcherLocked with started := true }

def shutdown : TunnelHost := { w.stopAllLocked with started := false }

/-- Whether a command is missing or seen to have exited. -/
def missing (c : Option TunnelCmd) : Bool := c.all fun c => c.processState = some true

def ensureAlive (o : MapOrder (String × Int)) : TunnelHost :=
  if w.manager.port = 0 then w
  else
    let w := if missing w.manager.server then w.startServerLocked w.manager.port else w
    (w.manager.hostMap.range o).foldl (fun w r =>
      if missing ((w.manager.clients.get? r.1).map Prod.snd) then w.startClientLocked r.1 r.2 w.manager.port else w) w

end TunnelHost

/-- What happens: a call, a watcher's ticker that fires, a watcher that gets the
lock, one that returns, and a process that exits. -/
inductive TunnelStep where
  | startAll (o : MapOrder (String × Int)) (hostToLocal : StrMap Int) (listenPort : Int)
  | shutdown
  | fire (i : Nat)
  | tick (o : MapOrder (String × Int)) (i : Nat)
  | leave (i : Nat)
  | exit (pid : Nat)

/-- What cannot happen changes nothing. The ticker may win over a closed channel. -/
def TunnelStep.step (e : TunnelStep) (w : TunnelHost) : TunnelHost :=
  match e with
  | startAll o hostToLocal listenPort => w.startAll o hostToLocal listenPort
  | shutdown => w.shutdown
  | fire i => if w.watchers[i]?.any (·.phase = .selecting) then w.setPhase i .locking else w
  | tick o i => if w.watchers[i]?.any (·.phase = .locking) then (w.ensureAlive o).setPhase i .selecting else w
  | leave i => if w.watchers[i]?.any (fun x => x.phase = .selecting && x.closed) then w.setPhase i .returned else w
  | exit pid => w.exit pid

-- ---------------------------------------------------------------------------
-- Supervision
-- ---------------------------------------------------------------------------

namespace TunnelHost

def Alive (w : TunnelHost) (pid : Nat) : Prop := w.processes[pid]?.any (·.alive) = true

def Runs (w : TunnelHost) : Option TunnelCmd → Prop
  | some c => w.Alive c.pid
  | none => False

instance decidableRuns (w : TunnelHost) : (c : Option TunnelCmd) → Decidable (w.Runs c)
  | some c => inferInstanceAs (Decidable (w.processes[c.pid]?.any (·.alive) = true))
  | none => .isFalse id

/-- The server and the client of every host are alive. -/
def AllAlive (w : TunnelHost) : Prop :=
  w.Runs w.manager.server ∧ ∀ r ∈ w.manager.hostMap.rows, w.Runs ((w.manager.clients.get? r.1).map Prod.snd)

def Ticks (w : TunnelHost) (e : TunnelStep) : Prop :=
  ∃ o i, e = .tick o i ∧ w.watchers[i]?.any (·.phase = .locking) = true

/-- A tick leaves everything alive on a started manager, and starts nothing on
one that was shut down. -/
def Supervised (w : TunnelHost) (e : TunnelStep) : Prop :=
  w.Ticks e → (w.started → (e.step w).AllAlive) ∧ (w.started = false → (e.step w).processes.length = w.processes.length)

/-- A tick finds everything alive on a started manager, and no port on one that
was shut down. -/
def Undisturbed (w : TunnelHost) (e : TunnelStep) : Prop :=
  w.Ticks e → (w.started → w.AllAlive) ∧ (w.started = false → w.manager.port = 0)

-- ---------------------------------------------------------------------------
-- What the calls do
-- ---------------------------------------------------------------------------

variable {w : TunnelHost} {o : MapOrder (String × Int)}

/-- No command has a state, a started manager has all of them, and one that was
shut down has no server. -/
structure Kept (w : TunnelHost) : Prop where
  server : ∀ c, w.manager.server = some c → c.processState = none
  clients : ∀ r ∈ w.manager.clients.rows, r.2.processState = none
  up : w.started → w.manager.server.isSome ∧ ∀ r ∈ w.manager.hostMap.rows, (w.manager.clients.get? r.1).isSome
  down : w.started = false → w.manager.server = none

theorem not_missing {c : Option TunnelCmd} (hsome : c.isSome) (hstate : ∀ c', c = some c' → c'.processState = none) :
    missing c = false := by
  obtain ⟨c, rfl⟩ := Option.isSome_iff_exists.mp hsome
  show decide (c.processState = some true) = false
  rw [hstate c rfl]
  rfl

theorem Kept.ensureAlive_eq (h : w.Kept) (hstarted : w.started) : w.ensureAlive o = w := by
  obtain ⟨hserver, hclients⟩ := h.up hstarted
  have hloop : ∀ rs : List (String × Int), (∀ r ∈ rs, r ∈ w.manager.hostMap.rows) →
      rs.foldl (fun w r => if missing ((w.manager.clients.get? r.1).map Prod.snd) then
        w.startClientLocked r.1 r.2 w.manager.port else w) w = w := by
    intro rs hrs
    induction rs with
    | nil => rfl
    | cons r rs ih =>
      obtain ⟨hr, hrest⟩ := List.forall_mem_cons.mp hrs
      have hthere : missing ((w.manager.clients.get? r.1).map Prod.snd) = false := by
        refine not_missing (by simpa using hclients r hr) fun c hc => ?_
        obtain ⟨row, hrow, rfl⟩ := Option.map_eq_some_iff.mp hc
        exact h.clients row (Table.get?_eq_some.mp hrow).1
      rw [List.foldl_cons, hthere]
      exact ih hrest
  unfold ensureAlive
  split
  · rfl
  · rw [not_missing hserver h.server]
    exact hloop _ fun r hr => Table.mem_range.mp hr

theorem ensureAlive_no_port (hport : w.manager.port = 0) : w.ensureAlive o = w := if_pos hport

theorem length_startClients (rs : List (String × Int)) (w : TunnelHost) : w.processes.length ≤
    (rs.foldl (fun w r => if missing ((w.manager.clients.get? r.1).map Prod.snd) then
      w.startClientLocked r.1 r.2 w.manager.port else w) w).processes.length := by
  induction rs generalizing w with
  | nil => exact Nat.le_refl _
  | cons r rs ih =>
    rw [List.foldl_cons]
    refine Nat.le_trans ?_ (ih _)
    split
    · show w.processes.length ≤ (w.processes ++ [_]).length
      simp
    · exact Nat.le_refl _

theorem length_ensureAlive (hport : w.manager.port ≠ 0) (hserver : w.manager.server = none) :
    w.processes.length < (w.ensureAlive o).processes.length := by
  unfold ensureAlive
  rw [if_neg hport, hserver]
  refine Nat.lt_of_lt_of_le ?_ (length_startClients _ _)
  show w.processes.length < (w.processes ++ [_]).length
  simp

theorem alive_iff {pid : Nat} : w.Alive pid ↔ ∃ p, w.processes[pid]? = some p ∧ p.alive = true := by
  rw [Alive, Option.any_eq_true]

theorem alive_append {w' : TunnelHost} {args : List String} (h : w'.processes = w.processes ++ [⟨args, true⟩])
    {pid : Nat} : w'.Alive pid ↔ w.Alive pid ∨ pid = w.processes.length := by
  rw [alive_iff, alive_iff, h]
  rcases lt_trichotomy pid w.processes.length with hlt | heq | hgt
  · rw [List.getElem?_append_left hlt, or_iff_left hlt.ne]
  · simp [heq]
  · have hnew : (w.processes ++ [⟨args, true⟩])[pid]? = none := List.getElem?_eq_none (by simp; omega)
    have hold : w.processes[pid]? = none := List.getElem?_eq_none hgt.le
    simp [hnew, hold, hgt.ne']

theorem alive_exit {pid pid' : Nat} : (w.exit pid).Alive pid' ↔ w.Alive pid' ∧ pid' ≠ pid := by
  show ((w.processes.modify pid fun p => { p with alive := false })[pid']?.any (·.alive)) = true ↔ _
  rw [List.getElem?_modify, Alive]
  by_cases hpid : pid = pid'
  · subst hpid
    cases w.processes[pid]? <;> simp
  · cases w.processes[pid']? <;> simp [hpid, Ne.symm hpid]

structure Started (w w' : TunnelHost) (rs : List (String × Int)) : Prop where
  server : w'.manager.server = w.manager.server
  hostMap : w'.manager.hostMap = w.manager.hostMap
  alive : ∀ pid, w.Alive pid → w'.Alive pid
  state : (∀ r ∈ w.manager.clients.rows, r.2.processState = none ∧ w.Alive r.2.pid) →
    ∀ r ∈ w'.manager.clients.rows, r.2.processState = none ∧ w'.Alive r.2.pid
  clients : ∀ host, (w'.manager.clients.get? host).isSome ↔
    (w.manager.clients.get? host).isSome ∨ ∃ r ∈ rs, r.1 = host

theorem started_clients (rs : List (String × Int)) (port : Int) (w : TunnelHost) :
    Started w (rs.foldl (fun w r => w.startClientLocked r.1 r.2 port) w) rs := by
  induction rs generalizing w with
  | nil => exact ⟨rfl, rfl, fun _ h => h, fun h => h, fun host => by simp⟩
  | cons r rs ih =>
    rw [List.foldl_cons]
    have hrest := ih (w.startClientLocked r.1 r.2 port)
    have halive : ∀ pid, (w.startClientLocked r.1 r.2 port).Alive pid ↔ w.Alive pid ∨ pid = w.processes.length :=
      fun pid => alive_append rfl
    constructor
    case server => exact hrest.server
    case hostMap => exact hrest.hostMap
    case alive => exact fun pid h => hrest.alive pid ((halive pid).mpr (.inl h))
    case state =>
      refine fun h => hrest.state fun c hc => ?_
      rcases Table.mem_put.mp hc with ⟨hold, -⟩ | rfl
      · exact ⟨(h c hold).1, (halive _).mpr (.inl (h c hold).2)⟩
      · exact ⟨rfl, (halive _).mpr (.inr rfl)⟩
    case clients =>
      intro host
      rw [hrest.clients, List.exists_mem_cons_iff, ← or_assoc]
      refine or_congr_left ?_
      show ((w.manager.clients.put _).get? host).isSome ↔ _
      by_cases hhost : r.1 = host <;> simp [hhost]

theorem startWatcherLocked_keeps (w : TunnelHost) : w.startWatcherLocked.manager.server = w.manager.server ∧
    w.startWatcherLocked.manager.clients = w.manager.clients ∧
    w.startWatcherLocked.manager.hostMap = w.manager.hostMap ∧ w.startWatcherLocked.processes = w.processes := by
  unfold startWatcherLocked
  split <;> exact ⟨rfl, rfl, rfl, rfl⟩

theorem startAll_spec (w : TunnelHost) (o : MapOrder (String × Int)) (hostToLocal : StrMap Int) (listenPort : Int) :
    (w.startAll o hostToLocal listenPort).Kept ∧ (w.startAll o hostToLocal listenPort).AllAlive := by
  unfold startAll
  dsimp only
  generalize hserved : startServerLocked _ listenPort = w₁
  have hserver : ∃ pid, w₁.manager.server = some { pid := pid } ∧ w₁.Alive pid := by
    subst hserved
    exact ⟨_, rfl, (alive_append rfl).mpr (.inr rfl)⟩
  have hempty : w₁.manager.clients = ∅ := by
    subst hserved
    rfl
  have hhosts : w₁.manager.hostMap = hostToLocal := by
    subst hserved
    rfl
  obtain ⟨pid, hserver, halive⟩ := hserver
  have hclients := started_clients (hostToLocal.range o) listenPort w₁
  generalize (hostToLocal.range o).foldl _ w₁ = w₂ at hclients
  obtain ⟨hserver', hclients', hhosts', hprocesses⟩ := startWatcherLocked_keeps w₂
  have hsame := hserver'.trans (hclients.server.trans hserver)
  have hstate : ∀ r ∈ w₂.manager.clients.rows, r.2.processState = none ∧ w₂.Alive r.2.pid := by
    refine hclients.state fun r hr => ?_
    rw [hempty] at hr
    cases hr
  have hthere : ∀ r ∈ hostToLocal.rows, (w₂.manager.clients.get? r.1).isSome := fun r hr =>
    (hclients.clients r.1).mpr (.inr ⟨r, Table.mem_range.mpr hr, rfl⟩)
  have hall : ∀ p, ({ w₂.startWatcherLocked with started := true } : TunnelHost).Alive p ↔ w₂.Alive p := by
    intro p
    rw [alive_iff, alive_iff]
    show (∃ q, w₂.startWatcherLocked.processes[p]? = some q ∧ _) ↔ _
    rw [hprocesses]
  constructor
  · constructor
    case server =>
      intro c hc
      exact Option.some.inj (hsame.symm.trans hc) ▸ rfl
    case clients =>
      intro r hr
      exact (hstate r (hclients' ▸ hr)).1
    case up =>
      intro _
      refine ⟨Option.isSome_of_eq_some hsame, ?_⟩
      show ∀ r ∈ w₂.startWatcherLocked.manager.hostMap.rows, (w₂.startWatcherLocked.manager.clients.get? r.1).isSome
      rw [hclients', hhosts', hclients.hostMap, hhosts]
      exact hthere
    case down =>
      intro hstarted
      cases hstarted
  · constructor
    · show Runs _ w₂.startWatcherLocked.manager.server
      rw [hsame]
      exact (hall pid).mpr (hclients.alive pid halive)
    · show ∀ r ∈ w₂.startWatcherLocked.manager.hostMap.rows,
        Runs _ ((w₂.startWatcherLocked.manager.clients.get? r.1).map Prod.snd)
      rw [hclients', hhosts', hclients.hostMap, hhosts]
      intro r hr
      obtain ⟨row, hrow⟩ := Option.isSome_iff_exists.mp (hthere r hr)
      rw [hrow]
      exact (hall _).mpr (hstate row (Table.get?_eq_some.mp hrow).1).2

theorem kept_shutdown (w : TunnelHost) : w.shutdown.Kept where
  server := by
    intro c hc
    cases hc
  clients := by
    intro r hr
    cases hr
  up := by
    intro hstarted
    cases hstarted
  down := fun _ => rfl

theorem Kept.of_manager {w' : TunnelHost} (h : w.Kept) (hmanager : w'.manager = w.manager)
    (hstarted : w'.started = w.started) : w'.Kept := by
  obtain ⟨hserver, hclients, hup, hdown⟩ := h
  constructor <;> rw [hmanager]
  · exact hserver
  · exact hclients
  · rwa [hstarted]
  · rwa [hstarted]

theorem Kept.tick (h : w.Kept) (hnext : w.started = false → w.manager.port = 0) : w.ensureAlive o = w := by
  cases hstarted : w.started with
  | true => exact h.ensureAlive_eq hstarted
  | false => exact ensureAlive_no_port (hnext hstarted)

-- ---------------------------------------------------------------------------
-- Runs
-- ---------------------------------------------------------------------------

theorem step_tick {i : Nat} (hlock : w.watchers[i]?.any (·.phase = .locking) = true) :
    (TunnelStep.tick o i).step w = (w.ensureAlive o).setPhase i .selecting := if_pos hlock

theorem supervised_iff_undisturbed (h : w.Kept) (e : TunnelStep) : w.Supervised e ↔ w.Undisturbed e := by
  refine forall_congr' fun hticks => ?_
  obtain ⟨o, i, rfl, hlock⟩ := hticks
  rw [step_tick hlock]
  refine and_congr (forall_congr' fun hstarted => ?_) (forall_congr' fun hdown => ⟨fun hnone => ?_, fun hport => ?_⟩)
  · rw [h.ensureAlive_eq hstarted]
    rfl
  · by_contra hport
    exact absurd hnone (length_ensureAlive (o := o) hport (h.down hdown)).ne'
  · rw [ensureAlive_no_port hport]
    rfl

/-- A supervised step keeps the invariant: the tick has nothing to do. -/
theorem kept_step (h : w.Kept) {e : TunnelStep} (hsupervised : w.Supervised e) : (e.step w).Kept := by
  cases e with
  | startAll o hostToLocal listenPort => exact (startAll_spec w o hostToLocal listenPort).1
  | shutdown => exact kept_shutdown w
  | fire i =>
    simp only [TunnelStep.step]
    split
    · exact h.of_manager rfl rfl
    · exact h
  | tick o i =>
    by_cases hlock : w.watchers[i]?.any (·.phase = .locking) = true
    · have hnext := (supervised_iff_undisturbed h _).mp hsupervised ⟨o, i, rfl, hlock⟩
      rw [step_tick hlock, h.tick hnext.2]
      exact h.of_manager rfl rfl
    · rw [TunnelStep.step, if_neg hlock]
      exact h
  | leave i =>
    simp only [TunnelStep.step]
    split
    · exact h.of_manager rfl rfl
    · exact h
  | exit pid => exact h.of_manager rfl rfl

theorem kept_new : Kept {} where
  server := by
    intro c hc
    cases hc
  clients := by
    intro r hr
    cases hr
  up := by
    intro hstarted
    cases hstarted
  down := fun _ => rfl

/-- In a run, the ticks supervise exactly where they find nothing to do. -/
theorem supervised_iff (es : List TunnelStep) :
    Along TunnelStep.step Supervised {} es ↔ Along TunnelStep.step Undisturbed {} es :=
  along_congr_of_kept (I := Kept) (fun _ _ h hsupervised => kept_step h hsupervised)
    (fun _ e h => supervised_iff_undisturbed h e) kept_new

def oneTunnel : TunnelStep := .startAll default ((∅ : StrMap Int).put ("203.0.113.1", 30000)) 8082

/-- The server exits and stays away; and a watcher that waits for the lock starts
it again after a shutdown. -/
theorem supervised_counterexample :
    ¬ Along TunnelStep.step Supervised {} [oneTunnel, .exit 0, .fire 0, .tick default 0] ∧
      ¬ Along TunnelStep.step Supervised {} [oneTunnel, .fire 0, .shutdown, .tick default 0] := by
  constructor
  · rintro ⟨-, -, -, h, -⟩
    have hserver := ((h ⟨default, 0, rfl, by decide⟩).1 (by decide)).1
    exact absurd hserver (by decide)
  · rintro ⟨-, -, -, h, -⟩
    have hnone := (h ⟨default, 0, rfl, by decide⟩).2 (by decide)
    exact absurd hnone (by decide)

-- ---------------------------------------------------------------------------
-- Until one exits
-- ---------------------------------------------------------------------------

/-- A process of the manager: that of the server, or of the client of a host. -/
def Owns (w : TunnelHost) (pid : Nat) : Prop :=
  (∃ c, w.manager.server = some c ∧ c.pid = pid) ∨
    ∃ r ∈ w.manager.hostMap.rows, ∃ row, w.manager.clients.get? r.1 = some row ∧ row.2.pid = pid

def IsCall : TunnelStep → Prop
  | .startAll .. | .shutdown => True
  | _ => False

theorem runs_exit {pid : Nat} {c : Option TunnelCmd} :
    (w.exit pid).Runs c ↔ w.Runs c ∧ ¬ ∃ c', c = some c' ∧ c'.pid = pid := by
  cases c with
  | none => exact ⟨False.elim, And.left⟩
  | some c => simp [Runs, alive_exit]

theorem allAlive_exit {pid : Nat} : (w.exit pid).AllAlive ↔ w.AllAlive ∧ ¬ w.Owns pid := by
  have hclient : ∀ r : String × Int, (¬ ∃ c, (w.manager.clients.get? r.1).map Prod.snd = some c ∧ c.pid = pid) ↔
      ¬ ∃ row, w.manager.clients.get? r.1 = some row ∧ row.2.pid = pid := by
    intro r
    simp only [Option.map_eq_some_iff, exists_exists_and_eq_and]
  show (w.exit pid).Runs w.manager.server ∧
    (∀ r ∈ w.manager.hostMap.rows, (w.exit pid).Runs ((w.manager.clients.get? r.1).map Prod.snd)) ↔ _
  simp only [runs_exit, hclient, AllAlive, Owns, not_or]
  constructor
  · rintro ⟨⟨hserver, hno⟩, hclients⟩
    refine ⟨⟨hserver, fun r hr => (hclients r hr).1⟩, hno, ?_⟩
    rintro ⟨r, hr, hrow⟩
    exact (hclients r hr).2 hrow
  · rintro ⟨⟨hserver, hclients⟩, hno, hnone⟩
    exact ⟨⟨hserver, hno⟩, fun r hr => ⟨hclients r hr, fun hrow => hnone ⟨r, hr, hrow⟩⟩⟩

theorem allAlive_congr {w' : TunnelHost} (hmanager : w'.manager = w.manager) (hprocesses : w'.processes = w.processes) :
    w'.AllAlive ↔ w.AllAlive := by
  have hruns : ∀ c, w'.Runs c ↔ w.Runs c := by
    intro c
    cases c with
    | none => rfl
    | some c => rw [Runs, Runs, Alive, Alive, hprocesses]
  simp only [AllAlive, hruns, hmanager]

theorem step_between (h : w.Kept) (hstarted : w.started) {e : TunnelStep} (hcall : ¬ IsCall e) :
    (e.step w).manager = w.manager ∧ (e.step w).started = w.started ∧
      ((e.step w).AllAlive ↔ w.AllAlive ∧ ∀ pid, e = .exit pid → ¬ w.Owns pid) := by
  have hsame : ∀ {w' : TunnelHost}, w'.manager = w.manager → w'.started = w.started → w'.processes = w.processes →
      (∀ pid, e ≠ .exit pid) → w'.manager = w.manager ∧ w'.started = w.started ∧
        (w'.AllAlive ↔ w.AllAlive ∧ ∀ pid, e = .exit pid → ¬ w.Owns pid) := by
    intro w' hmanager hstarted' hprocesses hno
    refine ⟨hmanager, hstarted', (allAlive_congr hmanager hprocesses).trans (iff_self_and.mpr fun _ pid heq => ?_)⟩
    exact absurd heq (hno pid)
  cases e with
  | startAll o hostToLocal listenPort => exact absurd trivial hcall
  | shutdown => exact absurd trivial hcall
  | fire i =>
    simp only [TunnelStep.step]
    split <;> exact hsame rfl rfl rfl fun pid heq => by cases heq
  | tick o i =>
    simp only [TunnelStep.step]
    split
    · rw [h.ensureAlive_eq hstarted]
      exact hsame rfl rfl rfl fun pid heq => by cases heq
    · exact hsame rfl rfl rfl fun pid heq => by cases heq
  | leave i =>
    simp only [TunnelStep.step]
    split <;> exact hsame rfl rfl rfl fun pid heq => by cases heq
  | exit pid =>
    refine ⟨rfl, rfl, allAlive_exit.trans (and_congr_right fun _ => ⟨fun hno pid' heq => ?_, fun hno => hno pid rfl⟩)⟩
    cases heq
    exact hno

/-- Between two calls, the processes that `startAll` started are alive as long as
none of them exits. -/
theorem allAlive_run (h : w.Kept) (hstarted : w.started) (es : List TunnelStep) (hcalls : ∀ e ∈ es, ¬ IsCall e) :
    (run TunnelStep.step w es).AllAlive ↔ w.AllAlive ∧ ∀ pid, .exit pid ∈ es → ¬ w.Owns pid := by
  induction es generalizing w with
  | nil => simp
  | cons e es ih =>
    obtain ⟨hcall, hrest⟩ := List.forall_mem_cons.mp hcalls
    obtain ⟨hmanager, hsame, hnext⟩ := step_between h hstarted hcall
    have howns : ∀ pid, (e.step w).Owns pid ↔ w.Owns pid := by
      intro pid
      rw [Owns, Owns, hmanager]
    rw [run_cons, ih (h.of_manager hmanager hsame) (hsame.trans hstarted) hrest, hnext, and_assoc]
    refine and_congr_right fun _ => ?_
    simp only [howns, List.mem_cons]
    constructor
    · rintro ⟨hfirst, hlater⟩ pid (heq | hmem)
      · exact hfirst pid heq.symm
      · exact hlater pid hmem
    · exact fun hall => ⟨fun pid heq => hall pid (.inl heq.symm), fun pid hmem => hall pid (.inr hmem)⟩

end TunnelHost

end PeerWan
