import Mathlib.Data.List.Count
import Mathlib.Logic.Function.Basic
import Mathlib.Order.Nat
import PeerWan.Lib.Pieces
import PeerWan.Lib.Runs

/-!
# The agents' log stream

A line that an agent logs goes through the channel of `pkg/agent/ws_client.go`
(`pushLog`, and `drainLogs` every 2 s), over the agent's WebSocket, and from the
hub's `readLoop` to the UI connections that follow the node (`HandleUILogs`,
`fanoutLogs`, `closeSub` of `pkg/api/ws.go`). Each stage may lose lines and
none waits for another.

An agent dials again when its connection is gone, and the `readLoop` of the old
one may still have frames to read. The connections here are those of agents.
-/

namespace PeerWan

open Lib

-- ---------------------------------------------------------------------------
-- The parties
-- ---------------------------------------------------------------------------

/-- The part of `wsClient` that the log lines go through. The connection is the
one it dialed last, which it keeps after it is gone. -/
structure LogClient where
  logs : List String := []
  conn : Option Nat := none

/-- A connection of an agent. What was written to it and what was read from it
in all is for the statements; no code reads it. -/
structure LogLink where
  nodeID : String
  up : Bool := true
  inFlight : List (List String) := []
  written : List (List String) := []
  read : List (List String) := []

/-- A UI connection: whether writes to it succeed, whether it is in `logSubs`,
and what it got, each batch with the connection that it came from. -/
structure LogSub where
  nodeID : String
  isOpen : Bool := true
  listed : Bool := true
  received : List (Nat × List String) := []

structure LogNet where
  clients : String → LogClient
  links : List LogLink
  subs : List LogSub
  logged : String → List String

def LogNet.start : LogNet where
  clients := fun _ => {}
  links := []
  subs := []
  logged := fun _ => []

-- ---------------------------------------------------------------------------
-- Steps
-- ---------------------------------------------------------------------------

/-- The capacity of the channel `logs`. -/
def logsCap : Nat := 200

/-- The send has a default: a line for which there is no room is dropped. -/
def LogClient.pushLog (line : String) (c : LogClient) : LogClient :=
  if c.logs.length < logsCap then { c with logs := c.logs ++ [line] } else c

/-- A write to a connection that is gone fails, and its error is discarded. -/
def LogLink.writeJSON (lines : List String) (l : LogLink) : LogLink :=
  if l.up then { l with inFlight := l.inFlight ++ [lines], written := l.written ++ [lines] } else l

/-- The first frame is taken. -/
def LogLink.readJSON (l : LogLink) : LogLink :=
  { l with inFlight := l.inFlight.tail, read := l.read ++ l.inFlight.head?.toList }

def LogSub.gets (sub : LogSub) (nodeID : String) : Bool := sub.listed && sub.isOpen && sub.nodeID = nodeID

namespace LogNet

variable (s : LogNet)

def pushLog (nodeID line : String) : LogNet :=
  { s with
    clients := Function.update s.clients nodeID ((s.clients nodeID).pushLog line)
    logged := Function.update s.logged nodeID (s.logged nodeID ++ [line]) }

/-- One batch of up to 50 lines. -/
def drainLogs (nodeID : String) : LogNet :=
  let client := s.clients nodeID
  match client.conn with
  | none => s
  | some c =>
    let lines := client.logs.take 50
    if lines = [] then s
    else { s with
      clients := Function.update s.clients nodeID { client with logs := client.logs.drop 50 }
      links := s.links.modify c (LogLink.writeJSON lines) }

/-- `loop` dials once the connection before is gone, and the hub accepts. -/
def connect (nodeID : String) : LogNet :=
  { s with
    clients := Function.update s.clients nodeID { s.clients nodeID with conn := some s.links.length }
    links := s.links ++ [{ nodeID := nodeID }] }

def fanoutLogs (c : Nat) (nodeID : String) (lines : List String) : LogNet :=
  { s with subs := s.subs.map fun sub =>
      if sub.gets nodeID then { sub with received := sub.received ++ [(c, lines)] } else sub }

/-- The hub's `readLoop` takes the next frame of a connection. -/
def readLog (c : Nat) : LogNet :=
  match s.links[c]? with
  | none => s
  | some l =>
    match l.inFlight with
    | [] => s
    | lines :: _ => fanoutLogs { s with links := s.links.modify c LogLink.readJSON } c l.nodeID lines

def handleUILogs (nodeID : String) : LogNet :=
  if nodeID = "" then s else { s with subs := s.subs ++ [{ nodeID := nodeID }] }

end LogNet

inductive LogEvent where
  | log (nodeID line : String)
  | drain (nodeID : String)
  | connect (nodeID : String)
  | hangUp (c : Nat)
  | lose (c : Nat)
  | read (c : Nat)
  | subscribe (nodeID : String)
  | leave (i : Nat)
  | closeSub (i : Nat)

def LogEvent.step (e : LogEvent) (s : LogNet) : LogNet :=
  match e with
  | .log nodeID line => s.pushLog nodeID line
  | .drain nodeID => s.drainLogs nodeID
  | .connect nodeID => s.connect nodeID
  | .hangUp c => { s with links := s.links.modify c fun l => { l with up := false } }
  | .lose c => { s with links := s.links.modify c fun l => { l with up := false, inFlight := [] } }
  | .read c => s.readLog c
  | .subscribe nodeID => s.handleUILogs nodeID
  | .leave i => { s with subs := s.subs.modify i fun sub => { sub with isOpen := false } }
  | .closeSub i => { s with subs := s.subs.modify i fun sub => { sub with isOpen := false, listed := false } }

-- ---------------------------------------------------------------------------
-- What was written and what was read
-- ---------------------------------------------------------------------------

def LogLink.writtenFor (nodeID : String) (l : LogLink) : List (List String) :=
  if l.nodeID = nodeID then l.written else []

def LogLink.readFor (nodeID : String) (l : LogLink) : List (List String) := if l.nodeID = nodeID then l.read else []

def LogSub.batches (sub : LogSub) (c : Nat) : List (List String) :=
  (sub.received.filter fun r => r.1 = c).map (·.2)

namespace LogNet

variable (s : LogNet)

def owner (c : Nat) : Option String := (s.links[c]?).map (·.nodeID)

/-- The batches of a node's connections, in the order in which they were dialed. -/
def writtenFor (nodeID : String) : List (List String) := s.links.flatMap (LogLink.writtenFor nodeID)

def readFor (nodeID : String) : List (List String) := s.links.flatMap (LogLink.readFor nodeID)

def readOn (nodeID : String) (c : Nat) : List (List String) := (s.links[c]?).elim [] (LogLink.readFor nodeID)

structure InOrder : Prop where
  /-- A client writes to the last connection of its node. -/
  last : ∀ nodeID c, (s.clients nodeID).conn = some c →
    s.owner c = some nodeID ∧ ∀ c', c < c' → s.owner c' ≠ some nodeID
  /-- The lines that were written, and those that wait, are lines that were logged, in that order. -/
  sent : ∀ nodeID, ((s.writtenFor nodeID).flatten ++ (s.clients nodeID).logs).Sublist (s.logged nodeID)
  carried : ∀ l ∈ s.links, (l.read ++ l.inFlight).Sublist l.written
  /-- A subscriber has batches of its node's connections, as they were read. -/
  own : ∀ sub ∈ s.subs, ∀ c, (sub.batches c).Sublist (s.readOn sub.nodeID c)
  once : ∀ sub ∈ s.subs, (sub.received.map (·.2)).Subperm (s.readFor sub.nodeID)

-- ---------------------------------------------------------------------------
-- Steps of one party
-- ---------------------------------------------------------------------------

section

variable {s} {c : Nat} {f : LogLink → LogLink}

theorem owner_modify (hid : ∀ l, (f l).nodeID = l.nodeID) (i : Nat) :
    owner { s with links := s.links.modify c f } i = s.owner i := by
  simp only [owner, List.getElem?_modify]
  split <;> simp [Function.comp_def, hid]

theorem readOn_modify (hid : ∀ l, (f l).nodeID = l.nodeID) (hread : ∀ l, (f l).read = l.read) (nodeID : String)
    (i : Nat) : readOn { s with links := s.links.modify c f } nodeID i = s.readOn nodeID i := by
  simp only [readOn, List.getElem?_modify]
  cases s.links[i]? with
  | none => simp
  | some l => split <;> simp [LogLink.readFor, hid, hread]

theorem readFor_modify (hid : ∀ l, (f l).nodeID = l.nodeID) (hread : ∀ l, (f l).read = l.read) (nodeID : String) :
    readFor { s with links := s.links.modify c f } nodeID = s.readFor nodeID :=
  flatMap_modify_of_eq fun l _ => by simp only [LogLink.readFor, hid, hread]

theorem writtenFor_modify (hid : ∀ l, (f l).nodeID = l.nodeID) (hwritten : ∀ l, (f l).written = l.written)
    (nodeID : String) : writtenFor { s with links := s.links.modify c f } nodeID = s.writtenFor nodeID :=
  flatMap_modify_of_eq fun l _ => by simp only [LogLink.writtenFor, hid, hwritten]

theorem InOrder.modify_link (h : s.InOrder) (hid : ∀ l, (f l).nodeID = l.nodeID)
    (hwritten : ∀ l, (f l).written = l.written) (hread : ∀ l, (f l).read = l.read)
    (hflight : ∀ l, (f l).inFlight.Sublist l.inFlight) : InOrder { s with links := s.links.modify c f } where
  last n i hi := by simpa only [owner_modify hid] using h.last n i hi
  sent n := by simpa only [writtenFor_modify hid hwritten] using h.sent n
  carried := forall_mem_modify h.carried fun l hl => by
    rw [hread, hwritten]
    exact ((hflight l).append_left l.read).trans (h.carried l (List.mem_of_getElem? hl))
  own sub hsub i := by simpa only [readOn_modify hid hread] using h.own sub hsub i
  once sub hsub := by simpa only [readFor_modify hid hread] using h.once sub hsub

theorem InOrder.modify_sub (h : s.InOrder) (i : Nat) {f : LogSub → LogSub} (hid : ∀ sub, (f sub).nodeID = sub.nodeID)
    (hreceived : ∀ sub, (f sub).received = sub.received) : InOrder { s with subs := s.subs.modify i f } where
  last := h.last
  sent := h.sent
  carried := h.carried
  own := forall_mem_modify h.own fun sub hsub c => by
    rw [LogSub.batches, hid, hreceived]
    exact h.own sub (List.mem_of_getElem? hsub) c
  once := forall_mem_modify h.once fun sub hsub => by
    rw [hid, hreceived]
    exact h.once sub (List.mem_of_getElem? hsub)

theorem InOrder.pushLog (h : s.InOrder) (nodeID line : String) : (s.pushLog nodeID line).InOrder where
  last n c hc := by
    refine h.last n c ?_
    by_cases hn : n = nodeID
    · subst hn
      rw [← hc]
      simp only [LogNet.pushLog, Function.update_self, LogClient.pushLog]
      split <;> rfl
    · simpa [LogNet.pushLog, hn] using hc
  sent n := by
    by_cases hn : n = nodeID
    · subst hn
      have hsent := h.sent n
      simp only [LogNet.pushLog, Function.update_self, LogClient.pushLog]
      split
      · rw [← List.append_assoc]
        exact hsent.append_right [line]
      · exact hsent.trans (List.sublist_append_left ..)
    · simpa [LogNet.pushLog, hn, writtenFor] using h.sent n
  carried := h.carried
  own := h.own
  once := h.once

theorem owner_connect (nodeID : String) (i : Nat) :
    (s.connect nodeID).owner i = if i = s.links.length then some nodeID else s.owner i := by
  simp only [owner, connect]
  rcases lt_trichotomy i s.links.length with hi | rfl | hi
  · rw [List.getElem?_append_left hi, if_neg hi.ne]
  · simp
  · rw [if_neg hi.ne', List.getElem?_eq_none hi.le, List.getElem?_eq_none (by simp; omega)]

theorem lt_of_owner {n : String} (h : s.owner i = some n) : i < s.links.length := by
  obtain ⟨l, hl, -⟩ := Option.map_eq_some_iff.mp h
  exact (List.getElem?_eq_some_iff.mp hl).1

theorem InOrder.connect (h : s.InOrder) (nodeID : String) : (s.connect nodeID).InOrder where
  last n i hi := by
    simp only [owner_connect]
    by_cases hn : n = nodeID
    · subst hn
      obtain rfl : s.links.length = i := by simpa [LogNet.connect] using hi
      refine ⟨if_pos rfl, fun c' hc' hown => ?_⟩
      rw [if_neg hc'.ne'] at hown
      exact absurd (lt_of_owner hown) hc'.not_gt
    · obtain ⟨hown, hlast⟩ := h.last n i (by simpa [LogNet.connect, hn] using hi)
      rw [if_neg (lt_of_owner hown).ne]
      refine ⟨hown, fun c' hc' => ?_⟩
      split
      · simpa using Ne.symm hn
      · exact hlast c' hc'
  sent n := by
    have hall : (s.connect nodeID).writtenFor n = s.writtenFor n := by
      simp [writtenFor, LogNet.connect, LogLink.writtenFor]
    rw [hall]
    by_cases hn : n = nodeID
    · subst hn
      simpa [LogNet.connect] using h.sent n
    · simpa [LogNet.connect, hn] using h.sent n
  carried l hl := by
    rcases List.mem_append.mp hl with hl | hl
    · exact h.carried l hl
    · rw [List.mem_singleton.mp hl]
      exact .slnil
  own sub hsub i := by
    have hon : (s.connect nodeID).readOn sub.nodeID i = s.readOn sub.nodeID i := by
      rcases Nat.lt_or_ge i s.links.length with hi | hi
      · simp only [readOn, LogNet.connect, List.getElem?_append_left hi]
      · simp only [readOn, LogNet.connect, List.getElem?_append_right hi, List.getElem?_eq_none hi]
        rcases i - s.links.length with _ | k <;> simp [LogLink.readFor]
    rw [hon]
    exact h.own sub hsub i
  once sub hsub := by
    have hall : (s.connect nodeID).readFor sub.nodeID = s.readFor sub.nodeID := by
      simp [readFor, LogNet.connect, LogLink.readFor]
    rw [hall]
    exact h.once sub hsub

theorem InOrder.handleUILogs (h : s.InOrder) (nodeID : String) : (s.handleUILogs nodeID).InOrder := by
  unfold LogNet.handleUILogs
  split
  · exact h
  · refine ⟨h.last, h.sent, h.carried, fun sub hsub i => ?_, fun sub hsub => ?_⟩
    · rcases List.mem_append.mp hsub with hsub | hsub
      · exact h.own sub hsub i
      · rw [List.mem_singleton.mp hsub]
        exact List.nil_sublist _
    · rcases List.mem_append.mp hsub with hsub | hsub
      · exact h.once sub hsub
      · rw [List.mem_singleton.mp hsub]
        exact List.nil_subperm

theorem writeJSON_nodeID (lines : List String) (l : LogLink) : (l.writeJSON lines).nodeID = l.nodeID := by
  unfold LogLink.writeJSON
  split <;> rfl

theorem writeJSON_read (lines : List String) (l : LogLink) : (l.writeJSON lines).read = l.read := by
  unfold LogLink.writeJSON
  split <;> rfl

theorem InOrder.write (h : s.InOrder) {nodeID : String} (hconn : (s.clients nodeID).conn = some c)
    (hlogs : (s.clients nodeID).logs = lines ++ rest) : InOrder { s with
      clients := Function.update s.clients nodeID { s.clients nodeID with logs := rest }
      links := s.links.modify c (LogLink.writeJSON lines) } where
  last n i hi := by
    have howner := owner_modify (s := s) (c := c) (writeJSON_nodeID lines)
    refine (?_ : s.owner i = some n ∧ ∀ c', i < c' → s.owner c' ≠ some n).imp
      (fun ho => (howner i).trans ho) fun ho c' hc' => (howner c').symm ▸ ho c' hc'
    refine h.last n i ?_
    by_cases hn : n = nodeID
    · subst hn
      simpa using hi
    · simpa [hn] using hi
  sent n := by
    have hsent := h.sent n
    obtain ⟨hown, hlast⟩ := h.last nodeID c hconn
    obtain ⟨l, hl, hlid⟩ := Option.map_eq_some_iff.mp hown
    by_cases hn : n = nodeID
    · subst hn
      have hlater : ∀ j b, c < j → s.links[j]? = some b → LogLink.writtenFor n b = [] := fun j b hj hb =>
        if_neg fun hbid => hlast j hj (by simp [owner, hb, hbid])
      simp only [Function.update_self]
      rw [hlogs] at hsent
      by_cases hup : l.up
      · have hgrow : (l.writeJSON lines).writtenFor n = l.writtenFor n ++ [lines] := by
          simp [LogLink.writtenFor, LogLink.writeJSON, hup, hlid]
        have hall := flatMap_modify_last hl hgrow hlater
        simpa [writtenFor, hall] using hsent
      · have hgrow : (l.writeJSON lines).writtenFor n = l.writtenFor n ++ [] := by
          simp [LogLink.writeJSON, hup]
        have hall := flatMap_modify_last hl hgrow hlater
        refine List.Sublist.trans ?_ hsent
        simp only [writtenFor, hall, List.append_nil]
        exact (List.sublist_append_right lines rest).append_left _
    · have hall : (s.links.modify c (LogLink.writeJSON lines)).flatMap (LogLink.writtenFor n) = s.writtenFor n := by
        refine flatMap_modify_of_eq fun a ha => ?_
        obtain rfl : l = a := by simpa [hl] using ha
        rw [LogLink.writtenFor, LogLink.writtenFor, writeJSON_nodeID, hlid, if_neg (Ne.symm hn), if_neg (Ne.symm hn)]
      simpa [writtenFor, hall, hn] using hsent
  carried := forall_mem_modify h.carried fun l hl => by
    have hl' := h.carried l (List.mem_of_getElem? hl)
    unfold LogLink.writeJSON
    split
    · rw [← List.append_assoc]
      exact hl'.append_right [lines]
    · exact hl'
  own sub hsub i := by
    refine (readOn_modify (s := s) (c := c) (writeJSON_nodeID lines) (writeJSON_read lines) sub.nodeID i).symm ▸ ?_
    exact h.own sub hsub i
  once sub hsub := by
    refine (readFor_modify (s := s) (c := c) (writeJSON_nodeID lines) (writeJSON_read lines) sub.nodeID).symm ▸ ?_
    exact h.once sub hsub

theorem InOrder.drainLogs (h : s.InOrder) (nodeID : String) : (s.drainLogs nodeID).InOrder := by
  unfold LogNet.drainLogs
  dsimp only
  split
  · exact h
  next c hconn =>
    split
    · exact h
    · exact h.write hconn (List.take_append_drop 50 _).symm

theorem LogSub.batches_append (sub : LogSub) (i : Nat) (lines : List String) :
    LogSub.batches { sub with received := sub.received ++ [(c, lines)] } i =
      sub.batches i ++ if c = i then [lines] else [] := by
  unfold LogSub.batches
  split <;> simp [*]

theorem InOrder.fanoutLogs (h : s.InOrder) {l : LogLink} (hl : s.links[c]? = some l)
    (hflight : l.inFlight = lines :: rest) :
    (LogNet.fanoutLogs { s with links := s.links.modify c LogLink.readJSON } c l.nodeID lines).InOrder := by
  have hid : ∀ l : LogLink, l.readJSON.nodeID = l.nodeID := fun _ => rfl
  -- what was read of this connection grows by the batch, for the node that it belongs to
  have hgrow : ∀ n, l.readJSON.readFor n = l.readFor n ++ if l.nodeID = n then [lines] else [] := by
    intro n
    unfold LogLink.readFor LogLink.readJSON
    split <;> simp [hflight]
  have hon : ∀ n i, readOn { s with links := s.links.modify c LogLink.readJSON } n i =
      s.readOn n i ++ if c = i ∧ l.nodeID = n then [lines] else [] := by
    intro n i
    simp only [readOn, List.getElem?_modify]
    by_cases hi : c = i
    · subst hi
      simp [hl, hgrow]
    · simp [hi]
  have hall : ∀ n, (readFor { s with links := s.links.modify c LogLink.readJSON } n).Perm
      (s.readFor n ++ if l.nodeID = n then [lines] else []) := fun n => flatMap_modify_perm hl (hgrow n)
  refine ⟨fun n i hi => ?_, fun n => ?_, ?_, fun sub hsub i => ?_, fun sub hsub => ?_⟩
  · have howner := owner_modify (s := s) (c := c) hid
    exact (h.last n i hi).imp (fun ho => (howner i).trans ho) fun ho c' hc' => (howner c').symm ▸ ho c' hc'
  · have hwritten := writtenFor_modify (s := s) (c := c) hid (fun _ => rfl) n
    exact hwritten.symm ▸ h.sent n
  · refine forall_mem_modify h.carried fun l' hl' => ?_
    obtain rfl : l = l' := by simpa [hl] using hl'
    have hcarried := h.carried l (List.mem_of_getElem? hl)
    simpa [LogLink.readJSON, hflight] using hcarried
  · obtain ⟨old, hold, rfl⟩ := List.mem_map.mp hsub
    have hown := h.own old hold i
    refine (?_ : List.Sublist _ (readOn { s with links := s.links.modify c LogLink.readJSON } _ i))
    split
    next hgets =>
      have hnode : l.nodeID = old.nodeID := by
        simp only [LogSub.gets, Bool.and_eq_true, decide_eq_true_eq] at hgets
        exact hgets.2.symm
      rw [hon, LogSub.batches_append]
      simp only [hnode, and_true]
      exact hown.append_right _
    next =>
      rw [hon]
      exact hown.trans (List.sublist_append_left ..)
  · obtain ⟨old, hold, rfl⟩ := List.mem_map.mp hsub
    have honce := h.once old hold
    refine (?_ : List.Subperm _ (readFor { s with links := s.links.modify c LogLink.readJSON } _))
    refine List.Subperm.trans ?_ (hall _).symm.subperm
    split
    next hgets =>
      have hnode : l.nodeID = old.nodeID := by
        simp only [LogSub.gets, Bool.and_eq_true, decide_eq_true_eq] at hgets
        exact hgets.2.symm
      rw [if_pos hnode, List.map_append]
      exact (List.subperm_append_right _).mpr honce
    next => exact honce.trans (List.sublist_append_left ..).subperm

theorem InOrder.readLog (h : s.InOrder) (c : Nat) : (s.readLog c).InOrder := by
  unfold LogNet.readLog
  split
  · exact h
  next l hl =>
    split
    · exact h
    next hflight => exact h.fanoutLogs hl hflight

theorem InOrder.step (h : s.InOrder) (e : LogEvent) : (e.step s).InOrder := by
  cases e with
  | log nodeID line => exact h.pushLog nodeID line
  | drain nodeID => exact h.drainLogs nodeID
  | connect nodeID => exact h.connect nodeID
  | hangUp c => exact h.modify_link (fun _ => rfl) (fun _ => rfl) (fun _ => rfl) fun _ => List.Sublist.refl _
  | lose c => exact h.modify_link (fun _ => rfl) (fun _ => rfl) (fun _ => rfl) fun _ => List.nil_sublist _
  | read c => exact h.readLog c
  | subscribe nodeID => exact h.handleUILogs nodeID
  | leave i => exact h.modify_sub i (fun _ => rfl) fun _ => rfl
  | closeSub i => exact h.modify_sub i (fun _ => rfl) fun _ => rfl

end

theorem start_inOrder : LogNet.start.InOrder where
  last _ _ h := by cases h
  sent _ := .slnil
  carried _ h := by cases h
  own _ h := by cases h
  once _ h := by cases h

end LogNet

-- ---------------------------------------------------------------------------
-- Nothing is lost on an undisturbed way
-- ---------------------------------------------------------------------------

/-- The agent of the node writes to a connection that is up, and a UI connection
follows the node. -/
structure LogNet.Attached (n : String) (c i : Nat) (s : LogNet) : Prop where
  client : (s.clients n).conn = some c
  link : ∃ l, s.links[c]? = some l ∧ l.nodeID = n ∧ l.up = true
  sub : ∃ sub, s.subs[i]? = some sub ∧ sub.gets n = true

/-- The lines that came over the connection, those under way, and those that wait. -/
def LogNet.pipeline (n : String) (c i : Nat) (s : LogNet) : List String :=
  ((s.subs[i]?).elim [] (·.batches c)).flatten ++ ((s.links[c]?).elim [] (·.inFlight)).flatten ++ (s.clients n).logs

/-- The event does not disturb the way of the node's lines. -/
def LogEvent.Quiet (n : String) (c i : Nat) (s : LogNet) : LogEvent → Prop
  | .log m _ => m = n → (s.clients n).logs.length < logsCap
  | .connect m => m ≠ n
  | .hangUp c' | .lose c' => c' ≠ c
  | .leave j | .closeSub j => j ≠ i
  | .drain _ | .read _ | .subscribe _ => True

def LogEvent.line? (n : String) : LogEvent → Option String
  | .log m line => if m = n then some line else none
  | _ => none

namespace LogNet

section

variable {s : LogNet} {n : String} {c i : Nat}

theorem Attached.of_eq {s' : LogNet} (h : s.Attached n c i) (hclient : s'.clients n = s.clients n)
    (hlink : s'.links[c]? = s.links[c]?) (hsub : s'.subs[i]? = s.subs[i]?) :
    s'.Attached n c i ∧ s'.pipeline n c i = s.pipeline n c i := by
  refine ⟨⟨?_, ?_, ?_⟩, ?_⟩
  · rw [hclient]
    exact h.client
  · rw [hlink]
    exact h.link
  · rw [hsub]
    exact h.sub
  · rw [pipeline, pipeline, hclient, hlink, hsub]

theorem Attached.pushLog (h : s.Attached n c i) {m : String} (hroom : m = n → (s.clients n).logs.length < logsCap)
    (line : String) : (s.pushLog m line).Attached n c i ∧
      (s.pushLog m line).pipeline n c i = s.pipeline n c i ++ (LogEvent.line? n (.log m line)).toList := by
  by_cases hm : m = n
  · subst hm
    have hpush : (s.clients m).pushLog line = { s.clients m with logs := (s.clients m).logs ++ [line] } :=
      if_pos (hroom rfl)
    refine ⟨⟨?_, h.link, h.sub⟩, ?_⟩
    · simpa [LogNet.pushLog, hpush] using h.client
    · simp [pipeline, LogNet.pushLog, hpush, LogEvent.line?]
  · have hline : LogEvent.line? n (.log m line) = none := if_neg hm
    rw [hline, Option.toList_none, List.append_nil]
    exact h.of_eq (Function.update_of_ne (Ne.symm hm) _ _) rfl rfl

theorem Attached.drainLogs (h : s.Attached n c i) (hs : s.InOrder) (m : String) :
    (s.drainLogs m).Attached n c i ∧ (s.drainLogs m).pipeline n c i = s.pipeline n c i := by
  obtain ⟨l, hl, hid, hup⟩ := h.link
  unfold LogNet.drainLogs
  dsimp only
  split
  · exact ⟨h, rfl⟩
  next c' hc' =>
    split
    · exact ⟨h, rfl⟩
    by_cases hm : m = n
    · subst hm
      obtain rfl : c = c' := by simpa [h.client] using hc'
      refine ⟨⟨?_, ⟨_, (List.getElem?_modify_eq ..).trans (congrArg _ hl), ?_, ?_⟩, h.sub⟩, ?_⟩
      · simpa using h.client
      · rw [writeJSON_nodeID, hid]
      · simp [LogLink.writeJSON, hup]
      · simp [pipeline, hl, LogLink.writeJSON, hup]
    · -- the other client's connection is its own
      have hne : c' ≠ c := by
        rintro rfl
        have hown := (hs.last m c' hc').1
        simp only [owner, hl, Option.map_some, Option.some.injEq] at hown
        exact hm (hown.symm.trans hid)
      exact h.of_eq (Function.update_of_ne (Ne.symm hm) _ _) (List.getElem?_modify_ne _ _ hne) rfl

theorem Attached.readLog (h : s.Attached n c i) (c' : Nat) :
    (s.readLog c').Attached n c i ∧ (s.readLog c').pipeline n c i = s.pipeline n c i := by
  obtain ⟨l, hl, hid, hup⟩ := h.link
  obtain ⟨sub, hsub, hgets⟩ := h.sub
  unfold LogNet.readLog
  split
  · exact ⟨h, rfl⟩
  next l' hl' =>
    split
    · exact ⟨h, rfl⟩
    next lines rest hflight =>
      by_cases hc : c' = c
      · subst hc
        obtain rfl : l = l' := by simpa [hl] using hl'
        have hgot : (s.subs.map fun sub => if sub.gets l.nodeID then
            { sub with received := sub.received ++ [(c', lines)] } else sub)[i]? =
              some { sub with received := sub.received ++ [(c', lines)] } := by
          simp [hsub, hid, hgets]
        refine ⟨⟨h.client, ⟨l.readJSON, by simp [LogNet.fanoutLogs, hl], hid, hup⟩, _, hgot, hgets⟩, ?_⟩
        simp only [pipeline, LogNet.fanoutLogs, hgot, hsub, Option.elim_some, LogSub.batches_append]
        simp [hl, LogLink.readJSON, hflight]
      · have hlink : (s.links.modify c' LogLink.readJSON)[c]? = some l := by
          rw [List.getElem?_modify_ne _ _ hc, hl]
        -- a batch from another connection
        have hgot : ∃ sub', (s.subs.map fun sub => if sub.gets l'.nodeID then
            { sub with received := sub.received ++ [(c', lines)] } else sub)[i]? = some sub' ∧
              sub'.gets n = true ∧ sub'.batches c = sub.batches c := by
          rw [List.getElem?_map, hsub, Option.map_some]
          refine ⟨_, rfl, ?_⟩
          split
          · exact ⟨hgets, by rw [LogSub.batches_append, if_neg hc, List.append_nil]⟩
          · exact ⟨hgets, rfl⟩
        obtain ⟨sub', hsub', hgets', hbatches⟩ := hgot
        refine ⟨⟨h.client, ⟨l, hlink, hid, hup⟩, sub', hsub', hgets'⟩, ?_⟩
        simp only [pipeline, LogNet.fanoutLogs, hsub', hsub, hlink, hl, Option.elim_some, hbatches]

theorem Attached.step (h : s.Attached n c i) (hs : s.InOrder) {e : LogEvent} (hq : e.Quiet n c i s) :
    (e.step s).Attached n c i ∧ (e.step s).pipeline n c i = s.pipeline n c i ++ (e.line? n).toList := by
  have hsame : ∀ {s' : LogNet}, s'.Attached n c i ∧ s'.pipeline n c i = s.pipeline n c i →
      s'.Attached n c i ∧ s'.pipeline n c i = s.pipeline n c i ++ [] := fun h' => by rwa [List.append_nil]
  obtain ⟨l, hl, -⟩ := h.link
  obtain ⟨sub, hsub, -⟩ := h.sub
  cases e with
  | log m line => exact h.pushLog hq line
  | drain m => exact hsame (h.drainLogs hs m)
  | connect m =>
    refine hsame (h.of_eq (Function.update_of_ne (Ne.symm hq) _ _) ?_ rfl)
    exact List.getElem?_append_left (List.getElem?_eq_some_iff.mp hl).1
  | hangUp c' => exact hsame (h.of_eq rfl (List.getElem?_modify_ne _ _ hq) rfl)
  | lose c' => exact hsame (h.of_eq rfl (List.getElem?_modify_ne _ _ hq) rfl)
  | read c' => exact hsame (h.readLog c')
  | subscribe m =>
    simp only [LogEvent.step, LogNet.handleUILogs]
    split
    · exact hsame ⟨h, rfl⟩
    · exact hsame (h.of_eq rfl rfl (List.getElem?_append_left (List.getElem?_eq_some_iff.mp hsub).1))
  | leave j => exact hsame (h.of_eq rfl rfl (List.getElem?_modify_ne _ _ hq))
  | closeSub j => exact hsame (h.of_eq rfl rfl (List.getElem?_modify_ne _ _ hq))

end

end LogNet

-- ---------------------------------------------------------------------------
-- Results
-- ---------------------------------------------------------------------------

variable {s : LogNet} {n : String} {c i : Nat}

theorem run_inOrder (es : List LogEvent) : (run LogEvent.step .start es).InOrder :=
  (throughout_of_invariant (fun _ e h => h.step e) LogNet.start_inOrder es).final

/-- A subscriber has only lines that the agent of its node logged, each line at
most as often as it was logged, and those of one connection in the order in which
they were logged. -/
def LogNet.DeliveredInOrder (s : LogNet) : Prop :=
  ∀ sub ∈ s.subs, (∀ c, (sub.batches c).flatten.Sublist (s.logged sub.nodeID)) ∧
    (sub.received.flatMap (·.2)).Subperm (s.logged sub.nodeID)

/-- However the steps of agents, connections, `readLoop`s and subscribers follow
on one another. -/
theorem logs_delivered_in_order (es : List LogEvent) : (run LogEvent.step .start es).DeliveredInOrder := by
  intro sub hsub
  have h := run_inOrder es
  generalize run LogEvent.step LogNet.start es = s at h hsub
  have hlogged : (s.writtenFor sub.nodeID).flatten.Sublist (s.logged sub.nodeID) :=
    (List.sublist_append_left ..).trans (h.sent sub.nodeID)
  have hread : (s.readFor sub.nodeID).Sublist (s.writtenFor sub.nodeID) := by
    refine List.Sublist.flatMap_right _ fun l hl => ?_
    unfold LogLink.readFor LogLink.writtenFor
    split
    · exact (List.sublist_append_left ..).trans (h.carried l hl)
    · exact .slnil
  refine ⟨fun c => ?_, ?_⟩
  · have hon : (s.readOn sub.nodeID c).Sublist (s.readFor sub.nodeID) := by
      unfold LogNet.readOn
      cases hl : s.links[c]? with
      | none => exact List.nil_sublist _
      | some l => exact sublist_flatMap_of_getElem? (g := LogLink.readFor sub.nodeID) hl
    exact ((h.own sub hsub c).trans (hon.trans hread)).flatten.trans hlogged
  · rw [List.flatMap_def]
    exact (subperm_flatten (h.once sub hsub)).trans (hread.flatten.trans hlogged).subperm

/-- After any run, and along any continuation that does not disturb the way of a
node's lines to a subscriber: what came over the way, is under way or waits is
what it was before and the lines that the agent has logged since. -/
theorem logs_complete_while_quiet (es₀ es : List LogEvent) (h : (run LogEvent.step .start es₀).Attached n c i)
    (hquiet : Along LogEvent.step (fun s e => e.Quiet n c i s) (run LogEvent.step .start es₀) es) :
    (run LogEvent.step (run LogEvent.step .start es₀) es).pipeline n c i =
      (run LogEvent.step .start es₀).pipeline n c i ++ es.filterMap (LogEvent.line? n) := by
  have hs := run_inOrder es₀
  generalize run LogEvent.step LogNet.start es₀ = s at h hs hquiet ⊢
  induction es generalizing s with
  | nil => simp
  | cons e es ih =>
    rw [along_cons] at hquiet
    obtain ⟨hnext, heq⟩ := h.step hs hquiet.1
    rw [run_cons, ih (e.step s) hnext (hs.step e) hquiet.2, heq, List.append_assoc]
    cases hline : e.line? n <;> simp [hline]

def followedAgent : List LogEvent := [.connect "a", .subscribe "a"]

theorem logs_complete_for_followed_agent :
    (run LogEvent.step (run LogEvent.step .start followedAgent) [.log "a" "up", .drain "a", .read 0]).pipeline "a" 0 0 =
      (run LogEvent.step .start followedAgent).pipeline "a" 0 0 ++ ["up"] :=
  logs_complete_while_quiet followedAgent [.log "a" "up", .drain "a", .read 0]
    ⟨rfl, ⟨_, rfl, rfl, rfl⟩, _, rfl, rfl⟩ ⟨fun _ => by decide, trivial, trivial, trivial⟩

end PeerWan
