import Mathlib.Logic.Function.Basic
import PeerWan.Lib.Runs
import PeerWan.Model

/-!
# The WebSocket hub

The agents' connections of `pkg/api/ws.go`. The hub maps a node to one
connection. A new connection closes the one it replaces; that one's `readLoop`
notices later, and then removes the node's entry, whatever it holds by now.

A connection is its position in the order of acceptance. The steps are those
between which another goroutine can come in: the locked part of
`HandleAgentWS` with the start of `readLoop`, the peer going away, `ReadJSON`
failing, and the two deferred calls. A step that cannot happen changes nothing.
-/

namespace PeerWan

open Lib

inductive ReadLoop where
  | reading
  | returned
  | closed
  | ended
  deriving DecidableEq, Repr

structure Conn where
  nodeID : String
  isOpen : Bool := true
  loop : ReadLoop := .reading
  deriving DecidableEq, Repr

structure WSHub where
  conns : List Conn
  agents : String → Option Nat
  /-- The connection of a node that was accepted last; no code reads it. -/
  accepted : String → Option Nat

def WSHub.new : WSHub where
  conns := []
  agents := fun _ => none
  accepted := fun _ => none

def WSHub.close (h : WSHub) (c : Nat) : WSHub :=
  { h with conns := h.conns.modify c fun conn => { conn with isOpen := false } }

def WSHub.setLoop (h : WSHub) (c : Nat) (loop : ReadLoop) : WSHub :=
  { h with conns := h.conns.modify c fun conn => { conn with loop := loop } }

/-- The first deferred call: `c.Close()`. -/
def WSHub.leave (h : WSHub) (c : Nat) : WSHub :=
  { h with conns := h.conns.modify c fun conn => { conn with isOpen := false, loop := .closed } }

def WSHub.handleAgentWS (nodeID : String) (h : WSHub) : WSHub :=
  if nodeID = "" then h
  else
    let h := match h.agents nodeID with
      | some old => h.close old
      | none => h
    let c := h.conns.length
    { conns := h.conns ++ [{ nodeID := nodeID }]
      agents := Function.update h.agents nodeID (some c)
      accepted := Function.update h.accepted nodeID (some c) }

/-- The connections a message to the node is written to. -/
def WSHub.send (h : WSHub) (nodeID : String) : List Nat :=
  match h.agents nodeID with
  | none => []
  | some c => if (h.conns[c]?.map (·.isOpen)).getD false then [c] else []

inductive HubEvent where
  | connect (nodeID : String)
  | disconnect (c : Nat)
  | readFails (c : Nat)
  | close (c : Nat)
  | cleanup (c : Nat)
  deriving DecidableEq, Repr

def WSHub.loop (h : WSHub) (c : Nat) : Option ReadLoop := h.conns[c]?.map (·.loop)

def HubEvent.step (e : HubEvent) (h : WSHub) : WSHub :=
  match e with
  | .connect nodeID => h.handleAgentWS nodeID
  | .disconnect c => h.close c
  | .readFails c => if h.loop c = some .reading then h.setLoop c .returned else h
  | .close c => if h.loop c = some .returned then h.leave c else h
  | .cleanup c =>
    match h.conns[c]? with
    | some { nodeID, loop := .closed, .. } =>
      { h.setLoop c .ended with agents := Function.update h.agents nodeID none }
    | _ => h

-- ---------------------------------------------------------------------------
-- What the map is to hold
-- ---------------------------------------------------------------------------

def Conn.live (conn : Conn) : Bool := conn.isOpen && conn.loop = .reading

def WSHub.live (h : WSHub) (c : Nat) : Bool := h.conns[c]?.any Conn.live

/-- A node's last connection, while it is open and read, is the node's entry. -/
def WSHub.Registered (h : WSHub) : Prop :=
  ∀ nodeID c, h.accepted nodeID = some c → h.live c → h.agents nodeID = some c

def WSHub.Cleared (h : WSHub) : Prop :=
  ∀ nodeID, (∀ conn ∈ h.conns, conn.nodeID = nodeID → conn.isOpen = false ∧ conn.loop = .ended) →
    h.agents nodeID = none

/-- No loop cleans up while the last connection of its node is alive. -/
def WSHub.SparesLast (h : WSHub) : HubEvent → Prop
  | .cleanup c => ∀ conn, h.conns[c]? = some conn → conn.loop = .closed →
      ∀ last, h.accepted conn.nodeID = some last → h.live last = false
  | _ => True

theorem WSHub.live_iff {h : WSHub} : h.live c ↔ ∃ conn, h.conns[c]? = some conn ∧ conn.live := by
  simp [live, Option.any_eq_true]

theorem WSHub.send_of_registered {h : WSHub} (hr : h.Registered) (hlast : h.accepted nodeID = some c)
    (hlive : h.live c) : h.send nodeID = [c] := by
  obtain ⟨conn, hconn, hopen⟩ := WSHub.live_iff.mp hlive
  rw [Conn.live, Bool.and_eq_true] at hopen
  simp [send, hr nodeID c hlast hlive, hconn, hopen.1]

-- ---------------------------------------------------------------------------
-- What a step does
-- ---------------------------------------------------------------------------

/-- A change of one connection that revives none and ends no loop. -/
structure Fades (f : Conn → Conn) : Prop where
  nodeID : ∀ conn, (f conn).nodeID = conn.nodeID
  live : ∀ conn, (f conn).live → conn.live
  ended : ∀ conn, (f conn).loop = .ended → conn.loop = .ended

/-- The connection that a new one of the node replaces is closed. -/
def WSHub.replaced (h : WSHub) (nodeID : String) : List Conn :=
  match h.agents nodeID with
  | some old => (h.close old).conns
  | none => h.conns

inductive Stepped (h : WSHub) : HubEvent → WSHub → Prop where
  | ignored (hspares : h.SparesLast e) : Stepped h e h
  | connected : Stepped h (.connect nodeID)
      { conns := h.replaced nodeID ++ [{ nodeID := nodeID }]
        agents := Function.update h.agents nodeID (some h.conns.length)
        accepted := Function.update h.accepted nodeID (some h.conns.length) }
  | faded (hspares : h.SparesLast e) (hf : Fades f) : Stepped h e { h with conns := h.conns.modify c f }
  | cleaned (hconn : h.conns[c]? = some conn) (hclosed : conn.loop = .closed) : Stepped h (.cleanup c)
      { h.setLoop c .ended with agents := Function.update h.agents conn.nodeID none }

theorem HubEvent.stepped (e : HubEvent) (h : WSHub) : Stepped h e (e.step h) := by
  cases e with
  | connect nodeID =>
    simp only [step, WSHub.handleAgentWS]
    split
    · exact .ignored trivial
    · have hconns : (match h.agents nodeID with | some old => h.close old | none => h) =
          { h with conns := h.replaced nodeID } := by
        unfold WSHub.replaced
        cases h.agents nodeID <;> rfl
      have hlen : (h.replaced nodeID).length = h.conns.length := by
        unfold WSHub.replaced
        cases h.agents nodeID <;> simp [WSHub.close]
      simp only [hconns, hlen]
      exact .connected
  | disconnect c =>
    exact .faded trivial ⟨fun _ => rfl, fun _ hlive => by simp [Conn.live] at hlive, fun _ h => h⟩
  | readFails c =>
    simp only [step]
    split
    · exact .faded trivial ⟨fun _ => rfl, fun _ hlive => by simp [Conn.live] at hlive, nofun⟩
    · exact .ignored trivial
  | close c =>
    simp only [step]
    split
    · exact .faded trivial ⟨fun _ => rfl, fun _ hlive => by simp [Conn.live] at hlive, nofun⟩
    · exact .ignored trivial
  | cleanup c =>
    simp only [step]
    split
    next hconn => exact .cleaned hconn rfl
    next hother =>
      refine .ignored fun conn hconn hclosed => ?_
      obtain ⟨nodeID, isOpen, loop⟩ := conn
      cases hclosed
      exact absurd hconn (hother nodeID isOpen)

theorem live_of_modify {f : Conn → Conn} (hf : ∀ conn, (f conn).live → conn.live) {conns : List Conn}
    {i c : Nat} (h : (conns.modify i f)[c]?.any Conn.live) : conns[c]?.any Conn.live := by
  rw [List.getElem?_modify, Option.map_eq_map, Option.any_map] at h
  obtain ⟨conn, hconn, hlive⟩ := (Option.any_eq_true _ _).mp h
  refine (Option.any_eq_true _ _).mpr ⟨conn, hconn, ?_⟩
  split at hlive
  · exact hf conn hlive
  · exact hlive

theorem Fades.kept {f : Conn → Conn} (hf : Fades f) {conns : List Conn} {i c : Nat} {old : Conn}
    (hc : conns[c]? = some old) (hloop : old.loop ≠ .ended) :
    ∃ conn, (conns.modify i f)[c]? = some conn ∧ conn.nodeID = old.nodeID ∧ conn.loop ≠ .ended := by
  rw [List.getElem?_modify, hc]
  split
  · exact ⟨_, rfl, hf.nodeID old, fun h => hloop (hf.ended old h)⟩
  · exact ⟨_, rfl, rfl, hloop⟩

def Conn.shut (conn : Conn) : Conn := { conn with isOpen := false }

theorem shut_fades : Fades Conn.shut :=
  ⟨fun _ => rfl, fun _ hlive => by simp [Conn.live, Conn.shut] at hlive, fun _ h => h⟩

theorem WSHub.replaced_eq (h : WSHub) (nodeID : String) : ∃ i, h.replaced nodeID = h.conns.modify i Conn.shut := by
  unfold WSHub.replaced
  cases h.agents nodeID with
  | none => exact ⟨h.conns.length, (List.modify_eq_self (Nat.le_refl _)).symm⟩
  | some old => exact ⟨old, rfl⟩

-- ---------------------------------------------------------------------------
-- Runs of the hub
-- ---------------------------------------------------------------------------

/-- An entry is a connection of its node whose loop has not cleaned up. -/
structure WSHub.Tracked (h : WSHub) : Prop where
  entry : ∀ nodeID c, h.agents nodeID = some c →
    ∃ conn, h.conns[c]? = some conn ∧ conn.nodeID = nodeID ∧ conn.loop ≠ .ended
  last : ∀ nodeID c, h.accepted nodeID = some c → c < h.conns.length

theorem WSHub.Tracked.cleared {h : WSHub} (ht : h.Tracked) : h.Cleared := by
  intro nodeID hall
  cases hentry : h.agents nodeID with
  | none => rfl
  | some c =>
    obtain ⟨conn, hconn, hid, hloop⟩ := ht.entry nodeID c hentry
    exact absurd (hall conn (List.mem_of_getElem? hconn) hid).2 hloop

theorem WSHub.Tracked.step {h : WSHub} (e : HubEvent) (ht : h.Tracked) : (e.step h).Tracked := by
  have hstep := e.stepped h
  generalize e.step h = h' at hstep
  cases hstep with
  | ignored => exact ht
  | @connected nodeID =>
    obtain ⟨i, hreplaced⟩ := h.replaced_eq nodeID
    have hlen : (h.replaced nodeID).length = h.conns.length := by rw [hreplaced, List.length_modify]
    constructor
    · intro m c hentry
      simp only [Function.update_apply] at hentry
      split at hentry
      next hm =>
        cases hentry
        exact ⟨_, by rw [← hlen]; exact List.getElem?_concat_length, hm.symm, by simp⟩
      next =>
        obtain ⟨old, hold, hid, hloop⟩ := ht.entry m c hentry
        obtain ⟨conn, hconn, hid', hloop'⟩ := shut_fades.kept (i := i) hold hloop
        refine ⟨conn, ?_, hid'.trans hid, hloop'⟩
        rw [hreplaced, List.getElem?_append_left]
        · exact hconn
        · exact (List.getElem?_eq_some_iff.mp hconn).1
    · intro m c hlast
      simp only [Function.update_apply] at hlast
      simp only [List.length_append, hlen, List.length_singleton]
      split at hlast
      next => cases hlast; omega
      next => exact Nat.lt_succ_of_lt (ht.last m c hlast)
  | faded _ hf =>
    constructor
    · intro m c hentry
      obtain ⟨old, hold, hid, hloop⟩ := ht.entry m c hentry
      obtain ⟨conn, hconn, hid', hloop'⟩ := hf.kept hold hloop
      exact ⟨conn, hconn, hid'.trans hid, hloop'⟩
    · intro m c hlast
      simpa using ht.last m c hlast
  | @cleaned c conn hconn hclosed =>
    constructor
    · intro m d hentry
      simp only [Function.update_apply] at hentry
      split at hentry
      · cases hentry
      next hm =>
        obtain ⟨old, hold, hid, hloop⟩ := ht.entry m d hentry
        have hd : c ≠ d := by
          rintro rfl
          rw [hconn] at hold
          cases hold
          exact hm hid.symm
        exact ⟨old, by simp [setLoop, hd, hold], hid, hloop⟩
    · intro m d hlast
      simpa [setLoop] using ht.last m d hlast

theorem WSHub.Registered.of_fades {h h' : WSHub} (hr : h.Registered) (hagents : h'.agents = h.agents)
    (haccepted : h'.accepted = h.accepted) (hlive : ∀ c, h'.live c → h.live c) : h'.Registered := by
  intro nodeID c hlast hc
  rw [haccepted] at hlast
  rw [hagents]
  exact hr nodeID c hlast (hlive c hc)

theorem WSHub.registered_step_iff {h : WSHub} (e : HubEvent) (ht : h.Tracked) (hr : h.Registered) :
    (e.step h).Registered ↔ h.SparesLast e := by
  have hstep := e.stepped h
  generalize e.step h = h' at hstep
  cases hstep with
  | ignored hspares => exact iff_of_true hr hspares
  | faded hspares hf => exact iff_of_true (hr.of_fades rfl rfl fun c hc => live_of_modify hf.live hc) hspares
  | @connected nodeID =>
    refine iff_of_true ?_ trivial
    intro m c hlast hlive
    simp only [Function.update_apply] at hlast ⊢
    split at hlast
    next hm => rw [if_pos hm, hlast]
    next hm =>
      rw [if_neg hm]
      refine hr m c hlast ?_
      obtain ⟨i, hreplaced⟩ := h.replaced_eq nodeID
      have hlt : c < (h.replaced nodeID).length := by
        rw [hreplaced, List.length_modify]
        exact ht.last m c hlast
      rw [live, List.getElem?_append_left hlt, hreplaced] at hlive
      exact live_of_modify shut_fades.live hlive
  | @cleaned c conn hconn hclosed =>
    have hlive : ∀ d, (h.setLoop c .ended).live d = h.live d := by
      intro d
      rw [live, setLoop, List.getElem?_modify, Option.map_eq_map, Option.any_map, live]
      by_cases hcd : c = d
      · subst hcd
        simp [hconn, Conn.live, hclosed]
      · simp [hcd]
    constructor
    · intro hr' conn' hconn' _ last hlast
      rw [hconn] at hconn'
      cases hconn'
      -- the entry is gone, so a live last connection would be unregistered
      by_contra hl
      have hentry := hr' conn.nodeID last hlast ((hlive last).trans (by simpa using hl))
      simp at hentry
    · intro hspares m d hlast hd
      have hd' : h.live d := (hlive d).symm.trans hd
      have hm : m ≠ conn.nodeID := by
        rintro rfl
        simp [hspares conn hconn hclosed d hlast] at hd'
      simpa only [Function.update_of_ne hm] using hr m d hlast hd'

/-- The last connection of every node keeps its entry, and gone connections
leave none, exactly in the runs where no old loop cleans up beside it. -/
theorem registered_throughout_iff (es : List HubEvent) :
    Throughout HubEvent.step (fun h => h.Registered ∧ h.Cleared) WSHub.new es ↔
      Along HubEvent.step WSHub.SparesLast WSHub.new es := by
  refine throughout_iff_along (I := WSHub.Tracked) (fun _ e => WSHub.Tracked.step e) ?_ ?_ ?_
  · intro h e ht hj
    rw [and_iff_left (ht.step e).cleared]
    exact WSHub.registered_step_iff e ht hj.1
  · exact ⟨nofun, nofun⟩
  · exact ⟨nofun, fun _ _ => rfl⟩

/-- An agent connects again; then the loop of its first connection ends, and
the entry of the second is gone. -/
theorem cleanup_drops_new_connection :
    ¬ ∀ es : List HubEvent, Throughout HubEvent.step (fun h => h.Registered ∧ h.Cleared) WSHub.new es := by
  intro h
  have hentry := (h [.connect "edge", .connect "edge", .readFails 0, .close 0, .cleanup 0]).final.1 "edge" 1
  revert hentry
  decide

end PeerWan
