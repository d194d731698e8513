import PeerWan.Lib.ReadModifyWrite
import PeerWan.Lib.Runs
import PeerWan.Consul.Calls

/-!
# A policy update among upserts

On Consul `UpdatePolicy` is a Get and an unconditional Put, `UpsertNode` a blind
Put. Requests of other calls may come in between, and any request may fail.
-/

namespace PeerWan

open Lib

namespace ConsulStore

-- ---------------------------------------------------------------------------
-- The calls, request by request
-- ---------------------------------------------------------------------------

/-- `UpdatePolicy` up to the record it decodes. -/
def updateGet (req : PolicyRequest) (s : ConsulStore) : Reply Node × ConsulStore :=
  match s.getNode req.nodeID with
  | (.error err, s) => (.error err, s)
  | (.ok none, s) => (.error "node not found", s)
  | (.ok (some n), s) => (.ok n, s)

/-- The rest of `UpdatePolicy`. -/
def updatePut (req : PolicyRequest) (got : Reply Node) (s : ConsulStore) : Reply Unit × ConsulStore :=
  match got with
  | .error err => (.error err, s)
  | .ok n => s.putValue (nodeKey req.nodeID) (.node (n.withPolicy req))

theorem updatePolicy_eq (req : PolicyRequest) (s : ConsulStore) :
    s.updatePolicy req = updatePut req (s.updateGet req).1 (s.updateGet req).2 := by
  unfold updatePolicy updateGet
  rcases s.getNode req.nodeID with ⟨_ | _ | n, s'⟩ <;> rfl

/-- The store whose requests end in `fate`: an error, or none. -/
def fated (s : ConsulStore) (fate : Option String) : ConsulStore :=
  { s with kv := { s.kv with fails := fun _ => fate } }

end ConsulStore

open ConsulStore

structure Upsert where
  node : Node
  fate : Option String := none

def Upsert.step (u : Upsert) (s : ConsulStore) : ConsulStore := ((s.fated u.fate).upsertNode u.node).2

/-- One `UpdatePolicy` and the upserts before, between and after its requests. -/
structure Race where
  before : List Upsert
  between : List Upsert
  after : List Upsert
  getFate : Option String := none
  putFate : Option String := none

def Race.upserts (r : Race) : List Upsert := r.before ++ r.between ++ r.after

def Race.final (r : Race) (req : PolicyRequest) (s : ConsulStore) : ConsulStore :=
  let s := run Upsert.step s r.before
  let (got, s) := (s.fated r.getFate).updateGet req
  let s := run Upsert.step s r.between
  let (_, s) := (s.fated r.putFate).updatePut req got
  run Upsert.step s r.after

/-- The same calls one after another: nothing comes between the requests. -/
def Race.SerialOf (r r' : Race) : Prop :=
  r'.between = [] ∧ r'.upserts.Perm r.upserts ∧ r'.getFate = r.getFate ∧ r'.putFate = r.putFate

/-- Some serial order of the calls ends with the same record of the node. -/
def Serializable (req : PolicyRequest) (s : ConsulStore) (r : Race) : Prop :=
  ∃ r', r.SerialOf r' ∧
    (r'.final req s).kv.value? (nodeKey req.nodeID) = (r.final req s).kv.value? (nodeKey req.nodeID)

/-- The update has read the record before every upsert that takes effect, and
writes after them all. -/
structure Race.Loses (r : Race) : Prop where
  get : r.getFate = none
  put : r.putFate = none
  before : ∀ u ∈ r.before, u.fate ≠ none
  between : ∃ u ∈ r.between, u.fate = none
  after : ∀ u ∈ r.after, u.fate ≠ none

/-- The upsert writes what the update of the record `n` writes, or leads an
update of its own record there. -/
def Upsert.Covers (req : PolicyRequest) (n : Node) (u : Upsert) : Prop :=
  u.fate = none ∧ (u.node = n.withPolicy req ∨
    ∃ n', (ConsulValue.node u.node).node? = some n' ∧ n'.withPolicy req = n.withPolicy req)

-- ---------------------------------------------------------------------------
-- The record as a register
-- ---------------------------------------------------------------------------

/-- What an upsert makes of the value at the node's key. -/
def Upsert.effect (u : Upsert) : Option (Option ConsulValue) :=
  match u.fate with
  | none => some (some (.node u.node))
  | some _ => none

/-- What the update makes of the value it reads. -/
def Race.update (r : Race) (req : PolicyRequest) (v : Option ConsulValue) : Option (Option ConsulValue) :=
  if r.getFate = none ∧ r.putFate = none then
    (v.bind ConsulValue.node?).map fun n => some (.node (n.withPolicy req))
  else none

section

variable {s : ConsulStore} {req : PolicyRequest}

theorem putValue_fated (s : ConsulStore) (fate : Option String) (k : String) (v : ConsulValue) :
    ((s.fated fate).putValue k v).2.kv.value? k = if fate = none then some v else s.kv.value? k := by
  cases fate with
  | none =>
    rw [putValue_works (show (s.fated none).kv.Works from fun _ => rfl)]
    simp
  | some err =>
    unfold putValue withKV KV.put
    rw [KV.request_failed (show (s.fated (some err)).kv.fails (s.fated (some err)).kv.calls = some err from rfl)]
    rfl

theorem updateGet_fated (s : ConsulStore) (fate : Option String) (req : PolicyRequest) :
    ((s.fated fate).updateGet req).1.toOption =
        (if fate = none then (s.kv.value? (nodeKey req.nodeID)).bind ConsulValue.node? else none) ∧
      ((s.fated fate).updateGet req).2.kv.value? = s.kv.value? := by
  cases fate with
  | none =>
    unfold updateGet getNode
    rw [getValue_works (show (s.fated none).kv.Works from fun _ => rfl), if_pos rfl]
    have hget : (s.fated none).kv.get? (nodeKey req.nodeID) = s.kv.get? (nodeKey req.nodeID) := rfl
    rw [hget, KV.value?]
    cases s.kv.get? (nodeKey req.nodeID) with
    | none => exact ⟨rfl, rfl⟩
    | some e =>
      have hvalue : (s.fated none).kv.called.value? = s.kv.value? := rfl
      cases hn : e.value.node? <;> simp [hn, hvalue, Except.toOption]
  | some err =>
    have hfails : (s.fated (some err)).kv.fails (s.fated (some err)).kv.calls = some err := rfl
    unfold updateGet getNode getValue withKV KV.get
    rw [KV.request_failed hfails]
    exact ⟨rfl, rfl⟩

theorem updatePut_fated (s : ConsulStore) (fate : Option String) (req : PolicyRequest) (got : Reply Node) :
    (updatePut req got (s.fated fate)).2.kv.value? (nodeKey req.nodeID) =
      ((if fate = none then got.toOption.map fun n => some (.node (n.withPolicy req)) else none).getD
        (s.kv.value? (nodeKey req.nodeID))) := by
  cases got with
  | error err => cases fate <;> rfl
  | ok n =>
    rw [updatePut, putValue_fated]
    cases fate <;> rfl

theorem step_value {u : Upsert} (hid : u.node.id = req.nodeID) (s : ConsulStore) :
    (u.step s).kv.value? (nodeKey req.nodeID) = u.effect.getD (s.kv.value? (nodeKey req.nodeID)) := by
  have hput : (u.step s).kv.value? (nodeKey req.nodeID) =
      ((s.fated u.fate).putValue (nodeKey req.nodeID) (.node u.node)).2.kv.value? (nodeKey req.nodeID) := by
    rw [Upsert.step, upsertNode, hid]
    rcases (s.fated u.fate).putValue (nodeKey req.nodeID) (.node u.node) with ⟨_ | _, s'⟩ <;> rfl
  rw [hput, putValue_fated, Upsert.effect]
  cases u.fate <;> rfl

theorem run_value {us : List Upsert} (hids : ∀ u ∈ us, u.node.id = req.nodeID) (s : ConsulStore) :
    (run Upsert.step s us).kv.value? (nodeKey req.nodeID) =
      overwritten Upsert.effect (s.kv.value? (nodeKey req.nodeID)) us := by
  induction us generalizing s with
  | nil => rfl
  | cons u us ih =>
    rw [run_cons, ih (fun u hu => hids u (List.mem_cons_of_mem _ hu)), step_value (hids u List.mem_cons_self),
      overwritten_cons]

theorem final_value {r : Race} (hids : ∀ u ∈ r.upserts, u.node.id = req.nodeID) (s : ConsulStore) :
    (r.final req s).kv.value? (nodeKey req.nodeID) =
      interleaved Upsert.effect (r.update req) (s.kv.value? (nodeKey req.nodeID)) r.before r.between r.after := by
  simp only [Race.upserts, List.mem_append] at hids
  have hget := updateGet_fated (run Upsert.step s r.before) r.getFate req
  rw [Race.final, run_value fun u hu => hids u (.inr hu), updatePut_fated,
    run_value fun u hu => hids u (.inl (.inr hu)), hget.1, hget.2, run_value fun u hu => hids u (.inl (.inl hu)),
    interleaved, Race.update]
  by_cases hg : r.getFate = none <;> by_cases hp : r.putFate = none <;> simp [hg, hp]

theorem serializable_iff_serial {r : Race} (hids : ∀ u ∈ r.upserts, u.node.id = req.nodeID) :
    Serializable req s r ↔ Serial Upsert.effect (r.update req) (s.kv.value? (nodeKey req.nodeID)) r.upserts
      (interleaved Upsert.effect (r.update req) (s.kv.value? (nodeKey req.nodeID)) r.before r.between r.after) := by
  constructor
  · rintro ⟨r', ⟨hbetween, hperm, hget, hput⟩, hfinal⟩
    have hids' : ∀ u ∈ r'.upserts, u.node.id = req.nodeID := fun u hu => hids u (hperm.subset hu)
    have hupdate : r'.update req = r.update req := by
      funext v
      rw [Race.update, Race.update, hget, hput]
    refine ⟨r'.before, r'.after, ?_, ?_⟩
    · rw [Race.upserts, hbetween, List.append_nil] at hperm
      exact hperm
    · rw [final_value hids, final_value hids', hbetween, hupdate] at hfinal
      exact hfinal
  · rintro ⟨before, after, hperm, hfinal⟩
    refine ⟨⟨before, [], after, r.getFate, r.putFate⟩, ⟨rfl, ?_, rfl, rfl⟩, ?_⟩
    · rw [Race.upserts, List.append_nil]
      exact hperm
    · rw [final_value hids, final_value]
      · exact hfinal
      · intro u hu
        rw [Race.upserts, List.append_nil] at hu
        exact hids u (hperm.subset hu)

theorem effect_eq_some {u : Upsert} {z : Option ConsulValue} :
    u.effect = some z ↔ u.fate = none ∧ z = some (.node u.node) := by
  rw [Upsert.effect]
  cases u.fate <;> simp [eq_comm]

theorem effects_eq_nil {us : List Upsert} : us.filterMap Upsert.effect = [] ↔ ∀ u ∈ us, u.fate ≠ none := by
  rw [List.filterMap_eq_nil_iff]
  refine forall₂_congr fun u _ => ?_
  rw [Upsert.effect]
  cases u.fate <;> simp

theorem Race.update_eq_some {r : Race} {v w : Option ConsulValue} :
    r.update req v = some w ↔ (r.getFate = none ∧ r.putFate = none) ∧
      ∃ n, v.bind ConsulValue.node? = some n ∧ w = some (.node (n.withPolicy req)) := by
  rw [Race.update]
  split
  · next h =>
    rw [Option.map_eq_some_iff]
    exact ⟨fun ⟨n, hn, hw⟩ => ⟨h, n, hn, hw.symm⟩, fun ⟨_, n, hn, hw⟩ => ⟨n, hn, hw.symm⟩⟩
  · next h => simp [h]

/-- The upserts in between are the ones that count. -/
theorem Race.Loses.coincides_iff {r : Race} (h : r.Loses) (n : Node) :
    Coincides Upsert.effect (r.update req) r.upserts (some (.node (n.withPolicy req))) ↔
      ∃ u ∈ r.between, u.Covers req n := by
  constructor
  · rintro ⟨u, hu, z, hz, hy⟩
    obtain ⟨hfate, rfl⟩ := effect_eq_some.mp hz
    have hbetween : u ∈ r.between := by
      rcases List.mem_append.mp hu with hu | hu
      · rcases List.mem_append.mp hu with hu | hu
        · exact absurd hfate (h.before u hu)
        · exact hu
      · exact absurd hfate (h.after u hu)
    refine ⟨u, hbetween, hfate, ?_⟩
    rcases hy with heq | hupdate
    · exact .inl (ConsulValue.node.inj (Option.some.inj heq))
    · obtain ⟨-, n', hn', heq⟩ := Race.update_eq_some.mp hupdate
      exact .inr ⟨n', hn', (ConsulValue.node.inj (Option.some.inj heq)).symm⟩
  · rintro ⟨u, hu, hfate, hcovers⟩
    refine ⟨u, List.mem_append_left _ (List.mem_append_right _ hu), _, effect_eq_some.mpr ⟨hfate, rfl⟩, ?_⟩
    rcases hcovers with heq | ⟨n', hn', heq⟩
    · exact .inl (by rw [heq])
    · exact .inr (Race.update_eq_some.mpr ⟨⟨h.get, h.put⟩, n', hn', by rw [heq]⟩)

theorem Race.Loses.covered {r : Race} (h : r.Loses) (hids : ∀ u ∈ r.upserts, u.node.id = req.nodeID) {n : Node}
    (hn : (s.kv.value? (nodeKey req.nodeID)).bind ConsulValue.node? = some n) (hs : Serializable req s r) :
    ∃ u ∈ r.between, u.Covers req n := by
  have hover : Overtakes Upsert.effect r.before r.between r.after := by
    obtain ⟨u, hu, hfate⟩ := h.between
    exact ⟨effects_eq_nil.mpr h.before, fun hnone => effects_eq_nil.mp hnone u hu hfate, effects_eq_nil.mpr h.after⟩
  rw [serializable_iff_serial hids, Race.upserts, serial_iff] at hs
  exact (h.coincides_iff n).mp (hs hover _ (Race.update_eq_some.mpr ⟨⟨h.get, h.put⟩, n, hn, rfl⟩))

/-- The race ends as some serial order of its calls would, unless the update
loses upserts and what it wrote is not what one of them leads to. -/
theorem serializable_iff (req : PolicyRequest) (s : ConsulStore) (r : Race)
    (hids : ∀ u ∈ r.upserts, u.node.id = req.nodeID) :
    Serializable req s r ↔ (r.Loses → ∀ n,
      (s.kv.value? (nodeKey req.nodeID)).bind ConsulValue.node? = some n → ∃ u ∈ r.between, u.Covers req n) := by
  refine ⟨fun hs hloses n hn => hloses.covered hids hn hs, fun h => ?_⟩
  rw [serializable_iff_serial hids, Race.upserts, serial_iff]
  intro hover y hy
  obtain ⟨⟨hget, hput⟩, n, hn, rfl⟩ := Race.update_eq_some.mp hy
  have hloses : r.Loses := by
    refine ⟨hget, hput, effects_eq_nil.mp hover.before, ?_, effects_eq_nil.mp hover.after⟩
    by_contra hnone
    exact hover.between (effects_eq_nil.mpr fun u hu hfate => hnone ⟨u, hu, hfate⟩)
  exact (hloses.coincides_iff n).mpr (h hloses n hn)

end

def sampleRace : Race where
  before := []
  between := [{ node := { id := "edge", publicKey := "new", endpoints := ["203.0.113.7:8082"] } }]
  after := []

def sampleRecord : ConsulStore where
  kv := (ConsulStore.empty 0 Nat.succ Nat.lt_succ_self).kv.write (nodeKey "edge")
    (.node { id := "edge", publicKey := "old" })

theorem serializable_edge : Serializable { nodeID := "edge" } sampleRecord { sampleRace with putFate := some "timeout" } :=
  (serializable_iff { nodeID := "edge" } sampleRecord _ (by decide)).mpr fun h => by cases h.put

/-- A register's new key and endpoints come between the requests of a policy
post: the old record comes back, with the policy. -/
theorem update_loses_upsert :
    ¬ ∀ (req : PolicyRequest) (s : ConsulStore) (r : Race), (∀ u ∈ r.upserts, u.node.id = req.nodeID) →
      Serializable req s r := by
  intro h
  have hids : ∀ u ∈ sampleRace.upserts, u.node.id = "edge" := by decide
  have hloses : sampleRace.Loses := ⟨rfl, rfl, by decide, by decide, by decide⟩
  have hrecord : (sampleRecord.kv.value? (nodeKey "edge")).bind ConsulValue.node? =
      some { id := "edge", publicKey := "old" } := rfl
  obtain ⟨u, hu, -, hcovers⟩ :=
    hloses.covered hids hrecord (h { nodeID := "edge", egressPeer := "hub" } sampleRecord sampleRace hids)
  obtain rfl := List.mem_singleton.mp hu
  rcases hcovers with heq | ⟨n', hn', heq⟩
  · exact absurd (congrArg Node.publicKey heq) (by decide)
  · obtain rfl := Option.some.inj hn'
    exact absurd (congrArg Node.publicKey heq) (by decide)

end PeerWan
