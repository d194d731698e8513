import PeerWan.Consul.Agreement
import PeerWan.Consul.History
import PeerWan.Lib.Filed
import PeerWan.Reports

/-!
# The reports of the policy pages in both stores

`MemoryStore` keeps the last reports of a node as they come. The Consul store
gives each a key from the `UnixNano` of its time, and puts what it lists in order
of time. Everything else that is written goes to other keys.
-/

namespace PeerWan

open Lib ConsulStore

-- ---------------------------------------------------------------------------
-- Saving and listing
-- ---------------------------------------------------------------------------

/-- `json.Marshal` and `json.Unmarshal` for one type. -/
structure JsonText (α : Type) where
  marshal : α → String
  unmarshal : String → Option α

/-- What is written is read back, as it is if all texts in it are UTF-8. -/
def JsonText.ReadsBack {α : Type} (json : JsonText α) (a : α) : Prop := json.unmarshal (json.marshal a) = some a

/-- A kind of report, and the series of keys that it has in Consul. -/
structure Journal (α : Type) where
  series : Series
  json : JsonText α
  nodeID : α → String
  timestamp : α → Int
  setTimestamp : Int → α → α

def ConsulValue.raw? : ConsulValue → Option String
  | .raw text => some text
  | _ => none

namespace Journal

variable {α : Type} (j : Journal α)

/-- A report without a time gets the time of its arrival. -/
def dated (now : Int) (a : α) : α := if j.timestamp a = 0 then j.setTimestamp now a else a

def number (a : α) : Int := j.series.number (j.timestamp a)

def key (a : α) : String := j.series.key (j.nodeID a) (j.timestamp a)

def encode (a : α) : ConsulValue := .raw (j.json.marshal a)

def decode (v : ConsulValue) : Option α := v.raw?.bind j.json.unmarshal

def save (now : Int) (a : α) (s : ConsulStore) : Reply Unit × ConsulStore :=
  s.putValue (j.key (j.dated now a)) (j.encode (j.dated now a))

def list (nodeID : String) (limit : Int) (s : ConsulStore) : Reply (List α) × ConsulStore :=
  match s.listValues (j.series.pfx ++ nodeID ++ "/") j.decode with
  | (.error err, s) => (.error err, s)
  | (.ok out, s) => (.ok (limited limit (out.insertionSort fun a b => j.timestamp a ≤ j.timestamp b)), s)

/-- The last report of each number, in order of time. -/
def byTime (reports : List α) : List α := (Table.ofList reports : Table j.number).sorted j.timestamp

end Journal

/-- `SavePolicyStatus` and `ListPolicyStatus` are `save` and `list` of this. -/
def policyStatusJournal (json : JsonText PolicyInstallLog) : Journal PolicyInstallLog where
  series := .policyStatus
  json := json
  nodeID l := l.nodeID
  timestamp l := l.timestamp
  setTimestamp now l := { l with timestamp := now }

/-- `SavePolicyDiag` and `ListPolicyDiag` are `save` and `list` of this. -/
def policyDiagJournal (json : JsonText PolicyDiagReport) : Journal PolicyDiagReport where
  series := .policyDiag
  json := json
  nodeID d := d.nodeID
  timestamp d := d.timestamp
  setTimestamp now d := { d with timestamp := now }

-- ---------------------------------------------------------------------------
-- Calls to both stores
-- ---------------------------------------------------------------------------

/-- A call that saves no report. -/
def StoreCall.Elsewhere : StoreCall → Prop
  | .write (.savePolicyStatus ..) | .write (.savePolicyDiag ..) => False
  | _ => True

inductive PageCall where
  | status (now : Int) (l : PolicyInstallLog)
  | diag (now : Int) (d : PolicyDiagReport)
  | other (c : { c : StoreCall // c.Elsewhere })

structure PagedTwin where
  twin : Twin
  reports : PolicyReports := {}

section

variable (statusJson : JsonText PolicyInstallLog) (diagJson : JsonText PolicyDiagReport)

def PageCall.step (c : PageCall) (s : PagedTwin) : PagedTwin :=
  match c with
  | .status now l =>
    { twin := { s.twin with consul := ((policyStatusJournal statusJson).save now l s.twin.consul).2 }
      reports := s.reports.savePolicyStatus now l }
  | .diag now d =>
    { twin := { s.twin with consul := ((policyDiagJournal diagJson).save now d s.twin.consul).2 }
      reports := s.reports.savePolicyDiag now d }
  | .other c => { s with twin := c.1.step s.twin }

def PageCall.status? : PageCall → Option PolicyInstallLog
  | .status now l => some ((policyStatusJournal statusJson).dated now l)
  | _ => none

def PageCall.diag? : PageCall → Option PolicyDiagReport
  | .diag now d => some ((policyDiagJournal diagJson).dated now d)
  | _ => none

end

def reportsOf {α : Type} (j : Journal α) (report? : PageCall → Option α) (nodeID : String) (calls : List PageCall) :
    List α :=
  (calls.filterMap report?).filter fun a => j.nodeID a = nodeID

-- ---------------------------------------------------------------------------
-- What a call does to a journal
-- ---------------------------------------------------------------------------

theorem StoreCall.Elsewhere.spares {pfx : String} (hpfx : pfx = policyStatusPref ∨ pfx = policyDiagPref) {c : StoreCall}
    (h : c.Elsewhere) (s : Twin) : s.consul.Spares pfx (c.step s).consul := by
  have hplan : Apart pfx planPrefix := by
    rcases hpfx with rfl | rfl <;> decide
  cases c with
  | savePlan p now => exact .savePlan hplan ..
  | getPlan nodeID => exact .getValue ..
  | rollbackPlan nodeID version => exact .rollbackPlan hplan ..
  | write w =>
    refine w.spares ?_ s.consul
    cases w with
    | savePolicyStatus => exact h.elim
    | savePolicyDiag => exact h.elim
    | _ =>
      dsimp only [StoreWrite.prefixes]
      rcases hpfx with rfl | rfl <;> decide

namespace Journal

variable {α : Type} {j : Journal α} {nodeID : String} {s s' : ConsulStore}

def name (j : Journal α) (nodeID : String) (number : Int) : String :=
  j.series.pfx ++ nodeID ++ "/" ++ toString number

theorem key_eq_name (j : Journal α) (a : α) : j.key a = j.name (j.nodeID a) (j.number a) := Series.key_eq ..

theorem under_name (j : Journal α) (nodeID : String) (number : Int) :
    Under (j.series.pfx ++ nodeID ++ "/") (j.name nodeID number) := under_append ..

theorem name_injective (j : Journal α) (nodeID : String) : Function.Injective (j.name nodeID) := by
  intro v w h
  have hrest : nodeID ++ "/" ++ toString v = nodeID ++ "/" ++ toString w := by
    simpa only [name, String.append_assoc, String.append_right_inj] using h
  exact (slash_inj hrest).2

/-- Consul has the reports of a node, each under its key. -/
def FiledIn (j : Journal α) (nodeID : String) (s : ConsulStore) (reports : List α) : Prop :=
  s.kv.Files (j.series.pfx ++ nodeID ++ "/") (j.name nodeID) j.encode (Table.ofList reports : Table j.number)

theorem FiledIn.spares {reports : List α} (h : j.FiledIn nodeID s reports) (hs : s.Spares j.series.pfx s') :
    j.FiledIn nodeID s' reports := by
  refine KV.Files.keeps h (j.under_name nodeID) (KV.Keeps.mono hs fun k hk => ?_)
  rw [String.append_assoc] at hk
  exact (under_append ..).trans hk

theorem FiledIn.save {reports : List α} (h : j.FiledIn nodeID s reports) (hw : s.kv.Works) {now : Int} {a : α}
    (hid : j.nodeID (j.dated now a) = nodeID) :
    j.FiledIn nodeID (j.save now a s).2 (reports ++ [j.dated now a]) := by
  subst hid
  rw [FiledIn, Table.ofList, List.foldl_append, Journal.save, putValue_works hw, key_eq_name]
  exact (KV.Files.write h (j.name_injective _) _).called

/-- The keys of a node are not those of another, unless its ID goes on after the slash. -/
theorem FiledIn.save_other {reports : List α} (h : j.FiledIn nodeID s reports) {now : Int} {a : α}
    (hid : j.nodeID (j.dated now a) ≠ nodeID) (hsep : ¬ Under (nodeID ++ "/") (j.nodeID (j.dated now a))) :
    j.FiledIn nodeID (j.save now a s).2 reports := by
  refine KV.Files.keeps h (j.under_name nodeID) (Spares.putValue (fun hunder => ?_) s _)
  rw [Journal.key, Series.key_eq, String.append_assoc, String.append_assoc, String.append_assoc,
    under_append_left, ← String.append_assoc] at hunder
  exact (under_entry hunder).elim (fun hsame => hid hsame.symm) hsep

theorem FiledIn.list {reports : List α} (h : j.FiledIn nodeID s reports) (hw : s.kv.Works)
    (hread : ∀ a ∈ reports, j.json.ReadsBack a) (limit : Int) :
    (j.list nodeID limit s).1 = .ok (limited limit (j.byTime reports)) := by
  have hdecode : ∀ a ∈ (Table.ofList reports : Table j.number).rows, j.decode (j.encode a) = some a :=
    fun a ha => hread a (Table.mem_ofList ha)
  have hperm := KV.Files.listing h (j.under_name nodeID) (j.name_injective nodeID) hdecode
  rw [Journal.list, listValues_works hw]
  dsimp only
  rw [Table.sorted_of_perm j.timestamp j.series.number hperm]
  rfl

-- ---------------------------------------------------------------------------
-- Runs
-- ---------------------------------------------------------------------------

/-- What every call does to the reports of one kind, in Consul and in the memory. -/
def Recorded (j : Journal α) (step : PageCall → PagedTwin → PagedTwin) (report? : PageCall → Option α) (cap : Nat)
    (kept : PagedTwin → String → List α) : Prop :=
  ∀ c s, (∃ now a, report? c = some (j.dated now a) ∧
      (step c s).twin.consul = (j.save now a s.twin.consul).2 ∧
      kept (step c s) = Function.update (kept s) (j.nodeID (j.dated now a))
        ((kept s (j.nodeID (j.dated now a)) ++ [j.dated now a]).rtake cap)) ∨
    (report? c = none ∧ s.twin.consul.Spares j.series.pfx (step c s).twin.consul ∧ kept (step c s) = kept s)

theorem reportsOf_none {j : Journal α} {report? : PageCall → Option α} {calls : List PageCall} {c : PageCall}
    (h : report? c = none) : reportsOf j report? nodeID (calls ++ [c]) = reportsOf j report? nodeID calls := by
  simp [reportsOf, List.filterMap_append, h]

theorem reportsOf_own {j : Journal α} {report? : PageCall → Option α} {calls : List PageCall} {c : PageCall} {a : α}
    (h : report? c = some a) (hid : j.nodeID a = nodeID) :
    reportsOf j report? nodeID (calls ++ [c]) = reportsOf j report? nodeID calls ++ [a] := by
  simp [reportsOf, List.filterMap_append, h, hid]

theorem reportsOf_other {j : Journal α} {report? : PageCall → Option α} {calls : List PageCall} {c : PageCall} {a : α}
    (h : report? c = some a) (hid : j.nodeID a ≠ nodeID) :
    reportsOf j report? nodeID (calls ++ [c]) = reportsOf j report? nodeID calls := by
  simp [reportsOf, List.filterMap_append, h, hid]

section

variable {step : PageCall → PagedTwin → PagedTwin} {report? : PageCall → Option α} {cap : Nat}
  {kept : PagedTwin → String → List α}

theorem Recorded.works (h : j.Recorded step report? cap kept) {s : PagedTwin} (hs : s.twin.consul.kv.Works)
    (c : PageCall) : (step c s).twin.consul.kv.Works := by
  rcases h c s with ⟨now, a, -, hsave, -⟩ | ⟨-, hspares, -⟩
  · rw [hsave, Journal.save, putValue_works hs]
    exact hs
  · exact hspares.works hs

/-- After a run Consul has all reports of the node, and the memory the last of them. -/
theorem Recorded.run (h : j.Recorded step report? cap kept) {s : PagedTwin} (hs : s.twin.consul.kv.Works)
    (hempty : ∀ k, s.twin.consul.kv.get? k = none) (hkept : kept s nodeID = []) (calls : List PageCall)
    (hsep : ∀ c ∈ calls, ∀ a, report? c = some a → ¬ Under (nodeID ++ "/") (j.nodeID a)) :
    let s' := Lib.run step s calls
    s'.twin.consul.kv.Works ∧ j.FiledIn nodeID s'.twin.consul (reportsOf j report? nodeID calls) ∧
      kept s' nodeID = (reportsOf j report? nodeID calls).rtake cap := by
  induction calls using List.reverseRecOn with
  | nil =>
    refine ⟨hs, ⟨fun x => congrArg (Option.map _) (hempty _), fun k _ _ => congrArg (Option.map _) (hempty _)⟩, ?_⟩
    rw [run_nil, hkept]
    exact (rtake_of_length_le (Nat.zero_le cap)).symm
  | append_singleton calls c ih =>
    obtain ⟨hworks, hfiled, hlast⟩ := ih fun c hc => hsep c (List.mem_append_left _ hc)
    rw [run_append, run_cons, run_nil]
    refine ⟨h.works hworks c, ?_⟩
    rcases h c (Lib.run step s calls) with ⟨now, a, hreport, hsave, hmemory⟩ | ⟨hreport, hspares, hmemory⟩
    · rw [hsave, hmemory]
      by_cases hid : j.nodeID (j.dated now a) = nodeID
      · rw [reportsOf_own hreport hid, hid, Function.update_self, hlast, rtake_rtake_append]
        exact ⟨hfiled.save hworks hid, rfl⟩
      · rw [reportsOf_other hreport hid, Function.update_of_ne (Ne.symm hid)]
        exact ⟨hfiled.save_other hid (hsep c (List.mem_append_right _ List.mem_cons_self) _ hreport), hlast⟩
    · rw [reportsOf_none hreport, hmemory]
      exact ⟨hfiled.spares hspares, hlast⟩

end

end Journal

section

variable (statusJson : JsonText PolicyInstallLog) (diagJson : JsonText PolicyDiagReport)

theorem status_recorded : (policyStatusJournal statusJson).Recorded (PageCall.step statusJson diagJson)
    (PageCall.status? statusJson) 50 fun s => s.reports.policyStatus := by
  intro c s
  cases c with
  | status now l => exact .inl ⟨now, l, rfl, rfl, rfl⟩
  | diag now d =>
    have hapart : Apart policyStatusPref policyDiagPref := by decide
    exact .inr ⟨rfl, Spares.putValue (hapart.not_under (under_append₃ ..)) .., rfl⟩
  | other c => exact .inr ⟨rfl, c.2.spares (.inl rfl) s.twin, rfl⟩

theorem diag_recorded : (policyDiagJournal diagJson).Recorded (PageCall.step statusJson diagJson)
    (PageCall.diag? diagJson) 20 fun s => s.reports.policyDiag := by
  intro c s
  cases c with
  | status now l =>
    have hapart : Apart policyDiagPref policyStatusPref := by decide
    exact .inr ⟨rfl, Spares.putValue (hapart.not_under (under_append₃ ..)) .., rfl⟩
  | diag now d => exact .inl ⟨now, d, rfl, rfl, rfl⟩
  | other c => exact .inr ⟨rfl, c.2.spares (.inr rfl) s.twin, rfl⟩

end

-- ---------------------------------------------------------------------------
-- Listings
-- ---------------------------------------------------------------------------

def PageCall.reporter? : PageCall → Option String
  | .status _ l => some l.nodeID
  | .diag _ d => some d.nodeID
  | .other _ => none

/-- Consul lists the last report of each number, in order of time, and the
memory the last of all reports, as they came. Where each report is later than
those before it and has a number of its own, these are the same as far back as
the memory goes. -/
structure Listings {α : Type} (j : Journal α) (cap : Nat) (reports : List α) (nodeID : String) (limit : Int)
    (s : ConsulStore) (listed : List α) : Prop where
  consul : (j.list nodeID limit s).1 = .ok (limited limit (j.byTime reports))
  memory : listed = MemoryStore.limited limit (reports.rtake cap)
  same : 0 < limit → (reports.Pairwise fun a b => j.timestamp a < j.timestamp b ∧ j.number a ≠ j.number b) →
    ∃ out, (j.list nodeID limit s).1 = .ok out ∧ listed = out.rtake cap ∧ (limit ≤ cap → listed = out)

theorem memory_limited {α : Type} {limit : Int} (h : 0 < limit) (l : List α) :
    MemoryStore.limited limit l = l.rtake limit.toNat := by
  unfold MemoryStore.limited
  split
  next hno => exact (rtake_of_length_le (by omega)).symm
  next hcut => rfl

theorem listings_of {α : Type} {j : Journal α} {cap : Nat} {reports : List α} {nodeID : String} {limit : Int}
    {s : ConsulStore} {listed : List α} (hconsul : (j.list nodeID limit s).1 = .ok (limited limit (j.byTime reports)))
    (hmemory : listed = MemoryStore.limited limit (reports.rtake cap)) :
    Listings j cap reports nodeID limit s listed where
  consul := hconsul
  memory := hmemory
  same := by
    intro hlimit htime
    have hcut : listed = (reports.rtake limit.toNat).rtake cap := by
      rw [hmemory, memory_limited hlimit, rtake_rtake, rtake_rtake, min_comm]
    refine ⟨reports.rtake limit.toNat, ?_, hcut, fun hcap => ?_⟩
    · rw [hconsul, Journal.byTime, Table.sorted_ofList htime, limited_eq_rtake hlimit]
    · rw [hcut, rtake_rtake, min_eq_right (by omega)]

def PagedTwin.start (index : Nat) (next : Nat → Nat) (h : ∀ i, i < next i) : PagedTwin where
  twin := Twin.start index next h

abbrev statuses (json : JsonText PolicyInstallLog) (calls : List PageCall) (nodeID : String) : List PolicyInstallLog :=
  reportsOf (policyStatusJournal json) (PageCall.status? json) nodeID calls

abbrev diags (json : JsonText PolicyDiagReport) (calls : List PageCall) (nodeID : String) : List PolicyDiagReport :=
  reportsOf (policyDiagJournal json) (PageCall.diag? json) nodeID calls

section

variable {statusJson : JsonText PolicyInstallLog} {diagJson : JsonText PolicyDiagReport} {c : PageCall}

theorem PageCall.status?_reporter {l : PolicyInstallLog} (h : c.status? statusJson = some l) :
    c.reporter? = some l.nodeID := by
  cases c with
  | status now l' =>
    cases h
    rw [PageCall.reporter?, Journal.dated]
    split <;> rfl
  | diag now d => cases h
  | other c => cases h

theorem PageCall.diag?_reporter {d : PolicyDiagReport} (h : c.diag? diagJson = some d) :
    c.reporter? = some d.nodeID := by
  cases c with
  | status now l => cases h
  | diag now d' =>
    cases h
    rw [PageCall.reporter?, Journal.dated]
    split <;> rfl
  | other c => cases h

variable (statusJson diagJson)

/-- No other node that reports has an ID which goes on after this one and a
slash, and the reports of this one are read back. -/
structure Paged (calls : List PageCall) (nodeID : String) : Prop where
  apart : ∀ c ∈ calls, ∀ id, c.reporter? = some id → ¬ Under (nodeID ++ "/") id
  statuses : ∀ l ∈ statuses statusJson calls nodeID, statusJson.ReadsBack l
  diags : ∀ d ∈ diags diagJson calls nodeID, diagJson.ReadsBack d

end

/-- What both stores list of the reports of a node, after any calls to both. -/
theorem report_listings (statusJson : JsonText PolicyInstallLog) (diagJson : JsonText PolicyDiagReport)
    (index : Nat) (next : Nat → Nat) (h : ∀ i, i < next i) (calls : List PageCall) (nodeID : String)
    (hcalls : Paged statusJson diagJson calls nodeID) (limit : Int) :
    let s := run (PageCall.step statusJson diagJson) (.start index next h) calls
    Listings (policyStatusJournal statusJson) 50 (statuses statusJson calls nodeID) nodeID limit s.twin.consul
        (listPolicyStatus nodeID limit s.reports) ∧
      Listings (policyDiagJournal diagJson) 20 (diags diagJson calls nodeID) nodeID limit s.twin.consul
        (listPolicyDiag nodeID limit s.reports) := by
  have hworks : (PagedTwin.start index next h).twin.consul.kv.Works := fun _ => rfl
  obtain ⟨hw, hfiled, hkept⟩ := (status_recorded statusJson diagJson).run hworks (fun _ => rfl) rfl calls
    fun c hc l hl => hcalls.apart c hc _ (PageCall.status?_reporter hl)
  obtain ⟨-, hfiled', hkept'⟩ := (diag_recorded statusJson diagJson).run hworks (fun _ => rfl) rfl calls
    fun c hc d hd => hcalls.apart c hc _ (PageCall.diag?_reporter hd)
  exact ⟨listings_of (hfiled.list hw hcalls.statuses limit) (congrArg (MemoryStore.limited limit) hkept),
    listings_of (hfiled'.list hw hcalls.diags limit) (congrArg (MemoryStore.limited limit) hkept')⟩

def edgeLog (timestamp : Int) : PolicyInstallLog where
  nodeID := "edge"
  version := "dynamic-v7"
  status := "applying"
  timestamp := timestamp

def edgeText : String := "\x7b\"nodeId\":\"edge\",\"version\":\"dynamic-v7\",\"status\":\"applying\"," ++
  "\"timestamp\":\"1970-01-01T00:00:00.000000001Z\"\x7d"

def edgeJson : JsonText PolicyInstallLog where
  marshal l := if l = edgeLog 1 then edgeText else ""
  unmarshal text := if text = edgeText then some (edgeLog 1) else none

def noDiagJson : JsonText PolicyDiagReport := ⟨fun _ => "", fun _ => none⟩

def edgeCalls : List PageCall := [.other ⟨.write (.upsertNode { id := "edge" }), trivial⟩,
  .status 1 (edgeLog 0), .status 3 (edgeLog 1), .diag 4 { nodeID := "hub" }]

theorem edgeCalls_paged : Paged edgeJson noDiagJson edgeCalls "edge" where
  apart := by
    simp only [edgeCalls, List.mem_cons, List.not_mem_nil, or_false]
    rintro c (rfl | rfl | rfl | rfl) id hid <;> cases hid
    all_goals
      unfold Under
      decide
  statuses := by
    have hstatuses : statuses edgeJson edgeCalls "edge" = [edgeLog 1, edgeLog 1] := by
      simp [reportsOf, edgeCalls, List.filterMap_cons, PageCall.status?, policyStatusJournal, Journal.dated, edgeLog]
    rw [hstatuses]
    simp only [List.mem_cons, List.not_mem_nil, or_false, or_self]
    rintro l rfl
    simp only [JsonText.ReadsBack, edgeJson, if_true]
  diags := by
    have hdiags : diags noDiagJson edgeCalls "edge" = [] := by
      simp [reportsOf, edgeCalls, List.filterMap_cons, PageCall.diag?, policyDiagJournal, Journal.dated]
    rw [hdiags]
    exact fun d hd => absurd hd List.not_mem_nil

theorem report_listings_edge :
    let s := run (PageCall.step edgeJson noDiagJson) (.start 0 Nat.succ Nat.lt_succ_self) edgeCalls
    Listings (policyStatusJournal edgeJson) 50 (statuses edgeJson edgeCalls "edge") "edge" 20 s.twin.consul
        (listPolicyStatus "edge" 20 s.reports) ∧
      Listings (policyDiagJournal noDiagJson) 20 (diags noDiagJson edgeCalls "edge") "edge" 20 s.twin.consul
        (listPolicyDiag "edge" 20 s.reports) :=
  report_listings edgeJson noDiagJson 0 Nat.succ Nat.lt_succ_self edgeCalls "edge" edgeCalls_paged 20

end PeerWan
