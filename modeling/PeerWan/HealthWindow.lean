import PeerWan.Store
import PeerWan.Text

/-!
# The window of the health history

A report is kept for a day: `SaveHealth` and `PruneHealthBefore` drop what is
older, and `/api/v1/health/history` asks for the last hours. Times are
nanoseconds, and the hours that the request names become a 64-bit duration.
-/

namespace PeerWan

def hour : Int := 60 * 60 * 1000000000

def historyHours (hoursStr : String) : Int :=
  if hoursStr = "" then 24
  else match parseInt hoursStr with
    | some v => if v > 0 then v else 24
    | none => 24

def historySince (now hours : Int) : Int := now + int64 (-hours * hour)

def healthHistory (now hours : Int) (nodeID : String) (m : MemoryStore) : List HealthReport :=
  m.listHealthHistory nodeID (historySince now hours)

/-- A call that changes the history, and its time. -/
inductive HealthCall where
  | save (now : Int) (h : HealthReport)
  | prune (now : Int)

namespace HealthCall

def now : HealthCall → Int
  | save now _ => now
  | prune now => now

def run (m : MemoryStore) : HealthCall → MemoryStore
  | save now h => m.saveHealth now h
  | prune now => m.pruneHealthBefore (now - MemoryStore.day)

def saved? (nodeID : String) : HealthCall → Option HealthReport
  | save _ h => if h.nodeID = nodeID then some h else none
  | prune _ => none

/-- Whether the call leaves a report in the history of a node. -/
def Keeps (nodeID : String) (r : HealthReport) : HealthCall → Prop
  | save now h => h.nodeID = nodeID → now - MemoryStore.day < r.timestamp
  | prune now => now - MemoryStore.day ≤ r.timestamp

instance decidableKeeps (nodeID : String) (r : HealthReport) (c : HealthCall) : Decidable (c.Keeps nodeID r) := by
  cases c <;> unfold Keeps <;> infer_instance

end HealthCall

/-- Calls on a new store and a query after them, under a clock that does not go back. -/
structure HealthRun where
  calls : List HealthCall
  query : Int
  ordered : (calls.map HealthCall.now ++ [query]).Pairwise (· ≤ ·)

namespace HealthRun

def store (r : HealthRun) : MemoryStore := r.calls.foldl HealthCall.run .new

def saved (r : HealthRun) (nodeID : String) : List HealthReport := r.calls.filterMap (HealthCall.saved? nodeID)

def answer (r : HealthRun) (nodeID : String) (hours : Int) : List HealthReport :=
  healthHistory r.query hours nodeID r.store

end HealthRun

-- ---------------------------------------------------------------------------
-- What is in the history
-- ---------------------------------------------------------------------------

section

variable {nodeID : String} {calls : List HealthCall} {report : HealthReport}

theorem HealthCall.run_healthHistory (c : HealthCall) (m : MemoryStore) : (c.run m).healthHistory nodeID =
    (m.healthHistory nodeID ++ (c.saved? nodeID).toList).filter fun r => c.Keeps nodeID r := by
  cases c with
  | prune now => exact congrArg (List.filter _) (List.append_nil _).symm
  | save now h =>
    by_cases hnode : h.nodeID = nodeID
    · subst hnode
      have hsaved : (save now h).saved? h.nodeID = some h := if_pos rfl
      have hhist : ((save now h).run m).healthHistory h.nodeID =
          (m.healthHistory h.nodeID ++ [h]).filter fun item => item.timestamp > now - MemoryStore.day :=
        Function.update_self ..
      rw [hhist, hsaved]
      refine List.filter_congr fun r _ => decide_eq_decide.mpr ?_
      exact ⟨fun hr _ => hr, fun hr => hr rfl⟩
    · have hsaved : (save now h).saved? nodeID = none := if_neg hnode
      have hhist : ((save now h).run m).healthHistory nodeID = m.healthHistory nodeID :=
        Function.update_of_ne (Ne.symm hnode) ..
      have hall : ∀ r ∈ m.healthHistory nodeID, decide ((save now h).Keeps nodeID r) = true :=
        fun r _ => decide_eq_true fun heq => absurd heq hnode
      rw [hhist, hsaved, Option.toList_none, List.append_nil, List.filter_eq_self.mpr hall]

theorem HealthCall.keeps_of_earlier {c c' : HealthCall} (hsaved : c.saved? nodeID = some report)
    (hkeeps : c.Keeps nodeID report) (hle : c'.now ≤ c.now) : c'.Keeps nodeID report := by
  cases c with
  | prune now => cases hsaved
  | save now h =>
    have hnode : h.nodeID = nodeID := by
      by_contra hne
      rw [saved?, if_neg hne] at hsaved
      cases hsaved
    have hts := hkeeps hnode
    have hnow : c'.now ≤ now := hle
    cases c' with
    | save t h' =>
      have ht : t ≤ now := hnow
      exact fun _ => by omega
    | prune t =>
      have ht : t ≤ now := hnow
      exact show t - MemoryStore.day ≤ report.timestamp by omega

theorem healthHistory_eq (h : (calls.map HealthCall.now).Pairwise (· ≤ ·)) :
    (calls.foldl HealthCall.run .new).healthHistory nodeID =
      (calls.filterMap (HealthCall.saved? nodeID)).filter fun r => ∀ c ∈ calls, c.Keeps nodeID r := by
  induction calls using List.reverseRecOn with
  | nil => rfl
  | append_singleton calls c ih =>
    rw [List.map_append, List.pairwise_append] at h
    obtain ⟨hcalls, -, hlast⟩ := h
    have hle : ∀ c' ∈ calls, c'.now ≤ c.now := fun c' hc' =>
      hlast _ (List.mem_map_of_mem hc') _ (List.mem_singleton_self _)
    have hnew : [c].filterMap (HealthCall.saved? nodeID) = (c.saved? nodeID).toList := by
      cases hsaved : c.saved? nodeID <;> simp [hsaved]
    rw [List.foldl_append, List.foldl_cons, List.foldl_nil, c.run_healthHistory, ih hcalls, List.filterMap_append, hnew,
      List.filter_append, List.filter_append, List.filter_filter]
    congr 1
    · refine List.filter_congr fun r _ => ?_
      rw [← Bool.decide_and, decide_eq_decide, List.forall_mem_append, List.forall_mem_singleton, and_comm]
    · refine List.filter_congr fun r hr => decide_eq_decide.mpr ?_
      have hsaved := Option.mem_toList.mp hr
      rw [List.forall_mem_append, List.forall_mem_singleton]
      exact ⟨fun hkeeps => ⟨fun c' hc' => HealthCall.keeps_of_earlier hsaved hkeeps (hle c' hc'), hkeeps⟩, And.right⟩

end

-- ---------------------------------------------------------------------------
-- What is answered
-- ---------------------------------------------------------------------------

namespace HealthRun

variable {r : HealthRun} {nodeID : String} {hours : Int} {report : HealthReport}

def Retained (r : HealthRun) (nodeID : String) (report : HealthReport) : Prop :=
  report ∈ r.saved nodeID ∧ ∀ c ∈ r.calls, c.Keeps nodeID report

theorem answer_eq (r : HealthRun) (nodeID : String) (hours : Int) : r.answer nodeID hours =
    ((r.saved nodeID).filter fun report => ∀ c ∈ r.calls, c.Keeps nodeID report).filter fun report =>
      report.timestamp ≥ historySince r.query hours :=
  congrArg (List.filter _) (healthHistory_eq (List.pairwise_append.mp r.ordered).1)

theorem mem_answer : report ∈ r.answer nodeID hours ↔
    r.Retained nodeID report ∧ historySince r.query hours ≤ report.timestamp := by
  rw [answer_eq, List.mem_filter, List.mem_filter, decide_eq_true_eq, decide_eq_true_eq]
  rfl

theorem now_le_query {c : HealthCall} (hc : c ∈ r.calls) : c.now ≤ r.query :=
  (List.pairwise_append.mp r.ordered).2.2 _ (List.mem_map_of_mem hc) _ (List.mem_singleton_self _)

/-- What the history answers is exact: the saved reports in their order, all of
the last hours, up to a day, and older ones only where more is asked for. So
with more hours there are no fewer, and with a day none of the day is lost. -/
structure HistoryExact (r : HealthRun) (nodeID : String) (hours : Int) : Prop where
  inOrder : (r.answer nodeID hours).Sublist (r.saved nodeID)
  recent : (r.answer nodeID hours).filter (fun report => r.query - min hours 24 * hour ≤ report.timestamp) =
    (r.saved nodeID).filter fun report => r.query - min hours 24 * hour ≤ report.timestamp
  older : hours ≤ 24 → ∀ report ∈ r.answer nodeID hours, r.query - hours * hour ≤ report.timestamp
  noFewer : ∀ fewer, 0 < fewer → fewer ≤ hours → (r.answer nodeID fewer).length ≤ (r.answer nodeID hours).length
  noneLost : 24 ≤ hours → ∀ report ∈ r.saved nodeID, r.query - MemoryStore.day ≤ report.timestamp →
    report ∈ r.answer nodeID hours

/-- No report that is a day old to the nanosecond meets a save of the same instant. -/
def NoneOnEdge (r : HealthRun) (nodeID : String) : Prop :=
  ∀ saved, .save r.query saved ∈ r.calls → saved.nodeID = nodeID →
    ∀ report ∈ r.saved nodeID, report.timestamp ≠ r.query - MemoryStore.day

/-- The hours fit the duration, or no report is between the time they wrap to
and that of fewer hours. -/
def WindowFits (r : HealthRun) (nodeID : String) (hours : Int) : Prop :=
  hours * hour ≤ 2 ^ 63 ∨ ∀ report, r.Retained nodeID report → ∀ fewer, 0 < fewer → fewer ≤ hours →
    historySince r.query fewer ≤ report.timestamp → historySince r.query hours ≤ report.timestamp

theorem historySince_of_fits {now : Int} (hpos : 0 < hours) (hfits : hours * hour ≤ 2 ^ 63) :
    historySince now hours = now - hours * hour := by
  have hwrap : int64 (-hours * hour) = -hours * hour := by
    rw [int64, Int.bmod_eq_of_le_mul_two] <;> simp only [hour] at * <;> omega
  rw [historySince, hwrap]
  simp only [hour]
  omega

theorem historySince_day {now : Int} : historySince now 24 = now - MemoryStore.day :=
  historySince_of_fits (by decide) (by decide)

theorem WindowFits.reaches (h : r.WindowFits nodeID hours) (hpos : 0 < hours) (hretained : r.Retained nodeID report)
    {fewer : Int} (hfewer : 0 < fewer) (hle : fewer ≤ hours) (hsince : historySince r.query fewer ≤ report.timestamp) :
    historySince r.query hours ≤ report.timestamp := by
  rcases h with hfits | hreach
  · rw [historySince_of_fits hpos hfits]
    rw [historySince_of_fits hfewer (by simp only [hour] at *; omega)] at hsince
    simp only [hour] at *
    omega
  · exact hreach report hretained fewer hfewer hle hsince

/-- A call drops a report of the last day only where the report is on the edge
and its node saves at the time of the query. -/
theorem keeps_of_recent {c : HealthCall} (hc : c ∈ r.calls) (hrecent : r.query - MemoryStore.day ≤ report.timestamp)
    (hedge : ∀ saved, c = .save r.query saved → saved.nodeID = nodeID →
      report.timestamp ≠ r.query - MemoryStore.day) : c.Keeps nodeID report := by
  have hle := now_le_query hc
  cases c with
  | prune now =>
    have hnow : now ≤ r.query := hle
    exact show now - MemoryStore.day ≤ report.timestamp by omega
  | save now saved =>
    intro hnode
    have hnow : now ≤ r.query := hle
    by_contra hdropped
    obtain rfl : now = r.query := by omega
    exact hedge saved rfl hnode (by omega)

theorem NoneOnEdge.retained (h : r.NoneOnEdge nodeID) (hsaved : report ∈ r.saved nodeID)
    (hrecent : r.query - MemoryStore.day ≤ report.timestamp) : r.Retained nodeID report := by
  refine ⟨hsaved, fun c hc => keeps_of_recent hc hrecent fun saved heq hnode => ?_⟩
  subst heq
  exact h saved hc hnode report hsaved

theorem retained_of_recent (hsaved : report ∈ r.saved nodeID) (hrecent : r.query - MemoryStore.day < report.timestamp) :
    r.Retained nodeID report :=
  ⟨hsaved, fun _ hc => keeps_of_recent hc hrecent.le fun _ _ _ => hrecent.ne'⟩

theorem historyHours_pos (hoursStr : String) : 0 < historyHours hoursStr := by
  unfold historyHours
  split
  · decide
  split
  next v hv =>
    split
    next hpos => exact hpos
    next => decide
  next => decide

-- ---------------------------------------------------------------------------
-- Exact answers
-- ---------------------------------------------------------------------------

theorem found_of_recent (hpos : 0 < hours) (hedge : 24 ≤ hours → r.NoneOnEdge nodeID)
    (hfits : r.WindowFits nodeID hours) (hsaved : report ∈ r.saved nodeID)
    (hrecent : r.query - min hours 24 * hour ≤ report.timestamp) : report ∈ r.answer nodeID hours := by
  rcases le_or_gt 24 hours with hday | hless
  · rw [min_eq_right hday] at hrecent
    have hretained := (hedge hday).retained hsaved hrecent
    refine mem_answer.mpr ⟨hretained, hfits.reaches hpos hretained (by decide : (0 : Int) < 24) hday ?_⟩
    rwa [historySince_day]
  · rw [min_eq_left hless.le] at hrecent
    have hwithin : r.query - MemoryStore.day < report.timestamp := by
      simp only [hour, MemoryStore.day] at *
      omega
    refine mem_answer.mpr ⟨retained_of_recent hsaved hwithin, ?_⟩
    rwa [historySince_of_fits hpos (by simp only [hour]; omega)]

theorem historyExact_of_fits (hpos : 0 < hours) (hedge : 24 ≤ hours → r.NoneOnEdge nodeID)
    (hfits : r.WindowFits nodeID hours) : r.HistoryExact nodeID hours where
  inOrder := by
    rw [answer_eq]
    exact List.filter_sublist.trans List.filter_sublist
  recent := by
    have hfound : ∀ report ∈ r.saved nodeID, r.query - min hours 24 * hour ≤ report.timestamp →
        report ∈ r.answer nodeID hours := fun _ => found_of_recent hpos hedge hfits
    have hanswer := answer_eq r nodeID hours
    rw [List.filter_filter] at hanswer
    rw [hanswer, List.filter_filter]
    refine List.filter_congr fun report hsaved => ?_
    rw [Bool.and_eq_left_iff_imp, decide_eq_true_eq]
    intro hrecent
    have hmem := hfound report hsaved hrecent
    rw [hanswer] at hmem
    exact (List.mem_filter.mp hmem).2
  older := by
    intro hle report hreport
    have hsince := (mem_answer.mp hreport).2
    rwa [historySince_of_fits hpos (by simp only [hour]; omega)] at hsince
  noFewer := by
    intro fewer hfewer hle
    rw [answer_eq, answer_eq, ← List.countP_eq_length_filter, ← List.countP_eq_length_filter]
    refine List.countP_mono_left fun report hreport hsince => ?_
    obtain ⟨hsaved, hkept⟩ := List.mem_filter.mp hreport
    have hretained : r.Retained nodeID report := ⟨hsaved, of_decide_eq_true hkept⟩
    exact decide_eq_true (hfits.reaches hpos hretained hfewer hle (of_decide_eq_true hsince))
  noneLost := by
    intro hday report hsaved hrecent
    refine found_of_recent hpos hedge hfits hsaved ?_
    rwa [min_eq_right hday]

theorem HistoryExact.noneOnEdge (h : r.HistoryExact nodeID hours) (hday : 24 ≤ hours) : r.NoneOnEdge nodeID := by
  intro saved hsave hnode report hreport hts
  have hanswer := h.noneLost hday report hreport hts.ge
  have hkeeps := (mem_answer.mp hanswer).1.2 _ hsave hnode
  omega

theorem HistoryExact.windowFits (h : r.HistoryExact nodeID hours) : r.WindowFits nodeID hours := by
  refine .inr fun report hretained fewer hfewer hle hsince => ?_
  by_contra hlost
  -- the later bound would leave less of what the earlier one finds
  have hless : r.answer nodeID hours =
      (r.answer nodeID fewer).filter fun report => report.timestamp ≥ historySince r.query hours := by
    rw [answer_eq, answer_eq, List.filter_filter (l := (r.saved nodeID).filter _)]
    refine List.filter_congr fun x _ => ?_
    rw [eq_comm, Bool.and_eq_left_iff_imp, decide_eq_true_eq, decide_eq_true_eq]
    omega
  have hcount := h.noFewer fewer hfewer hle
  rw [hless] at hcount
  refine absurd hcount (Nat.not_le.mpr (List.length_filter_lt_length_iff_exists.mpr ?_))
  exact ⟨report, mem_answer.mpr ⟨hretained, hsince⟩, by simpa using hlost⟩

theorem historyExact_iff (r : HealthRun) (nodeID hoursStr : String) :
    r.HistoryExact nodeID (historyHours hoursStr) ↔
      (24 ≤ historyHours hoursStr → r.NoneOnEdge nodeID) ∧ r.WindowFits nodeID (historyHours hoursStr) :=
  ⟨fun h => ⟨h.noneOnEdge, h.windowFits⟩, fun h => historyExact_of_fits (historyHours_pos hoursStr) h.1 h.2⟩

/-- A report of this instant, with a report of a day before it and without. -/
def justSaved : HealthRun := ⟨[.save 0 { nodeID := "gw" }], 0, by decide⟩

def dayApart : HealthRun :=
  ⟨[.save (-1) { nodeID := "gw", timestamp := -MemoryStore.day }, .save 0 { nodeID := "gw" }], 0, by decide⟩

/-- Hours that a duration cannot hold, and a report on the edge of the day. -/
theorem historyExact_counterexample :
    ¬ justSaved.HistoryExact "gw" (historyHours "2562048") ∧ ¬ dayApart.HistoryExact "gw" (historyHours "24") := by
  constructor
  · intro h
    have hanswer : { nodeID := "gw" } ∈ justSaved.answer "gw" (historyHours "2562048") :=
      h.noneLost (by decide) _ (by decide) (by decide)
    exact absurd hanswer (by decide)
  · intro h
    have hanswer : { nodeID := "gw", timestamp := -MemoryStore.day } ∈ dayApart.answer "gw" (historyHours "24") :=
      h.noneLost (by decide) _ (by decide) (by decide)
    exact absurd hanswer (by decide)

end HealthRun

end PeerWan
