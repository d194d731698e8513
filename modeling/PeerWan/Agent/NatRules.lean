import Mathlib.Data.List.Nodup
import Mathlib.Tactic.Tauto
import PeerWan.Lib.Runs

/-!
# The firewall rules of an agent

`ensureNAT` of `pkg/agent/nat.go` adds the rules of its configuration that are
missing and then writes the configuration to a file. A later call with another
configuration deletes the rules of the one in the file, and of no other.
-/

namespace PeerWan

open Lib

structure NatState where
  iface : String
  egress : String
  cidr : String
  deriving DecidableEq, Repr

/-- A rule, which is what the arguments after its chain say. -/
inductive NatRule where
  | forward (iface egress : String)
  | returning (egress iface : String)
  | masquerade (cidr egress : String)
  deriving DecidableEq, Repr

/-- The arguments of `iptables`, with `-C`, `-A` or `-D` for the verb. -/
def NatRule.args (verb : String) : NatRule → List String
  | .forward iface egress => [verb, "FORWARD", "-i", iface, "-o", egress, "-j", "ACCEPT"]
  | .returning egress iface =>
    [verb, "FORWARD", "-i", egress, "-o", iface, "-m", "state", "--state", "RELATED,ESTABLISHED", "-j", "ACCEPT"]
  | .masquerade cidr egress => ["-t", "nat", verb, "POSTROUTING", "-s", cidr, "-o", egress, "-j", "MASQUERADE"]

def NatState.labelled (c : NatState) : List (NatRule × String) :=
  [(.forward c.iface c.egress, "iptables forward wg->" ++ c.egress),
    (.returning c.egress c.iface, "iptables forward " ++ c.egress ++ "->wg"),
    (.masquerade c.cidr c.egress, "iptables masquerade " ++ c.cidr ++ " via " ++ c.egress)]

def NatState.rules (c : NatState) : List NatRule := c.labelled.map Prod.fst

/-- What a write of the state file leaves: a write that fails may have emptied it. -/
inductive Saved where
  | written
  | kept
  | lost
  deriving DecidableEq, Repr

structure NatCall where
  iface : String
  darwin : Bool
  iptables : Bool
  autoNat : String
  wgCidr : String
  natEgressIf : String
  wanIf : String
  primaryDev : String
  /-- The error and the output of appending a rule, if that fails. -/
  fails : NatRule → Option (String × String)
  saved : Saved

/-- The managed rules in the order of their chains, and the file where it can be decoded. -/
structure NatHost where
  rules : List NatRule
  file : Option NatState
  deriving DecidableEq, Repr

-- ---------------------------------------------------------------------------
-- A call
-- ---------------------------------------------------------------------------

def defaultOverlayCIDR : String := "10.10.0.0/16"

/-- `strings.EqualFold` with `false`; the long s folds to an s. -/
def isFalse (s : String) : Bool := s.toList.map (fun c => if c = 'ſ' then 's' else c.toLower) = "false".toList

/-- The configuration of a call, if it gets so far. -/
def NatCall.config (call : NatCall) : Option NatState :=
  if call.darwin then none
  else
    let iface := if call.iface = "" then "wg0" else call.iface
    if isFalse call.autoNat then none
    else if !call.iptables then none
    else
      let cidr := if call.wgCidr = "" then defaultOverlayCIDR else call.wgCidr
      let egress := if call.natEgressIf = "" then call.wanIf else call.natEgressIf
      let egress := if egress = "" then call.primaryDev else egress
      let egress := if egress = "" then iface else egress
      some ⟨iface, egress, cidr⟩

def loadNatState (h : NatHost) : NatState := h.file.getD ⟨"", "", ""⟩

/-- A deletion removes one rule, and fails without effect where there is none. -/
def cleanupNatRules (prev : NatState) (rules : List NatRule) : List NatRule :=
  if prev.iface = "" ∨ prev.egress = "" ∨ prev.cidr = "" then rules
  else
    ((rules.erase (.masquerade prev.cidr prev.egress)).erase (.forward prev.iface prev.egress)).erase
      (.returning prev.egress prev.iface)

def ensureIptablesRule (fails : NatRule → Option (String × String)) (r : NatRule) (rules : List NatRule) :
    Option String × List NatRule :=
  if r ∈ rules then (none, rules)
  else
    match fails r with
    | some (err, out) => (some ("add [" ++ " ".intercalate (r.args "-A") ++ "]: " ++ err ++ " (" ++ out ++ ")"), rules)
    | none => (none, rules ++ [r])

def ensureRules (fails : NatRule → Option (String × String)) :
    List (NatRule × String) → List NatRule → Option String × List NatRule
  | [], rules => (none, rules)
  | (r, label) :: rest, rules =>
    match ensureIptablesRule fails r rules with
    | (some err, rules) => (some (label ++ ": " ++ err), rules)
    | (none, rules) => ensureRules fails rest rules

def saveNatState (saved : Saved) (c : NatState) (file : Option NatState) : Option NatState :=
  match saved with
  | .written => some c
  | .kept => file
  | .lost => none

/-- What the rules are once those of another configuration are deleted. -/
def cleaned (c : NatState) (h : NatHost) : List NatRule :=
  let prev := loadNatState h
  if prev.iface ≠ "" ∧ (prev.iface ≠ c.iface ∨ prev.egress ≠ c.egress ∨ prev.cidr ≠ c.cidr) then
    cleanupNatRules prev h.rules
  else h.rules

def ensureNAT (call : NatCall) (h : NatHost) : Option String × NatHost :=
  match call.config with
  | none => (none, h)
  | some c =>
    match ensureRules call.fails c.labelled (cleaned c h) with
    | (some err, rules) => (some err, { h with rules := rules })
    | (none, rules) => (none, ⟨rules, saveNatState call.saved c h.file⟩)

def NatHost.step (call : NatCall) (h : NatHost) : NatHost := (ensureNAT call h).2

-- ---------------------------------------------------------------------------
-- What a call leaves
-- ---------------------------------------------------------------------------

/-- No part is missing, so that a clean-up deletes the rules. -/
def NatState.Complete (c : NatState) : Prop := c.iface ≠ "" ∧ c.egress ≠ "" ∧ c.cidr ≠ ""

/-- No rule is there twice, and what is in the file can be cleaned up. -/
structure NatHost.Sound (h : NatHost) : Prop where
  nodup : h.rules.Nodup
  complete : ∀ c, h.file = some c → c.Complete

section

variable {fails : NatRule → Option (String × String)} {c prev : NatState} {call : NatCall} {h : NatHost}
  {l : List (NatRule × String)} {r : NatRule} {rules : List NatRule}

theorem NatCall.config_complete (hc : call.config = some c) : c.Complete := by
  unfold NatCall.config at hc
  split at hc
  · cases hc
  · dsimp only at hc
    split at hc
    · cases hc
    · split at hc
      · cases hc
      · cases hc
        have hwg : "wg0" ≠ "" := by decide
        have hcidr : defaultOverlayCIDR ≠ "" := by decide
        unfold NatState.Complete
        grind

theorem NatState.rules_nodup (c : NatState) : c.rules.Nodup := by
  simp [NatState.rules, NatState.labelled]

theorem mem_cleanupNatRules (hprev : prev.Complete) (hrules : rules.Nodup) :
    r ∈ cleanupNatRules prev rules ↔ r ∈ rules ∧ r ∉ prev.rules := by
  have hparts : ¬ (prev.iface = "" ∨ prev.egress = "" ∨ prev.cidr = "") := by
    simpa [NatState.Complete] using hprev
  rw [cleanupNatRules, if_neg hparts, ((hrules.erase _).erase _).mem_erase_iff, (hrules.erase _).mem_erase_iff,
    hrules.mem_erase_iff]
  simp only [NatState.rules, NatState.labelled, List.map_cons, List.map_nil, List.mem_cons, List.not_mem_nil, or_false]
  tauto

theorem cleanupNatRules_nodup (hrules : rules.Nodup) : (cleanupNatRules prev rules).Nodup := by
  unfold cleanupNatRules
  split
  · exact hrules
  · exact ((hrules.erase _).erase _).erase _

theorem mem_cleaned (hh : h.Sound) :
    r ∈ cleaned c h ↔ r ∈ h.rules ∧ ∀ prev, h.file = some prev → prev ≠ c → r ∉ prev.rules := by
  unfold cleaned loadNatState
  cases hfile : h.file with
  | none => simp
  | some prev =>
    have hprev := hh.complete prev hfile
    have hne : prev ≠ c ↔ prev.iface ≠ c.iface ∨ prev.egress ≠ c.egress ∨ prev.cidr ≠ c.cidr := by
      cases prev
      cases c
      simp only [ne_eq, NatState.mk.injEq, not_and_or]
    simp only [Option.getD_some, Option.some.injEq, forall_eq', ← hne, hprev.1, ne_eq, not_false_eq_true, true_and]
    split
    next h => rw [mem_cleanupNatRules hprev hh.nodup, imp_iff_right h]
    next h => simp [not_not.mp h]

theorem cleaned_nodup (hh : h.Sound) : (cleaned c h).Nodup := by
  unfold cleaned
  dsimp only
  split
  · exact cleanupNatRules_nodup hh.nodup
  · exact hh.nodup

theorem ensureIptablesRule_nodup (hrules : rules.Nodup) : (ensureIptablesRule fails r rules).2.Nodup := by
  unfold ensureIptablesRule
  split
  next => exact hrules
  next hr =>
    split
    · exact hrules
    · exact List.nodup_append.mpr ⟨hrules, List.nodup_singleton r, by grind⟩

theorem ensureIptablesRule_eq_none :
    (ensureIptablesRule fails r rules).1 = none ↔ r ∈ rules ∨ fails r = none := by
  unfold ensureIptablesRule
  split
  next hr => simp [hr]
  next hr => cases hf : fails r <;> simp [hr]

theorem mem_ensureIptablesRule (hok : (ensureIptablesRule fails r rules).1 = none) (x : NatRule) :
    x ∈ (ensureIptablesRule fails r rules).2 ↔ x ∈ rules ∨ x = r := by
  rw [ensureIptablesRule_eq_none] at hok
  unfold ensureIptablesRule
  split
  next hr => exact (or_iff_left_of_imp fun hx => hx ▸ hr).symm
  next hr => simp [hok.resolve_left hr]

theorem ensureRules_nodup (hrules : rules.Nodup) : (ensureRules fails l rules).2.Nodup := by
  induction l generalizing rules with
  | nil => exact hrules
  | cons rl rest ih =>
    have hone := @ensureIptablesRule_nodup fails rl.1 rules hrules
    rw [ensureRules]
    split
    next heq => rwa [heq] at hone
    next heq =>
      rw [heq] at hone
      exact ih hone

theorem ensureRules_eq_none :
    (ensureRules fails l rules).1 = none ↔ ∀ r ∈ l.map Prod.fst, r ∈ rules ∨ fails r = none := by
  induction l generalizing rules with
  | nil => simp [ensureRules]
  | cons rl rest ih =>
    have hone := @ensureIptablesRule_eq_none fails rl.1 rules
    have hmem := @mem_ensureIptablesRule fails rl.1 rules
    rw [ensureRules, List.map_cons, List.forall_mem_cons, ← hone]
    split
    next heq => simp [heq]
    next heq =>
      rw [heq] at hmem
      rw [ih, heq, and_iff_right rfl]
      have hfails : rl.1 ∈ rules ∨ fails rl.1 = none := hone.mp (by rw [heq])
      refine forall₂_congr fun r _ => ?_
      rw [hmem rfl]
      grind

theorem mem_ensureRules (hok : (ensureRules fails l rules).1 = none) (x : NatRule) :
    x ∈ (ensureRules fails l rules).2 ↔ x ∈ rules ∨ x ∈ l.map Prod.fst := by
  induction l generalizing rules with
  | nil => simp [ensureRules]
  | cons rl rest ih =>
    have hmem := @mem_ensureIptablesRule fails rl.1 rules
    rw [ensureRules] at hok ⊢
    split at hok
    next => cases hok
    next heq =>
      rw [heq] at hmem
      rw [ih hok, hmem rfl, List.map_cons, List.mem_cons, or_assoc]

end

-- ---------------------------------------------------------------------------
-- Runs
-- ---------------------------------------------------------------------------

/-- A call that returns nil leaves the rules of its configuration, each once. -/
def NatExact (h : NatHost) (call : NatCall) : Prop :=
  ∀ c, call.config = some c → (ensureNAT call h).1 = none → (ensureNAT call h).2.rules.Perm c.rules

/-- The rule is not there, or is one of those that are deleted first. -/
def Missing (c : NatState) (h : NatHost) (r : NatRule) : Prop :=
  r ∉ h.rules ∨ ∃ prev, h.file = some prev ∧ prev ≠ c ∧ r ∈ prev.rules

/-- If what is missing can be appended, then each rule that is there belongs to
the configuration or to the one in the file. -/
def Accounted (h : NatHost) (call : NatCall) : Prop :=
  ∀ c, call.config = some c → (∀ r ∈ c.rules, Missing c h r → call.fails r = none) →
    ∀ r ∈ h.rules, r ∈ c.rules ∨ ∃ prev, h.file = some prev ∧ r ∈ prev.rules

section

variable {c : NatState} {call : NatCall} {h : NatHost}

theorem NatHost.Sound.step (hh : h.Sound) : (NatHost.step call h).Sound := by
  unfold NatHost.step ensureNAT
  cases hc : call.config with
  | none => exact hh
  | some c =>
    have hnodup := @ensureRules_nodup call.fails c.labelled _ (@cleaned_nodup c h hh)
    dsimp only
    split
    next heq =>
      rw [heq] at hnodup
      exact ⟨hnodup, hh.complete⟩
    next heq =>
      rw [heq] at hnodup
      refine ⟨hnodup, fun prev hprev => ?_⟩
      cases hsaved : call.saved with
      | written =>
        rw [hsaved] at hprev
        cases hprev
        exact NatCall.config_complete hc
      | kept =>
        rw [hsaved] at hprev
        exact hh.complete prev hprev
      | lost =>
        rw [hsaved] at hprev
        cases hprev

theorem ensureNAT_eq (hc : call.config = some c) :
    (ensureNAT call h).1 = (ensureRules call.fails c.labelled (cleaned c h)).1 ∧
      (ensureNAT call h).2.rules = (ensureRules call.fails c.labelled (cleaned c h)).2 ∧
      ((ensureNAT call h).1 = none → (ensureNAT call h).2.file = saveNatState call.saved c h.file) := by
  unfold ensureNAT
  simp only [hc]
  split
  next heq => simp [heq]
  next heq => simp [heq]

theorem ensureNAT_eq_none (hh : h.Sound) (hc : call.config = some c) :
    (ensureNAT call h).1 = none ↔ ∀ r ∈ c.rules, Missing c h r → call.fails r = none := by
  rw [(ensureNAT_eq hc).1, ensureRules_eq_none]
  refine forall₂_congr fun r _ => ?_
  have hmissing : r ∈ cleaned c h ↔ ¬ Missing c h r := by
    rw [mem_cleaned hh, Missing, not_or, not_not]
    simp only [not_exists, not_and]
  rw [hmissing, ← imp_iff_not_or]

theorem exact_iff (hh : h.Sound) (call : NatCall) : NatExact h call ↔ Accounted h call := by
  refine forall₂_congr fun c hc => ?_
  rw [← ensureNAT_eq_none hh hc]
  refine forall_congr' fun hok => ?_
  obtain ⟨hone, hrules, -⟩ := @ensureNAT_eq c call h hc
  rw [hone] at hok
  have hmem : ∀ x, x ∈ (ensureRules call.fails c.labelled (cleaned c h)).2 ↔ x ∈ cleaned c h ∨ x ∈ c.rules :=
    mem_ensureRules hok
  rw [hrules, List.perm_ext_iff_of_nodup (ensureRules_nodup (cleaned_nodup hh)) c.rules_nodup]
  have hleft : (∀ x, x ∈ (ensureRules call.fails c.labelled (cleaned c h)).2 ↔ x ∈ c.rules) ↔
      ∀ x ∈ cleaned c h, x ∈ c.rules :=
    forall_congr' fun x => by rw [hmem x, or_iff_right_iff_imp]
  rw [hleft]
  constructor
  · intro hclean r hr
    by_cases hprev : ∃ prev, h.file = some prev ∧ r ∈ prev.rules
    · exact .inr hprev
    · refine .inl (hclean r ((mem_cleaned hh).mpr ⟨hr, fun prev hfile _ hin => hprev ⟨prev, hfile, hin⟩⟩))
  · intro hall r hr
    obtain ⟨hin, hother⟩ := (mem_cleaned hh).mp hr
    rcases hall r hin with hc' | ⟨prev, hfile, hprev⟩
    · exact hc'
    · by_cases heq : prev = c
      · exact heq ▸ hprev
      · exact absurd hprev (hother prev hfile heq)

end

def emptyHost : NatHost := ⟨[], none⟩

theorem emptyHost_sound : emptyHost.Sound := ⟨List.nodup_nil, fun _ h => by cases h⟩

/-- In a run, the calls that return nil leave their own rules alone exactly when
each of them starts where no rule is left of a configuration that is no longer
in the file. -/
theorem natRun_exact_iff (calls : List NatCall) :
    Along NatHost.step NatExact emptyHost calls ↔ Along NatHost.step Accounted emptyHost calls :=
  along_congr_of_invariant (fun _ _ hh => hh.step) (fun _ call hh => exact_iff hh call) emptyHost_sound

/-- A call adds its first rule and fails at the second; the next one has another
device, and no file tells it of the rule. -/
def abortedCall : NatCall where
  iface := "wg0"
  darwin := false
  iptables := true
  autoNat := ""
  wgCidr := ""
  natEgressIf := "eth0"
  wanIf := ""
  primaryDev := ""
  fails r := if r = .returning "eth0" "wg0" then some ("exit status 4", "xtables lock") else none
  saved := .written

def movedCall : NatCall := { abortedCall with natEgressIf := "eth1" }

theorem natRun_counterexample : (ensureNAT movedCall (NatHost.step abortedCall emptyHost)).1 = none ∧
    .forward "wg0" "eth0" ∈ (ensureNAT movedCall (NatHost.step abortedCall emptyHost)).2.rules ∧
    ¬ Along NatHost.step NatExact emptyHost [abortedCall, movedCall] := by
  refine ⟨by decide, by decide, fun h => ?_⟩
  have hperm := h.2.1 ⟨"wg0", "eth1", defaultOverlayCIDR⟩ (by decide) (by decide)
  exact absurd hperm (by decide)

/-- Every rule that is there belongs to the configuration in the file. -/
def NatHost.Recorded (h : NatHost) : Prop := ∀ r ∈ h.rules, ∃ prev, h.file = some prev ∧ r ∈ prev.rules

theorem NatHost.Recorded.accounted {h : NatHost} (hrec : h.Recorded) (call : NatCall) : Accounted h call :=
  fun _ _ _ r hr => .inr (hrec r hr)

/-- Where no append and no write fails, the rules are always those of the last configuration. -/
theorem natRun_exact_of_saved (calls : List NatCall)
    (hsaved : ∀ call ∈ calls, (∀ r, call.fails r = none) ∧ call.saved = .written) :
    Along NatHost.step NatExact emptyHost calls := by
  suffices h : ∀ h : NatHost, h.Sound → h.Recorded → Along NatHost.step NatExact h calls by
    exact h emptyHost emptyHost_sound fun r hr => by cases hr
  induction calls with
  | nil => exact fun _ _ _ => trivial
  | cons call rest ih =>
    intro h hsound hrec
    obtain ⟨⟨hfails, hwritten⟩, hrest⟩ := List.forall_mem_cons.mp hsaved
    have hexact := (exact_iff hsound call).mpr (hrec.accounted call)
    refine ⟨hexact, ih hrest _ hsound.step ?_⟩
    cases hc : call.config with
    | none =>
      have hsame : NatHost.step call h = h := by simp only [NatHost.step, ensureNAT, hc]
      rw [hsame]
      exact hrec
    | some c =>
      have hok : (ensureNAT call h).1 = none := (ensureNAT_eq_none hsound hc).mpr fun r _ _ => hfails r
      have hfile : (NatHost.step call h).file = some c := by
        rw [NatHost.step, (ensureNAT_eq hc).2.2 hok, hwritten]
        rfl
      intro r hr
      exact ⟨c, hfile, (hexact c hc hok).mem_iff.mp hr⟩

end PeerWan
