import Mathlib.Data.List.Dedup
import PeerWan.Lib.Table
import PeerWan.Model

/-!
# The log of policy operations

`pkg/agent/localdb.go` keeps a table of what was done for which rule.
`purgeMissingHashes`, which every rendering calls with the hashes of the rules
that it has seen, deletes the rows of other hashes, and logs each deletion in
the same table, under the hash it has just deleted. All statements succeed here.
In the source the pool has one connection, which the rows of the query hold while
the loop reads them: the `DELETE` waits for it and runs into its deadline.
-/

namespace PeerWan

open Lib

structure PolicyOp where
  /-- A `TEXT` column, which can be null. -/
  ruleHash : Option String
  op : String
  detail : String
  ts : Int
  deriving DecidableEq, Repr

inductive OpsWrite where
  | delete (ruleHash : String)
  | insert (op : PolicyOp)
  deriving DecidableEq, Repr

def OpsWrite.exec (table : List PolicyOp) : OpsWrite → List PolicyOp
  | .delete h => table.filter fun row => row.ruleHash ≠ some h
  | .insert op => table ++ [op]

def recordPolicyOp (now : Int) (ruleHash op detail : String) : OpsWrite := .insert ⟨some ruleHash, op, detail, now⟩

def hashes (table : List PolicyOp) : List (Option String) := table.map (·.ruleHash)

/-- What the loop executes for a hash. One that is null does not scan. -/
def purgeHash (clock : String → Int) (current : List String) (h : Option String) : List OpsWrite :=
  match h with
  | none => []
  | some h =>
    if h ∈ current then [] else [.delete h, recordPolicyOp (clock h) h "purge" "rule removed; records purged"]

/-- `o` is the order of the groups, and `clock` has the time at which the loop comes to a hash. -/
def purgeWrites (o : MapOrder (Option String)) (clock : String → Int) (current : List String)
    (table : List PolicyOp) : List OpsWrite :=
  (o.order (hashes table).dedup).flatMap (purgeHash clock current)

def purgeMissingHashes (o : MapOrder (Option String)) (clock : String → Int) (current : List String)
    (table : List PolicyOp) : List PolicyOp :=
  (purgeWrites o clock current table).foldl OpsWrite.exec table

/-- The hashes that `applyStaticRoutes` collects. -/
def ruleHashes (hashRule : PolicyRule → String) (rules : List PolicyRule) : List String :=
  (rules.filter (·.validate)).map hashRule

-- ---------------------------------------------------------------------------
-- Hashes in the table
-- ---------------------------------------------------------------------------

variable {o : MapOrder (Option String)} {clock : String → Int} {current : List String} {table : List PolicyOp}
  {x : String}

theorem mem_hashes_delete {h : String} :
    some x ∈ hashes (OpsWrite.exec table (.delete h)) ↔ some x ∈ hashes table ∧ x ≠ h := by
  simp only [hashes, OpsWrite.exec, List.mem_map, List.mem_filter, decide_eq_true_eq]
  constructor
  · rintro ⟨row, ⟨hrow, hne⟩, hx⟩
    exact ⟨⟨row, hrow, hx⟩, fun heq => hne (heq ▸ hx)⟩
  · rintro ⟨⟨row, hrow, hx⟩, hne⟩
    exact ⟨row, ⟨hrow, fun heq => hne (Option.some.inj (hx.symm.trans heq))⟩, hx⟩

theorem mem_hashes_record {now : Int} {h op detail : String} :
    some x ∈ hashes (OpsWrite.exec table (recordPolicyOp now h op detail)) ↔ some x ∈ hashes table ∨ x = h := by
  simp [hashes, OpsWrite.exec, recordPolicyOp]

theorem mem_hashes_purgeHash (h : Option String) (table : List PolicyOp) :
    some x ∈ hashes ((purgeHash clock current h).foldl OpsWrite.exec table) ↔
      some x ∈ hashes table ∨ (h = some x ∧ x ∉ current) := by
  cases h with
  | none => simp [purgeHash]
  | some h =>
    rw [purgeHash]
    split
    next hcurrent =>
      have hno : ¬ (some h = some x ∧ x ∉ current) := fun hx => hx.2 (Option.some.inj hx.1 ▸ hcurrent)
      rw [or_iff_left hno, List.foldl_nil]
    next hstale =>
      rw [List.foldl_cons, List.foldl_cons, List.foldl_nil, mem_hashes_record, mem_hashes_delete, Option.some.injEq]
      constructor
      · rintro (⟨hx, -⟩ | rfl)
        · exact .inl hx
        · exact .inr ⟨rfl, hstale⟩
      · rintro (hx | ⟨rfl, -⟩)
        · by_cases heq : x = h
          · exact .inr heq
          · exact .inl ⟨hx, heq⟩
        · exact .inr rfl

theorem mem_hashes_purge : some x ∈ hashes (purgeMissingHashes o clock current table) ↔ some x ∈ hashes table := by
  have hloop : ∀ (hs : List (Option String)) (t : List PolicyOp),
      some x ∈ hashes ((hs.flatMap (purgeHash clock current)).foldl OpsWrite.exec t) ↔
        some x ∈ hashes t ∨ (some x ∈ hs ∧ x ∉ current) := by
    intro hs
    induction hs with
    | nil => simp
    | cons h hs ih =>
      intro t
      rw [List.flatMap_cons, List.foldl_append, ih, mem_hashes_purgeHash, List.mem_cons]
      grind
  rw [purgeMissingHashes, purgeWrites, hloop, (o.perm _).mem_iff, List.mem_dedup]
  exact or_iff_left_of_imp And.left

theorem purgeWrites_eq_nil : purgeWrites o clock current table = [] ↔ ∀ x, some x ∈ hashes table → x ∈ current := by
  rw [purgeWrites, List.flatMap_eq_nil_iff]
  constructor
  · intro h x hx
    by_contra hstale
    have hnil := h (some x) ((o.perm _).mem_iff.mpr (List.mem_dedup.mpr hx))
    rw [purgeHash, if_neg hstale] at hnil
    cases hnil
  · intro h hash hmem
    cases hash with
    | none => rfl
    | some x => exact if_pos (h x (List.mem_dedup.mp ((o.perm _).mem_iff.mp hmem)))

-- ---------------------------------------------------------------------------
-- Purging
-- ---------------------------------------------------------------------------

/-- A purge leaves current hashes only, and the next one has nothing to do. -/
def Purges (o o' : MapOrder (Option String)) (clock clock' : String → Int) (current : List String)
    (table : List PolicyOp) : Prop :=
  let purged := purgeMissingHashes o clock current table
  (∀ x, some x ∈ hashes purged → x ∈ current) ∧ purgeWrites o' clock' current purged = []

theorem purges_iff (o o' : MapOrder (Option String)) (clock clock' : String → Int) (current : List String)
    (table : List PolicyOp) :
    Purges o o' clock clock' current table ↔ ∀ x, some x ∈ hashes table → x ∈ current := by
  have hsame : (∀ x, some x ∈ hashes (purgeMissingHashes o clock current table) → x ∈ current) ↔
      ∀ x, some x ∈ hashes table → x ∈ current := forall_congr' fun x => by rw [mem_hashes_purge]
  unfold Purges
  dsimp only
  -- the second purge is idle exactly where the first has left nothing stale
  rw [purgeWrites_eq_nil, hsame, and_self]

theorem purges_counterexample :
    ¬ Purges default default (fun _ => 0) (fun _ => 0) []
      [⟨some "a1", "apply_route", "10.7.0.0/16 via 10.10.1.2", 0⟩] := by
  rintro ⟨hleft, -⟩
  exact absurd (hleft "a1" (by decide)) (by decide)

-- ---------------------------------------------------------------------------
-- Runs
-- ---------------------------------------------------------------------------

inductive OpsStep where
  | record (now : Int) (ruleHash op detail : String)
  | purge (o : MapOrder (Option String)) (clock : String → Int) (current : List String)

def OpsStep.run (table : List PolicyOp) : OpsStep → List PolicyOp
  | .record now ruleHash op detail => (recordPolicyOp now ruleHash op detail).exec table
  | .purge o clock current => purgeMissingHashes o clock current table

theorem OpsStep.keeps (s : OpsStep) (h : some x ∈ hashes table) : some x ∈ hashes (s.run table) := by
  cases s with
  | record now ruleHash op detail => exact mem_hashes_record.mpr (.inl h)
  | purge o clock current => exact mem_hashes_purge.mpr h

/-- A hash that was once recorded stays for good, and every rendering whose rules do not
have it writes. -/
theorem recorded_stays (steps : List OpsStep) (h : some x ∈ hashes table) (hashRule : PolicyRule → String)
    (rules : List PolicyRule) : some x ∈ hashes (steps.foldl OpsStep.run table) ∧
      (x ∉ ruleHashes hashRule rules →
        purgeWrites o clock (ruleHashes hashRule rules) (steps.foldl OpsStep.run table) ≠ []) := by
  have hstays : some x ∈ hashes (steps.foldl OpsStep.run table) := by
    induction steps generalizing table with
    | nil => exact h
    | cons s steps ih => exact ih (s.keeps h)
  exact ⟨hstays, fun hstale hnil => hstale (purgeWrites_eq_nil.mp hnil x hstays)⟩

end PeerWan
