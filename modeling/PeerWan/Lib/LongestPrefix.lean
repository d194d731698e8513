import PeerWan.Lib.Net
import PeerWan.Lib.Table

/-!
# The longest prefix

A routing table gives each of its keys some prefixes. An address is owned by the
key with the longest prefix that contains it, and of keys with equally long ones
by the last, to which the prefix has moved.
-/

namespace Lib

variable {κ α : Type}

def Owns (table : List (κ × List CIDR)) (a : Addr) (k : κ) : Prop :=
  ∃ before row after, table = before ++ row :: after ∧ row.1 = k ∧ ∃ c ∈ row.2, c.Contains a ∧
    (∀ other ∈ before, ∀ d ∈ other.2, d.Contains a → d.length ≤ c.length) ∧
    ∀ other ∈ after, ∀ d ∈ other.2, d.Contains a → d.length < c.length

def coverLength (cs : List CIDR) (a : Addr) : Option Nat := ((cs.filter fun c => c.Contains a).map CIDR.length).max?

def longestMatch (a : Addr) : List (κ × List CIDR) → Option (κ × Nat)
  | [] => none
  | row :: table =>
    match longestMatch a table, coverLength row.2 a with
    | some best, some length => if length ≤ best.2 then some best else some (row.1, length)
    | some best, none => some best
    | none, some length => some (row.1, length)
    | none, none => none

-- ---------------------------------------------------------------------------
-- The owner
-- ---------------------------------------------------------------------------

variable {table : List (κ × List CIDR)} {a : Addr} {k k' : κ}

theorem coverLength_eq_none {cs : List CIDR} : coverLength cs a = none ↔ ∀ c ∈ cs, ¬ c.Contains a := by
  simp [coverLength, List.max?_eq_none_iff]

theorem coverLength_eq_some {cs : List CIDR} {length : Nat} (h : coverLength cs a = some length) :
    (∃ c ∈ cs, c.Contains a ∧ c.length = length) ∧ ∀ c ∈ cs, c.Contains a → c.length ≤ length := by
  obtain ⟨hmem, hle⟩ := List.max?_eq_some_iff.mp h
  obtain ⟨c, hc, rfl⟩ := List.mem_map.mp hmem
  rw [List.mem_filter, decide_eq_true_eq] at hc
  refine ⟨⟨c, hc.1, hc.2, rfl⟩, fun d hd hcontains => hle _ (List.mem_map_of_mem ?_)⟩
  exact List.mem_filter.mpr ⟨hd, decide_eq_true hcontains⟩

/-- The row of the owner has this length, those before it have no longer prefix,
and those after it have shorter ones. -/
def Longest (table : List (κ × List CIDR)) (a : Addr) (best : κ × Nat) : Prop :=
  ∃ before row after, table = before ++ row :: after ∧ row.1 = best.1 ∧ coverLength row.2 a = some best.2 ∧
    (∀ other ∈ before, ∀ d ∈ other.2, d.Contains a → d.length ≤ best.2) ∧
    ∀ other ∈ after, ∀ d ∈ other.2, d.Contains a → d.length < best.2

theorem Longest.le {best : κ × Nat} (h : Longest table a best) :
    ∀ row ∈ table, ∀ c ∈ row.2, c.Contains a → c.length ≤ best.2 := by
  obtain ⟨before, row, after, rfl, -, hcover, hbefore, hafter⟩ := h
  intro other hother c hc hcontains
  rcases List.mem_append.mp hother with hother | hother
  · exact hbefore other hother c hc hcontains
  · rcases List.mem_cons.mp hother with rfl | hother
    · exact (coverLength_eq_some hcover).2 c hc hcontains
    · exact (hafter other hother c hc hcontains).le

theorem Longest.owns {best : κ × Nat} (h : Longest table a best) : Owns table a best.1 := by
  obtain ⟨before, row, after, rfl, hkey, hcover, hbefore, hafter⟩ := h
  obtain ⟨⟨c, hc, hcontains, hlength⟩, -⟩ := coverLength_eq_some hcover
  exact ⟨before, row, after, rfl, hkey, c, hc, hcontains, hlength ▸ hbefore, hlength ▸ hafter⟩

theorem longestMatch_eq_none (h : longestMatch a table = none) : ∀ row ∈ table, ∀ c ∈ row.2, ¬ c.Contains a := by
  induction table with
  | nil => exact fun row hrow => absurd hrow List.not_mem_nil
  | cons row table ih =>
    rw [longestMatch] at h
    cases hmatch : longestMatch a table with
    | some best => cases hcover : coverLength row.2 a <;> simp [hmatch, hcover, ite_eq_iff] at h
    | none =>
      cases hcover : coverLength row.2 a with
      | some length => simp [hmatch, hcover] at h
      | none => exact List.forall_mem_cons.mpr ⟨coverLength_eq_none.mp hcover, ih hmatch⟩

theorem longest_of_longestMatch {best : κ × Nat} (h : longestMatch a table = some best) : Longest table a best := by
  induction table generalizing best with
  | nil => cases h
  | cons row table ih =>
    rw [longestMatch] at h
    cases hmatch : longestMatch a table with
    | none =>
      have hno := longestMatch_eq_none hmatch
      cases hcover : coverLength row.2 a with
      | none => simp [hmatch, hcover] at h
      | some length =>
        simp only [hmatch, hcover, Option.some_inj] at h
        subst h
        exact ⟨[], row, table, rfl, rfl, hcover, fun _ hother => absurd hother List.not_mem_nil,
          fun other hother d hd hcontains => absurd hcontains (hno other hother d hd)⟩
    | some found =>
      -- the row comes before the owner in the rest, unless its own prefix is longer
      have hrest := ih hmatch
      have hcons : (∀ d ∈ row.2, d.Contains a → d.length ≤ found.2) → Longest (row :: table) a found := by
        intro hrow
        obtain ⟨before, owner, after, rfl, hkey, howner, hbefore, hafter⟩ := hrest
        exact ⟨row :: before, owner, after, rfl, hkey, howner, List.forall_mem_cons.mpr ⟨hrow, hbefore⟩, hafter⟩
      cases hcover : coverLength row.2 a with
      | none =>
        simp only [hmatch, hcover, Option.some_inj] at h
        subst h
        exact hcons fun d hd hcontains => absurd hcontains (coverLength_eq_none.mp hcover d hd)
      | some length =>
        simp only [hmatch, hcover] at h
        split at h
        next hle =>
          obtain rfl := Option.some.inj h
          exact hcons fun d hd hcontains => ((coverLength_eq_some hcover).2 d hd hcontains).trans hle
        next hlonger =>
          obtain rfl := Option.some.inj h
          exact ⟨[], row, table, rfl, rfl, hcover, fun _ hother => absurd hother List.not_mem_nil,
            fun other hother d hd hcontains => (hrest.le other hother d hd hcontains).trans_lt (not_le.mp hlonger)⟩

theorem Owns.unique (h : Owns table a k) (h' : Owns table a k') : k = k' := by
  obtain ⟨before, row, after, rfl, rfl, c, hc, hcontains, hbefore, hafter⟩ := h
  obtain ⟨before', row', after', htable, rfl, c', hc', hcontains', hbefore', hafter'⟩ := h'
  rcases List.append_eq_append_iff.mp htable with ⟨between, hfront, hback⟩ | ⟨between, hfront, hback⟩
  · cases between with
    | nil => exact congrArg Prod.fst (List.cons.inj hback).1
    | cons other between =>
      obtain ⟨rfl, rfl⟩ := List.cons.inj hback
      have hle := hbefore' row (by simp [hfront]) c hc hcontains
      have hlt := hafter row' (by simp) c' hc' hcontains'
      omega
  · cases between with
    | nil => exact congrArg Prod.fst (List.cons.inj hback).1.symm
    | cons other between =>
      obtain ⟨rfl, rfl⟩ := List.cons.inj hback
      have hle := hbefore row' (by simp [hfront]) c' hc' hcontains'
      have hlt := hafter' row (by simp) c hc hcontains
      omega

theorem longestMatch_iff : (longestMatch a table).map Prod.fst = some k ↔ Owns table a k := by
  constructor
  · intro h
    obtain ⟨best, hbest, rfl⟩ := Option.map_eq_some_iff.mp h
    exact (longest_of_longestMatch hbest).owns
  · intro h
    cases hmatch : longestMatch a table with
    | none =>
      obtain ⟨before, row, after, rfl, -, c, hc, hcontains, -⟩ := h
      exact absurd hcontains (longestMatch_eq_none hmatch row (by simp) c hc)
    | some best => rw [h.unique (longest_of_longestMatch hmatch).owns, Option.map_some]

-- ---------------------------------------------------------------------------
-- Tables made from records
-- ---------------------------------------------------------------------------

theorem owns_map {f : α → κ × List CIDR} {l : List α} : Owns (l.map f) a k ↔
    ∃ before x after, l = before ++ x :: after ∧ (f x).1 = k ∧ ∃ c ∈ (f x).2, c.Contains a ∧
      (∀ y ∈ before, ∀ d ∈ (f y).2, d.Contains a → d.length ≤ c.length) ∧
      ∀ y ∈ after, ∀ d ∈ (f y).2, d.Contains a → d.length < c.length := by
  constructor
  · rintro ⟨_, _, _, hmap, hkey, hlongest⟩
    obtain ⟨before, rest, rfl, rfl, hrest⟩ := List.map_eq_append_iff.mp hmap
    obtain ⟨x, after, rfl, rfl, rfl⟩ := List.map_eq_cons_iff.mp hrest
    simp only [List.forall_mem_map] at hlongest
    exact ⟨before, x, after, rfl, hkey, hlongest⟩
  · rintro ⟨before, x, after, rfl, hkey, hlongest⟩
    refine ⟨before.map f, f x, after.map f, List.map_append, hkey, ?_⟩
    simpa only [List.forall_mem_map] using hlongest

theorem owns_congr {f g : α → κ × List CIDR} {l : List α} (hkey : ∀ x, (f x).1 = (g x).1)
    (hmem : ∀ x c, c ∈ (f x).2 ↔ c ∈ (g x).2) : Owns (l.map f) a k ↔ Owns (l.map g) a k := by
  simp only [owns_map, hkey, hmem]

namespace Table

variable {β : Type} [DecidableEq κ] {key' : β → κ}

theorem rows_ofList_map (key : α → κ) (f : α → β) (hkey : ∀ x, key' (f x) = key x) (l : List α) :
    (ofList (l.map f) : Table key').rows = (ofList l : Table key).rows.map f := by
  induction l using List.reverseRecOn with
  | nil => rfl
  | append_singleton l x ih =>
    rw [List.map_append, ofList, ofList, List.foldl_append, List.foldl_append]
    show (ofList (l.map f) : Table key').rows.filter _ ++ [f x] = _
    rw [ih, List.filter_map]
    show _ = List.map f ((ofList l : Table key).rows.filter _ ++ [x])
    simp only [Function.comp_def, hkey, List.map_append, List.map_singleton]

end Table

end Lib
