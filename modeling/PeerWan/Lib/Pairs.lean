import Mathlib.Data.List.Sym

/-!
# The pairs that two nested loops visit

A loop over `i` with a loop over `j > i` inside visits each unordered pair of
places once. In a list without repetitions these are the unordered pairs of
different elements.
-/

namespace Lib

variable {α β : Type}

def pairs : List α → List (α × α)
  | [] => []
  | a :: l => l.map (fun b => (a, b)) ++ pairs l

def edges (l : List α) : List (Sym2 α) := (pairs l).map fun p => s(p.1, p.2)

theorem mem_pairs {l : List α} {a b : α} : (a, b) ∈ pairs l ↔ [a, b].Sublist l := by
  induction l with
  | nil => simp [pairs]
  | cons c l ih =>
    rw [pairs, List.mem_append, List.mem_map, ih]
    constructor
    · rintro (⟨d, hd, heq⟩ | h)
      · obtain ⟨rfl, rfl⟩ := Prod.mk.inj heq
        exact (List.singleton_sublist.mpr hd).cons_cons c
      · exact h.cons c
    · intro h
      cases h with
      | cons _ h => exact .inr h
      | cons_cons _ h => exact .inl ⟨b, List.singleton_sublist.mp h, rfl⟩

theorem mem_of_mem_pairs {l : List α} {a b : α} (h : (a, b) ∈ pairs l) : a ∈ l ∧ b ∈ l := by
  have hsub := (mem_pairs.mp h).subset
  exact ⟨hsub (by simp), hsub (by simp)⟩

theorem mem_pairs_reverse {l : List α} {a b : α} : (a, b) ∈ pairs l.reverse ↔ (b, a) ∈ pairs l := by
  rw [mem_pairs, mem_pairs, ← List.reverse_sublist, List.reverse_reverse]
  rfl

theorem pairs_map (f : α → β) (l : List α) : pairs (l.map f) = (pairs l).map (Prod.map f f) := by
  induction l with
  | nil => rfl
  | cons a l ih =>
    rw [List.map_cons, pairs, pairs, ih, List.map_append, List.map_map, List.map_map]
    rfl

theorem edges_sublist_sym2 (l : List α) : (edges l).Sublist l.sym2 := by
  induction l with
  | nil => exact .slnil
  | cons a l ih =>
    rw [edges, pairs, List.map_append, List.map_map, List.sym2, List.map_cons]
    exact ((List.Sublist.refl _).append ih).cons _

theorem nodup_edges {l : List α} (h : l.Nodup) : (edges l).Nodup := h.sym2.sublist (edges_sublist_sym2 l)

theorem ne_of_mem_pairs {l : List α} (hl : l.Nodup) {a b : α} (h : (a, b) ∈ pairs l) : a ≠ b := by
  have hab := (mem_pairs.mp h).nodup hl
  rintro rfl
  simp at hab

theorem pair_sublist_or {l : List α} {a b : α} (hab : a ≠ b) (ha : a ∈ l) (hb : b ∈ l) :
    [a, b].Sublist l ∨ [b, a].Sublist l := by
  induction l with
  | nil => cases ha
  | cons c l ih =>
    rcases List.mem_cons.mp ha with rfl | ha'
    · have hb' := (List.mem_cons.mp hb).resolve_left (Ne.symm hab)
      exact .inl ((List.singleton_sublist.mpr hb').cons_cons a)
    · rcases List.mem_cons.mp hb with rfl | hb'
      · exact .inr ((List.singleton_sublist.mpr ha').cons_cons b)
      · exact (ih ha' hb').imp (List.Sublist.cons c) (List.Sublist.cons c)

theorem mem_edges {l : List α} (hl : l.Nodup) {e : Sym2 α} :
    e ∈ edges l ↔ ∃ a ∈ l, ∃ b ∈ l, a ≠ b ∧ e = s(a, b) := by
  rw [edges, List.mem_map]
  constructor
  · rintro ⟨⟨a, b⟩, hp, rfl⟩
    obtain ⟨ha, hb⟩ := mem_of_mem_pairs hp
    exact ⟨a, ha, b, hb, ne_of_mem_pairs hl hp, rfl⟩
  · rintro ⟨a, ha, b, hb, hab, rfl⟩
    rcases pair_sublist_or hab ha hb with h | h
    · exact ⟨(a, b), mem_pairs.mpr h, rfl⟩
    · exact ⟨(b, a), mem_pairs.mpr h, Sym2.eq_swap⟩

end Lib
