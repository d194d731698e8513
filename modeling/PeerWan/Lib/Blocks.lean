import Mathlib.Data.List.Basic

/-!
# Lists cut at a separator

A separator ends each line of a text, and opens each section of a list of
lines. Cutting gives the parts back when none of them contains the separator,
and counting separators says when that is so.
-/

namespace Lib

def blocks (sep : α) (bs : List (List α)) : List α := bs.flatMap (sep :: ·)

@[simp] theorem blocks_cons (sep : α) (b : List α) (bs : List (List α)) :
    blocks sep (b :: bs) = sep :: b ++ blocks sep bs := rfl

theorem mem_blocks {a sep : α} {bs : List (List α)} (h : a ∈ blocks sep bs) : a = sep ∨ ∃ b ∈ bs, a ∈ b := by
  obtain ⟨b, hb, ha⟩ := List.mem_flatMap.mp h
  exact (List.mem_cons.mp ha).imp_right fun ha => ⟨b, hb, ha⟩

variable [DecidableEq α] {sep : α}

theorem splitOn_append_of_not_mem {front : List α} (h : sep ∉ front) (l : List α) :
    (front ++ l).splitOn sep = (l.splitOn sep).modifyHead (front ++ ·) := by
  induction front with
  | nil => exact (congrFun List.modifyHead_id _).symm
  | cons a front ih =>
    rw [List.mem_cons, not_or] at h
    rw [List.cons_append, List.splitOn_cons_eq_if_modifyHead, if_neg (by simpa using Ne.symm h.1), ih h.2,
      List.modifyHead_modifyHead]
    rfl

theorem count_blocks_eq_iff {front : List α} {bs : List (List α)} :
    (front ++ blocks sep bs).count sep = bs.length ↔ sep ∉ front ∧ ∀ b ∈ bs, sep ∉ b := by
  have hcount : (front ++ blocks sep bs).count sep =
      front.count sep + (bs.map (·.count sep)).sum + bs.length := by
    rw [List.count_append]
    induction bs with
    | nil => simp [blocks]
    | cons b bs ih =>
      rw [blocks_cons, List.cons_append, List.count_cons_self, List.count_append, List.map_cons, List.sum_cons,
        List.length_cons]
      omega
  rw [hcount, Nat.add_eq_right, Nat.add_eq_zero_iff, List.count_eq_zero, List.sum_eq_zero_iff_forall_eq_nat,
    List.forall_mem_map]
  simp only [List.count_eq_zero]

theorem splitOn_blocks {front : List α} {bs : List (List α)} (hfront : sep ∉ front) (hbs : ∀ b ∈ bs, sep ∉ b) :
    (front ++ blocks sep bs).splitOn sep = front :: bs := by
  induction bs generalizing front with
  | nil =>
    rw [blocks, List.flatMap_nil, List.append_nil]
    exact List.splitOn_eq_singleton hfront
  | cons b bs ih =>
    rw [List.forall_mem_cons] at hbs
    rw [blocks_cons, List.cons_append, List.splitOn_append_cons_self_of_not_mem hfront, ih hbs.1 hbs.2]

end Lib
