import Mathlib.Data.List.DropRight

/-!
# The last entries of a log

A log of bounded length keeps its last `n` entries: `List.rtake n`.
-/

namespace Lib

variable {α β : Type} {n : Nat}

theorem rtake_eq_drop (l : List α) : l.rtake n = l.drop (l.length - n) := rfl

theorem rtake_of_length_le {l : List α} (h : l.length ≤ n) : l.rtake n = l := by
  rw [rtake_eq_drop, Nat.sub_eq_zero_of_le h, List.drop_zero]

theorem rtake_append (l₁ l₂ : List α) :
    (l₁ ++ l₂).rtake n = l₁.rtake (n - l₂.length) ++ l₂.rtake n := by
  simp only [List.rtake_eq_reverse_take_reverse, List.reverse_append, List.take_append, List.length_reverse]

theorem map_rtake (f : α → β) (l : List α) : (l.rtake n).map f = (l.map f).rtake n := by
  simp [rtake_eq_drop]

theorem rtake_suffix (l : List α) : l.rtake n <:+ l := List.drop_suffix ..

theorem rtake_rtake_append (l₁ l₂ : List α) : (l₁.rtake n ++ l₂).rtake n = (l₁ ++ l₂).rtake n := by
  rw [rtake_append, rtake_append]
  simp only [List.rtake_eq_reverse_take_reverse, List.reverse_reverse, List.take_take]
  rw [min_eq_left (Nat.sub_le ..)]

theorem rtake_rtake (m : Nat) (l : List α) : (l.rtake n).rtake m = l.rtake (min m n) := by
  simp only [List.rtake_eq_reverse_take_reverse, List.reverse_reverse, List.take_take]

/-- A log after the entries `new`: it is cut each time that it grows. -/
def keep (n : Nat) (old new : List α) : List α := new.foldl (fun log x => (log ++ [x]).rtake n) old

@[simp] theorem keep_nil (old : List α) : keep n old [] = old := rfl

theorem keep_append_singleton (old new : List α) (x : α) :
    keep n old (new ++ [x]) = (keep n old new ++ [x]).rtake n := List.foldl_append

theorem keep_eq_rtake (old : List α) {new : List α} (h : new ≠ []) : keep n old new = (old ++ new).rtake n := by
  induction new using List.reverseRecOn with
  | nil => exact absurd rfl h
  | append_singleton new x ih =>
    rw [keep_append_singleton]
    cases new with
    | nil => rfl
    | cons y new => rw [ih (by simp), rtake_rtake_append, List.append_assoc]

end Lib
