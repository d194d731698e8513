import Mathlib.Data.List.Count
import Mathlib.Data.List.Flatten

/-!
# Lists in pieces

A list that is kept in pieces, one for each entry of another list: what becomes
of the whole when one piece changes.
-/

namespace Lib

variable {α β : Type} {f : α → α} {g : α → List β} {l : List α} {i : Nat} {a : α} {xs : List β}

theorem flatMap_modify (hi : l[i]? = some a) : ∃ before after,
    l.flatMap g = before ++ (g a ++ after) ∧ (l.modify i f).flatMap g = before ++ (g (f a) ++ after) ∧
      ((∀ j b, i < j → l[j]? = some b → g b = []) → after = []) := by
  obtain ⟨hlt, ha⟩ := List.getElem?_eq_some_iff.mp hi
  obtain ⟨l₁, a', l₂, hl, rfl, hm⟩ := List.exists_of_modify f hlt
  subst hl
  obtain rfl : a' = a := by simpa using ha
  refine ⟨l₁.flatMap g, l₂.flatMap g, by simp, by simp [hm], fun hlast => ?_⟩
  refine List.flatMap_eq_nil_iff.mpr fun b hb => ?_
  obtain ⟨j, hj⟩ := List.getElem?_of_mem hb
  refine hlast (l₁.length + (j + 1)) b (by omega) ?_
  rw [List.getElem?_append_right (by omega), Nat.add_sub_cancel_left, List.getElem?_cons_succ]
  exact hj

theorem flatMap_modify_last (hi : l[i]? = some a) (hgrow : g (f a) = g a ++ xs)
    (hlast : ∀ j b, i < j → l[j]? = some b → g b = []) : (l.modify i f).flatMap g = l.flatMap g ++ xs := by
  obtain ⟨before, after, hl, hm, hnil⟩ := flatMap_modify (f := f) (g := g) hi
  rw [hl, hm, hgrow, hnil hlast]
  simp

theorem flatMap_modify_perm (hi : l[i]? = some a) (hgrow : g (f a) = g a ++ xs) :
    ((l.modify i f).flatMap g).Perm (l.flatMap g ++ xs) := by
  obtain ⟨before, after, hl, hm, -⟩ := flatMap_modify (f := f) (g := g) hi
  rw [hl, hm, hgrow, List.append_assoc, List.append_assoc, List.append_assoc]
  exact ((@List.perm_append_comm _ xs _).append_left (g a)).append_left before

theorem flatMap_modify_of_eq (hsame : ∀ a, l[i]? = some a → g (f a) = g a) :
    (l.modify i f).flatMap g = l.flatMap g := by
  cases hi : l[i]? with
  | none => rw [List.modify_eq_self (List.getElem?_eq_none_iff.mp hi)]
  | some a =>
    obtain ⟨before, after, hl, hm, -⟩ := flatMap_modify (f := f) (g := g) hi
    rw [hl, hm, hsame a hi]

theorem forall_mem_modify {P : α → Prop} (h : ∀ a ∈ l, P a) (hf : ∀ a, l[i]? = some a → P (f a)) :
    ∀ a ∈ l.modify i f, P a := by
  intro a ha
  obtain ⟨j, hj⟩ := List.getElem?_of_mem ha
  rw [List.getElem?_modify] at hj
  obtain ⟨b, hb, rfl⟩ := Option.map_eq_some_iff.mp hj
  split
  next heq => exact hf b (heq ▸ hb)
  next => exact h b (List.mem_of_getElem? hb)

theorem sublist_flatMap_of_getElem? (hi : l[i]? = some a) : (g a).Sublist (l.flatMap g) := by
  obtain ⟨before, after, hl, -, -⟩ := flatMap_modify (f := id) (g := g) hi
  rw [hl]
  exact (List.sublist_append_left _ _).trans (List.sublist_append_right _ _)

theorem subperm_flatten {ls ls' : List (List β)} (h : ls.Subperm ls') : ls.flatten.Subperm ls'.flatten := by
  obtain ⟨m, hperm, hsub⟩ := h
  exact ⟨m.flatten, hperm.flatten, hsub.flatten⟩

end Lib
