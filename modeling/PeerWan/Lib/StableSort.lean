import Mathlib.Data.List.Sort

/-!
# Stable sorting by a key

A list in order of a key, in which equal keys stay in the order they came in.
There is exactly one such list, and insertion sort gives it. Of the order of
the input it keeps the order among equal keys and nothing else, so it is the
same for every order of the input exactly when no two keys are equal.
-/

namespace Lib

variable {α κ : Type} [LinearOrder κ] {key : α → κ}

structure StableSort (key : α → κ) (l l' : List α) : Prop where
  sorted : l'.Pairwise fun a b => key a ≤ key b
  stable : ∀ k, l'.filter (fun a => key a = k) = l.filter (fun a => key a = k)

instance isTrans_keyLe : IsTrans α fun a b => key a ≤ key b := ⟨fun _ _ _ => le_trans⟩

instance total_keyLe : Std.Total fun a b : α => key a ≤ key b := ⟨fun a b => le_total (key a) (key b)⟩

theorem perm_of_filter_eq {l l' : List α}
    (h : ∀ k, l'.filter (fun a => key a = k) = l.filter (fun a => key a = k)) : l'.Perm l := by
  classical
  rw [List.perm_iff_count]
  intro a
  have hcount : ∀ l : List α, (l.filter fun b => key b = key a).count a = l.count a := fun l =>
    List.count_filter (by simp)
  rw [← hcount l', ← hcount l, h]

theorem StableSort.perm (h : StableSort key l l') : l'.Perm l := perm_of_filter_eq h.stable

-- ---------------------------------------------------------------------------
-- One list is sorted
-- ---------------------------------------------------------------------------

theorem mem_of_filter_eq {l m : List α} (h : l.filter (fun b => key b = key a) = m.filter (fun b => key b = key a))
    (ha : a ∈ l) : a ∈ m := by
  have hmem : a ∈ l.filter fun b => key b = key a := List.mem_filter.mpr ⟨ha, by simp⟩
  rw [h] at hmem
  exact List.mem_of_mem_filter hmem

theorem key_head_le {l : List α} (h : (b :: l).Pairwise fun a b => key a ≤ key b) (ha : a ∈ b :: l) :
    key b ≤ key a := by
  rcases List.mem_cons.mp ha with rfl | ha
  · exact le_refl _
  · exact List.rel_of_pairwise_cons h ha

theorem eq_of_sorted_of_filter_eq {l m : List α} (hl : l.Pairwise fun a b => key a ≤ key b)
    (hm : m.Pairwise fun a b => key a ≤ key b)
    (h : ∀ k, l.filter (fun a => key a = k) = m.filter (fun a => key a = k)) : l = m := by
  induction l generalizing m with
  | nil =>
    cases m with
    | nil => rfl
    | cons b m => exact absurd (mem_of_filter_eq (h (key b)).symm List.mem_cons_self) List.not_mem_nil
  | cons a l ih =>
    cases m with
    | nil => exact absurd (mem_of_filter_eq (h (key a)) List.mem_cons_self) List.not_mem_nil
    | cons b m =>
      -- each head is in the other list, so their keys are both least
      have hkey : key a = key b := le_antisymm
        (key_head_le hl (mem_of_filter_eq (h (key b)).symm List.mem_cons_self))
        (key_head_le hm (mem_of_filter_eq (h (key a)) List.mem_cons_self))
      have hhead := h (key a)
      rw [List.filter_cons_of_pos (by simp), List.filter_cons_of_pos (by simp [hkey])] at hhead
      obtain rfl : a = b := (List.cons.inj hhead).1
      refine congrArg (a :: ·) (ih hl.of_cons hm.of_cons fun k => ?_)
      have hk := h k
      by_cases hak : key a = k
      · rw [List.filter_cons_of_pos (by simpa using hak), List.filter_cons_of_pos (by simpa using hak)] at hk
        exact (List.cons.inj hk).2
      · rwa [List.filter_cons_of_neg (by simpa using hak), List.filter_cons_of_neg (by simpa using hak)] at hk

theorem StableSort.unique (h : StableSort key l m) (h' : StableSort key l m') : m = m' :=
  eq_of_sorted_of_filter_eq h.sorted h'.sorted fun k => (h.stable k).trans (h'.stable k).symm

theorem StableSort.eq_iff (h : StableSort key l m) (h' : StableSort key l' m') :
    m = m' ↔ ∀ k, l.filter (fun a => key a = k) = l'.filter (fun a => key a = k) := by
  constructor
  · rintro rfl k
    exact (h.stable k).symm.trans (h'.stable k)
  · intro hk
    exact eq_of_sorted_of_filter_eq h.sorted h'.sorted fun k =>
      (h.stable k).trans ((hk k).trans (h'.stable k).symm)

theorem stableSort_insertionSort (key : α → κ) (l : List α) :
    StableSort key l (l.insertionSort fun a b => key a ≤ key b) := by
  refine ⟨List.pairwise_insertionSort _ l, fun k => ?_⟩
  have hclass : (l.filter fun a => key a = k).Pairwise fun a b => key a ≤ key b := by
    refine List.pairwise_of_forall_mem_list fun a ha b hb => ?_
    have hka : key a = k := by simpa using List.of_mem_filter ha
    have hkb : key b = k := by simpa using List.of_mem_filter hb
    exact (hka.trans hkb.symm).le
  -- a class is sorted already, so the sort keeps it as a sublist
  have hsub := (List.sublist_insertionSort hclass List.filter_sublist).filter fun a => key a = k
  simp only [List.filter_filter, Bool.and_self] at hsub
  refine (hsub.eq_of_length ?_).symm
  exact ((List.perm_insertionSort _ l).filter _).length_eq.symm

-- ---------------------------------------------------------------------------
-- Every order of the input
-- ---------------------------------------------------------------------------

theorem length_le_one_of_reverse_eq {l : List α} (h : l.reverse = l) (hl : l.Nodup) : l.length ≤ 1 := by
  cases l with
  | nil => exact Nat.zero_le 1
  | cons a l =>
    rcases List.eq_nil_or_concat l with rfl | ⟨l, b, rfl⟩
    · exact le_refl 1
    · rw [List.concat_eq_append, List.reverse_cons, List.reverse_append, List.reverse_singleton] at h
      obtain rfl : b = a := (List.cons.inj h).1
      simp at hl

theorem nodup_map_of_class_le {l : List α} (h : ∀ k, (l.filter fun a => key a = k).length ≤ 1) :
    (l.map key).Nodup := by
  rw [List.nodup_iff_count_le_one]
  intro k
  rw [List.count, List.countP_map, List.countP_eq_length_filter]
  exact h k

theorem StableSort.nodup_of_reverse (h : StableSort key l m) (h' : StableSort key l.reverse m) (hl : l.Nodup) :
    (l.map key).Nodup := by
  refine nodup_map_of_class_le fun k => length_le_one_of_reverse_eq ?_ (hl.filter _)
  rw [← List.filter_reverse]
  exact (h'.stable k).symm.trans (h.stable k)

theorem StableSort.eq_of_perm (h : StableSort key l m) (h' : StableSort key l' m') (hp : l'.Perm l)
    (hl : (l.map key).Nodup) : m' = m := by
  refine (h'.eq_iff h).mpr fun k => ?_
  have hone : (l.filter fun a => key a = k).length ≤ 1 := by
    rw [← List.countP_eq_length_filter]
    have hcount := List.nodup_iff_count_le_one.mp hl k
    rwa [List.count, List.countP_map] at hcount
  generalize hc : l.filter (fun a => key a = k) = c at hone
  have hclass : (l'.filter fun a => key a = k).Perm c := hc ▸ hp.filter _
  cases c with
  | nil => exact hclass.eq_nil
  | cons a c =>
    obtain rfl : c = [] := by simpa using hone
    exact List.perm_singleton.mp hclass

end Lib
