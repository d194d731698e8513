import Mathlib.Data.List.Count
import Mathlib.Data.List.Pairwise
import Mathlib.Data.List.Sort
import PeerWan.Lib.Window

/-!
# The end of a list in two orders

A list may be in one order where its last entries are wanted in another. They
are the wanted ones exactly when, for each entry that is wanted, the two orders
agree on what comes before it.
-/

namespace Lib

variable {α : Type} {r s : α → α → Prop} {l m : List α} {n : Nat} {x y : α}

theorem rtake_split (l : List α) (n : Nat) : ∃ front, l = front ++ l.rtake n ∧
    (l.rtake n).length ≤ n ∧ (front ≠ [] → (l.rtake n).length = n) := by
  refine ⟨l.take (l.length - n), (List.take_append_drop ..).symm, ?_, fun hne => ?_⟩
  · rw [rtake_eq_drop, List.length_drop]
    omega
  · have hpos : 0 < l.length - n := by
      have hlen := List.length_pos_iff.mpr hne
      rw [List.length_take] at hlen
      omega
    rw [rtake_eq_drop, List.length_drop]
    omega

theorem rtake_of_split {front tail : List α} (hle : tail.length ≤ n) (hlen : front ≠ [] → tail.length = n) :
    (front ++ tail).rtake n = tail := by
  have hfront : front.length + tail.length - n = front.length := by
    cases front with
    | nil => rw [List.length_nil, Nat.zero_add, Nat.sub_eq_zero_of_le hle]
    | cons x front => rw [hlen nofun, Nat.add_sub_cancel]
  rw [rtake_eq_drop, List.length_append, hfront, List.drop_left]

theorem rel_or_rel (h : l.Pairwise r) (hx : x ∈ l) (hy : y ∈ l) (hne : x ≠ y) : r x y ∨ r y x := by
  have hsymm : Std.Symm fun x y => r x y ∨ r y x := ⟨fun _ _ => Or.symm⟩
  have hsym : l.Pairwise fun x y => r x y ∨ r y x := h.imp fun h => .inl h
  exact hsym.forall hx hy hne

section

variable [DecidableRel s] (hs : ∀ x y, s x y → ¬ s y x)

include hs

theorem mem_rtake_iff (hm : m.Pairwise s) (hy : y ∈ m) : y ∈ m.rtake n ↔ m.countP (s y) < n := by
  obtain ⟨front, hfront, hle, hlen⟩ := rtake_split m n
  rw [hfront] at hm hy
  obtain ⟨-, -, hcross⟩ := List.pairwise_append.mp hm
  have hcount : m.countP (s y) = front.countP (s y) + (m.rtake n).countP (s y) := by
    rw [← List.countP_append, ← hfront]
  constructor
  · intro htail
    have hnone : front.countP (s y) = 0 :=
      List.countP_eq_zero.mpr fun x hx => by simpa using hs x y (hcross x hx y htail)
    have hsome : (m.rtake n).countP (s y) < (m.rtake n).length :=
      List.countP_lt_length_iff.mpr ⟨y, htail, by simpa using fun h => hs y y h h⟩
    omega
  · intro hfew
    by_contra htail
    have hin : y ∈ front := (List.mem_append.mp hy).resolve_right htail
    have hall : (m.rtake n).countP (s y) = (m.rtake n).length :=
      List.countP_eq_length.mpr fun x hx => by simpa using hcross y hin x hx
    have hn := hlen (List.ne_nil_of_mem hin)
    omega

/-- The ends of a list in two orders are the same exactly when the orders agree
below each entry of the end. -/
theorem rtake_eq_rtake_iff (hr : ∀ x y, r x y → ¬ r y x) (hl : l.Pairwise r) (hm : m.Pairwise s) (hperm : l.Perm m) :
    l.rtake n = m.rtake n ↔ ∀ y ∈ m, m.countP (s y) < n → ∀ x ∈ m, s x y → r x y := by
  obtain ⟨front, hfront, -, -⟩ := rtake_split l n
  obtain ⟨front', hfront', hle, hlen⟩ := rtake_split m n
  constructor
  · intro heq y hy hfew x hx hxy
    have htail := (mem_rtake_iff hs hm hy).mpr hfew
    have hne : x ≠ y := by
      rintro rfl
      exact hs x x hxy hxy
    rw [hfront] at hl
    obtain ⟨-, hsorted, hcross⟩ := List.pairwise_append.mp hl
    have hxl : x ∈ front ∨ x ∈ l.rtake n := List.mem_append.mp (hfront ▸ hperm.mem_iff.mpr hx)
    rw [← heq] at htail
    rcases hxl with hx' | hx'
    · exact hcross x hx' y htail
    · -- both are in the common end, which is in both orders
      have hboth : (l.rtake n).Pairwise fun x y => r x y ∧ s x y := by
        have hm' := (List.pairwise_append.mp (hfront' ▸ hm)).2.1
        rw [← heq] at hm'
        exact hsorted.and hm'
      rcases rel_or_rel hboth hx' htail hne with ⟨h, -⟩ | ⟨-, h⟩
      · exact h
      · exact absurd h (hs x y hxy)
  · intro h
    have hwanted : ∀ y ∈ m.rtake n, ∀ x ∈ m, s x y → r x y := fun y hy =>
      have hym := List.mem_of_mem_drop hy
      h y hym ((mem_rtake_iff hs hm hym).mp hy)
    have hm' := hm
    rw [hfront'] at hm'
    obtain ⟨-, htail, hcross⟩ := List.pairwise_append.mp hm'
    have hapart : ∀ x ∈ m.rtake n, x ∉ front' := fun x hx hx' => hs x x (hcross x hx' x hx) (hcross x hx' x hx)
    -- in the order of the list, what is not wanted and then what is
    classical
    have hrest : (l.filter (· ∈ front')).Perm front' := by
      have hfilter : m.filter (· ∈ front') = front' := by
        rw [hfront', List.filter_append, List.filter_eq_self.mpr fun x hx => by simpa using hx,
          List.filter_eq_nil_iff.mpr fun x hx => by simpa using hapart x hx, List.append_nil]
      exact (hperm.filter _).trans (.of_eq hfilter)
    have hsorted : (l.filter (· ∈ front') ++ m.rtake n).Pairwise r := by
      refine List.pairwise_append.mpr ⟨hl.filter _, ?_, fun x hx y hy => ?_⟩
      · exact htail.imp_of_mem fun hx hy hxy => hwanted _ hy _ (List.mem_of_mem_drop hx) hxy
      · have hx' := hrest.mem_iff.mp hx
        exact hwanted y hy x (hfront' ▸ List.mem_append_left _ hx') (hcross x hx' y hy)
    have hl' : l = l.filter (· ∈ front') ++ m.rtake n := by
      refine List.Perm.eq_of_pairwise (fun x y _ _ hxy hyx => absurd hyx (hr x y hxy)) hl hsorted ?_
      exact (hperm.trans (.of_eq hfront')).trans (hrest.symm.append_right _)
    rw [hl']
    exact rtake_of_split hle fun hne => hlen fun hnil => hne (List.perm_nil.mp (hrest.trans (.of_eq hnil)))

end

end Lib
