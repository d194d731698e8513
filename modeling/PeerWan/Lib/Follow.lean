import Mathlib.Data.List.Basic

/-!
# Following a partial function

`follow f n x` is where `n` steps of `f` lead from `x`, if they do not run out.
A walk along a list, a walk that never comes back, and how the two exclude each
other: from a walk that ends there is no way into a cycle.
-/

namespace Lib

variable {α : Type} {f g : α → Option α} {x y : α}

def follow (f : α → Option α) : Nat → α → Option α
  | 0, x => some x
  | n + 1, x => (f x).bind (follow f n)

/-- No walk visits an element twice. -/
def Acyclic (f : α → Option α) : Prop := ∀ x n, follow f (n + 1) x ≠ some x

@[simp] theorem follow_zero (f : α → Option α) (x : α) : follow f 0 x = some x := rfl

theorem follow_succ (f : α → Option α) (n : Nat) (x : α) : follow f (n + 1) x = (f x).bind (follow f n) := rfl

theorem follow_add (m n : Nat) (x : α) : follow f (m + n) x = (follow f m x).bind (follow f n) := by
  induction m generalizing x with
  | zero => simp
  | succ m ih =>
    rw [Nat.succ_add, follow_succ, follow_succ, Option.bind_assoc]
    exact congrArg (Option.bind (f x)) (funext ih)

theorem follow_step (h : follow f n x = some y) : follow f (n + 1) x = f y := by
  rw [follow_add, h]
  simp [follow]

theorem follow_none_of_le (h : follow f m x = none) (hn : m ≤ n) : follow f n x = none := by
  obtain ⟨k, rfl⟩ := Nat.exists_eq_add_of_le hn
  rw [follow_add, h]
  rfl

theorem follow_mono (hgf : ∀ x y, g x = some y → f x = some y) (h : follow g n x = some y) :
    follow f n x = some y := by
  induction n generalizing x with
  | zero => exact h
  | succ n ih =>
    obtain ⟨z, hz, h⟩ := Option.bind_eq_some_iff.mp h
    rw [follow_succ, hgf x z hz]
    exact ih h

theorem follow_congr (h : ∀ i < n, ∀ y, follow f i x = some y → g y = f y) : follow g n x = follow f n x := by
  induction n generalizing x with
  | zero => rfl
  | succ n ih =>
    rw [follow_succ, follow_succ, h 0 (by omega) x rfl]
    cases hx : f x with
    | none => rfl
    | some z =>
      refine ih fun i hi y hy => h (i + 1) (by omega) y ?_
      rw [follow_succ, hx]
      exact hy

-- ---------------------------------------------------------------------------
-- Cycles
-- ---------------------------------------------------------------------------

theorem follow_cycle (h : follow f n x = some x) (k : Nat) : follow f (n * k) x = some x := by
  induction k with
  | zero => rfl
  | succ k ih => rw [Nat.mul_succ, follow_add, ih, Option.bind_some, h]

theorem follow_ne_none_of_cycle (h : follow f (n + 1) x = some x) (k : Nat) : follow f k x ≠ none := by
  intro hk
  have hround := follow_cycle h k
  rw [follow_none_of_le hk (Nat.le_mul_of_pos_left k n.succ_pos)] at hround
  cases hround

theorem cycle_of_twice (hi : follow f i x = some y) (hj : follow f j x = some y) (hij : i < j) :
    ∃ n, follow f (n + 1) y = some y := by
  obtain ⟨n, rfl⟩ := Nat.exists_eq_add_of_lt hij
  refine ⟨n, ?_⟩
  rw [Nat.add_assoc, follow_add, hi] at hj
  exact hj

theorem acyclic_iff : Acyclic f ↔ ∀ x i j y, follow f i x = some y → follow f j x = some y → i = j := by
  constructor
  · intro h x i j y hi hj
    rcases Nat.lt_trichotomy i j with hij | hij | hij
    · obtain ⟨n, hn⟩ := cycle_of_twice hi hj hij
      exact absurd hn (h y n)
    · exact hij
    · obtain ⟨n, hn⟩ := cycle_of_twice hj hi hij
      exact absurd hn (h y n)
  · intro h x n hn
    cases h x (n + 1) 0 x hn rfl

theorem cycle_of_follow (h : follow f (n + 1) x = some x) (hi : follow f i x = some y) :
    follow f (n + 1) y = some y := by
  have hround := follow_add (f := f) i (n + 1) x
  rw [Nat.add_comm, follow_add, h, hi] at hround
  exact hround.symm.trans hi

-- ---------------------------------------------------------------------------
-- Walks along a list
-- ---------------------------------------------------------------------------

def links (l : List α) : List (α × α) := l.zip l.tail

@[simp] theorem links_nil : links ([] : List α) = [] := rfl

@[simp] theorem links_singleton (x : α) : links [x] = [] := rfl

@[simp] theorem links_cons_cons (x y : α) (l : List α) : links (x :: y :: l) = (x, y) :: links (y :: l) := rfl

theorem mem_of_mem_links {l : List α} (h : (x, y) ∈ links l) : x ∈ l ∧ y ∈ l := by
  obtain ⟨hx, hy⟩ := List.of_mem_zip h
  exact ⟨hx, List.mem_of_mem_tail hy⟩

theorem ne_of_mem_links {l : List α} (hl : l.Nodup) (h : (x, y) ∈ links l) : x ≠ y := by
  induction l with
  | nil => cases h
  | cons a l ih =>
    obtain ⟨ha, hl⟩ := List.nodup_cons.mp hl
    cases l with
    | nil => cases h
    | cons b l =>
      rw [links_cons_cons] at h
      rcases List.mem_cons.mp h with heq | h
      · obtain ⟨rfl, rfl⟩ := Prod.mk.inj heq
        exact fun hab => ha (hab ▸ List.mem_cons_self)
      · exact ih hl h

/-- The walk from the head of a list is the list exactly when each element
leads to its neighbour and the last one nowhere. -/
theorem follow_list_iff (x : α) (l : List α) :
    (∀ i, follow f i x = (x :: l)[i]?) ↔ (∀ e ∈ links (x :: l), f e.1 = some e.2) ∧
      ∀ z ∈ (x :: l).getLast?, f z = none := by
  induction l generalizing x with
  | nil =>
    constructor
    · intro h
      have h1 := h 1
      simp only [follow_succ, List.getElem?_cons_succ, List.getElem?_nil] at h1
      cases hx : f x with
      | none => simp [hx]
      | some y => simp [hx] at h1
    · rintro ⟨-, hx⟩ i
      cases i with
      | zero => rfl
      | succ i => simp [follow_succ, hx x rfl]
  | cons y l ih =>
    rw [links_cons_cons, List.forall_mem_cons, List.getLast?_cons_cons, and_assoc, ← ih y]
    constructor
    · intro h
      have hx : f x = some y := by
        have h1 := h 1
        rw [follow_step (follow_zero f x)] at h1
        exact h1
      refine ⟨hx, fun i => ?_⟩
      have hi := h (i + 1)
      rw [follow_succ, hx] at hi
      exact hi
    · rintro ⟨hx, h⟩ i
      cases i with
      | zero => rfl
      | succ i =>
        rw [follow_succ, hx]
        exact h i

theorem not_cycle_of_mem_list {l : List α} (h : ∀ i, follow f i x = (x :: l)[i]?) (hy : y ∈ x :: l) (n : Nat) :
    follow f (n + 1) y ≠ some y := by
  intro hcycle
  obtain ⟨i, hi⟩ := List.mem_iff_getElem?.mp hy
  refine follow_ne_none_of_cycle hcycle (l.length + 1) ?_
  have hend := follow_add (f := f) i (l.length + 1) x
  rw [h i, hi, h (i + (l.length + 1)), List.getElem?_eq_none (by simp)] at hend
  exact hend.symm

end Lib
