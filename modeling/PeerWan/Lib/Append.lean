import Mathlib.Data.List.Perm.Basic
import PeerWan.Lib.Runs

/-!
# Workers that append to a shared list

Each worker takes its items in turn. For an item it reads the whole list, and
later writes back its copy with the item at the end. Nothing holds the list in
between, so a write undoes what others wrote since the read: every item
arrives, and once, exactly when no worker reads while another holds a copy.
-/

namespace Lib

structure Appender (α : Type) where
  todo : List α
  held : Option (List α) := none

structure Shared (α : Type) where
  cell : List α
  workers : List (Appender α)

inductive CellMove where
  | read (i : Nat)
  | write (i : Nat)
  deriving DecidableEq, Repr

namespace Shared

variable {α : Type}

/-- A move of a worker that is not ready for it changes nothing. -/
def step (m : CellMove) (s : Shared α) : Shared α :=
  match m with
  | .read i =>
    match s.workers[i]? with
    | some { todo := x :: todo, held := none } =>
      { s with workers := s.workers.set i { todo := x :: todo, held := some s.cell } }
    | _ => s
  | .write i =>
    match s.workers[i]? with
    | some { todo := x :: todo, held := some copy } =>
      { cell := copy ++ [x], workers := s.workers.set i { todo := todo } }
    | _ => s

def pending (s : Shared α) : List α := s.workers.flatMap Appender.todo

def Holds (s : Shared α) (i : Nat) (copy : List α) : Prop :=
  ∃ w, s.workers[i]? = some w ∧ w.held = some copy

def Alone (s : Shared α) : CellMove → Prop
  | .read i => (∃ w, s.workers[i]? = some w ∧ w.todo ≠ [] ∧ w.held = none) → ∀ j copy, ¬ s.Holds j copy
  | .write _ => True

-- ---------------------------------------------------------------------------
-- What a move does
-- ---------------------------------------------------------------------------

inductive Moved (s : Shared α) : CellMove → Shared α → Prop where
  | ignored (halone : s.Alone m) : Moved s m s
  | read {i : Nat} {x : α} {todo : List α} (hw : s.workers[i]? = some { todo := x :: todo }) :
      Moved s (.read i) { s with workers := s.workers.set i { todo := x :: todo, held := some s.cell } }
  | write {i : Nat} {x : α} {todo copy : List α}
      (hw : s.workers[i]? = some { todo := x :: todo, held := some copy }) :
      Moved s (.write i) { cell := copy ++ [x], workers := s.workers.set i { todo := todo } }

theorem moved (m : CellMove) (s : Shared α) : Moved s m (step m s) := by
  cases m with
  | read i =>
    simp only [step]
    split
    next hw => exact .read hw
    next hother =>
      refine .ignored ?_
      rintro ⟨⟨todo, held⟩, hw, htodo, rfl⟩
      cases todo with
      | nil => exact absurd rfl htodo
      | cons x todo => exact absurd hw (hother x todo)
  | write i =>
    simp only [step]
    split
    next hw => exact .write hw
    next => exact .ignored trivial

theorem holds_set {s : Shared α} {w : Appender α} {cell : List α} {i j : Nat} {copy : List α}
    (hi : s.workers[i]? = some w') :
    (Shared.mk cell (s.workers.set i w)).Holds j copy ↔
      (j = i ∧ w.held = some copy) ∨ (j ≠ i ∧ s.Holds j copy) := by
  have hlt : i < s.workers.length := (List.getElem?_eq_some_iff.mp hi).1
  by_cases hj : j = i
  · subst hj
    simp [Holds, hlt]
  · simp [Holds, hj, List.getElem?_set_ne (Ne.symm hj)]

theorem pending_set {s : Shared α} {w v : Appender α} {c : List α} {i : Nat}
    (hi : s.workers[i]? = some w) :
    (w.todo ++ (Shared.mk c (s.workers.set i v)).pending).Perm (v.todo ++ s.pending) := by
  obtain ⟨hlt, rfl⟩ := List.getElem?_eq_some_iff.mp hi
  have hsplit : s.pending = (s.workers.take i).flatMap Appender.todo ++
      (s.workers[i].todo ++ (s.workers.drop (i + 1)).flatMap Appender.todo) := by
    conv_lhs => rw [pending, ← List.take_append_drop i s.workers, List.drop_eq_getElem_cons hlt]
    rw [List.flatMap_append, List.flatMap_cons]
  rw [hsplit, pending, List.set_eq_take_append_cons_drop, if_pos hlt, List.flatMap_append, List.flatMap_cons]
  refine (List.perm_append_comm_assoc _ _ _).trans (.trans ?_ (List.perm_append_comm_assoc _ _ _))
  exact (List.perm_append_comm_assoc _ _ _).append_left _

-- ---------------------------------------------------------------------------
-- Runs without an overlap
-- ---------------------------------------------------------------------------

/-- At most one worker holds a copy, and its copy is the list; what is in the
list and what is still to come make up the total. -/
structure Apart (total : List α) (s : Shared α) : Prop where
  single : ∀ i j copy copy', s.Holds i copy → s.Holds j copy' → i = j
  fresh : ∀ i copy, s.Holds i copy → copy = s.cell
  perm : (s.cell ++ s.pending).Perm total

theorem Apart.step {total : List α} {s : Shared α} {m : CellMove} (h : Apart total s) (halone : s.Alone m) :
    Apart total (Shared.step m s) := by
  have hm := moved m s
  generalize Shared.step m s = s' at hm
  cases hm with
  | ignored => exact h
  | @read i x todo hw =>
    have hnone : ∀ j copy, ¬ s.Holds j copy := halone ⟨_, hw, by simp, rfl⟩
    constructor
    · intro j k copy copy' hj hk
      rcases (holds_set hw).mp hj with ⟨rfl, -⟩ | ⟨-, hj⟩
      · rcases (holds_set hw).mp hk with ⟨rfl, -⟩ | ⟨-, hk⟩
        · rfl
        · exact absurd hk (hnone k copy')
      · exact absurd hj (hnone j copy)
    · intro j copy hj
      rcases (holds_set hw).mp hj with ⟨-, hcopy⟩ | ⟨-, hj⟩
      · exact (Option.some.inj hcopy).symm
      · exact absurd hj (hnone j copy)
    · refine .trans (.append_left _ ?_) h.perm
      exact (List.perm_append_left_iff (x :: todo)).mp (pending_set hw)
  | @write i x todo copy hw =>
    have hholds : s.Holds i copy := ⟨_, hw, rfl⟩
    have hnone : ∀ j copy', ¬ (Shared.mk (copy ++ [x]) (s.workers.set i { todo := todo })).Holds j copy' := by
      intro j copy' hj
      rcases (holds_set hw).mp hj with ⟨-, hcopy⟩ | ⟨hne, hj⟩
      · cases hcopy
      · exact hne (h.single j i copy' copy hj hholds)
    refine ⟨fun j _ copy' _ hj => absurd hj (hnone j copy'), fun j copy' hj => absurd hj (hnone j copy'), ?_⟩
    refine .trans ?_ h.perm
    rw [h.fresh i copy hholds, List.append_assoc]
    refine .append_left _ ?_
    have hpending := pending_set (c := s.cell ++ [x]) (v := { todo := todo }) hw
    rw [show x :: todo = [x] ++ todo from rfl, List.append_assoc] at hpending
    exact (List.perm_append_left_iff todo).mp ((List.perm_append_comm_assoc _ _ _).trans hpending)

-- ---------------------------------------------------------------------------
-- Runs with one
-- ---------------------------------------------------------------------------

structure Bounded (n : Nat) (s : Shared α) : Prop where
  cell : s.cell.length + s.pending.length ≤ n
  held : ∀ i copy, s.Holds i copy → copy.length + s.pending.length ≤ n

/-- An item is lost, or will be with the next write of some holder. -/
def Lossy (n : Nat) (s : Shared α) : Prop :=
  (∃ i j copy copy', i ≠ j ∧ s.Holds i copy ∧ s.Holds j copy') ∨
    (∃ i copy, s.Holds i copy ∧ copy.length + s.pending.length < n) ∨
    (s.cell.length + s.pending.length < n ∧
      ∀ i copy, s.Holds i copy → copy.length + s.pending.length < n)

theorem length_pending_read {s : Shared α} {i : Nat} {x : α} {todo : List α}
    (hw : s.workers[i]? = some { todo := x :: todo }) :
    (Shared.mk s.cell (s.workers.set i { todo := x :: todo, held := some s.cell })).pending.length =
      s.pending.length := by
  simpa using (pending_set (c := s.cell) (v := { todo := x :: todo, held := some s.cell }) hw).length_eq

theorem length_pending_write {s : Shared α} {i : Nat} {x : α} {todo copy : List α}
    (hw : s.workers[i]? = some { todo := x :: todo, held := some copy }) :
    (Shared.mk (copy ++ [x]) (s.workers.set i { todo := todo })).pending.length + 1 = s.pending.length := by
  have hlen := (pending_set (c := copy ++ [x]) (v := { todo := todo }) hw).length_eq
  simp only [List.length_append, List.length_cons] at hlen
  omega

theorem Apart.bounded {total : List α} {s : Shared α} (h : Apart total s) : Bounded total.length s := by
  have hlen : s.cell.length + s.pending.length = total.length := by simpa using h.perm.length_eq
  exact ⟨Nat.le_of_eq hlen, fun i copy hholds => Nat.le_of_eq (by rw [h.fresh i copy hholds, hlen])⟩

theorem Bounded.step {n : Nat} {s : Shared α} (m : CellMove) (h : Bounded n s) :
    Bounded n (Shared.step m s) := by
  have hm := moved m s
  generalize Shared.step m s = s' at hm
  cases hm with
  | ignored => exact h
  | @read i x todo hw =>
    have hlen := length_pending_read hw
    refine ⟨hlen ▸ h.cell, fun j copy hj => ?_⟩
    rw [hlen]
    rcases (holds_set hw).mp hj with ⟨-, hcopy⟩ | ⟨-, hj⟩
    · cases hcopy
      exact h.cell
    · exact h.held j copy hj
  | @write i x todo copy hw =>
    have hlen := length_pending_write hw
    have hcopy := h.held i copy ⟨_, hw, rfl⟩
    refine ⟨by simp only [List.length_append, List.length_singleton]; omega, fun j copy' hj => ?_⟩
    rcases (holds_set hw).mp hj with ⟨-, hnone⟩ | ⟨-, hj⟩
    · cases hnone
    · have hheld := h.held j copy' hj
      omega

theorem Lossy.step {n : Nat} {s : Shared α} (m : CellMove) (hb : Bounded n s) (h : Lossy n s) :
    Lossy n (Shared.step m s) := by
  have hm := moved m s
  generalize Shared.step m s = s' at hm
  cases hm with
  | ignored => exact h
  | @read i x todo hw =>
    have hlen := length_pending_read hw
    have hkept : ∀ j copy, s.Holds j copy → (Shared.mk s.cell
        (s.workers.set i { todo := x :: todo, held := some s.cell })).Holds j copy := by
      intro j copy hj
      refine (holds_set hw).mpr (.inr ⟨?_, hj⟩)
      rintro rfl
      obtain ⟨w, hw', hheld⟩ := hj
      rw [hw] at hw'
      cases hw'
      cases hheld
    rcases h with ⟨j, k, copy, copy', hjk, hj, hk⟩ | ⟨j, copy, hj, hstale⟩ | ⟨hcell, hall⟩
    · exact .inl ⟨j, k, copy, copy', hjk, hkept j copy hj, hkept k copy' hk⟩
    · exact .inr (.inl ⟨j, copy, hkept j copy hj, by rwa [hlen]⟩)
    · refine .inr (.inr ⟨by rwa [hlen], fun j copy hj => ?_⟩)
      rw [hlen]
      rcases (holds_set hw).mp hj with ⟨-, hcopy⟩ | ⟨-, hj⟩
      · cases hcopy
        exact hcell
      · exact hall j copy hj
  | @write i x todo copy hw =>
    have hlen := length_pending_write hw
    have hholds : s.Holds i copy := ⟨_, hw, rfl⟩
    -- whoever still holds a copy has not seen this item
    have hstale : ∀ j copy', j ≠ i → s.Holds j copy' → Lossy n
        (Shared.mk (copy ++ [x]) (s.workers.set i { todo := todo })) := by
      intro j copy' hne hj
      have hheld := hb.held j copy' hj
      exact .inr (.inl ⟨j, copy', (holds_set hw).mpr (.inr ⟨hne, hj⟩), by omega⟩)
    have hshort : copy.length + s.pending.length < n → Lossy n
        (Shared.mk (copy ++ [x]) (s.workers.set i { todo := todo })) := by
      intro hlt
      refine .inr (.inr ⟨by simp only [List.length_append, List.length_singleton]; omega, fun j copy' hj => ?_⟩)
      rcases (holds_set hw).mp hj with ⟨-, hnone⟩ | ⟨-, hj⟩
      · cases hnone
      · have hheld := hb.held j copy' hj
        omega
    rcases h with ⟨j, k, copy', copy'', hjk, hj, hk⟩ | ⟨j, copy', hj, hlt⟩ | ⟨-, hall⟩
    · by_cases hji : j = i
      · exact hstale k copy'' (fun hki => hjk (hji.trans hki.symm)) hk
      · exact hstale j copy' hji hj
    · by_cases hji : j = i
      · subst hji
        obtain ⟨w, hw', hcopy'⟩ := hj
        rw [hw] at hw'
        cases hw'
        cases hcopy'
        exact hshort hlt
      · exact hstale j copy' hji hj
    · exact hshort (hall i copy hholds)

theorem lossy_of_overlap {n : Nat} {s : Shared α} {m : CellMove} (h : ¬ s.Alone m) :
    Lossy n (Shared.step m s) := by
  have hm := moved m s
  generalize Shared.step m s = s' at hm
  cases hm with
  | ignored halone => exact absurd halone h
  | @read i x todo hw =>
    obtain ⟨-, j, copy, hj⟩ : (∃ w, s.workers[i]? = some w ∧ w.todo ≠ [] ∧ w.held = none) ∧
        ∃ j copy, s.Holds j copy := by
      simpa only [Alone, not_forall, Classical.not_imp, not_not, exists_prop] using h
    have hji : j ≠ i := by
      rintro rfl
      obtain ⟨w, hw', hheld⟩ := hj
      rw [hw] at hw'
      cases hw'
      cases hheld
    exact .inl ⟨i, j, _, copy, hji.symm, (holds_set hw).mpr (.inl ⟨rfl, rfl⟩),
      (holds_set hw).mpr (.inr ⟨hji, hj⟩)⟩
  | write => exact absurd trivial h

-- ---------------------------------------------------------------------------
-- Whole runs
-- ---------------------------------------------------------------------------

def Finished (s : Shared α) : Prop := ∀ w ∈ s.workers, w.todo = []

def Busy (s : Shared α) : Prop := ∀ w ∈ s.workers, w.held ≠ none → w.todo ≠ []

theorem Busy.step {s : Shared α} (m : CellMove) (h : s.Busy) : (Shared.step m s).Busy := by
  have hm := moved m s
  generalize Shared.step m s = s' at hm
  cases hm with
  | ignored => exact h
  | read hw =>
    intro w hmem hheld
    rcases List.mem_or_eq_of_mem_set hmem with hmem | rfl
    · exact h w hmem hheld
    · simp
  | write hw =>
    intro w hmem hheld
    rcases List.mem_or_eq_of_mem_set hmem with hmem | rfl
    · exact h w hmem hheld
    · exact absurd rfl hheld

theorem Busy.not_holds {s : Shared α} (h : s.Busy) (hdone : s.Finished) : ¬ s.Holds i copy := by
  rintro ⟨w, hw, hheld⟩
  have hmem := List.mem_of_getElem? hw
  exact h w hmem (by simp [hheld]) (hdone w hmem)

theorem Finished.pending {s : Shared α} (hdone : s.Finished) : s.pending = [] :=
  List.flatMap_eq_nil_iff.mpr hdone

theorem Apart.run {total : List α} {s : Shared α} {ms : List CellMove} (h : Apart total s)
    (halone : Along Shared.step Alone s ms) : Apart total (Lib.run Shared.step s ms) :=
  (throughout_of_along (fun _ _ h halone => Apart.step h halone) h halone).final

theorem lossy_run {total : List α} {s : Shared α} {ms : List CellMove} (h : Apart total s)
    (hoverlap : ¬ Along Shared.step Alone s ms) : Lossy total.length (Lib.run Shared.step s ms) := by
  induction ms generalizing s with
  | nil => exact absurd trivial hoverlap
  | cons m ms ih =>
    by_cases halone : s.Alone m
    · exact ih (h.step halone) fun hrest => hoverlap ⟨halone, hrest⟩
    · have hlossy : Throughout Shared.step
          (fun s => Bounded total.length s ∧ Lossy total.length s) (Shared.step m s) ms :=
        throughout_of_invariant (fun _ m h => ⟨h.1.step m, h.2.step m h.1⟩)
          ⟨h.bounded.step m, lossy_of_overlap halone⟩ ms
      exact hlossy.final.2

/-- Once all items are written, the list has each exactly once if and only if
no worker read while another held a copy. -/
theorem perm_iff_alone {s : Shared α} {ms : List CellMove} (hidle : ∀ w ∈ s.workers, w.held = none)
    (hdone : (Lib.run Shared.step s ms).Finished) :
    (Lib.run Shared.step s ms).cell.Perm (s.cell ++ s.pending) ↔ Along Shared.step Alone s ms := by
  have hnone : ∀ i copy, ¬ s.Holds i copy := by
    rintro i copy ⟨w, hw, hheld⟩
    rw [hidle w (List.mem_of_getElem? hw)] at hheld
    cases hheld
  have hapart : Apart (s.cell ++ s.pending) s :=
    ⟨fun i _ copy _ hi => absurd hi (hnone i copy), fun i copy hi => absurd hi (hnone i copy), .refl _⟩
  have hbusy : (Lib.run Shared.step s ms).Busy :=
    (throughout_of_invariant (fun _ m => Busy.step m)
      (fun w hw hheld => absurd (hidle w hw) hheld) ms).final
  constructor
  · intro hperm
    by_contra hoverlap
    rcases lossy_run hapart hoverlap with ⟨i, j, copy, copy', -, hi, -⟩ | ⟨i, copy, hi, -⟩ | ⟨hlt, -⟩
    · exact hbusy.not_holds hdone hi
    · exact hbusy.not_holds hdone hi
    · rw [hdone.pending, ← hperm.length_eq] at hlt
      simp at hlt
  · intro halone
    simpa [hdone.pending] using (hapart.run halone).perm

end Shared

end Lib
