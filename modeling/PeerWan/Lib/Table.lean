import Mathlib.Data.List.Nodup
import Mathlib.Data.List.Perm.Basic

/-!
# Keyed tables and the order of a range loop

A table is a finite map whose rows carry their own key. Uniqueness of the keys
is a field, so a table with two rows under one key cannot be built. A loop over
a hash map visits the rows in an order the program does not control: a
`MapOrder` is one such order, and a law about a loop holds for each of them.
-/

namespace Lib

/-- The order in which one loop over a map visits its entries. -/
structure MapOrder (α : Type) where
  order : List α → List α
  perm : ∀ l, (order l).Perm l

instance : Inhabited (MapOrder α) := ⟨⟨id, fun _ => .refl _⟩⟩

/-- A row list with one row per key. -/
structure Table {α κ : Type} (key : α → κ) where
  rows : List α
  nodup : (rows.map key).Nodup

abbrev StrMap (α : Type) := Table (Prod.fst : String × α → String)

namespace Table

variable {α κ : Type} {key : α → κ}

theorem ext_rows {t u : Table key} (h : t.rows = u.rows) : t = u := by
  cases t
  cases u
  cases h
  rfl

instance [DecidableEq α] : DecidableEq (Table key) := fun t u =>
  decidable_of_iff (t.rows = u.rows) ⟨ext_rows, fun h => h ▸ rfl⟩

instance [Repr α] : Repr (Table key) := ⟨fun t n => reprPrec t.rows n⟩

def empty : Table key := ⟨[], List.nodup_nil⟩

instance : EmptyCollection (Table key) := ⟨empty⟩
instance : Inhabited (Table key) := ⟨empty⟩

@[simp] theorem rows_empty : (∅ : Table key).rows = [] := rfl

/-- The rows as one loop over the table visits them. -/
def range (t : Table key) (o : MapOrder α) : List α := o.order t.rows

theorem range_perm (t : Table key) (o : MapOrder α) : (t.range o).Perm t.rows := o.perm _

@[simp] theorem mem_range {t : Table key} {o : MapOrder α} : a ∈ t.range o ↔ a ∈ t.rows :=
  (t.range_perm o).mem_iff

theorem nodup_range (t : Table key) (o : MapOrder α) : ((t.range o).map key).Nodup :=
  ((t.range_perm o).map key).nodup_iff.mpr t.nodup

variable [DecidableEq κ]

def get? (t : Table key) (k : κ) : Option α := t.rows.find? (fun a => key a = k)

/-- Writes a row under its own key, in place of the row that had it. -/
def put (t : Table key) (a : α) : Table key where
  rows := t.rows.filter (fun b => key b ≠ key a) ++ [a]
  nodup := by
    rw [List.map_append, List.nodup_append]
    refine ⟨t.nodup.sublist (List.filter_sublist.map key), by simp, ?_⟩
    intro k hk k' hk'
    simp only [List.mem_map, List.mem_filter, decide_eq_true_eq] at hk
    obtain ⟨b, ⟨-, hb⟩, rfl⟩ := hk
    simp only [List.map_cons, List.map_nil, List.mem_singleton] at hk'
    exact hk' ▸ hb

@[simp] theorem get?_empty (k : κ) : (∅ : Table key).get? k = none := rfl

theorem mem_put {t : Table key} : b ∈ (t.put a).rows ↔ (b ∈ t.rows ∧ key b ≠ key a) ∨ b = a := by
  simp [put]

theorem find?_eq_some {l : List α} (hl : (l.map key).Nodup) {k : κ} {a : α} :
    l.find? (fun b => key b = k) = some a ↔ a ∈ l ∧ key a = k := by
  constructor
  · intro h
    exact ⟨List.mem_of_find?_eq_some h, by simpa using List.find?_some h⟩
  · rintro ⟨ha, rfl⟩
    obtain ⟨b, hb⟩ : ∃ b, l.find? (fun b => key b = key a) = some b := by
      rw [← Option.isSome_iff_exists, List.find?_isSome]
      exact ⟨a, ha, by simp⟩
    have hk : key b = key a := by simpa using List.find?_some hb
    rw [hb, List.inj_on_of_nodup_map hl (List.mem_of_find?_eq_some hb) ha hk]

theorem get?_eq_some {t : Table key} : t.get? k = some a ↔ a ∈ t.rows ∧ key a = k :=
  find?_eq_some t.nodup

theorem get?_eq_none {t : Table key} : t.get? k = none ↔ ∀ a ∈ t.rows, key a ≠ k := by
  simp [get?]

theorem key_of_get? {t : Table key} (h : t.get? k = some a) : key a = k := (get?_eq_some.mp h).2

theorem get?_of_mem {t : Table key} (h : a ∈ t.rows) : t.get? (key a) = some a :=
  get?_eq_some.mpr ⟨h, rfl⟩

theorem filter_key (t : Table key) (k : κ) : (t.rows.filter fun a => key a = k) = (t.get? k).toList := by
  have hat_most : ∀ (l : List α), (l.map key).Nodup →
      (l.filter fun a => key a = k) = (l.find? fun a => key a = k).toList := by
    intro l hl
    induction l with
    | nil => rfl
    | cons a l ih =>
      rw [List.map_cons, List.nodup_cons] at hl
      rw [List.filter_cons, List.find?_cons]
      cases hk : decide (key a = k) with
      | false => simpa using ih hl.2
      | true =>
        have hrest : (l.filter fun b => key b = k) = [] := by
          rw [List.filter_eq_nil_iff]
          intro b hb hbk
          refine hl.1 (List.mem_map.mpr ⟨b, hb, ?_⟩)
          rw [of_decide_eq_true hbk, of_decide_eq_true hk]
        simp [hrest]
  exact hat_most t.rows t.nodup

@[simp] theorem get?_put (t : Table key) (a : α) (k : κ) :
    (t.put a).get? k = if key a = k then some a else t.get? k := by
  split
  · next hk => exact get?_eq_some.mpr ⟨mem_put.mpr (.inr rfl), hk⟩
  · next hk =>
    cases h : t.get? k with
    | none =>
      rw [get?_eq_none] at h ⊢
      intro b hb
      rcases mem_put.mp hb with ⟨hb, -⟩ | rfl
      · exact h b hb
      · exact hk
    | some b =>
      obtain ⟨hb, rfl⟩ := get?_eq_some.mp h
      exact get?_eq_some.mpr ⟨mem_put.mpr (.inl ⟨hb, Ne.symm hk⟩), rfl⟩

def erase (t : Table key) (k : κ) : Table key where
  rows := t.rows.filter fun a => key a ≠ k
  nodup := t.nodup.sublist (List.filter_sublist.map key)

theorem mem_erase {t : Table key} : a ∈ (t.erase k).rows ↔ a ∈ t.rows ∧ key a ≠ k := by
  simp [erase]

@[simp] theorem get?_erase (t : Table key) (k k' : κ) :
    (t.erase k).get? k' = if k = k' then none else t.get? k' := by
  split
  · next hk =>
    subst hk
    exact get?_eq_none.mpr fun a ha => (mem_erase.mp ha).2
  · next hk =>
    cases h : t.get? k' with
    | none =>
      rw [get?_eq_none] at h ⊢
      exact fun a ha => h a (mem_erase.mp ha).1
    | some a =>
      obtain ⟨ha, rfl⟩ := get?_eq_some.mp h
      exact get?_eq_some.mpr ⟨mem_erase.mpr ⟨ha, Ne.symm hk⟩, rfl⟩

theorem length_put_le {t : Table key} (h : t.get? (key a) = some b) :
    (t.put a).rows.length ≤ t.rows.length := by
  have hlt : (t.rows.filter fun b => key b ≠ key a).length < t.rows.length := by
    rw [List.length_filter_lt_length_iff_exists]
    exact ⟨b, (get?_eq_some.mp h).1, by simp [(get?_eq_some.mp h).2]⟩
  rw [put, List.length_append, List.length_singleton]
  omega

theorem put_perm_map {t : Table key} (h : t.get? (key a) = some b) :
    (t.put a).rows.Perm (t.rows.map fun c => if key c = key a then a else c) := by
  have hk : (t.rows.map fun c => if key c = key a then a else c).map key = t.rows.map key := by
    rw [List.map_map]
    refine List.map_congr_left fun c _ => ?_
    simp only [Function.comp_apply]
    split
    · next hc => exact hc.symm
    · rfl
  rw [List.perm_ext_iff_of_nodup (t.put a).nodup.of_map (List.Nodup.of_map key (hk ▸ t.nodup))]
  intro c
  obtain ⟨hb, hkb⟩ := get?_eq_some.mp h
  rw [mem_put, List.mem_map]
  constructor
  · rintro (⟨hc, hne⟩ | rfl)
    · exact ⟨c, hc, if_neg hne⟩
    · exact ⟨b, hb, if_pos hkb⟩
  · rintro ⟨d, hd, rfl⟩
    by_cases hda : key d = key a
    · exact .inr (if_pos hda)
    · exact .inl (by simpa [hda] using hd)

theorem find?_range (t : Table key) (o : MapOrder α) (k : κ) :
    (t.range o).find? (fun a => key a = k) = t.get? k := by
  cases h : t.get? k with
  | none =>
    rw [get?_eq_none] at h
    simpa using h
  | some a =>
    rw [find?_eq_some (t.nodup_range o), mem_range]
    exact get?_eq_some.mp h

theorem filter_range (t : Table key) (o : MapOrder α) (k : κ) :
    (t.range o).filter (fun a => key a = k) = (t.get? k).toList := by
  cases h : t.get? k with
  | none =>
    rw [get?_eq_none] at h
    simpa [List.filter_eq_nil_iff] using h
  | some a =>
    refine List.perm_singleton.mp ?_
    rw [List.perm_ext_iff_of_nodup ((t.nodup_range o).of_map.filter _) (List.nodup_singleton a)]
    intro b
    rw [List.mem_filter, mem_range, decide_eq_true_eq, ← get?_eq_some, h, Option.some.injEq,
      List.mem_singleton]
    exact eq_comm

def ofList (l : List α) : Table key := l.foldl put ∅

theorem get?_foldl_put (l : List α) (t : Table key) (hl : (l.map key).Nodup) (k : κ) :
    (l.foldl put t).get? k = (l.find? (fun a => key a = k)).or (t.get? k) := by
  induction l generalizing t with
  | nil => rfl
  | cons a l ih =>
    rw [List.map_cons, List.nodup_cons] at hl
    rw [List.foldl_cons, ih _ hl.2, get?_put, List.find?_cons]
    by_cases hk : key a = k
    · have hn : l.find? (fun b => key b = k) = none := by
        rw [List.find?_eq_none]
        intro b hb hbk
        exact hl.1 (hk ▸ (by simpa using hbk : key b = k) ▸ List.mem_map_of_mem hb)
      simp [hk, hn]
    · simp [hk]

theorem get?_ofList_range (t : Table key) (o : MapOrder α) (k : κ) :
    (ofList (t.range o) : Table key).get? k = t.get? k := by
  rw [ofList, get?_foldl_put _ _ (t.nodup_range o), find?_range]
  simp

end Table

end Lib
