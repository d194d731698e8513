import Mathlib.Data.List.Induction
import PeerWan.Lib.KV
import PeerWan.Lib.StableSort

/-!
# Records filed in a key-value store

Each record has a number, and is written under a name that the number gives it,
among names that begin with one prefix. The number comes from a rank, the time
of the record, say. A listing of the prefix, sorted by the ranks, then has the
last record of every number in order, whatever the order of the names.
-/

namespace Lib

namespace Table

variable {α κ ι : Type} {key : α → κ} [LinearOrder ι] {rank : α → ι}

def sorted (rank : α → ι) (t : Table key) : List α := t.rows.insertionSort fun a b => rank a ≤ rank b

theorem sorted_of_perm (rank : α → ι) (number : ι → κ) {t : Table fun a => number (rank a)} {l : List α}
    (h : l.Perm t.rows) : (l.insertionSort fun a b => rank a ≤ rank b) = t.sorted rank := by
  have hnodup : (t.rows.map rank).Nodup := List.Nodup.of_map number (by rw [List.map_map]; exact t.nodup)
  exact (stableSort_insertionSort rank t.rows).eq_of_perm (stableSort_insertionSort rank l) h hnodup

section

variable [DecidableEq κ]

theorem rows_foldl_put {t : Table key} {l : List α} (h : (t.rows ++ l).Pairwise fun a b => key a ≠ key b) :
    (l.foldl put t).rows = t.rows ++ l := by
  induction l generalizing t with
  | nil => exact (List.append_nil _).symm
  | cons a l ih =>
    have hbefore : ∀ b ∈ t.rows, key b ≠ key a := fun b hb =>
      (List.pairwise_append.mp h).2.2 b hb a List.mem_cons_self
    have hput : (t.put a).rows = t.rows ++ [a] :=
      congrArg (· ++ [a]) (List.filter_eq_self.mpr fun b hb => by simpa using hbefore b hb)
    rw [List.foldl_cons, ih (by rwa [hput, List.append_assoc]), hput, List.append_assoc]
    rfl

theorem rows_ofList {l : List α} (h : l.Pairwise fun a b => key a ≠ key b) :
    (ofList l : Table key).rows = l := rows_foldl_put (by rwa [rows_empty, List.nil_append])

theorem mem_ofList {l : List α} {a : α} (h : a ∈ (ofList l : Table key).rows) : a ∈ l := by
  induction l using List.reverseRecOn with
  | nil => exact h
  | append_singleton l b ih =>
    rw [ofList, List.foldl_append] at h
    rcases mem_put.mp h with ⟨h, -⟩ | rfl
    · exact List.mem_append_left _ (ih h)
    · exact List.mem_append_right _ List.mem_cons_self

theorem sorted_ofList {l : List α} (h : l.Pairwise fun a b => rank a < rank b ∧ key a ≠ key b) :
    (ofList l : Table key).sorted rank = l := by
  rw [sorted, rows_ofList (h.imp fun h => h.2)]
  exact (h.imp fun h => h.1.le).insertionSort_eq

end

end Table

namespace KV

variable {V α κ : Type} [DecidableEq κ] {key : α → κ} {pfx : String} {name : κ → String} {enc : α → V}

/-- Under the prefix there is what the table has, each record under its name. -/
structure Files (pfx : String) (name : κ → String) (enc : α → V) (kv : KV V) (t : Table key) : Prop where
  filed : ∀ x, kv.value? (name x) = (t.get? x).map enc
  only : ∀ k, pfx.toList <+: k.toList → (∀ x, name x ≠ k) → kv.value? k = none

variable {kv kv' : KV V} {t : Table key}

theorem Keeps.mono {P Q : String → Prop} (h : kv.Keeps P kv') (hpq : ∀ k, Q k → P k) : kv.Keeps Q kv' :=
  ⟨fun k hk => h.get? k (hpq k hk), h.index, h.fails⟩

theorem Files.keeps (h : kv.Files pfx name enc t) (hname : ∀ x, pfx.toList <+: (name x).toList)
    (hkeeps : kv.Keeps (pfx.toList <+: ·.toList) kv') : kv'.Files pfx name enc t where
  filed x := by rw [value?, hkeeps.get? _ (hname x), ← value?, h.filed]
  only k hk hno := by rw [value?, hkeeps.get? k hk, ← value?, h.only k hk hno]

theorem Files.called (h : kv.Files pfx name enc t) : kv.called.Files pfx name enc t := ⟨h.filed, h.only⟩

theorem Files.write (h : kv.Files pfx name enc t) (hinj : Function.Injective name) (a : α) :
    (kv.write (name (key a)) (enc a)).Files pfx name enc (t.put a) where
  filed x := by
    rw [value?_write, Table.get?_put, h.filed]
    by_cases hx : key a = x
    · rw [if_pos (congrArg name hx), if_pos hx]
      rfl
    · rw [if_neg fun hsame => hx (hinj hsame), if_neg hx]
  only k hk hno := by rw [value?_write, if_neg (hno _), h.only k hk hno]

theorem Files.listing (h : kv.Files pfx name enc t) (hname : ∀ x, pfx.toList <+: (name x).toList)
    (hinj : Function.Injective name) {dec : V → Option α} (hdec : ∀ a ∈ t.rows, dec (enc a) = some a) :
    (((kv.keys pfx).filterMap kv.get?).filterMap fun e => dec e.value).Perm t.rows := by
  have hvalue : ∀ k, ((kv.get? k).bind fun e => dec e.value) = (kv.value? k).bind dec := by
    intro k
    cases hget : kv.get? k <;> simp [value?, hget]
  have hsome : ∀ k, (∃ e, kv.get? k = some e) ↔ (kv.value? k).isSome := by
    intro k
    rw [value?, Option.isSome_map, Option.isSome_iff_exists]
  have hkeys : (kv.keys pfx).Perm (t.rows.map fun a => name (key a)) := by
    have hnodup : (t.rows.map fun a => name (key a)).Nodup := by
      have hmap := t.nodup.map hinj
      rwa [List.map_map] at hmap
    refine (List.perm_ext_iff_of_nodup (nodup_keys pfx kv) hnodup).mpr fun k => ?_
    rw [mem_keys, List.mem_map, hsome]
    constructor
    · rintro ⟨hk, hget⟩
      by_cases hno : ∀ x, name x ≠ k
      · rw [h.only k hk hno] at hget
        cases hget
      · obtain ⟨x, rfl⟩ := not_forall_not.mp hno
        rw [h.filed, Option.isSome_map, Option.isSome_iff_exists] at hget
        obtain ⟨a, ha⟩ := hget
        obtain ⟨hmem, rfl⟩ := Table.get?_eq_some.mp ha
        exact ⟨a, hmem, rfl⟩
    · rintro ⟨a, ha, rfl⟩
      rw [h.filed, Table.get?_of_mem ha]
      exact ⟨hname _, rfl⟩
  have hread : (t.rows.map fun a => name (key a)).filterMap (fun k => (kv.value? k).bind dec) = t.rows := by
    rw [List.filterMap_map]
    refine (List.filterMap_congr fun a ha => ?_).trans List.filterMap_some
    rw [Function.comp_apply, h.filed, Table.get?_of_mem ha]
    exact hdec a ha
  rw [List.filterMap_filterMap, List.filterMap_congr fun k _ => hvalue k]
  exact hread ▸ hkeys.filterMap _

end KV

end Lib
