import Mathlib.Data.List.Sort
import Mathlib.Data.String.Basic
import PeerWan.Lib.Table

/-!
# JSON documents

Documents as Go's `encoding/json` reads and writes them, once they are parsed.
A typed decoder gets what the target holds already: `null` and an absent member
leave it, a member of another type leaves it and is an error, and the decoder
goes on after it. Numbers are the integers that a `float64` has, so reading
them into an untyped value loses nothing. The last of two members with one name
counts, and names are compared as they are.
-/

namespace Lib

structure Int53 where
  val : Int
  small : val.natAbs < 2 ^ 53
  deriving DecidableEq, Repr

inductive Json where
  | null
  | bool (b : Bool)
  | num (k : Int53)
  | str (s : String)
  | arr (elems : List Json)
  | obj (members : List (String × Json))

namespace Json

def keyOrder {α : Type} : MapOrder (String × α) where
  order l := l.insertionSort fun a b => a.1 ≤ b.1
  perm l := List.perm_insertionSort _ l

def members (kvs : List (String × Json)) : StrMap Json := Table.ofList kvs

mutual

/-- A document read into an untyped value and written again. -/
def untyped : Json → Json
  | .arr elems => .arr (untypedList elems)
  | .obj kvs => .obj ((members (untypedMembers kvs)).range keyOrder)
  | j => j

def untypedList : List Json → List Json
  | [] => []
  | j :: rest => untyped j :: untypedList rest

def untypedMembers : List (String × Json) → List (String × Json)
  | [] => []
  | (k, j) :: rest => (k, untyped j) :: untypedMembers rest

end

-- ---------------------------------------------------------------------------
-- Decoders
-- ---------------------------------------------------------------------------

/-- What a target holds after a document is read into it, and whether there was no error. -/
abbrev Decoder (α : Type) := Json → α → α × Bool

variable {α : Type}

def string : Decoder String
  | .str s, _ => (s, true)
  | .null, old => (old, true)
  | _, old => (old, false)

def boolean : Decoder Bool
  | .bool b, _ => (b, true)
  | .null, old => (old, true)
  | _, old => (old, false)

def int : Decoder Int53
  | .num k, _ => (k, true)
  | .null, old => (old, true)
  | _, old => (old, false)

/-- Elements are read into those that the slice has. -/
def slice (zero : α) (dec : Decoder α) : Decoder (List α)
  | .arr elems, old =>
    let read := elems.mapIdx fun i j => dec j (old.getD i zero)
    (read.map Prod.fst, read.all Prod.snd)
  | .null, _ => ([], true)
  | _, old => (old, false)

/-- Entries are added to those that the map has. -/
def dict (zero : α) (dec : Decoder α) : Decoder (StrMap α)
  | .obj kvs, old =>
    ((kvs.map fun kv => (kv.1, (dec kv.2 zero).1)).foldl Table.put old, kvs.all fun kv => (dec kv.2 zero).2)
  | .null, _ => (∅, true)
  | _, old => (old, false)

/-- A nil pointer gets a target. -/
def pointer (zero : α) (dec : Decoder α) : Decoder (Option α)
  | .null, _ => (none, true)
  | j, old => ((dec j (old.getD zero)).map some id)

def field (m : StrMap Json) (name : String) (dec : Decoder α) (old : α) : α × Bool :=
  match m.get? name with
  | some kv => dec kv.2 old
  | none => (old, true)

-- ---------------------------------------------------------------------------
-- Encoders
-- ---------------------------------------------------------------------------

def present (fields : List (String × Option Json)) : List (String × Json) :=
  fields.filterMap fun f => f.2.map (f.1, ·)

def ofSlice (enc : α → Json) (isNil : Bool) (l : List α) : Json :=
  if l = [] ∧ isNil then .null else .arr (l.map enc)

def ofDict (enc : α → Json) (t : StrMap α) : Json := .obj ((t.range keyOrder).map fun kv => (kv.1, enc kv.2))

def omitEmpty [DecidableEq α] (zero : α) (enc : α → Json) (x : α) : Option Json :=
  if x = zero then none else some (enc x)

-- ---------------------------------------------------------------------------
-- Members
-- ---------------------------------------------------------------------------

section

variable {kvs : List (String × Json)} {k : String}

theorem untypedMembers_eq (kvs : List (String × Json)) :
    untypedMembers kvs = kvs.map fun kv => (kv.1, untyped kv.2) := by
  induction kvs with
  | nil => rfl
  | cons kv rest ih => rw [untypedMembers, ih, List.map_cons]

theorem untypedList_eq (elems : List Json) : untypedList elems = elems.map untyped := by
  induction elems with
  | nil => rfl
  | cons j rest ih => rw [untypedList, ih, List.map_cons]

theorem get?_members_untyped (kvs : List (String × Json)) (k : String) :
    (members (untypedMembers kvs)).get? k = ((members kvs).get? k).map fun kv => (kv.1, untyped kv.2) := by
  have hfold : ∀ t t' : StrMap Json, (∀ k, t'.get? k = (t.get? k).map fun kv => (kv.1, untyped kv.2)) →
      ∀ k, ((kvs.map fun kv => (kv.1, untyped kv.2)).foldl Table.put t').get? k =
        ((kvs.foldl Table.put t).get? k).map fun kv => (kv.1, untyped kv.2) := by
    induction kvs with
    | nil => exact fun _ _ h => h
    | cons kv rest ih =>
      intro t t' h
      refine ih _ _ fun k => ?_
      rw [Table.get?_put, Table.get?_put, h]
      split <;> rfl
  rw [untypedMembers_eq]
  exact hfold ∅ ∅ (fun _ => rfl) k

theorem get?_members_range (t : StrMap Json) (k : String) : (members (t.range keyOrder)).get? k = t.get? k :=
  Table.get?_ofList_range ..

theorem get?_members (hnodup : (kvs.map Prod.fst).Nodup) :
    (members kvs).get? k = kvs.find? fun kv => kv.1 = k := by
  rw [members, Table.ofList, Table.get?_foldl_put kvs ∅ hnodup, Table.get?_empty, Option.or_none]

theorem keys_present (fields : List (String × Option Json)) :
    ((present fields).map Prod.fst).Sublist (fields.map Prod.fst) := by
  induction fields with
  | nil => exact .slnil
  | cons f rest ih =>
    obtain ⟨name, o⟩ := f
    cases o with
    | none => exact ih.cons name
    | some j => exact ih.cons_cons name

theorem get?_members_present {fields : List (String × Option Json)} {o : Option Json}
    (hnodup : (fields.map Prod.fst).Nodup) (h : (k, o) ∈ fields) :
    (members (present fields)).get? k = o.map (k, ·) := by
  have hkeys := keys_present fields
  rw [get?_members (hnodup.sublist hkeys)]
  cases o with
  | some j => exact (Table.find?_eq_some (hnodup.sublist hkeys)).mpr ⟨List.mem_filterMap.mpr ⟨_, h, rfl⟩, rfl⟩
  | none =>
    refine List.find?_eq_none.mpr fun kv hkv hk => ?_
    obtain ⟨f, hf, hpresent⟩ := List.mem_filterMap.mp hkv
    obtain ⟨j, hj, rfl⟩ := Option.map_eq_some_iff.mp hpresent
    have hsame : f = (k, none) := List.inj_on_of_nodup_map hnodup hf h (by simpa using hk)
    rw [hsame] at hj
    cases hj

end

-- ---------------------------------------------------------------------------
-- What is read back
-- ---------------------------------------------------------------------------

theorem field_some {α : Type} {m : StrMap Json} {k : String} {j : Json} (h : m.get? k = some (k, j))
    (dec : Decoder α) (old : α) : field m k dec old = dec j old := by
  rw [field, h]

theorem field_none {α : Type} {m : StrMap Json} {k : String} (h : m.get? k = none)
    (dec : Decoder α) (old : α) : field m k dec old = (old, true) := by
  rw [field, h]

/-- What stands for a value reads as one with `P`, typed or untyped at first, into
a target that has nothing yet or has read the value before. -/
structure Encodes (dec : Decoder α) (zero : α) (P : α → Prop) (o : Option Json) : Prop where
  typed : ∀ j, o = some j → ∀ old, old = zero ∨ P old → P (dec j old).1 ∧ (dec j old).2 = true
  untyped : ∀ j, o = some j → ∀ old, old = zero ∨ P old → P (dec j.untyped old).1 ∧ (dec j.untyped old).2 = true
  absent : o = none → P zero

variable {dec : Decoder α} {zero x : α} {P : α → Prop} {enc : α → Json}

theorem Encodes.field {o : Option Json} (h : Encodes dec zero P o) {m : StrMap Json} {k : String} {old : α}
    (hm : m.get? k = o.map (k, ·) ∨ m.get? k = o.map fun j => (k, j.untyped)) (hold : old = zero ∨ P old) :
    P (field m k dec old).1 ∧ (field m k dec old).2 = true := by
  unfold Json.field
  cases o with
  | none =>
    have hm' : m.get? k = none := hm.elim id id
    rw [hm']
    exact ⟨hold.elim (fun hz => hz ▸ h.absent rfl) id, rfl⟩
  | some j =>
    rcases hm with hm | hm
    · rw [hm]
      exact h.typed j rfl old hold
    · rw [hm]
      exact h.untyped j rfl old hold

theorem Encodes.omitEmpty [DecidableEq α] (h : Encodes dec zero P (some (enc x))) (hx : P x) :
    Encodes dec zero P (Json.omitEmpty zero enc x) := by
  unfold Json.omitEmpty
  split
  next hzero => exact ⟨nofun, nofun, fun _ => hzero ▸ hx⟩
  next => exact h

theorem encodes_string (s : String) : Encodes string "" (· = s) (some (.str s)) := by
  constructor
  · rintro _ ⟨⟩ _ _
    exact ⟨rfl, rfl⟩
  · rintro _ ⟨⟩ _ _
    exact ⟨rfl, rfl⟩
  · nofun

theorem encodes_boolean (b : Bool) : Encodes boolean false (· = b) (some (.bool b)) := by
  constructor
  · rintro _ ⟨⟩ _ _
    exact ⟨rfl, rfl⟩
  · rintro _ ⟨⟩ _ _
    exact ⟨rfl, rfl⟩
  · nofun

theorem encodes_int (zero k : Int53) : Encodes int zero (· = k) (some (.num k)) := by
  constructor
  · rintro _ ⟨⟩ _ _
    exact ⟨rfl, rfl⟩
  · rintro _ ⟨⟩ _ _
    exact ⟨rfl, rfl⟩
  · nofun

theorem encodes_pointer {o : Option α} (h : ∀ x, o = some x → Encodes dec zero (· = x) (some (enc x)))
    (hobj : ∀ x, ∃ kvs, enc x = .obj kvs) : Encodes (pointer zero dec) none (· = o) (o.map enc) := by
  cases o with
  | none => exact ⟨nofun, nofun, fun _ => rfl⟩
  | some x =>
    have hold : ∀ old : Option α, old = none ∨ old = some x → old.getD zero = zero ∨ old.getD zero = x := by
      rintro old (rfl | rfl)
      · exact .inl rfl
      · exact .inr rfl
    obtain ⟨kvs, hkvs⟩ := hobj x
    refine ⟨fun j hj old ho => ?_, fun j hj old ho => ?_, nofun⟩
    · obtain rfl := Option.some.inj hj
      obtain ⟨hread, hok⟩ := (h x rfl).typed _ rfl _ (hold old ho)
      rw [hkvs] at hread hok ⊢
      exact ⟨congrArg some hread, hok⟩
    · obtain rfl := Option.some.inj hj
      obtain ⟨hread, hok⟩ := (h x rfl).untyped _ rfl _ (hold old ho)
      rw [hkvs, Json.untyped] at hread hok ⊢
      exact ⟨congrArg some hread, hok⟩

theorem slice_map {f : α → Json} {l old : List α}
    (h : ∀ x ∈ l, ∀ y, y = zero ∨ y = x → (dec (f x) y).1 = x ∧ (dec (f x) y).2 = true) (hold : old = [] ∨ old = l) :
    slice zero dec (.arr (l.map f)) old = (l, true) := by
  have hread : (l.map f).mapIdx (fun i j => dec j (old.getD i zero)) = l.map (·, true) := by
    refine List.ext_getElem? fun i => ?_
    rw [List.getElem?_mapIdx, List.getElem?_map, List.getElem?_map]
    cases hi : l[i]? with
    | none => rfl
    | some x =>
      have hy : old.getD i zero = zero ∨ old.getD i zero = x := by
        rcases hold with rfl | rfl
        · exact .inl rfl
        · exact .inr (by rw [List.getD_eq_getElem?_getD, hi, Option.getD_some])
      exact congrArg some (Prod.ext_iff.mpr (h x (List.mem_of_getElem? hi) _ hy))
  simp only [slice, hread, List.map_map, List.all_map]
  simp [Function.comp_def]

theorem encodes_slice {l : List α} (h : ∀ x ∈ l, Encodes dec zero (· = x) (some (enc x))) (isNil : Bool) :
    Encodes (slice zero dec) [] (· = l) (some (ofSlice enc isNil l)) := by
  have htyped : ∀ old, old = [] ∨ old = l → slice zero dec (.arr (l.map enc)) old = (l, true) :=
    fun old => slice_map fun x hx y hy => (h x hx).typed _ rfl y hy
  have huntyped : ∀ old, old = [] ∨ old = l → slice zero dec (.arr (l.map fun x => (enc x).untyped)) old = (l, true) :=
    fun old => slice_map fun x hx y hy => (h x hx).untyped _ rfl y hy
  refine ⟨fun j hj old hold => ?_, fun j hj old hold => ?_, nofun⟩
  · obtain rfl := Option.some.inj hj
    unfold ofSlice
    split
    next hnil => exact ⟨hnil.1.symm, rfl⟩
    next => exact Prod.ext_iff.mp (htyped old hold)
  · obtain rfl := Option.some.inj hj
    unfold ofSlice
    split
    next hnil => exact ⟨hnil.1.symm, rfl⟩
    next =>
      rw [Json.untyped, untypedList_eq, List.map_map]
      exact Prod.ext_iff.mp (huntyped old hold)

theorem dict_eq {t old : StrMap α} {kvs : List (String × Json)} (hnodup : (kvs.map Prod.fst).Nodup)
    (hread : ∀ kv ∈ kvs, ∃ x, (kv.1, x) ∈ t.rows ∧ (dec kv.2 zero).1 = x ∧ (dec kv.2 zero).2 = true)
    (hall : ∀ kv ∈ t.rows, kv.1 ∈ kvs.map Prod.fst) (hold : old = ∅ ∨ ∀ k, old.get? k = t.get? k) :
    (∀ k, (dict zero dec (.obj kvs) old).1.get? k = t.get? k) ∧ (dict zero dec (.obj kvs) old).2 = true := by
  constructor
  · intro k
    have hkeys : ((kvs.map fun kv => (kv.1, (dec kv.2 zero).1)).map Prod.fst).Nodup := by
      rw [List.map_map]
      exact hnodup
    rw [dict, Table.get?_foldl_put _ _ hkeys]
    cases hget : t.get? k with
    | some row =>
      obtain ⟨hrow, rfl⟩ := Table.get?_eq_some.mp hget
      obtain ⟨kv, hkv, hk⟩ := List.mem_map.mp (hall row hrow)
      obtain ⟨x, hx, hdec, -⟩ := hread kv hkv
      obtain rfl : (kv.1, x) = row := List.inj_on_of_nodup_map t.nodup hx hrow hk
      have hmem : (kv.1, x) ∈ kvs.map fun kv => (kv.1, (dec kv.2 zero).1) :=
        List.mem_map.mpr ⟨kv, hkv, congrArg (Prod.mk kv.1) hdec⟩
      rw [(Table.find?_eq_some hkeys).mpr ⟨hmem, rfl⟩, Option.some_or]
    | none =>
      have hfind : (kvs.map fun kv => (kv.1, (dec kv.2 zero).1)).find? (fun kv => kv.1 = k) = none := by
        refine List.find?_eq_none.mpr fun row hrow hk => ?_
        obtain ⟨kv, hkv, rfl⟩ := List.mem_map.mp hrow
        obtain ⟨x, hx, -, -⟩ := hread kv hkv
        exact Table.get?_eq_none.mp hget _ hx (by simpa using hk)
      rw [hfind, Option.none_or]
      rcases hold with rfl | hold
      · rfl
      · rw [hold, hget]
  · refine List.all_eq_true.mpr fun kv hkv => ?_
    obtain ⟨x, -, -, hok⟩ := hread kv hkv
    exact hok

theorem encodes_dict {t : StrMap α} (h : ∀ kv ∈ t.rows, Encodes dec zero (· = kv.2) (some (enc kv.2))) :
    Encodes (dict zero dec) ∅ (fun u => ∀ k, u.get? k = t.get? k) (some (ofDict enc t)) := by
  have hnodup : (((t.range keyOrder).map fun kv => (kv.1, enc kv.2)).map Prod.fst).Nodup := by
    rw [List.map_map]
    exact t.nodup_range keyOrder
  refine ⟨fun j hj old hold => ?_, fun j hj old hold => ?_, nofun⟩
  · obtain rfl := Option.some.inj hj
    refine dict_eq hnodup (fun kv hkv => ?_) (fun row hrow => ?_) hold
    · obtain ⟨row, hrow, rfl⟩ := List.mem_map.mp hkv
      have hmem := Table.mem_range.mp hrow
      exact ⟨row.2, hmem, (h row hmem).typed _ rfl zero (.inl rfl)⟩
    · rw [List.map_map]
      exact List.mem_map_of_mem (Table.mem_range.mpr hrow)
  · obtain rfl := Option.some.inj hj
    rw [ofDict, Json.untyped]
    refine dict_eq (Table.nodup_range ..) (fun kv hkv => ?_) (fun row hrow => ?_) hold
    · have hget := Table.get?_of_mem (Table.mem_range.mp hkv)
      rw [get?_members_untyped, get?_members hnodup] at hget
      obtain ⟨kv', hfind, rfl⟩ := Option.map_eq_some_iff.mp hget
      obtain ⟨row, hrow, rfl⟩ := List.mem_map.mp (List.mem_of_find?_eq_some hfind)
      have hmem := Table.mem_range.mp hrow
      exact ⟨row.2, hmem, (h row hmem).untyped _ rfl zero (.inl rfl)⟩
    · have hfind := (Table.find?_eq_some hnodup).mpr
        ⟨List.mem_map.mpr ⟨row, Table.mem_range.mpr hrow, rfl⟩, rfl⟩
      have hget := get?_members_untyped ((t.range keyOrder).map fun kv => (kv.1, enc kv.2)) row.1
      rw [get?_members hnodup, hfind] at hget
      exact List.mem_map.mpr ⟨_, Table.mem_range.mpr (Table.get?_eq_some.mp hget).1, rfl⟩

end Json

end Lib
