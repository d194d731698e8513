import Mathlib.Data.List.Sort
import Mathlib.Data.String.Basic
import PeerWan.Lib.Table

/-!
# A key-value store with modify indices

The store that Consul documents for its KV endpoints. Every successful write
gives its key a modify index above all indices before it. A check-and-set with
index 0 writes only where the key is absent, and one with another index only
where the key has that index. A listing is in the order of the keys.

A request may also fail, and then does nothing. `fails` says which ones do.
-/

namespace Lib

structure KVEntry (V : Type) where
  key : String
  value : V
  modifyIndex : Nat
  deriving DecidableEq, Repr

/-- `next` gives the index of the write after an index: other writers may have
taken any number of indices in between. -/
structure KV (V : Type) where
  entries : Table (KVEntry.key (V := V))
  index : Nat
  index_le : ∀ e ∈ entries.rows, e.modifyIndex ≤ index
  next : Nat → Nat
  lt_next : ∀ i, i < next i
  calls : Nat := 0
  fails : Nat → Option String := fun _ => none

namespace KV

variable {V : Type}

def get? (kv : KV V) (k : String) : Option (KVEntry V) := kv.entries.get? k

def value? (kv : KV V) (k : String) : Option V := (kv.get? k).map (·.value)

def called (kv : KV V) : KV V := { kv with calls := kv.calls + 1 }

def write (k : String) (v : V) (kv : KV V) : KV V :=
  { kv with
    entries := kv.entries.put ⟨k, v, kv.next kv.index⟩
    index := kv.next kv.index
    index_le := by
      intro e he
      rcases Table.mem_put.mp he with ⟨he, -⟩ | rfl
      · exact (kv.index_le e he).trans (kv.lt_next _).le
      · exact le_rfl }

def erase (k : String) (kv : KV V) : KV V :=
  { kv with
    entries := kv.entries.erase k
    index := kv.next kv.index
    index_le := fun e he =>
      (kv.index_le e (Table.mem_erase.mp he).1).trans (kv.lt_next _).le }

def keys (pfx : String) (kv : KV V) : List String :=
  ((kv.entries.rows.map (·.key)).filter fun k => pfx.toList <+: k.toList).insertionSort (· ≤ ·)

def admits (kv : KV V) (k : String) (index : Nat) : Bool :=
  match kv.get? k with
  | none => index = 0
  | some e => index ≠ 0 ∧ e.modifyIndex = index

def request (f : KV V → β × KV V) (kv : KV V) : Except String β × KV V :=
  match kv.fails kv.calls with
  | some err => (.error err, kv.called)
  | none => (.ok (f kv).1, (f kv).2.called)

def get (k : String) : KV V → Except String (Option (KVEntry V)) × KV V :=
  request fun kv => (kv.get? k, kv)

def list (pfx : String) : KV V → Except String (List (KVEntry V)) × KV V :=
  request fun kv => ((kv.keys pfx).filterMap kv.get?, kv)

def put (k : String) (v : V) : KV V → Except String Unit × KV V :=
  request fun kv => ((), kv.write k v)

def cas (k : String) (v : V) (index : Nat) : KV V → Except String Bool × KV V :=
  request fun kv => if kv.admits k index then (true, kv.write k v) else (false, kv)

def delete (k : String) : KV V → Except String Unit × KV V :=
  request fun kv => ((), kv.erase k)

-- ---------------------------------------------------------------------------
-- What a request changes
-- ---------------------------------------------------------------------------

variable {kv kv' : KV V} {k k' : String} {v : V} {e : KVEntry V}

@[simp] theorem get?_called (kv : KV V) (k : String) : kv.called.get? k = kv.get? k := rfl

@[simp] theorem index_called (kv : KV V) : kv.called.index = kv.index := rfl

@[simp] theorem fails_called (kv : KV V) : kv.called.fails = kv.fails := rfl

@[simp] theorem fails_write (k : String) (v : V) (kv : KV V) : (kv.write k v).fails = kv.fails := rfl

@[simp] theorem index_write (k : String) (v : V) (kv : KV V) : (kv.write k v).index = kv.next kv.index := rfl

@[simp] theorem get?_write (k k' : String) (v : V) (kv : KV V) :
    (kv.write k v).get? k' = if k = k' then some ⟨k, v, kv.next kv.index⟩ else kv.get? k' :=
  Table.get?_put ..

@[simp] theorem get?_eraseKey (k k' : String) (kv : KV V) :
    (kv.erase k).get? k' = if k = k' then none else kv.get? k' :=
  Table.get?_erase ..

@[simp] theorem value?_called (kv : KV V) (k : String) : kv.called.value? k = kv.value? k := rfl

@[simp] theorem value?_write (k k' : String) (v : V) (kv : KV V) :
    (kv.write k v).value? k' = if k = k' then some v else kv.value? k' := by
  unfold value?
  rw [get?_write]
  split <;> rfl

theorem modifyIndex_le (h : kv.get? k = some e) : e.modifyIndex ≤ kv.index :=
  kv.index_le e (Table.get?_eq_some.mp h).1

theorem admits_iff {index : Nat} : kv.admits k index ↔
    (index = 0 ∧ kv.get? k = none) ∨ (index ≠ 0 ∧ ∃ e, kv.get? k = some e ∧ e.modifyIndex = index) := by
  unfold admits
  cases kv.get? k <;> simp

theorem mem_keys {pfx : String} : k ∈ kv.keys pfx ↔ pfx.toList <+: k.toList ∧ ∃ e, kv.get? k = some e := by
  rw [keys, List.mem_insertionSort, List.mem_filter, List.mem_map, decide_eq_true_eq, and_comm]
  exact and_congr_right' ⟨fun ⟨e, he, hk⟩ => ⟨e, Table.get?_eq_some.mpr ⟨he, hk⟩⟩,
    fun ⟨e, he⟩ => ⟨e, Table.get?_eq_some.mp he⟩⟩

theorem mem_listing {pfx : String} (h : e ∈ (kv.keys pfx).filterMap kv.get?) : pfx.toList <+: e.key.toList := by
  obtain ⟨k, hk, he⟩ := List.mem_filterMap.mp h
  exact Table.key_of_get? he ▸ (mem_keys.mp hk).1

theorem request_failed {m : String} (h : kv.fails kv.calls = some m) (f : KV V → β × KV V) :
    kv.request f = (.error m, kv.called) := by
  simp [request, h]

theorem request_answered (h : kv.fails kv.calls = none) (f : KV V → β × KV V) :
    kv.request f = (.ok (f kv).1, (f kv).2.called) := by
  simp [request, h]

theorem nodup_keys (pfx : String) (kv : KV V) : (kv.keys pfx).Nodup :=
  (List.perm_insertionSort _ _).nodup_iff.mpr (kv.entries.nodup.filter _)

theorem keys_congr_isSome {pfx : String}
    (h : ∀ k, pfx.toList <+: k.toList → (kv'.get? k).isSome = (kv.get? k).isSome) : kv'.keys pfx = kv.keys pfx := by
  have hperm : (kv'.keys pfx).Perm (kv.keys pfx) := by
    refine (List.perm_ext_iff_of_nodup (nodup_keys pfx kv') (nodup_keys pfx kv)).mpr fun k => ?_
    rw [mem_keys, mem_keys]
    refine and_congr_right fun hk => ?_
    rw [← Option.isSome_iff_exists, ← Option.isSome_iff_exists, h k hk]
  exact hperm.eq_of_sortedLE List.sortedLE_insertionSort List.sortedLE_insertionSort

theorem keys_congr {pfx : String} (h : ∀ k, pfx.toList <+: k.toList → kv'.value? k = kv.value? k) :
    kv'.keys pfx = kv.keys pfx := by
  refine keys_congr_isSome fun k hk => ?_
  have hsome := congrArg Option.isSome (h k hk)
  simpa only [value?, Option.isSome_map] using hsome

theorem keys_write_of_get? (h : kv.get? k = some e) (v : V) (pfx : String) :
    (kv.write k v).keys pfx = kv.keys pfx := by
  refine keys_congr_isSome fun k' _ => ?_
  rw [get?_write]
  split
  next heq => rw [← heq, h]; rfl
  next => rfl

theorem length_keys_write_le (k : String) (v : V) (pfx : String) (kv : KV V) :
    ((kv.write k v).keys pfx).length ≤ (kv.keys pfx).length + 1 := by
  have hsub : (kv.write k v).keys pfx ⊆ k :: kv.keys pfx := by
    intro k' hk'
    obtain ⟨hpfx, e, he⟩ := mem_keys.mp hk'
    rw [get?_write] at he
    split at he
    next heq => exact heq ▸ List.mem_cons_self
    next => exact List.mem_cons_of_mem _ (mem_keys.mpr ⟨hpfx, e, he⟩)
  exact (List.subperm_of_subset (nodup_keys pfx (kv.write k v)) hsub).length_le

theorem listing_congr {pfx : String} (h : ∀ k, pfx.toList <+: k.toList → kv'.value? k = kv.value? k)
    (decode : V → Option β) :
    ((kv'.keys pfx).filterMap kv'.get?).filterMap (fun e => decode e.value) =
      ((kv.keys pfx).filterMap kv.get?).filterMap fun e => decode e.value := by
  rw [List.filterMap_filterMap, List.filterMap_filterMap, keys_congr h]
  refine List.filterMap_congr fun k hk => ?_
  have hvalue := h k (mem_keys.mp hk).1
  unfold value? at hvalue
  cases h' : kv'.get? k <;> cases h'' : kv.get? k <;> simp_all

def Works (kv : KV V) : Prop := ∀ n, kv.fails n = none

theorem request_works (h : kv.Works) (f : KV V → β × KV V) :
    kv.request f = (.ok (f kv).1, (f kv).2.called) := request_answered (h kv.calls) f

theorem get_works (h : kv.Works) (k : String) : kv.get k = (.ok (kv.get? k), kv.called) := request_works h _

theorem put_works (h : kv.Works) (k : String) (v : V) : kv.put k v = (.ok (), (kv.write k v).called) :=
  request_works h _

theorem cas_works (h : kv.Works) (k : String) (v : V) (index : Nat) : kv.cas k v index =
    if kv.admits k index then (.ok true, (kv.write k v).called) else (.ok false, kv.called) := by
  rw [cas, request_works h]
  split <;> rfl

-- ---------------------------------------------------------------------------
-- The frame rule
-- ---------------------------------------------------------------------------

/-- The later state of a store in which nothing has happened to some keys. -/
structure Keeps (P : String → Prop) (kv kv' : KV V) : Prop where
  get? : ∀ k, P k → kv'.get? k = kv.get? k
  index : kv.index ≤ kv'.index
  fails : kv'.fails = kv.fails

variable {P : String → Prop}

theorem Keeps.refl (kv : KV V) : kv.Keeps P kv := ⟨fun _ _ => rfl, le_rfl, rfl⟩

theorem Keeps.trans {kv'' : KV V} (h : kv.Keeps P kv') (h' : kv'.Keeps P kv'') : kv.Keeps P kv'' where
  get? k hk := (h'.get? k hk).trans (h.get? k hk)
  index := h.index.trans h'.index
  fails := h'.fails.trans h.fails

theorem Keeps.called (kv : KV V) : kv.Keeps P kv.called := ⟨fun _ _ => rfl, le_rfl, rfl⟩

theorem Keeps.write (hk : ¬ P k) (v : V) (kv : KV V) : kv.Keeps P (kv.write k v) where
  get? k' hk' := by
    rw [get?_write, if_neg]
    rintro rfl
    exact hk hk'
  index := (kv.lt_next _).le
  fails := rfl

theorem Keeps.erase (hk : ¬ P k) (kv : KV V) : kv.Keeps P (kv.erase k) where
  get? k' hk' := by
    rw [get?_eraseKey, if_neg]
    rintro rfl
    exact hk hk'
  index := (kv.lt_next _).le
  fails := rfl

theorem Keeps.request {f : KV V → β × KV V} (h : ∀ kv : KV V, kv.Keeps P (f kv).2) (kv : KV V) :
    kv.Keeps P (kv.request f).2 := by
  unfold KV.request
  split
  · exact .called kv
  · exact (h kv).trans (.called _)

theorem Keeps.works (h : kv.Keeps P kv') (hw : kv.Works) : kv'.Works := fun n => h.fails ▸ hw n

end KV

end Lib
