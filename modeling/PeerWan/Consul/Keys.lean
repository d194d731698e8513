import PeerWan.Consul.Calls

/-!
# The keys of the Consul store

Two shapes of keys carry a node's records: a prefix with an ID, and a prefix
with an ID, a slash and a number. IDs are not restricted, and latest plans, plan
histories and the global version share one prefix, so an ID may run into what
follows it in another key. A time is printed as its `UnixNano`, which wraps.
-/

namespace PeerWan

open Lib

namespace ConsulStore

-- ---------------------------------------------------------------------------
-- Records and their keys
-- ---------------------------------------------------------------------------

inductive Single where
  | node
  | health
  | task
  | plan
  deriving DecidableEq

/-- What is kept for a node under a number: a timestamp or a version. -/
inductive Series where
  | healthHistory
  | policyStatus
  | policyDiag
  | planHistory
  deriving DecidableEq

inductive Record where
  | single (kind : Single) (id : String)
  | entry (series : Series) (nodeID : String) (number : Int)
  | version
  | settings
  deriving DecidableEq

def Single.key : Single → String → String
  | .node => nodeKey
  | .health => healthKey
  | .task => taskKey
  | .plan => planKey

def Series.key : Series → String → Int → String
  | .healthHistory => healthHistKey
  | .policyStatus => policyStatusKey
  | .policyDiag => policyDiagKey
  | .planHistory => planHistKey

/-- The number that a key prints: a version as it is, a time as nanoseconds. -/
def Series.number : Series → Int → Int
  | .healthHistory | .policyStatus | .policyDiag => unixNano
  | .planHistory => id

def Record.key : Record → String
  | .single kind id => kind.key id
  | .entry series nodeID number => series.key nodeID number
  | .version => versionKey
  | .settings => settingsKey

def Record.owner : Record → Option String
  | .single .task _ => none
  | .single _ id => some id
  | .entry _ nodeID _ => some nodeID
  | .version | .settings => none

/-- The records of the nodes with these IDs, and those of no node. -/
def Record.Over (ids : Set String) (r : Record) : Prop := ∀ id, r.owner = some id → id ∈ ids

def Record.At (times : Series → String → Set Int) : Record → Prop
  | .entry .planHistory _ _ => True
  | .entry series nodeID t => t ∈ times series nodeID
  | .single .. | .version | .settings => True

def Single.pfx : Single → String
  | .node => nodePrefix
  | .health => healthPrefix
  | .task => taskPref
  | .plan => planPrefix

def Series.pfx : Series → String
  | .healthHistory => healthHistPrefix
  | .policyStatus => policyStatusPref
  | .policyDiag => policyDiagPref
  | .planHistory => planPrefix

/-- The listing that `ListHealthHistory`, `ListPolicyStatus`, `ListPolicyDiag`
and `ListPlanHistory` read their entries from. -/
def listed (s : ConsulStore) (series : Series) (nodeID : String) : List (KVEntry ConsulValue) :=
  (s.kv.keys (series.pfx ++ nodeID ++ "/")).filterMap s.kv.get?

theorem Single.key_eq (kind : Single) (id : String) : kind.key id = kind.pfx ++ id := by
  cases kind <;> rfl

theorem Series.key_eq (series : Series) (nodeID : String) (number : Int) :
    series.key nodeID number = series.pfx ++ nodeID ++ "/" ++ toString (series.number number) := by
  cases series <;> rfl

theorem unixNano_eq_iff {t t' : Int} : unixNano t = unixNano t' ↔ (2 ^ 64 : Int) ∣ t - t' := by
  rw [unixNano, unixNano, int64, int64, Int.bmod_eq_bmod_iff_bmod_sub_eq_zero, ← Int.dvd_iff_bmod_eq_zero]
  rfl

-- ---------------------------------------------------------------------------
-- Prefixes
-- ---------------------------------------------------------------------------

theorem Single.pfx_cases (a b : Single) : a = b ∨ Apart a.pfx b.pfx := by
  cases a <;> cases b <;> first | exact .inl rfl | exact .inr (by decide)

theorem Series.pfx_cases (a b : Series) : a = b ∨ Apart a.pfx b.pfx := by
  cases a <;> cases b <;> first | exact .inl rfl | exact .inr (by decide)

theorem Single.pfx_series (a : Single) (b : Series) :
    (a = .plan ∧ b = .planHistory) ∨ Apart a.pfx b.pfx := by
  cases a <;> cases b <;> first | exact .inl ⟨rfl, rfl⟩ | exact .inr (by decide)

theorem Single.settings_apart (a : Single) : Apart a.pfx settingsKey := by
  cases a <;> decide

theorem Series.settings_apart (a : Series) : Apart a.pfx settingsKey := by
  cases a <;> decide

theorem under_append_left {pfx a b : String} : Under (pfx ++ a) (pfx ++ b) ↔ Under a b := by
  simp [Under, String.toList_append]

/-- What runs on past an ID, a slash and a number goes back to the ID itself, or
to one that the ID begins with. -/
theorem under_entry {n m : String} {v : Int} (h : Under (n ++ "/") (m ++ "/" ++ toString v)) :
    n = m ∨ Under (n ++ "/") m := by
  have hm : Under (m ++ "/") (m ++ "/" ++ toString v) := under_append ..
  rcases List.prefix_or_prefix_of_prefix h hm with hp | hp
  · rw [String.toList_append, String.toList_append] at hp
    rcases List.prefix_concat_iff.mp hp with heq | hp
    · exact .inl (String.toList_inj.mp (List.append_cancel_right heq))
    · exact .inr (by rw [Under, String.toList_append]; exact hp)
  · obtain ⟨rest, hrest⟩ := hp
    cases rest using List.reverseRecOn with
    | nil =>
      rw [List.append_nil, String.toList_append, String.toList_append] at hrest
      exact .inl (String.toList_inj.mp (List.append_cancel_right hrest).symm)
    | append_singleton rest c =>
      -- the slash of `n` would be in the number
      exfalso
      have hlast : c = '/' := by
        rw [← List.append_assoc, String.toList_append (s := n)] at hrest
        exact List.singleton_inj.mp (List.append_inj_right' hrest rfl)
      subst hlast
      rw [Under, ← hrest, String.toList_append (s := m ++ "/"), List.prefix_append_right_inj] at h
      exact slash_not_mem_toString v (h.subset (by simp))

theorem slash_inj {n m : String} {v w : Int} (h : n ++ "/" ++ toString v = m ++ "/" ++ toString w) :
    n = m ∧ v = w := by
  have hplan : planHistKey n v = planHistKey m w := by
    rw [planHistKey_eq, planHistKey_eq, h]
  exact planHistKey_inj hplan

theorem Single.key_inj {a b : Single} {i j : String} (h : a.key i = b.key j) : a = b ∧ i = j := by
  rw [a.key_eq, b.key_eq] at h
  rcases a.pfx_cases b with rfl | hapart
  · exact ⟨rfl, (String.append_right_inj _).mp h⟩
  · exact absurd (under_append a.pfx i) (hapart.not_under (h ▸ under_append b.pfx j))

theorem Series.key_inj {a b : Series} {n m : String} {v w : Int} (h : a.key n v = b.key m w) :
    a = b ∧ n = m ∧ a.number v = a.number w := by
  rw [a.key_eq, b.key_eq, String.append_assoc, String.append_assoc, String.append_assoc, String.append_assoc] at h
  rcases a.pfx_cases b with rfl | hapart
  · have hrest := (String.append_right_inj _).mp h
    rw [← String.append_assoc, ← String.append_assoc] at hrest
    exact ⟨rfl, slash_inj hrest⟩
  · exact absurd (under_append a.pfx _) (hapart.not_under (h ▸ under_append b.pfx _))

theorem Single.under {a : Single} {b : Series} {i n : String} (h : Under (b.pfx ++ n ++ "/") (a.key i)) :
    a = .plan ∧ Under (n ++ "/") i := by
  rw [a.key_eq, String.append_assoc] at h
  rcases a.pfx_series b with ⟨rfl, rfl⟩ | hapart
  · exact ⟨rfl, under_append_left.mp h⟩
  · exact absurd (under_append a.pfx i) (hapart.not_under ((under_append ..).trans h))

theorem Series.under {a b : Series} {n m : String} {v : Int} (h : Under (b.pfx ++ n ++ "/") (a.key m v)) :
    a = b ∧ (n = m ∨ Under (n ++ "/") m) := by
  rw [a.key_eq, String.append_assoc, String.append_assoc, String.append_assoc] at h
  rcases a.pfx_cases b with rfl | hapart
  · have hrest := under_append_left.mp h
    rw [← String.append_assoc] at hrest
    exact ⟨rfl, under_entry hrest⟩
  · exact absurd (under_append a.pfx _) (hapart.not_under ((under_append ..).trans h))

theorem not_under_slash {n k : String} (h : '/' ∉ k.toList) : ¬ Under (n ++ "/") k :=
  fun hk => h (hk.subset (by simp))

theorem version_not_under (b : Series) (n : String) : ¬ Under (b.pfx ++ n ++ "/") versionKey := by
  intro h
  rw [versionKey_eq] at h
  exact not_under_slash (by decide) (Single.under (a := .plan) h).2

theorem settings_not_under (b : Series) (n : String) : ¬ Under (b.pfx ++ n ++ "/") settingsKey := by
  intro h
  rw [String.append_assoc] at h
  exact b.settings_apart.1 ((under_append ..).trans h)

-- ---------------------------------------------------------------------------
-- The IDs and times that keep their records apart
-- ---------------------------------------------------------------------------

structure Separated (ids : Set String) (times : Series → String → Set Int) : Prop where
  version : "version" ∉ ids
  slash : ∀ m ∈ ids, ∀ n ∈ ids, ¬ Under (n ++ "/") m
  wrap : ∀ series ≠ .planHistory, ∀ n ∈ ids, ∀ t ∈ times series n, ∀ t' ∈ times series n,
    (2 ^ 64 : Int) ∣ t - t' → t = t'

/-- The records over the IDs and times have keys of their own. -/
def KeysDistinct (ids : Set String) (times : Series → String → Set Int) : Prop :=
  ∀ r r' : Record, r.Over ids → r'.Over ids → r.At times → r'.At times → r.key = r'.key → r = r'

/-- What is listed for a node is of that node. -/
def ListingsOwn (ids : Set String) : Prop :=
  ∀ (s : ConsulStore) (series : Series), ∀ n ∈ ids, ∀ e ∈ s.listed series n,
    ∀ r : Record, r.Over ids → r.key = e.key → r.owner = some n

section

variable {ids : Set String} {times : Series → String → Set Int}

theorem Record.Over.single {kind : Single} {id : String} (h : (Record.single kind id).Over ids)
    (hkind : kind ≠ .task) : id ∈ ids := by
  cases kind with
  | task => exact absurd rfl hkind
  | node | health | plan => exact h id rfl

theorem Separated.single_ne_entry (h : Separated ids times) {a : Single} {b : Series} {i n : String} {v : Int}
    (hi : (Record.single a i).Over ids) (hn : (Record.entry b n v).Over ids) : a.key i ≠ b.key n v := by
  intro hkey
  have hunder : Under (b.pfx ++ n ++ "/") (a.key i) := by
    rw [hkey, b.key_eq]
    exact under_append ..
  obtain ⟨rfl, hslash⟩ := Single.under hunder
  exact h.slash i (hi.single (by decide)) n (hn n rfl) hslash

theorem Separated.single_ne_version (h : Separated ids times) {a : Single} {i : String}
    (hi : (Record.single a i).Over ids) : a.key i ≠ versionKey := by
  intro hkey
  obtain ⟨rfl, rfl⟩ := Single.key_inj (b := .plan) (hkey.trans versionKey_eq)
  exact h.version (hi.single (by decide))

theorem entry_ne_version (b : Series) (n : String) (v : Int) : b.key n v ≠ versionKey := by
  intro hkey
  refine version_not_under b n ?_
  rw [← hkey, b.key_eq]
  exact under_append ..

theorem single_ne_settings (a : Single) (i : String) : a.key i ≠ settingsKey := by
  intro hkey
  rw [a.key_eq] at hkey
  exact a.settings_apart.1 (hkey ▸ under_append ..)

theorem entry_ne_settings (b : Series) (n : String) (v : Int) : b.key n v ≠ settingsKey := by
  intro hkey
  refine settings_not_under b n ?_
  rw [← hkey, b.key_eq]
  exact under_append ..

theorem Separated.entry_inj (h : Separated ids times) {a : Series} {n : String} {v w : Int} (hn : n ∈ ids)
    (hv : (Record.entry a n v).At times) (hw : (Record.entry a n w).At times) (heq : a.number v = a.number w) :
    v = w := by
  cases a with
  | planHistory => exact heq
  | healthHistory | policyStatus | policyDiag =>
    exact h.wrap _ (by decide) n hn v hv w hw (unixNano_eq_iff.mp heq)

theorem Separated.keysDistinct (h : Separated ids times) : KeysDistinct ids times := by
  intro r r' hr hr' ht ht' hkey
  cases r with
  | single a i =>
    cases r' with
    | single b j =>
      obtain ⟨rfl, rfl⟩ := Single.key_inj hkey
      rfl
    | entry b n v => exact absurd hkey (h.single_ne_entry hr hr')
    | version => exact absurd hkey (h.single_ne_version hr)
    | settings => exact absurd hkey (single_ne_settings a i)
  | entry a n v =>
    cases r' with
    | single b j => exact absurd hkey.symm (h.single_ne_entry hr' hr)
    | entry b m w =>
      obtain ⟨rfl, rfl, heq⟩ := Series.key_inj hkey
      obtain rfl := h.entry_inj (hr n rfl) ht ht' heq
      rfl
    | version => exact absurd hkey (entry_ne_version a n v)
    | settings => exact absurd hkey (entry_ne_settings a n v)
  | version =>
    cases r' with
    | single b j => exact absurd hkey.symm (h.single_ne_version hr')
    | entry b m w => exact absurd hkey.symm (entry_ne_version b m w)
    | version => rfl
    | settings => exact absurd hkey (by decide)
  | settings =>
    cases r' with
    | single b j => exact absurd hkey.symm (single_ne_settings b j)
    | entry b m w => exact absurd hkey.symm (entry_ne_settings b m w)
    | version => exact absurd hkey (by decide)
    | settings => rfl

theorem Separated.listingsOwn (h : Separated ids times) : ListingsOwn ids := by
  intro s series n hn e he r hr hkey
  have hunder : Under (series.pfx ++ n ++ "/") r.key := hkey ▸ KV.mem_listing he
  cases r with
  | single a i =>
    obtain ⟨rfl, hslash⟩ := Single.under hunder
    exact absurd hslash (h.slash i (hr.single (by decide)) n hn)
  | entry a m v =>
    obtain ⟨rfl, rfl | hslash⟩ := Series.under hunder
    · rfl
    · exact absurd hslash (h.slash m (hr m rfl) n hn)
  | version => exact absurd hunder (version_not_under series n)
  | settings => exact absurd hunder (settings_not_under series n)

end

-- ---------------------------------------------------------------------------
-- Saving a plan
-- ---------------------------------------------------------------------------

def answered (s : ConsulStore) : ConsulStore := { s with kv := { s.kv with fails := fun _ => none } }

theorem answered_works (s : ConsulStore) : s.answered.kv.Works := fun _ => rfl

section

variable {s s' : ConsulStore}

theorem answered_getValue {k : String} (h : s'.kv.get? k = s.kv.get? k) (decode : ConsulValue → Option α) :
    (s'.answered.getValue k decode).1 = (s.answered.getValue k decode).1 := by
  have hkv : s'.answered.kv.get? k = s.answered.kv.get? k := h
  rw [getValue_works s'.answered_works, getValue_works s.answered_works, hkv]

theorem answered_listValues {pfx : String} (h : ∀ k, Under pfx k → s'.kv.get? k = s.kv.get? k)
    (decode : ConsulValue → Option α) :
    (s'.answered.listValues pfx decode).1 = (s.answered.listValues pfx decode).1 := by
  rw [listValues_works s'.answered_works, listValues_works s.answered_works]
  have hvalue : ∀ k, Under pfx k → s'.answered.kv.value? k = s.answered.kv.value? k := by
    intro k hk
    show (s'.kv.get? k).map _ = (s.kv.get? k).map _
    rw [h k hk]
  exact congrArg Except.ok (KV.listing_congr hvalue decode)

/-- The global version, and the plans and histories of the other nodes. -/
structure OthersKept (ids : Set String) (n : String) (s s' : ConsulStore) : Prop where
  version : s'.answered.getGlobalPlanVersion.1 = s.answered.getGlobalPlanVersion.1
  plan : ∀ m ∈ ids, m ≠ n → (s'.answered.getPlan m).1 = (s.answered.getPlan m).1
  history : ∀ m ∈ ids, m ≠ n → ∀ limit,
    (s'.answered.listPlanHistory m limit).1 = (s.answered.listPlanHistory m limit).1

def SavesConfined (ids : Set String) : Prop :=
  ∀ (s : ConsulStore) (p : Plan), p.nodeID ∈ ids → OthersKept ids p.nodeID s (s.savePlan p).2

theorem Separated.savesConfined {ids : Set String} {times : Series → String → Set Int}
    (h : Separated ids times) : SavesConfined ids := by
  intro s p hp
  have hkept := savePlan_keeps (P := fun k => k ≠ planKey p.nodeID ∧ k ≠ planHistKey p.nodeID p.version) s
    (p := p) (fun h => h.1 rfl) (fun h => h.2 rfl)
  have hsaved : (Record.single .plan p.nodeID).Over ids := fun id hid => Option.some.inj hid ▸ hp
  constructor
  · have hversion := hkept.get? versionKey
      ⟨(h.single_ne_version hsaved).symm, (entry_ne_version .planHistory p.nodeID p.version).symm⟩
    rw [getGlobalPlanVersion_works (answered_works _), getGlobalPlanVersion_works s.answered_works]
    show Except.ok (((s.savePlan p).2.kv.value? versionKey).elim 0 _) = _
    rw [KV.value?, hversion]
    rfl
  · intro m hm hne
    have hother : (Record.single .plan m).Over ids := fun id hid => Option.some.inj hid ▸ hm
    refine answered_getValue (hkept.get? (planKey m) ⟨fun heq => hne (planKey_inj heq), ?_⟩) _
    exact h.single_ne_entry (b := .planHistory) hother fun id hid => Option.some.inj hid ▸ hp
  · intro m hm hne limit
    have hsame : ∀ k, Under (planPrefix ++ m ++ "/") k → (s.savePlan p).2.kv.get? k = s.kv.get? k := by
      refine fun k hk => hkept.get? k ⟨?_, ?_⟩
      · rintro rfl
        exact h.slash _ hp m hm (Single.under (a := .plan) (b := .planHistory) hk).2
      · rintro rfl
        rcases (Series.under (a := .planHistory) (b := .planHistory) hk).2 with heq | hslash
        · exact hne heq
        · exact h.slash _ hp m hm hslash
    rw [listPlanHistory_eq, listPlanHistory_eq, answered_listValues hsame ConsulValue.plan?]

end

-- ---------------------------------------------------------------------------
-- Exactly these IDs and times
-- ---------------------------------------------------------------------------

def withOne (k : String) (v : ConsulValue) : ConsulStore where
  kv := (ConsulStore.empty 0 Nat.succ Nat.lt_succ_self).kv.write k v

theorem mem_listed_withOne {k : String} (v : ConsulValue) (series : Series) {n : String}
    (h : Under (series.pfx ++ n ++ "/") k) : ∃ e ∈ (withOne k v).listed series n, e.key = k := by
  have hget : (withOne k v).kv.get? k = some ⟨k, v, 1⟩ := by
    rw [withOne, KV.get?_write, if_pos rfl]
    rfl
  exact ⟨⟨k, v, 1⟩, List.mem_filterMap.mpr ⟨k, KV.mem_keys.mpr ⟨h, _, hget⟩, hget⟩, rfl⟩

theorem KeysDistinct.wrap {ids : Set String} {times : Series → String → Set Int} (h : KeysDistinct ids times)
    {series : Series} (hseries : series ≠ .planHistory) {n : String} (hn : n ∈ ids) {t t' : Int}
    (ht : t ∈ times series n) (ht' : t' ∈ times series n) (hwrap : (2 ^ 64 : Int) ∣ t - t') : t = t' := by
  have hover : ∀ v, (Record.entry series n v).Over ids := fun v id hid => Option.some.inj hid ▸ hn
  have hat : ∀ v, v ∈ times series n → (Record.entry series n v).At times := by
    intro v hv
    cases series with
    | planHistory => exact trivial
    | healthHistory | policyStatus | policyDiag => exact hv
  have hnumber : series.number t = series.number t' := by
    cases series with
    | planHistory => exact absurd rfl hseries
    | healthHistory | policyStatus | policyDiag => exact unixNano_eq_iff.mpr hwrap
  have hkey : series.key n t = series.key n t' := by
    rw [series.key_eq, series.key_eq, hnumber]
  have hsame := h (.entry series n t) (.entry series n t') (hover t) (hover t') (hat t ht) (hat t' ht') hkey
  exact (Record.entry.inj hsame).2.2

/-- Keys collide, listings leak or a save spills over exactly when one of the
IDs is `version`, one begins with another and a slash, or two times of a node
have one `UnixNano`. -/
theorem keys_separate_iff (ids : Set String) (times : Series → String → Set Int) :
    (KeysDistinct ids times ∧ ListingsOwn ids ∧ SavesConfined ids) ↔ Separated ids times := by
  constructor
  · rintro ⟨hkeys, hlistings, -⟩
    constructor
    · intro hmem
      have hversion := hkeys (.single .plan "version") .version (fun id hid => Option.some.inj hid ▸ hmem)
        (fun id hid => by cases hid) trivial trivial versionKey_eq.symm
      cases hversion
    · intro m hm n hn hslash
      have hunder : Under (planPrefix ++ n ++ "/") (planKey m) := by
        rw [String.append_assoc, planKey]
        exact under_append_left.mpr hslash
      obtain ⟨e, he, hkey⟩ := mem_listed_withOne (.raw "") .planHistory hunder
      have howner := hlistings _ .planHistory n hn e he (.single .plan m)
        (fun id hid => Option.some.inj hid ▸ hm) hkey.symm
      obtain rfl : m = n := Option.some.inj howner
      have hlength := hslash.length_le
      simp [String.toList_append] at hlength
    · intro series hseries n hn t ht t' ht' hwrap
      exact hkeys.wrap hseries hn ht ht' hwrap
  · exact fun h => ⟨h.keysDistinct, h.listingsOwn, h.savesConfined⟩

/-- The register handler takes any ID that is not empty. -/
theorem keys_collide : ¬ (KeysDistinct {id | id ≠ ""} (fun _ _ => Set.univ) ∧ ListingsOwn {id | id ≠ ""} ∧
    SavesConfined {id | id ≠ ""}) := by
  rintro ⟨hkeys, -⟩
  have hversion := hkeys (.single .plan "version") .version
    (fun id hid => Option.some.inj hid ▸ (by decide : "version" ≠ "")) (fun id hid => by cases hid) trivial trivial
    versionKey_eq.symm
  cases hversion

end ConsulStore

end PeerWan
