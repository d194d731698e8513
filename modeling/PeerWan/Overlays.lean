import PeerWan.Lib.Runs
import PeerWan.Controller.Effects

/-!
# Which overlay addresses prepare hands out

A prepare asks the store three times: for its own record, for all nodes, and to
save the new record. Between the last two it holds an address that nobody else
can see. The search goes over the third numbers of the stored addresses, and
ends in one fixed address when all are taken.
-/

namespace PeerWan

open Lib

-- ---------------------------------------------------------------------------
-- The search
-- ---------------------------------------------------------------------------

def slots : List Int := (List.range' 1 253).map fun i : Nat => (i : Int)

theorem mem_slots {i : Int} : i ∈ slots ↔ 1 ≤ i ∧ i ≤ 253 := by
  simp only [slots, List.mem_map, List.mem_range'_1]
  constructor
  · rintro ⟨k, hk, rfl⟩
    omega
  · intro h
    exact ⟨i.toNat, by omega, by omega⟩

def slotAddress (i : Int) : String := "10.10." ++ toString i ++ ".1/32"

/-- What is assigned when no slot is unused. -/
def fallbackAddress : String := "10.10.250.1/32"

def SlotUsed (m : MemoryStore) (i : Int) : Prop :=
  ∃ n ∈ m.nodes.rows, scanThird (ipWithoutMask n.overlayIP) = some i

instance (m : MemoryStore) (i : Int) : Decidable (SlotUsed m i) :=
  inferInstanceAs (Decidable (∃ n ∈ m.nodes.rows, scanThird (ipWithoutMask n.overlayIP) = some i))

def Held (m : MemoryStore) (address : String) : Prop := ∃ n ∈ m.nodes.rows, n.overlayIP = address

/-- The address that a listing of the store leads to, in whatever order. -/
def nextAddress (m : MemoryStore) : String :=
  match slots.find? fun i => ¬ SlotUsed m i with
  | some i => slotAddress i
  | none => fallbackAddress

theorem find?_decide_congr {α : Type} {p q : α → Prop} [DecidablePred p] [DecidablePred q]
    (h : ∀ a, p a ↔ q a) (l : List α) : l.find? (fun a => decide (p a)) = l.find? fun a => decide (q a) := by
  congr 1
  funext a
  exact decide_eq_decide.mpr (h a)

theorem assignOverlay_eq (env : Env) (m : MemoryStore) : assignOverlay env m = (nextAddress m, m) := by
  have hused : ∀ i : Int, i ∉ (m.nodes.range (env.nodeOrder 0)).filterMap
      (fun n => scanThird (ipWithoutMask n.overlayIP)) ↔ ¬ SlotUsed m i := by
    intro i
    simp [SlotUsed]
  have hslots : (do let a ← List.range' 1 253; pure (a : Int)) = slots :=
    List.flatMap_pure_eq_map (fun i : Nat => (i : Int)) _
  show (match (do let a ← List.range' 1 253; pure (a : Int)).find? fun i : Int => i ∉
      (m.nodes.range (env.nodeOrder 0)).filterMap fun n : Node => scanThird (ipWithoutMask n.overlayIP) with
    | some i => (slotAddress i, m)
    | none => (fallbackAddress, m)) = _
  rw [hslots, find?_decide_congr hused, nextAddress]
  cases slots.find? fun i => decide (¬ SlotUsed m i) <;> rfl

section

variable {ds tail : List Char}

theorem isSpace_digit {c : Char} (h : c.isDigit) : isSpace c = false := by
  have hrange : 48 ≤ c.toNat ∧ c.toNat ≤ 57 := by
    rw [Char.isDigit, Bool.and_eq_true, decide_eq_true_eq, decide_eq_true_eq] at h
    exact h
  simp only [isSpace, Bool.or_eq_false_iff, Bool.and_eq_false_iff, decide_eq_false_iff_not]
  omega

theorem scanThird_digits (hds : ds ≠ []) (hdigits : ∀ c ∈ ds, c.isDigit) (hfits : int64 (digitsValue ds) = digitsValue ds) :
    scanThird (String.ofList ("10.10.".toList ++ (ds ++ '.' :: tail))) = some (digitsValue ds : Int) := by
  obtain ⟨d, ds', rfl⟩ := List.exists_cons_of_ne_nil hds
  have hd : d.isDigit := hdigits d List.mem_cons_self
  have htake : (d :: ds' ++ '.' :: tail).takeWhile Char.isDigit = d :: ds' := by
    rw [List.takeWhile_append_of_pos hdigits]
    simp [show Char.isDigit '.' = false from rfl]
  have hspace : (d :: ds' ++ '.' :: tail).dropWhile (fun c => isSpace c && c ≠ '\n') = d :: ds' ++ '.' :: tail := by
    simp [isSpace_digit hd]
  have hminus : d ≠ '-' := by rintro rfl; cases hd
  have hplus : d ≠ '+' := by rintro rfl; cases hd
  rw [scanThird]
  simp only [String.toList_ofList, List.prefix_append, if_true, List.drop_left, hspace]
  split
  · next heq => exact absurd (List.cons.inj heq).1 hminus
  · next heq => exact absurd (List.cons.inj heq).1 hplus
  · simp only [htake, List.drop_left, Bool.false_eq_true, if_false, hfits, List.head?_cons, and_true, ne_eq,
      reduceCtorEq, not_false_eq_true, if_true]

end

theorem digitsValue_numeral (k : Nat) : digitsValue (Nat.toDigits 10 k) = k := Nat.ofDigitChars_ten_toDigits

theorem ipWithoutMask_append {ip : String} (hip : '/' ∉ ip.toList) (hne : ip ≠ "") (mask : String) :
    ipWithoutMask (ip ++ "/" ++ mask) = ip := by
  have hlist : (ip ++ "/" ++ mask).toList = ip.toList ++ '/' :: mask.toList := by
    simp [String.toList_append]
  have hfront : (ip ++ "/" ++ mask).toList.takeWhile (· ≠ '/') = ip.toList := by
    rw [hlist, List.takeWhile_append_of_pos]
    · simp
    · exact fun c hc => decide_eq_true fun heq => hip (heq ▸ hc)
  rw [ipWithoutMask, beforeSlash]
  simp only [hfront]
  rw [if_pos, Option.getD_some, String.ofList_toList]
  refine ⟨by simp [hlist], fun h => hne (String.toList_inj.mp h)⟩

theorem scanThird_slot {i : Int} (hi : i ∈ slots) : scanThird (ipWithoutMask (slotAddress i)) = some i := by
  obtain ⟨hlow, hhigh⟩ := mem_slots.mp hi
  obtain ⟨k, rfl⟩ := Int.eq_ofNat_of_zero_le (by omega : 0 ≤ i)
  have hdigits : ∀ c ∈ Nat.toDigits 10 k, c.isDigit := fun c hc => isDigit_of_mem_numeral hc
  have htext : slotAddress k =
      String.ofList ("10.10.".toList ++ (Nat.toDigits 10 k ++ '.' :: "1".toList)) ++ "/" ++ "32" := by
    apply String.toList_inj.mp
    have hnumeral : (toString (k : Int)).toList = Nat.toDigits 10 k := toList_toString_int k
    simp only [slotAddress, String.toList_append, hnumeral, String.toList_ofList, List.append_assoc]
    rfl
  rw [htext, ipWithoutMask_append]
  · rw [scanThird_digits, digitsValue_numeral]
    · exact Nat.toDigits_ne_nil
    · exact hdigits
    · rw [digitsValue_numeral, int64, Int.bmod_eq_of_le] <;> omega
  · simp only [String.toList_ofList, List.mem_append, List.mem_cons, not_or]
    refine ⟨by decide, fun h => absurd (hdigits _ h) (by decide), by decide, by decide⟩
  · intro h
    have hlength := congrArg String.length h
    simp at hlength

theorem slotUsed_of_held {m : MemoryStore} {i : Int} (hi : i ∈ slots) (h : Held m (slotAddress i)) : SlotUsed m i := by
  obtain ⟨n, hn, hoverlay⟩ := h
  exact ⟨n, hn, by rw [hoverlay, scanThird_slot hi]⟩

theorem nextAddress_cases (m : MemoryStore) :
    (∃ i ∈ slots, ¬ SlotUsed m i ∧ nextAddress m = slotAddress i) ∨
      ((∀ i ∈ slots, SlotUsed m i) ∧ nextAddress m = fallbackAddress) := by
  rw [nextAddress]
  cases hfind : slots.find? fun i => decide (¬ SlotUsed m i) with
  | some i =>
    have hunused := List.find?_some hfind
    exact .inl ⟨i, List.mem_of_find?_eq_some hfind, by simpa using hunused, rfl⟩
  | none =>
    rw [List.find?_eq_none] at hfind
    exact .inr ⟨fun i hi => by simpa using hfind i hi, rfl⟩

/-- The search finds an address that is not held, if a slot is unused or the
last resort is free. -/
theorem nextAddress_free_iff (m : MemoryStore) :
    ¬ Held m (nextAddress m) ↔ (∃ i ∈ slots, ¬ SlotUsed m i) ∨ ¬ Held m fallbackAddress := by
  rcases nextAddress_cases m with ⟨i, hi, hunused, hnext⟩ | ⟨hused, hnext⟩
  · rw [hnext]
    exact iff_of_true (fun hheld => hunused (slotUsed_of_held hi hheld)) (.inl ⟨i, hi, hunused⟩)
  · rw [hnext]
    constructor
    · exact .inr
    · rintro (⟨i, hi, hunused⟩ | hfree)
      · exact absurd (hused i hi) hunused
      · exact hfree

theorem nextAddress_slot (m : MemoryStore) : ∃ i ∈ slots, nextAddress m = slotAddress i := by
  rcases nextAddress_cases m with ⟨i, hi, -, hnext⟩ | ⟨-, hnext⟩
  · exact ⟨i, hi, hnext⟩
  · exact ⟨250, by decide, hnext⟩

-- ---------------------------------------------------------------------------
-- Prepares, call by call
-- ---------------------------------------------------------------------------

inductive PreparePhase where
  | waiting
  | keyed (priv : String)
  | assigned (priv overlay : String)
  | done
  deriving DecidableEq

/-- The next store call of an authorized prepare for `id`, with what it does
until the one after. -/
def prepareMove (host : Host) (env : Env) (id : String) (phase : PreparePhase) (m : MemoryStore) :
    PreparePhase × MemoryStore :=
  match phase with
  | .waiting =>
    if id = "" then (.done, m)
    else
      let (existing, m) := NodeStore.getNode id m
      if ((Reply.getD existing none).getD {}).provisionToken ≠ "" then (.done, m)
      else match env.privateKey with
        | none => (.done, m)
        | some priv => (.keyed priv, m)
  | .keyed priv =>
    let (overlay, m) := assignOverlay env m
    (.assigned priv overlay, m)
  | .assigned priv overlay =>
    let (_, m) := NodeStore.upsertNode (preparedNode host env id priv overlay) m
    (.done, m)
  | .done => (.done, m)

theorem prepareMove_waiting (host : Host) (env : Env) (id : String) (m : MemoryStore) :
    prepareMove host env id .waiting m =
      (if id = "" ∨ ((m.nodes.get? id).getD {}).provisionToken ≠ "" then .done
        else env.privateKey.elim .done .keyed, m) := by
  simp only [prepareMove, MemoryStore.store_getNode, Reply.getD_ok]
  by_cases hid : id = ""
  · simp [hid]
  by_cases htoken : ((m.nodes.get? id).getD {}).provisionToken = ""
  · cases env.privateKey <;> simp [hid, htoken]
  · simp [hid, htoken]

/-- One after the other the calls are `prepare`. -/
theorem prepareMoves (host : Host) (env : Env) (httpAddr id : String) (c : Controller MemoryStore) :
    (fun x => prepareMove host env id x.1 x.2)^[3] (.waiting, c.store) =
      (.done, (prepare host env { jwt := true } httpAddr (some id) c).2.store) := by
  show prepareMove _ _ _ (prepareMove _ _ _ (prepareMove host env id .waiting c.store).1 _).1
    (prepareMove _ _ _ (prepareMove host env id .waiting c.store).1 _).2 = _
  rw [prepareMove_waiting, prepare]
  simp only [MemoryStore.store_getNode, Reply.getD_ok, Bool.not_true, Bool.false_eq_true, if_false]
  by_cases hid : id = ""
  · simp [hid, prepareMove]
  by_cases htoken : ((c.store.nodes.get? id).getD {}).provisionToken = ""
  · cases hkey : env.privateKey with
    | none => simp [hid, htoken, hkey, prepareMove]
    | some priv => simp [hid, htoken, hkey, prepareMove, assignOverlay_eq, prepared, bumpPlanVersion]
  · simp [hid, htoken, prepareMove, prepared, bumpPlanVersion]

structure Prepares where
  store : MemoryStore
  phase : String → PreparePhase

def Prepares.start (m : MemoryStore) : Prepares := ⟨m, fun _ => .waiting⟩

def Prepares.step (host : Host) (envs : String → Env) (id : String) (s : Prepares) : Prepares :=
  let (phase, m) := prepareMove host (envs id) id (s.phase id) s.store
  ⟨m, Function.update s.phase id phase⟩

def Prepares.Assigned (s : Prepares) (id address : String) : Prop := ∃ priv, s.phase id = .assigned priv address

/-- No two nodes hold one overlay address. -/
def OverlaysDistinct (m : MemoryStore) : Prop :=
  ∀ a ∈ m.nodes.rows, ∀ b ∈ m.nodes.rows, a.id ≠ b.id → a.overlayIP ≠ "" → a.overlayIP ≠ b.overlayIP

/-- An address that the next call assigns is stored nowhere, assigned to nobody
else, and not handed out when all are held. -/
def Prepares.Fresh (host : Host) (envs : String → Env) (s : Prepares) (id : String) : Prop :=
  ∀ priv, s.phase id = .keyed priv → ∀ address, (Prepares.step host envs id s).Assigned id address →
    ¬ Held s.store address ∧ (∀ id' ≠ id, ¬ s.Assigned id' address) ∧ ∃ i ∈ slots, ¬ Held s.store (slotAddress i)

/-- Nobody else is between listing and saving, and a slot is unused or the last
resort is free. -/
def Prepares.Room (s : Prepares) (id : String) : Prop :=
  ∀ priv, s.phase id = .keyed priv → (∀ id' address, ¬ s.Assigned id' address) ∧
    ((∃ i ∈ slots, ¬ SlotUsed s.store i) ∨ ¬ Held s.store fallbackAddress)

-- ---------------------------------------------------------------------------
-- One call
-- ---------------------------------------------------------------------------

section

variable {host : Host} {envs : String → Env} {s : Prepares} {id id' priv address : String}

theorem step_waiting (h : s.phase id = .waiting) : ∃ p, (∀ priv address, p ≠ .assigned priv address) ∧
    Prepares.step host envs id s = ⟨s.store, Function.update s.phase id p⟩ := by
  simp only [Prepares.step, h, prepareMove_waiting]
  refine ⟨_, fun priv address => ?_, rfl⟩
  split
  · simp
  · cases (envs id).privateKey <;> simp

theorem step_keyed (h : s.phase id = .keyed priv) : Prepares.step host envs id s =
    ⟨s.store, Function.update s.phase id (.assigned priv (nextAddress s.store))⟩ := by
  simp only [Prepares.step, h, prepareMove, assignOverlay_eq]

theorem step_assigned (h : s.phase id = .assigned priv address) : Prepares.step host envs id s =
    ⟨(s.store.upsertNode (preparedNode host (envs id) id priv address)).2,
      Function.update s.phase id .done⟩ := by
  simp only [Prepares.step, h, prepareMove, MemoryStore.store_upsertNode]

theorem step_done (h : s.phase id = .done) :
    Prepares.step host envs id s = ⟨s.store, Function.update s.phase id .done⟩ := by
  simp only [Prepares.step, h, prepareMove]

theorem assigned_update {p : PreparePhase} {m : MemoryStore} :
    (Prepares.mk m (Function.update s.phase id p)).Assigned id' address ↔
      if id' = id then ∃ priv, p = .assigned priv address else s.Assigned id' address := by
  rw [Prepares.Assigned]
  by_cases hid : id' = id
  · subst hid
    simp
  · rw [if_neg hid]
    simp only [Function.update_of_ne hid]
    rfl

-- ---------------------------------------------------------------------------
-- At most one address on its way
-- ---------------------------------------------------------------------------

/-- Where every assignment had room: the one address on its way is what a
listing would still lead to, and nobody holds it. -/
structure Orderly (s : Prepares) : Prop where
  distinct : OverlaysDistinct s.store
  alone : ∀ id id' address address', s.Assigned id address → s.Assigned id' address' → id = id'
  picked : ∀ id address, s.Assigned id address → address = nextAddress s.store ∧ ¬ Held s.store address

theorem Orderly.fresh_iff (h : Orderly s) : s.Fresh host envs id ↔ s.Room id := by
  refine forall₂_congr fun priv hkeyed => ?_
  have hassigned : (Prepares.step host envs id s).Assigned id (nextAddress s.store) := by
    rw [step_keyed hkeyed]
    exact assigned_update.mpr (by rw [if_pos rfl]; exact ⟨priv, rfl⟩)
  rw [← nextAddress_free_iff]
  constructor
  · intro hfresh
    obtain ⟨hheld, hother, -⟩ := hfresh _ hassigned
    refine ⟨fun id' address hid' => ?_, hheld⟩
    have hne : id' ≠ id := by
      rintro rfl
      obtain ⟨priv', hphase⟩ := hid'
      rw [hkeyed] at hphase
      cases hphase
    rw [(h.picked id' address hid').1] at hid'
    exact hother id' hne hid'
  · rintro ⟨hnone, hheld⟩ address haddress
    have hnext : address = nextAddress s.store := by
      rw [step_keyed hkeyed] at haddress
      obtain ⟨priv', hphase⟩ : ∃ priv', PreparePhase.assigned priv (nextAddress s.store) = .assigned priv' address := by
        simpa using assigned_update.mp haddress
      exact (PreparePhase.assigned.inj hphase).2.symm
    subst hnext
    obtain ⟨i, hi, hslot⟩ := nextAddress_slot s.store
    exact ⟨hheld, fun id' _ hid' => hnone id' _ hid', i, hi, hslot ▸ hheld⟩

theorem overlaysDistinct_upsert {m : MemoryStore} {a : Node} (h : OverlaysDistinct m)
    (ha : ¬ Held m a.overlayIP) : OverlaysDistinct (m.upsertNode a).2 := by
  have hmem : ∀ n ∈ (m.upsertNode a).2.nodes.rows,
      n ∈ m.nodes.rows ∨ (n.id = a.id ∧ n.overlayIP = a.overlayIP) := by
    intro n hn
    rcases Table.mem_put.mp hn with ⟨hn, -⟩ | rfl
    · exact .inl hn
    · exact .inr ⟨rfl, rfl⟩
  intro b hb b' hb' hne hnonempty heq
  rcases hmem b hb with hb | ⟨hid, hoverlay⟩
  · rcases hmem b' hb' with hb' | ⟨-, hoverlay⟩
    · exact h b hb b' hb' hne hnonempty heq
    · exact ha ⟨b, hb, heq.trans hoverlay⟩
  · rcases hmem b' hb' with hb' | ⟨hid', -⟩
    · exact ha ⟨b', hb', heq.symm.trans hoverlay⟩
    · exact hne (hid.trans hid'.symm)

theorem assigned_of_update {p : PreparePhase} {m : MemoryStore} (hp : ∀ priv address, p ≠ .assigned priv address)
    (h : (Prepares.mk m (Function.update s.phase id p)).Assigned id' address) : id' ≠ id ∧ s.Assigned id' address := by
  rw [assigned_update] at h
  split at h
  · obtain ⟨priv, hpriv⟩ := h
    exact absurd hpriv (hp priv address)
  · next hid => exact ⟨hid, h⟩

theorem Orderly.quiet (h : Orderly s) {p : PreparePhase} (hp : ∀ priv address, p ≠ .assigned priv address) :
    Orderly ⟨s.store, Function.update s.phase id p⟩ where
  distinct := h.distinct
  alone _ _ _ _ ha hb := h.alone _ _ _ _ (assigned_of_update hp ha).2 (assigned_of_update hp hb).2
  picked _ _ ha := h.picked _ _ (assigned_of_update hp ha).2

theorem Orderly.list (h : Orderly s) (hphase : s.phase id = .keyed priv) (hroom : s.Room id) :
    Orderly ⟨s.store, Function.update s.phase id (.assigned priv (nextAddress s.store))⟩ := by
  obtain ⟨hnone, hfree⟩ := hroom priv hphase
  have honly : ∀ id' address, (Prepares.mk s.store (Function.update s.phase id
      (.assigned priv (nextAddress s.store)))).Assigned id' address → id' = id ∧ address = nextAddress s.store := by
    intro id' address ha
    rw [assigned_update] at ha
    split at ha
    · next hid =>
      obtain ⟨priv', heq⟩ := ha
      exact ⟨hid, (PreparePhase.assigned.inj heq).2.symm⟩
    · exact absurd ha (hnone id' address)
  refine ⟨h.distinct, fun a b _ _ ha hb => (honly a _ ha).1.trans (honly b _ hb).1.symm, fun a address ha => ?_⟩
  obtain ⟨-, rfl⟩ := honly a address ha
  exact ⟨rfl, (nextAddress_free_iff s.store).mpr hfree⟩

theorem Orderly.save (h : Orderly s) (hphase : s.phase id = .assigned priv address) (a : Node)
    (ha : a.overlayIP = address) : Orderly ⟨(s.store.upsertNode a).2, Function.update s.phase id .done⟩ := by
  have hassigned : s.Assigned id address := ⟨priv, hphase⟩
  have hnone : ∀ id' address', ¬ (Prepares.mk (s.store.upsertNode a).2
      (Function.update s.phase id .done)).Assigned id' address' := by
    intro id' address' h'
    obtain ⟨hne, h'⟩ := assigned_of_update (by simp) h'
    exact hne (h.alone _ _ _ _ h' hassigned)
  have hheld : ¬ Held s.store a.overlayIP := ha ▸ (h.picked id address hassigned).2
  exact ⟨overlaysDistinct_upsert h.distinct hheld, fun _ _ _ _ h' => absurd h' (hnone _ _),
    fun _ _ h' => absurd h' (hnone _ _)⟩

theorem Orderly.step (h : Orderly s) (hroom : s.Room id) : Orderly (Prepares.step host envs id s) := by
  cases hphase : s.phase id with
  | waiting =>
    obtain ⟨p, hp, hstep⟩ := @step_waiting host envs s id hphase
    rw [hstep]
    exact h.quiet hp
  | keyed priv =>
    rw [step_keyed hphase]
    exact h.list hphase hroom
  | assigned priv address =>
    rw [step_assigned hphase]
    exact h.save hphase _ rfl
  | done =>
    rw [step_done hphase]
    exact h.quiet (by simp)

theorem orderly_start {m : MemoryStore} (h : OverlaysDistinct m) : Orderly (.start m) where
  distinct := h
  alone _ _ _ _ ha := by
    obtain ⟨priv, hphase⟩ := ha
    cases hphase
  picked _ _ ha := by
    obtain ⟨priv, hphase⟩ := ha
    cases hphase

end

/-- Prepares for different nodes, their calls in any order: no two nodes come to
hold one address, and each is assigned fresh, exactly when every listing is
alone and finds a slot unused or the last resort free. -/
theorem overlays_distinct_iff (host : Host) (envs : String → Env) (m : MemoryStore) (h : OverlaysDistinct m)
    (ids : List String) :
    (Throughout (Prepares.step host envs) (fun s => OverlaysDistinct s.store) (.start m) ids ∧
      Along (Prepares.step host envs) (Prepares.Fresh host envs) (.start m) ids) ↔
    Along (Prepares.step host envs) Prepares.Room (.start m) ids := by
  have hstart := orderly_start h
  have hiff : Along (Prepares.step host envs) (Prepares.Fresh host envs) (.start m) ids ↔
      Along (Prepares.step host envs) Prepares.Room (.start m) ids :=
    along_congr_of_kept (fun _ _ hs hfresh => hs.step (hs.fresh_iff.mp hfresh)) (fun _ _ hs => hs.fresh_iff) hstart
  refine ⟨fun hboth => hiff.mp hboth.2, fun hroom => ⟨?_, hiff.mpr hroom⟩⟩
  exact (throughout_of_along (fun _ _ hs hroom => hs.step hroom) hstart hroom).mono fun _ hs => hs.distinct

theorem overlays_distinct_edge :
    (Throughout (Prepares.step Host.sample fun _ => { privateKey := some "priv" })
        (fun s => OverlaysDistinct s.store) (.start MemoryStore.new) ["edge", "edge", "edge"] ∧
      Along (Prepares.step Host.sample fun _ => { privateKey := some "priv" })
        (Prepares.Fresh Host.sample fun _ => { privateKey := some "priv" }) (.start MemoryStore.new)
        ["edge", "edge", "edge"]) ↔
    Along (Prepares.step Host.sample fun _ => { privateKey := some "priv" }) Prepares.Room
      (.start MemoryStore.new) ["edge", "edge", "edge"] :=
  overlays_distinct_iff Host.sample _ _ (fun _ ha => absurd ha List.not_mem_nil) _

def bothAssigned : Prepares :=
  run (Prepares.step Host.sample fun _ => { privateKey := some "priv" }) (.start MemoryStore.new)
    ["a", "b", "a", "b", "a", "b"]

/-- Both list before either saves. -/
theorem prepares_share_overlay :
    ¬ ∀ (host : Host) (envs : String → Env) (m : MemoryStore), OverlaysDistinct m → ∀ ids,
      Throughout (Prepares.step host envs) (fun s => OverlaysDistinct s.store) (.start m) ids ∧
        Along (Prepares.step host envs) (Prepares.Fresh host envs) (.start m) ids := by
  intro h
  have hdistinct : OverlaysDistinct bothAssigned.store := (h Host.sample (fun _ => { privateKey := some "priv" })
    MemoryStore.new (fun _ ha => absurd ha List.not_mem_nil) ["a", "b", "a", "b", "a", "b"]).1.final
  obtain ⟨a, ha, hida, hoverlay⟩ : ∃ n ∈ bothAssigned.store.nodes.rows, n.id = "a" ∧ n.overlayIP = "10.10.1.1/32" := by
    decide
  obtain ⟨b, hb, hidb, hoverlay'⟩ : ∃ n ∈ bothAssigned.store.nodes.rows, n.id = "b" ∧ n.overlayIP = "10.10.1.1/32" := by
    decide
  refine hdistinct a ha b hb ?_ ?_ (hoverlay.trans hoverlay'.symm)
  · rw [hida, hidb]
    decide
  · rw [hoverlay]
    decide

end PeerWan
