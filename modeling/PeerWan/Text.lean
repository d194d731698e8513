import Mathlib.Algebra.Group.Int.Defs
import Mathlib.Algebra.Group.Nat.Defs
import Mathlib.Data.List.DropRight
import Mathlib.Data.List.Nodup
import Mathlib.Logic.Function.Basic

/-!
# Numbers and text

The 64-bit results of the source, its own `itoa`, and the functions of Go's
`strings` and `strconv` that the code calls on node names, addresses and
versions.
-/

namespace PeerWan

/-- An `int64` result, wrapped to 64 bits. -/
def int64 (v : Int) : Int := v.bmod (2 ^ 64)

/-- The digit loop of `itoa`, from index `i` of its 20-byte buffer. Running
below index 0 is a panic. -/
def itoaDigits : Nat → Nat → List Char → Option (List Char)
  | _, 0, buf => some buf
  | 0, _ + 1, _ => none
  | i + 1, v + 1, buf => itoaDigits i ((v + 1) / 10) (Char.ofNat ('0'.toNat + (v + 1) % 10) :: buf)

/-- The loop does not run for a negative number, which prints as nothing. -/
def itoa (v : Int) : String :=
  if v = 0 then "0" else String.ofList ((itoaDigits 20 v.toNat []).getD [])

/-- What stands before the first slash, if that slash is not at the start. -/
def beforeSlash (s : String) : Option String :=
  let front := s.toList.takeWhile (· ≠ '/')
  if front.length < s.toList.length ∧ front ≠ [] then some (String.ofList front) else none

def ipWithoutMask (cidr : String) : String := (beforeSlash cidr).getD cidr

/-- `unicode.IsSpace`. -/
def isSpace (c : Char) : Bool :=
  let n := c.toNat
  (9 ≤ n && n ≤ 13) || n = 32 || n = 0x85 || n = 0xA0 || n = 0x1680 || (0x2000 ≤ n && n ≤ 0x200A) ||
    n = 0x2028 || n = 0x2029 || n = 0x202F || n = 0x205F || n = 0x3000

/-- `strings.TrimSpace`. -/
def trimSpace (s : String) : String :=
  String.ofList ((s.toList.dropWhile isSpace).rdropWhile isSpace)

/-- `strings.Split(s, "/")[0]`. -/
def firstPart (s : String) : String := String.ofList (s.toList.takeWhile (· ≠ '/'))

/-- `strings.Fields`: what stands between runs of white space. -/
def fields (s : String) : List String :=
  ((s.toList.splitOnP isSpace).filter (· ≠ [])).map String.ofList

/-- `strings.Split(s, "\n")`. -/
def lines (s : String) : List String := (s.toList.splitOn '\n').map String.ofList

/-- Without empty ones and repetitions. -/
def dedup (xs : List String) : List String :=
  xs.foldl (fun out x => if x = "" ∨ x ∈ out then out else out ++ [x]) []

def digitsValue (ds : List Char) : Nat := ds.foldl (fun v d => 10 * v + (d.toNat - '0'.toNat)) 0

/-- `strconv.ParseInt(s, 10, 64)`, when it has no error. -/
def parseInt (s : String) : Option Int :=
  let (negative, ds) := match s.toList with
    | '-' :: ds => (true, ds)
    | '+' :: ds => (false, ds)
    | ds => (false, ds)
  let value : Int := if negative then -(digitsValue ds : Int) else digitsValue ds
  if ds ≠ [] ∧ ds.all Char.isDigit ∧ int64 value = value then some value else none

-- ---------------------------------------------------------------------------
-- Texts with a slash
-- ---------------------------------------------------------------------------

theorem beforeSlash_ne_empty {s t : String} (h : beforeSlash s = some t) : t ≠ "" := by
  unfold beforeSlash at h
  dsimp only at h
  split at h
  next hfront =>
    obtain rfl := Option.some.inj h
    rw [Ne, ← String.toList_inj, String.toList_ofList]
    exact hfront.2
  next => cases h

theorem beforeSlash_eq_none {s : String} (h : '/' ∉ s.toList) : beforeSlash s = none := by
  have hfront : s.toList.takeWhile (· ≠ '/') = s.toList :=
    List.takeWhile_eq_self_iff.mpr fun c hc => decide_eq_true fun heq => h (heq ▸ hc)
  rw [beforeSlash, hfront]
  exact if_neg fun hlt => absurd hlt.1 (Nat.lt_irrefl _)

theorem ipWithoutMask_eq_self {s : String} (h : '/' ∉ s.toList) : ipWithoutMask s = s := by
  rw [ipWithoutMask, beforeSlash_eq_none h]
  rfl

theorem ipWithoutMask_eq_empty {s : String} : ipWithoutMask s = "" ↔ s = "" := by
  unfold ipWithoutMask
  cases h : beforeSlash s with
  | none => rfl
  | some t =>
    refine iff_of_false (beforeSlash_ne_empty h) ?_
    rintro rfl
    cases h

-- ---------------------------------------------------------------------------
-- Collected texts
-- ---------------------------------------------------------------------------

theorem mem_dedup {x : String} {xs : List String} : x ∈ dedup xs ↔ x ≠ "" ∧ x ∈ xs := by
  suffices h : ∀ out : List String, x ∈ xs.foldl (fun out x => if x = "" ∨ x ∈ out then out else out ++ [x]) out ↔
      x ∈ out ∨ (x ≠ "" ∧ x ∈ xs) by
    simpa [dedup] using h []
  induction xs with
  | nil => simp
  | cons y ys ih =>
    intro out
    rw [List.foldl_cons, ih]
    split
    next h => grind
    next h => grind

theorem nodup_dedup (xs : List String) : (dedup xs).Nodup := by
  suffices h : ∀ out : List String, out.Nodup →
      (xs.foldl (fun out x => if x = "" ∨ x ∈ out then out else out ++ [x]) out).Nodup from h [] List.nodup_nil
  induction xs with
  | nil => exact fun _ hout => hout
  | cons y ys ih =>
    intro out hout
    rw [List.foldl_cons]
    split
    next => exact ih out hout
    next hnew =>
      refine ih _ ?_
      rw [← List.concat_eq_append]
      exact (List.nodup_concat out y).mpr ⟨fun hmem => hnew (.inr hmem), hout⟩

-- ---------------------------------------------------------------------------
-- Decimal numerals
-- ---------------------------------------------------------------------------

theorem toList_toString_int (v : Int) : (toString v).toList =
    match v with
    | .ofNat n => Nat.toDigits 10 n
    | .negSucc n => '-' :: Nat.toDigits 10 (n + 1) := by
  rw [Int.toString_eq_repr]
  cases v with
  | ofNat n => exact Nat.toList_repr
  | negSucc n =>
    show ("-" ++ (n + 1).repr).toList = _
    rw [String.toList_append, Nat.toList_repr]
    rfl

theorem isDigit_of_mem_numeral {n : Nat} {c : Char} (h : c ∈ Nat.toDigits 10 n) : c.isDigit :=
  Nat.isDigit_of_mem_toDigits (by decide) (by decide) h

theorem not_mem_toString {c : Char} (hdigit : c.isDigit = false) (hminus : c ≠ '-') (v : Int) :
    c ∉ (toString v).toList := by
  rw [toList_toString_int]
  cases v with
  | ofNat n => exact fun h => absurd (isDigit_of_mem_numeral h) (by simp [hdigit])
  | negSucc n =>
    simp only [List.mem_cons, not_or]
    exact ⟨hminus, fun h => absurd (isDigit_of_mem_numeral h) (by simp [hdigit])⟩

theorem slash_not_mem_toString (v : Int) : '/' ∉ (toString v).toList := not_mem_toString rfl (by decide) v

theorem newline_not_mem_toString (v : Int) : '\n' ∉ (toString v).toList := not_mem_toString rfl (by decide) v

theorem rtakeWhile_last {c : Char} (front : List Char) {back : List Char} (h : c ∉ back) :
    (front ++ c :: back).rtakeWhile (· ≠ c) = back := by
  rw [List.rtakeWhile, List.reverse_append, List.reverse_cons, List.append_assoc, List.singleton_append,
    List.takeWhile_append_of_pos]
  · simp
  · intro d hd
    rw [List.mem_reverse] at hd
    exact decide_eq_true fun heq => h (heq ▸ hd)

theorem toDigits_injective {m n : Nat} (h : Nat.toDigits 10 m = Nat.toDigits 10 n) : m = n := by
  have hvalue := congrArg (Nat.ofDigitChars 10 · 0) h
  simpa only [Nat.ofDigitChars_ten_toDigits] using hvalue

theorem toString_int_injective : Function.Injective (toString : Int → String) := by
  intro v w h
  have hlist := congrArg String.toList h
  rw [toList_toString_int, toList_toString_int] at hlist
  have hminus : ∀ n m : Nat, Nat.toDigits 10 n ≠ '-' :: Nat.toDigits 10 m := by
    intro n m heq
    exact absurd (isDigit_of_mem_numeral (heq ▸ List.mem_cons_self : '-' ∈ Nat.toDigits 10 n)) (by decide)
  cases v with
  | ofNat n =>
    cases w with
    | ofNat m => exact congrArg Int.ofNat (toDigits_injective hlist)
    | negSucc m => exact absurd hlist (hminus n (m + 1))
  | negSucc n =>
    cases w with
    | ofNat m => exact absurd hlist.symm (hminus m (n + 1))
    | negSucc m =>
      have hsucc := toDigits_injective (List.cons.inj hlist).2
      exact congrArg Int.negSucc (Nat.succ.inj hsucc)

theorem digitChar_eq_ofNat : ∀ k < 10, Char.ofNat ('0'.toNat + k) = k.digitChar := by decide

theorem itoaDigits_eq {i n : Nat} (h : n < 10 ^ i) (buf : List Char) :
    itoaDigits i n buf = some ((if n = 0 then [] else Nat.toDigits 10 n) ++ buf) := by
  induction i generalizing n buf with
  | zero =>
    obtain rfl : n = 0 := by omega
    rfl
  | succ i ih =>
    cases n with
    | zero => rfl
    | succ n =>
      have hrest : (n + 1) / 10 < 10 ^ i := by omega
      rw [itoaDigits, ih hrest, digitChar_eq_ofNat _ (Nat.mod_lt _ (by decide)), if_neg (Nat.succ_ne_zero n)]
      by_cases hone : n + 1 < 10
      · rw [if_pos (Nat.div_eq_of_lt hone), Nat.mod_eq_of_lt hone, Nat.toDigits_of_lt_base hone]
        rfl
      · have hmore : (n + 1) / 10 ≠ 0 := by omega
        rw [if_neg hmore, Nat.toDigits_of_base_le (n := n + 1) (by decide) (by omega), List.append_assoc]
        rfl

theorem itoa_eq_toString {v : Int} (h : 0 ≤ v) (hv : v < 10 ^ 20) : itoa v = toString v := by
  obtain ⟨n, rfl⟩ := Int.eq_ofNat_of_zero_le h
  unfold itoa
  split
  next hz =>
    obtain rfl : n = 0 := by omega
    rfl
  next hz =>
    have hn : n ≠ 0 := by omega
    rw [Int.toNat_natCast, itoaDigits_eq (by exact_mod_cast hv), if_neg hn, ← String.toList_inj,
      toList_toString_int]
    simp

-- ---------------------------------------------------------------------------
-- Reading numerals
-- ---------------------------------------------------------------------------

theorem digitsValue_toDigits (n : Nat) : digitsValue (Nat.toDigits 10 n) = n := by
  rw [digitsValue, ← Nat.ofDigitChars_eq_foldl]
  exact Nat.ofDigitChars_ten_toDigits

theorem head?_toDigits {n : Nat} (h : 0 < n) : (Nat.toDigits 10 n).head? ≠ some '0' := by
  induction n using Nat.strongRecOn with
  | ind n ih =>
    by_cases hone : n < 10
    · rw [Nat.toDigits_of_lt_base hone]
      have hdigit : ∀ k < 10, 0 < k → k.digitChar ≠ '0' := by decide
      simpa using hdigit n hone h
    · have hrest : 0 < n / 10 := by omega
      rw [Nat.toDigits_of_base_le (by decide) (Nat.le_of_not_lt hone),
        List.head?_append_of_ne_nil _ Nat.toDigits_ne_nil]
      exact ih (n / 10) (by omega) hrest

theorem parseInt_of_digits {s : String} (hne : s.toList ≠ []) (hdigits : ∀ c ∈ s.toList, c.isDigit) :
    parseInt s = if int64 (digitsValue s.toList) = digitsValue s.toList then some (digitsValue s.toList : Int)
      else none := by
  unfold parseInt
  split
  next negative ds hsplit =>
    split at hsplit
    next ds' hs => exact absurd (hdigits '-' (by simp [hs])) (by decide)
    next ds' hs => exact absurd (hdigits '+' (by simp [hs])) (by decide)
    next =>
      obtain ⟨rfl, rfl⟩ := Prod.mk.inj hsplit
      simp only [ne_eq, hne, not_false_eq_true, List.all_eq_true.mpr hdigits, true_and, Bool.false_eq_true, if_false]

theorem parseInt_toString (v : Int) : parseInt (toString v) = if int64 v = v then some v else none := by
  cases v with
  | ofNat n =>
    have hlist : (toString (Int.ofNat n)).toList = Nat.toDigits 10 n := toList_toString_int _
    have hvalue : (digitsValue (toString (Int.ofNat n)).toList : Int) = Int.ofNat n := by
      rw [hlist, digitsValue_toDigits]
      rfl
    rw [parseInt_of_digits, hvalue]
    · rw [hlist]
      exact Nat.toDigits_ne_nil
    · rw [hlist]
      exact fun c hc => isDigit_of_mem_numeral hc
  | negSucc n =>
    have hvalue : -((digitsValue (Nat.toDigits 10 (n + 1)) : Nat) : Int) = Int.negSucc n := by
      rw [digitsValue_toDigits]
      rfl
    have hdigits : (Nat.toDigits 10 (n + 1)).all Char.isDigit = true :=
      List.all_eq_true.mpr fun c hc => isDigit_of_mem_numeral hc
    unfold parseInt
    rw [toList_toString_int]
    simp only [if_true, hvalue, hdigits, ne_eq, Nat.toDigits_ne_nil, not_false_eq_true, true_and]

end PeerWan
