import Mathlib.Data.Nat.Digits.Lemmas
import PeerWan.Lib.AddrText

/-!
# Addresses as bytes

Go's `net.IP` is a slice of bytes. An IPv4 address is one of 4 bytes or of 16,
where 12 fixed bytes stand in front; the methods take either. The two forms
denote one address, and their values as numbers decide in which prefixes it is.
-/

namespace Lib

-- ---------------------------------------------------------------------------
-- Prefixes as ranges of numbers
-- ---------------------------------------------------------------------------

theorem toNat_and_high {w : Nat} (x : BitVec w) (k : Nat) :
    (x &&& (BitVec.allOnes w <<< k)).toNat = x.toNat / 2 ^ k * 2 ^ k := by
  have hshift : x &&& (BitVec.allOnes w <<< k) = (x >>> k) <<< k := by
    ext i hi
    by_cases hik : i < k
    · simp [hik]
    · have hback : k + (i - k) = i := by omega
      simp [hik, hback, hi]
  have hle : x.toNat / 2 ^ k * 2 ^ k ≤ x.toNat := Nat.div_mul_le_self ..
  rw [hshift, BitVec.toNat_shiftLeft, BitVec.toNat_ushiftRight, Nat.shiftRight_eq_div_pow, Nat.shiftLeft_eq,
    Nat.mod_eq_of_lt (hle.trans_lt x.isLt)]

theorem and_high_inj {w : Nat} {x y : BitVec w} {k : Nat} :
    x &&& (BitVec.allOnes w <<< k) = y &&& (BitVec.allOnes w <<< k) ↔ x.toNat / 2 ^ k = y.toNat / 2 ^ k := by
  rw [← BitVec.toNat_inj, toNat_and_high, toNat_and_high]
  exact Nat.mul_left_inj (by positivity)

theorem and_high_eq_iff {w : Nat} (x : BitVec w) (k n : Nat) (hn : n * 2 ^ k < 2 ^ w) :
    x &&& (BitVec.allOnes w <<< k) = BitVec.ofNat w (n * 2 ^ k) ↔ x.toNat / 2 ^ k = n := by
  rw [← BitVec.toNat_inj, toNat_and_high, BitVec.toNat_ofNat, Nat.mod_eq_of_lt hn]
  exact Nat.mul_left_inj (by positivity)

theorem CIDR.contains_v4 {x y : BitVec 32} {n : Nat} : (⟨.v4 x, n⟩ : CIDR).Contains (.v4 y) ↔
    y.toNat / 2 ^ (32 - n) = x.toNat / 2 ^ (32 - n) := by
  rw [CIDR.Contains, CIDR.network, Addr.mask, Addr.mask, Addr.v4.injEq]
  exact and_high_inj

theorem CIDR.contains_v6 {x y : BitVec 128} {n : Nat} {zone : String} :
    (⟨.v6 x zone, n⟩ : CIDR).Contains (.v6 y zone) ↔ y.toNat / 2 ^ (128 - n) = x.toNat / 2 ^ (128 - n) := by
  rw [CIDR.Contains, CIDR.network, Addr.mask, Addr.mask, Addr.v6.injEq, and_iff_left rfl]
  exact and_high_inj

theorem CIDR.contains_host {x : BitVec 32} {a : Addr} : (⟨.v4 x, 32⟩ : CIDR).Contains a ↔ a = .v4 x := by
  cases a with
  | v4 y => rw [CIDR.contains_v4, Nat.sub_self, pow_zero, Nat.div_one, Nat.div_one, BitVec.toNat_inj, Addr.v4.injEq]
  | v6 y zone =>
    rw [CIDR.Contains, CIDR.network, Addr.mask, Addr.mask]
    exact iff_of_false nofun nofun

theorem flip_and_high {w k : Nat} (x : BitVec w) (hk : 0 < k) :
    (x ^^^ 1#w) &&& (BitVec.allOnes w <<< k) = x &&& (BitVec.allOnes w <<< k) := by
  ext i hi
  by_cases hik : i < k
  · simp [hik]
  · have hpos : i ≠ 0 := by omega
    simp [hik, hpos]

theorem flip_ne {w : Nat} (x : BitVec w) (hw : w ≠ 0) : x ^^^ 1#w ≠ x := by
  intro h
  have hone : 1#w = 0#w := (BitVec.xor_right_inj x).mp (h.trans BitVec.xor_zero.symm)
  exact hw (BitVec.one_eq_zero_iff.mp hone)

theorem CIDR.exists_ne_addr {c : CIDR} (h : c.length < c.addr.bitLen) : ∃ a, c.Contains a ∧ a ≠ c.addr := by
  obtain ⟨a, n⟩ := c
  cases a with
  | v4 x =>
    refine ⟨.v4 (x ^^^ 1#32), congrArg Addr.v4 (flip_and_high x (Nat.sub_pos_of_lt h)), ?_⟩
    exact fun heq => flip_ne x (by decide) (Addr.v4.inj heq)
  | v6 x zone =>
    refine ⟨.v6 (x ^^^ 1#128) zone, congrArg (Addr.v6 · zone) (flip_and_high x (Nat.sub_pos_of_lt h)), ?_⟩
    exact fun heq => flip_ne x (by decide) (Addr.v6.inj heq).1

abbrev IP := List (BitVec 8)

namespace IP

def v4InV6Prefix : IP := [0, 0, 0, 0, 0, 0, 0, 0, 0, 0, 0xff, 0xff]

def mapped (q : IP) : IP := v4InV6Prefix ++ q

def to4 (ip : IP) : Option IP :=
  if ip.length = 4 then some ip
  else if ip.length = 16 ∧ ip.take 12 = v4InV6Prefix then some (ip.drop 12)
  else none

def to16 (ip : IP) : Option IP :=
  if ip.length = 4 then some (mapped ip) else if ip.length = 16 then some ip else none

def equal (ip x : IP) : Bool :=
  if ip.length = x.length then ip = x
  else if ip.length = 4 ∧ x.length = 16 then mapped ip = x
  else if ip.length = 16 ∧ x.length = 4 then ip = mapped x
  else false

def byte (ip : IP) (i : Nat) : BitVec 8 := ip.getD i 0

def isLoopback (ip : IP) : Bool :=
  match to4 ip with
  | some q => byte q 0 = 127
  | none => equal ip (List.replicate 15 0 ++ [1])

def isUnspecified (ip : IP) : Bool := equal ip (mapped [0, 0, 0, 0]) || equal ip (List.replicate 16 0)

def isMulticast (ip : IP) : Bool :=
  match to4 ip with
  | some q => byte q 0 &&& 0xf0 = 0xe0
  | none => ip.length = 16 && byte ip 0 = 0xff

def isLinkLocalUnicast (ip : IP) : Bool :=
  match to4 ip with
  | some q => byte q 0 = 169 && byte q 1 = 254
  | none => ip.length = 16 && byte ip 0 = 0xfe && byte ip 1 &&& 0xc0 = 0x80

def isGlobalUnicast (ip : IP) : Bool :=
  (ip.length = 4 || ip.length = 16) && !equal ip (mapped [255, 255, 255, 255]) && !isUnspecified ip &&
    !isLoopback ip && !isMulticast ip && !isLinkLocalUnicast ip

-- ---------------------------------------------------------------------------
-- Texts
-- ---------------------------------------------------------------------------

def hex (n : Nat) : String := String.ofList (Nat.toDigits 16 n)

def groups (ip : IP) : List Nat :=
  (List.range 8).map fun i => (byte ip (2 * i)).toNat * 256 + (byte ip (2 * i + 1)).toNat

/-- The longest run of at least two groups of zeros, and of two such the first. -/
def zeroRun (gs : List Nat) : Option (Nat × Nat) :=
  (List.range 8).foldl (fun best i =>
    let l := ((gs.drop i).takeWhile (· = 0)).length
    if l ≥ 2 ∧ l > (best.map Prod.snd).getD 0 then some (i, l) else best) none

def string (ip : IP) : String :=
  match to4 ip with
  | some q => ".".intercalate (q.map fun b => toString b.toNat)
  | none =>
    if ip.length = 16 then
      let gs := groups ip
      match zeroRun gs with
      | none => ":".intercalate (gs.map hex)
      | some (i, l) => ":".intercalate ((gs.take i).map hex) ++ "::" ++ ":".intercalate ((gs.drop (i + l)).map hex)
    else if ip = [] then "<nil>"
    else "?" ++ String.join (ip.map fun b => hex (b.toNat / 16) ++ hex (b.toNat % 16))

example : string [0x20, 1, 0xd, 0xb8, 0, 0, 0, 0, 0, 1, 0, 0, 0, 0, 0, 2] = "2001:db8::1:0:0:2" := by decide

-- ---------------------------------------------------------------------------
-- The address of a slice
-- ---------------------------------------------------------------------------

def value (ip : IP) : Nat := Nat.ofDigits 256 (ip.reverse.map BitVec.toNat)

/-- The address that a slice stands for, if it has one of the lengths. -/
def addr? (ip : IP) : Option Addr :=
  match to4 ip with
  | some q => some (.v4 (BitVec.ofNat 32 (value q)))
  | none => if ip.length = 16 then some (.v6 (BitVec.ofNat 128 (value ip)) "") else none

/-- `As16`: the bytes of an address without its zone. -/
def ofAddr : Addr → IP
  | .v4 bits => mapped ((List.range 4).map fun i => (bits >>> (24 - 8 * i)).setWidth 8)
  | .v6 bits _ => (List.range 16).map fun i => (bits >>> (120 - 8 * i)).setWidth 8

theorem value_cons (b : BitVec 8) (ip : IP) : value (b :: ip) = b.toNat * 256 ^ ip.length + value ip := by
  rw [value, List.reverse_cons, List.map_append, Nat.ofDigits_append, List.length_map, List.length_reverse, value,
    Nat.add_comm, Nat.mul_comm]
  simp

theorem value_lt (ip : IP) : value ip < 256 ^ ip.length := by
  have hlt := Nat.ofDigits_lt_base_pow_length (b := 256) (l := ip.reverse.map BitVec.toNat) (by decide) (by
    intro n hn
    obtain ⟨b, -, rfl⟩ := List.mem_map.mp hn
    exact b.isLt)
  rwa [List.length_map, List.length_reverse] at hlt

theorem value_injective {ip ip' : IP} (hlen : ip.length = ip'.length) (h : value ip = value ip') : ip = ip' := by
  have hbyte : ∀ (bs : IP), ∀ n ∈ bs.reverse.map BitVec.toNat, n < 256 := by
    intro bs n hn
    obtain ⟨b, -, rfl⟩ := List.mem_map.mp hn
    exact b.isLt
  have hdigits := Nat.ofDigits_inj_of_len_eq (b := 256) (by decide) (by simpa using hlen) (hbyte ip) (hbyte ip') h
  exact List.reverse_injective (List.map_injective_iff.mpr (fun _ _ => BitVec.eq_of_toNat_eq) hdigits)

-- ---------------------------------------------------------------------------
-- The two forms of an IPv4 address
-- ---------------------------------------------------------------------------

variable {q r ip : IP}

theorem length_mapped (h : q.length = 4) : (mapped q).length = 16 := by
  rw [mapped, List.length_append, h]
  rfl

theorem to4_of_length (h : q.length = 4) : to4 q = some q := if_pos h

theorem to4_mapped (h : q.length = 4) : to4 (mapped q) = some q := by
  unfold to4
  rw [length_mapped h, if_neg (by decide), if_pos ⟨rfl, rfl⟩]
  rfl

theorem to4_cases (ip : IP) : ip.length = 4 ∨ (∃ q : IP, q.length = 4 ∧ ip = mapped q) ∨ to4 ip = none := by
  by_cases h4 : ip.length = 4
  · exact .inl h4
  by_cases h16 : ip.length = 16 ∧ ip.take 12 = v4InV6Prefix
  · refine .inr (.inl ⟨ip.drop 12, by rw [List.length_drop, h16.1], ?_⟩)
    rw [mapped, ← h16.2, List.take_append_drop]
  · exact .inr (.inr (by rw [to4, if_neg h4, if_neg h16]))

theorem addr?_of_length (h : q.length = 4) : addr? q = some (.v4 (BitVec.ofNat 32 (value q))) := by
  rw [addr?, to4_of_length h]

theorem addr?_mapped (h : q.length = 4) : addr? (mapped q) = addr? q := by
  rw [addr?_of_length h, addr?, to4_mapped h]

theorem mapped_injective (h : mapped q = mapped r) : q = r := List.append_cancel_left h

theorem equal_mapped (h : q.length = 4) (hr : r.length = 4) : equal (mapped q) (mapped r) = equal q (mapped r) := by
  rw [equal, equal, length_mapped h, length_mapped hr, h, if_pos rfl, if_neg (by decide), if_pos ⟨rfl, rfl⟩]

theorem equal_mapped_zeros (h : q.length = 4) :
    equal (mapped q) (List.replicate 16 0) = equal q (List.replicate 16 0) := by
  rw [equal, equal, length_mapped h, List.length_replicate, h, if_pos rfl, if_neg (by decide), if_pos ⟨rfl, rfl⟩]

theorem equal_four (h : q.length = 4) (hr : r.length = 4) : equal q (mapped r) = decide (q = r) := by
  rw [equal, length_mapped hr, h, if_neg (by decide), if_pos ⟨rfl, rfl⟩]
  exact decide_eq_decide.mpr ⟨mapped_injective, congrArg mapped⟩

theorem equal_four_zeros (h : q.length = 4) : equal q (List.replicate 16 0) = false := by
  rw [equal, List.length_replicate, h, if_neg (by decide), if_pos ⟨rfl, rfl⟩, decide_eq_false_iff_not]
  intro heq
  have hfront : v4InV6Prefix = (List.replicate 16 0).take 12 := by
    rw [← heq]
    rfl
  exact absurd hfront (by decide)

theorem isUnspecified_four (h : q.length = 4) : isUnspecified q = decide (q = [0, 0, 0, 0]) := by
  rw [isUnspecified, equal_four h rfl, equal_four_zeros h, Bool.or_false]

theorem isLoopback_mapped (h : q.length = 4) : isLoopback (mapped q) = isLoopback q := by
  rw [isLoopback, isLoopback, to4_mapped h, to4_of_length h]

theorem isGlobalUnicast_mapped (h : q.length = 4) : isGlobalUnicast (mapped q) = isGlobalUnicast q := by
  have hunspecified : isUnspecified (mapped q) = isUnspecified q := by
    rw [isUnspecified, isUnspecified, equal_mapped h rfl, equal_mapped_zeros h]
  have hmulticast : isMulticast (mapped q) = isMulticast q := by
    rw [isMulticast, isMulticast, to4_mapped h, to4_of_length h]
  have hlocal : isLinkLocalUnicast (mapped q) = isLinkLocalUnicast q := by
    rw [isLinkLocalUnicast, isLinkLocalUnicast, to4_mapped h, to4_of_length h]
  rw [isGlobalUnicast, isGlobalUnicast, hunspecified, hmulticast, hlocal, isLoopback_mapped h, equal_mapped h rfl,
    length_mapped h, h]
  rfl

-- ---------------------------------------------------------------------------
-- The text of an IPv4 address
-- ---------------------------------------------------------------------------

theorem of_to4_eq_some (h : to4 ip = some q) : q.length = 4 ∧ addr? ip = addr? q := by
  rcases to4_cases ip with h4 | ⟨r, h4, rfl⟩ | hnone
  · rw [to4_of_length h4] at h
    obtain rfl := Option.some.inj h
    exact ⟨h4, rfl⟩
  · rw [to4_mapped h4] at h
    obtain rfl := Option.some.inj h
    exact ⟨h4, addr?_mapped h4⟩
  · rw [hnone] at h
    cases h

theorem toList_string (a b c d : BitVec 8) :
    (string [a, b, c, d]).toList = Addr.dotted a.toNat b.toNat c.toNat d.toNat := by
  have hnumeral : ∀ b : BitVec 8, (toString b.toNat).toList = Nat.toDigits 10 b.toNat := fun b => Nat.toList_repr
  rw [string, to4_of_length (by rfl)]
  dsimp only
  rw [String.toList_intercalate, Addr.dotted, List.map_map]
  simp only [List.map_cons, List.map_nil, Function.comp_apply, hnumeral]
  rfl

theorem value_four (a b c d : BitVec 8) :
    value [a, b, c, d] = ((a.toNat * 256 + b.toNat) * 256 + c.toNat) * 256 + d.toNat := by
  simp only [value_cons, List.length_cons, List.length_nil, show value [] = 0 from rfl]
  omega

theorem parse_string (h : q.length = 4) : Addr.parse q.string = addr? q := by
  obtain ⟨a, b, c, d, rfl⟩ : ∃ a b c d, q = [a, b, c, d] := List.length_eq_four.mp h
  have hle : ∀ b : BitVec 8, b.toNat ≤ 255 := fun b => Nat.le_of_lt_succ b.isLt
  rw [addr?_of_length h, value_four, ← String.ofList_toList (s := string [a, b, c, d]), toList_string]
  exact Addr.parse_ofList (Addr.parseIPv4_dotted (hle a) (hle b) (hle c) (hle d))

end IP

end Lib
