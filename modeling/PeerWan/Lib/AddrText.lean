import PeerWan.Lib.Net

/-!
# IPv4 addresses and prefixes as texts

An octet has no leading zeros, so an IPv4 address has one text. A prefix is the
text of its address with a length behind a slash; the address alone is a prefix
of full length.
-/

namespace Lib

-- ---------------------------------------------------------------------------
-- Addresses
-- ---------------------------------------------------------------------------

namespace Addr

theorem toNat_of_isDigit {c : Char} (h : c.isDigit) : 48 ≤ c.toNat ∧ c.toNat ≤ 57 :=
  Char.isDigit_iff_toNat.mp h

theorem digit_lt {c : Char} (h : c.isDigit) : c.toNat - '0'.toNat < 10 := by
  obtain ⟨hlow, hhigh⟩ := toNat_of_isDigit h
  show c.toNat - 48 < 10
  omega

theorem digitChar_sub {c : Char} (h : c.isDigit) : (c.toNat - '0'.toNat).digitChar = c := by
  obtain ⟨hlow, -⟩ := toNat_of_isDigit h
  apply Char.toNat_inj.mp
  rw [Nat.toNat_digitChar_of_lt_ten (digit_lt h)]
  show 48 + (c.toNat - 48) = c.toNat
  omega

theorem decimal_concat (ds : List Char) (d : Char) : decimal (ds ++ [d]) = 10 * decimal ds + (d.toNat - '0'.toNat) := by
  rw [decimal, List.foldl_append, Nat.mul_comm]
  rfl

theorem toDigits_decimal_cons {d : Char} (hd : d ≠ '0') (ds : List Char) (h : ∀ c ∈ d :: ds, c.isDigit) :
    0 < decimal (d :: ds) ∧ Nat.toDigits 10 (decimal (d :: ds)) = d :: ds := by
  have hone : ∀ c : Char, c.isDigit → Nat.toDigits 10 (c.toNat - '0'.toNat) = [c] := by
    intro c hc
    rw [Nat.toDigits_of_lt_base (digit_lt hc), digitChar_sub hc]
  induction ds using List.reverseRecOn with
  | nil =>
    have hdigit := h d List.mem_cons_self
    have hvalue : decimal [d] = d.toNat - '0'.toNat := Nat.zero_add _
    obtain ⟨hlow, -⟩ := toNat_of_isDigit hdigit
    rw [hvalue]
    refine ⟨?_, hone d hdigit⟩
    have hzero : d.toNat ≠ 48 := fun hd' => hd (Char.toNat_inj.mp hd')
    show 0 < d.toNat - 48
    omega
  | append_singleton ds e ih =>
    obtain ⟨hpos, hdigits⟩ := ih fun c hc => h c (by
      rw [← List.cons_append]
      exact List.mem_append_left _ hc)
    have hdigit := h e (by simp)
    rw [← List.cons_append, decimal_concat]
    refine ⟨by omega, ?_⟩
    rw [← Nat.toDigits_append_toDigits (by decide) hpos (digit_lt hdigit), hdigits, hone e hdigit]

theorem parseOctet_eq_some {ds : List Char} {n : Nat} (h : parseOctet ds = some n) :
    ds = Nat.toDigits 10 n ∧ n ≤ 255 := by
  unfold parseOctet at h
  split at h
  next hok =>
    obtain ⟨hne, hdigits, hzero, hle⟩ := hok
    obtain rfl := Option.some.inj h
    refine ⟨?_, hle⟩
    obtain ⟨d, ds, rfl⟩ := List.exists_cons_of_ne_nil hne
    by_cases hd : d = '0'
    · subst hd
      obtain rfl : ds = [] := by simpa using hzero rfl
      rfl
    · exact (toDigits_decimal_cons hd ds (List.all_eq_true.mp hdigits)).2.symm
  next => cases h

/-- The text of an IPv4 address: four numerals with dots between them. -/
def dotted (a b c d : Nat) : List Char := ['.'].intercalate ([a, b, c, d].map (Nat.toDigits 10))

theorem parseIPv4_eq_some {cs : List Char} {b : BitVec 32} (h : parseIPv4 cs = some b) : ∃ w x y z,
    w ≤ 255 ∧ x ≤ 255 ∧ y ≤ 255 ∧ z ≤ 255 ∧ cs = dotted w x y z ∧
      b = BitVec.ofNat 32 (((w * 256 + x) * 256 + y) * 256 + z) := by
  unfold parseIPv4 at h
  split at h
  next w x y z hoctets =>
    obtain ⟨dw, rest, hsplit, hw, hrest⟩ := List.map_eq_cons_iff.mp hoctets
    obtain ⟨dx, rest, rfl, hx, hrest⟩ := List.map_eq_cons_iff.mp hrest
    obtain ⟨dy, rest, rfl, hy, hrest⟩ := List.map_eq_cons_iff.mp hrest
    obtain ⟨dz, rest, rfl, hz, hrest⟩ := List.map_eq_cons_iff.mp hrest
    obtain rfl := List.map_eq_nil_iff.mp hrest
    obtain ⟨rfl, hwle⟩ := parseOctet_eq_some hw
    obtain ⟨rfl, hxle⟩ := parseOctet_eq_some hx
    obtain ⟨rfl, hyle⟩ := parseOctet_eq_some hy
    obtain ⟨rfl, hzle⟩ := parseOctet_eq_some hz
    refine ⟨w, x, y, z, hwle, hxle, hyle, hzle, ?_, (Option.some.inj h).symm⟩
    rw [← @List.intercalate_splitOn _ cs _ _ '.', hsplit]
    rfl
  next => cases h

theorem parseIPv4_injective {cs cs' : List Char} {b : BitVec 32} (h : parseIPv4 cs = some b)
    (h' : parseIPv4 cs' = some b) : cs = cs' := by
  obtain ⟨w, x, y, z, hw, hx, hy, hz, rfl, rfl⟩ := parseIPv4_eq_some h
  obtain ⟨w', x', y', z', hw', hx', hy', hz', rfl, hb⟩ := parseIPv4_eq_some h'
  have hvalue := congrArg BitVec.toNat hb
  rw [BitVec.toNat_ofNat, BitVec.toNat_ofNat, Nat.mod_eq_of_lt (by omega), Nat.mod_eq_of_lt (by omega)] at hvalue
  obtain rfl : w = w' := by omega
  obtain rfl : x = x' := by omega
  obtain rfl : y = y' := by omega
  obtain rfl : z = z' := by omega
  rfl

theorem parseOctet_toDigits : ∀ n ≤ 255, parseOctet (Nat.toDigits 10 n) = some n := by decide +kernel

theorem dot_not_mem_toDigits (n : Nat) : '.' ∉ Nat.toDigits 10 n := fun h =>
  absurd (Nat.isDigit_of_mem_toDigits (by decide) (by decide) h) (by decide)

theorem parseIPv4_dotted {w x y z : Nat} (hw : w ≤ 255) (hx : x ≤ 255) (hy : y ≤ 255) (hz : z ≤ 255) :
    parseIPv4 (dotted w x y z) = some (BitVec.ofNat 32 (((w * 256 + x) * 256 + y) * 256 + z)) := by
  have hsplit : (dotted w x y z).splitOn '.' = [w, x, y, z].map (Nat.toDigits 10) := by
    refine List.splitOn_intercalate '.' (fun l hl => ?_) (by simp)
    obtain ⟨n, -, rfl⟩ := List.mem_map.mp hl
    exact dot_not_mem_toDigits n
  rw [parseIPv4, hsplit]
  simp only [List.map_cons, List.map_nil, parseOctet_toDigits w hw, parseOctet_toDigits x hx, parseOctet_toDigits y hy,
    parseOctet_toDigits z hz]

theorem mem_of_parseIPv4 {cs : List Char} {b : BitVec 32} (h : parseIPv4 cs = some b) :
    ∀ c ∈ cs, c.isDigit ∨ c = '.' := by
  obtain ⟨w, x, y, z, -, -, -, -, rfl, -⟩ := parseIPv4_eq_some h
  have hdigit : ∀ n, ∀ c ∈ Nat.toDigits 10 n, c.isDigit := fun n c hc =>
    Nat.isDigit_of_mem_toDigits (by decide) (by decide) hc
  intro c hc
  simp only [dotted, List.map_cons, List.map_nil, List.intercalate, List.intersperse, List.flatten_cons,
    List.flatten_nil, List.mem_append, List.mem_singleton, List.not_mem_nil, or_false] at hc
  rcases hc with hc | rfl | hc | rfl | hc | rfl | hc
  · exact .inl (hdigit w c hc)
  · exact .inr rfl
  · exact .inl (hdigit x c hc)
  · exact .inr rfl
  · exact .inl (hdigit y c hc)
  · exact .inr rfl
  · exact .inl (hdigit z c hc)

theorem dot_mem_of_parseIPv4 {cs : List Char} {b : BitVec 32} (h : parseIPv4 cs = some b) : '.' ∈ cs := by
  obtain ⟨w, x, y, z, -, -, -, -, rfl, -⟩ := parseIPv4_eq_some h
  simp [dotted, List.intercalate, List.intersperse]

theorem parse_ofList {cs : List Char} {b : BitVec 32} (h : parseIPv4 cs = some b) :
    parse (String.ofList cs) = some (.v4 b) := by
  have hfirst : cs.find? (fun c => c = '.' || c = ':' || c = '%') = some '.' := by
    cases hfind : cs.find? fun c => c = '.' || c = ':' || c = '%' with
    | none => exact absurd (List.find?_eq_none.mp hfind '.' (dot_mem_of_parseIPv4 h)) (by decide)
    | some c =>
      have hsign := List.find?_some hfind
      rcases mem_of_parseIPv4 h c (List.mem_of_find?_eq_some hfind) with hdigit | rfl
      · obtain ⟨hlow, hhigh⟩ := toNat_of_isDigit hdigit
        simp only [Bool.or_eq_true, decide_eq_true_eq] at hsign
        obtain (rfl | rfl) | rfl := hsign
        · rfl
        · exact absurd hhigh (by decide)
        · exact absurd hlow (by decide)
      · rfl
  rw [parse, String.toList_ofList, hfirst]
  exact congrArg (Option.map Addr.v4) h

theorem parseIPv4_of_parse {s : String} {b : BitVec 32} (h : parse s = some (.v4 b)) :
    parseIPv4 s.toList = some b := by
  unfold parse at h
  split at h
  · obtain ⟨b', hb, heq⟩ := Option.map_eq_some_iff.mp h
    rw [hb, Addr.v4.inj heq]
  · unfold parseIPv6 at h
    dsimp only at h
    split at h
    · cases h
    · obtain ⟨groups, -, heq⟩ := Option.map_eq_some_iff.mp h
      cases heq
  · cases h

theorem slash_not_mem_of_parseGroups {n : Nat} {groups groups' : List Nat} {ellipsis ellipsis' : Option Nat}
    {cs : List Char} (h : parseGroups n groups ellipsis cs = some (groups', ellipsis', [])) : '/' ∉ cs := by
  induction n generalizing groups ellipsis cs with
  | zero =>
    cases h
    exact List.not_mem_nil
  | succ n ih =>
    rw [parseGroups] at h
    -- the digits of the group have none, so what follows them decides
    have hfollows : '/' ∉ cs.drop (cs.takeWhile fun c => (hexDigit? c).isSome).length → '/' ∉ cs := by
      intro hrest hmem
      rw [← List.prefix_iff_eq_append.mp (List.takeWhile_prefix (l := cs) fun c => (hexDigit? c).isSome),
        List.mem_append] at hmem
      rcases hmem with hdigit | hmem
      · exact absurd (List.mem_takeWhile_imp hdigit) (by decide)
      · exact hrest hmem
    split at h
    · cases h
    split at h
    next =>
      split at h
      · cases h
      · obtain ⟨b, hb, -⟩ := Option.map_eq_some_iff.mp h
        exact fun hmem => absurd (mem_of_parseIPv4 hb '/' hmem) (by decide)
    next hrest => exact hfollows (hrest ▸ List.not_mem_nil)
    next => cases h
    next rest hrest =>
      refine hfollows ?_
      rw [hrest]
      split at h
      · cases h
      dsimp only at h
      split at h
      next hend =>
        subst hend
        decide
      next =>
        have := ih h
        simp [this]
    next rest _ hrest =>
      refine hfollows ?_
      rw [hrest]
      have := ih h
      simp [this]
    next => cases h

theorem slash_not_mem_of_fillGroups {n : Nat} {ellipsis : Option Nat} {cs : List Char} {groups : List Nat}
    (h : (parseGroups n [] ellipsis cs).bind fillGroups = some groups) : '/' ∉ cs := by
  obtain ⟨⟨found, place, rest⟩, hfound, hfill⟩ := Option.bind_eq_some_iff.mp h
  cases rest with
  | nil => exact slash_not_mem_of_parseGroups hfound
  | cons c rest => cases hfill

theorem slash_not_mem_of_parseIP {s : String} {a : Addr} (h : parseIP s = some a) : '/' ∉ s.toList := by
  obtain ⟨hparse, hzone⟩ := Option.filter_eq_some_iff.mp h
  unfold parse at hparse
  split at hparse
  next =>
    obtain ⟨b, hb, -⟩ := Option.map_eq_some_iff.mp hparse
    exact fun hmem => absurd (mem_of_parseIPv4 hb '/' hmem) (by decide)
  next =>
    unfold parseIPv6 at hparse
    dsimp only at hparse
    split at hparse
    next => cases hparse
    next hpercent =>
      obtain ⟨groups, hgroups, rfl⟩ := Option.map_eq_some_iff.mp hparse
      have hrest : s.toList.drop ((s.toList.takeWhile (· ≠ '%')).length + 1) = [] :=
        String.ofList_eq_empty_iff.mp (of_decide_eq_true hzone)
      have hall : s.toList.takeWhile (· ≠ '%') = s.toList :=
        (List.takeWhile_prefix _).eq_of_length_le (Nat.le_of_not_lt fun hlt => hpercent ⟨hlt, hrest⟩)
      rw [hall] at hgroups
      split at hgroups
      next heq =>
        rw [heq]
        decide
      next rest _ heq =>
        rw [heq]
        simpa using slash_not_mem_of_fillGroups hgroups
      next => exact slash_not_mem_of_fillGroups hgroups
  next => cases hparse

end Addr

-- ---------------------------------------------------------------------------
-- Prefixes
-- ---------------------------------------------------------------------------

namespace CIDR

def addrText (s : String) : String := String.ofList (s.toList.takeWhile (· ≠ '/'))

theorem slash_not_mem_addrText (s : String) : '/' ∉ (addrText s).toList := by
  rw [addrText, String.toList_ofList]
  exact fun h => absurd (List.mem_takeWhile_imp h) (by decide)

theorem takeWhile_slash {s : String} (h : '/' ∉ s.toList) : s.toList.takeWhile (· ≠ '/') = s.toList :=
  List.takeWhile_eq_self_iff.mpr fun _ hc => decide_eq_true fun heq => h (heq ▸ hc)

theorem slash_mem_of_parse {s : String} {c : CIDR} (h : parse s = some c) : '/' ∈ s.toList := by
  by_contra hslash
  unfold parse at h
  dsimp only at h
  rw [takeWhile_slash hslash] at h
  split at h
  · simp at h
  · cases h

theorem parse_addrText {s : String} {c : CIDR} (h : parse s = some c) :
    Addr.parse (addrText s) = some c.addr := by
  unfold parse at h
  dsimp only at h
  split at h
  next a ha =>
    split at h
    next =>
      obtain rfl := Option.some.inj h
      exact ha
    next => cases h
  next => cases h

theorem parse_host {s : String} (h : '/' ∉ s.toList) :
    parse (s ++ "/32") = (Addr.parseIP s).map fun a => ⟨a, 32⟩ := by
  have hfront : ∀ c ∈ s.toList, decide (c ≠ '/') = true := List.takeWhile_eq_self_iff.mp (takeWhile_slash h)
  have htext : (s ++ "/32").toList.takeWhile (· ≠ '/') = s.toList := by
    rw [String.toList_append, List.takeWhile_append_of_pos hfront]
    exact List.append_nil _
  have hlength : (s ++ "/32").toList.drop (s.toList.length + 1) = ['3', '2'] := by
    rw [String.toList_append, ← List.drop_drop, List.drop_left]
    rfl
  unfold parse Addr.parseIP
  rw [htext]
  dsimp only
  rw [hlength, String.ofList_toList]
  cases hparse : Addr.parse s with
  | none => rfl
  | some a =>
    have hle : 32 ≤ a.bitLen := by cases a <;> simp [Addr.bitLen]
    by_cases hzone : a.zone = ""
    · rw [Option.filter_some, if_pos (decide_eq_true hzone)]
      exact if_pos ⟨hzone, by decide, by decide, hle⟩
    · rw [Option.filter_some, if_neg (by simpa using hzone)]
      exact if_neg fun hok => hzone hok.1

theorem slash_not_mem_of_parse {s : String} {b : BitVec 32} (h : Addr.parse s = some (.v4 b)) : '/' ∉ s.toList :=
  fun hslash => absurd (Addr.mem_of_parseIPv4 (Addr.parseIPv4_of_parse h) '/' hslash) (by decide)

theorem ipv4_text {s : String} {b : BitVec 32} {n : Nat} (h : ofText s = some ⟨.v4 b, n⟩) :
    Addr.parseIPv4 (addrText s).toList = some b ∧
      ∀ c ∈ s.toList.drop ((addrText s).toList.length + 1), c.isDigit := by
  unfold ofText at h
  split at h
  next c hc =>
    obtain rfl := Option.some.inj h
    refine ⟨Addr.parseIPv4_of_parse (parse_addrText hc), ?_⟩
    rw [addrText, String.toList_ofList]
    unfold parse at hc
    dsimp only at hc
    split at hc
    next =>
      split at hc
      next hok => exact List.all_eq_true.mp hok.2.2.1
      next => cases hc
    next => cases hc
  next =>
    obtain ⟨a, ha, heq⟩ := Option.map_eq_some_iff.mp h
    obtain ⟨rfl, -⟩ := CIDR.mk.inj heq
    rw [addrText, takeWhile_slash (slash_not_mem_of_parse ha), String.toList_ofList]
    refine ⟨Addr.parseIPv4_of_parse ha, ?_⟩
    rw [List.drop_of_length_le (Nat.le_succ _)]
    exact List.forall_mem_nil _

theorem ofText_addrText {s : String} {b : BitVec 32} {n : Nat} (h : ofText s = some ⟨.v4 b, n⟩) :
    ofText (addrText s) = some ⟨.v4 b, 32⟩ := by
  have hnone : parse (addrText s) = none := by
    rw [Option.eq_none_iff_forall_not_mem]
    exact fun c hc => slash_not_mem_addrText s (slash_mem_of_parse hc)
  have haddr := Addr.parse_ofList (ipv4_text h).1
  rw [String.ofList_toList] at haddr
  rw [ofText, hnone, haddr]
  rfl

theorem mem_of_ofText {s : String} {b : BitVec 32} {n : Nat} (h : ofText s = some ⟨.v4 b, n⟩) :
    ∀ c ∈ s.toList, c.isDigit ∨ c = '.' ∨ c = '/' := by
  obtain ⟨haddr, hlength⟩ := ipv4_text h
  have hsplit := List.takeWhile_append_dropWhile (p := fun c => decide (c ≠ '/')) (l := s.toList)
  intro c hc
  rw [← hsplit, List.mem_append] at hc
  rcases hc with hc | hc
  · rcases Addr.mem_of_parseIPv4 haddr c (by rwa [addrText, String.toList_ofList]) with hdigit | hdot
    · exact .inl hdigit
    · exact .inr (.inl hdot)
  · cases hrest : s.toList.dropWhile (· ≠ '/') with
    | nil =>
      rw [hrest] at hc
      cases hc
    | cons d ds =>
      have hd : d = '/' := by
        have hhead := List.head?_dropWhile_not (fun c => decide (c ≠ '/')) s.toList
        rw [hrest] at hhead
        simpa using hhead
      rw [hrest] at hc hsplit
      rcases List.mem_cons.mp hc with rfl | hc
      · exact .inr (.inr hd)
      · refine .inl (hlength c ?_)
        have hdrop :
            (s.toList.takeWhile (· ≠ '/') ++ d :: ds).drop ((s.toList.takeWhile (· ≠ '/')).length + 1) = ds := by
          simp
        rw [hsplit] at hdrop
        rwa [addrText, String.toList_ofList, hdrop]

end CIDR

end Lib
