import PeerWan.Agent.Render
import PeerWan.Lib.AddrText
import PeerWan.Lib.IPBytes

/-!
# What a policy rule expands to

`Expand` of `pkg/policy/geoip.go`: the prefix of a rule as it is written, or
those of a country file, and the addresses of its domains. What becomes of them
is in `Agent.Render`: allowed IPs of peers, and routes.
-/

namespace PeerWan

open Lib

/-- What `Expand` reads, for both kinds of sources and every country code. -/
structure PolicyHost where
  /-- `unicode.ToLower` and `unicode.ToUpper`. -/
  lower : Char → Char
  upper : Char → Char
  /-- Whether there is a cache directory, or one could be made. -/
  cacheDir : Bool
  cached : Bool → String → Option String
  httpGet : Bool → String → Option String
  lookupIP : String → Option (List IP)

namespace PolicyHost

variable (host : PolicyHost)

-- ---------------------------------------------------------------------------
-- Country files
-- ---------------------------------------------------------------------------

def geoipContent (cc : String) (v6 : Bool) : Option String :=
  let cc := trimSpace cc
  let low := String.ofList (cc.toList.map host.lower)
  let up := String.ofList (cc.toList.map host.upper)
  if cc = "" ∨ host.cacheDir = false then none
  else (if up = low then [low] else [low, up]).findSome? fun code =>
    (host.cached v6 code).or (host.httpGet v6 code)

/-- The lines that the scanner gives: one that does not fit its buffer ends it. -/
def scanned (content : String) : List String := (lines content).takeWhile fun line => line.utf8ByteSize < 65536

def kept (line : String) : Bool := line.toList.head? ≠ some '#' && '/' ∈ line.toList

def parseCIDRs (content : String) : List String := dedup (((scanned content).map trimSpace).filter kept)

def geoipPrefixes (cc : String) (v6 : Bool) : List String :=
  match host.geoipContent cc v6 with
  | some content => parseCIDRs content
  | none => []

-- ---------------------------------------------------------------------------
-- Expansion
-- ---------------------------------------------------------------------------

/-- The country code that the prefix of a rule names, and whether it asks for
IPv6. -/
def selector (r : PolicyRule) : Option (String × Bool) :=
  let low := r.pfx.toList.map host.lower
  if "geoip6:".toList <+: low then some (String.ofList (low.drop 7), true)
  else if "geoip:".toList <+: low then some (String.ofList (low.drop 6), false)
  else none

def prefixTexts (r : PolicyRule) : List String :=
  if r.pfx = "" then []
  else match host.selector r with
    | some (cc, v6) => host.geoipPrefixes cc v6
    | none =>
      let pfx := if '/' ∈ r.pfx.toList then r.pfx else r.pfx ++ "/32"
      if (CIDR.parse pfx).isSome then [pfx]
      else match Addr.parseIP r.pfx with
        | some ip => [(IP.ofAddr ip).string ++ "/32"]
        | none => []

def resolveDomain (domain : String) : List String :=
  ((host.lookupIP domain).getD []).filterMap fun ip => ip.to4.map IP.string

def expand (r : PolicyRule) : List String :=
  if r.validate then
    dedup (host.prefixTexts r ++ r.domains.flatMap fun d => (host.resolveDomain d).map (· ++ "/32"))
  else []

-- ---------------------------------------------------------------------------
-- What a rule denotes
-- ---------------------------------------------------------------------------

def Covers (text : String) (a : Addr) : Prop := ∃ c, CIDR.parse text = some c ∧ c.Contains a

/-- The addresses that the prefix of a rule stands for. -/
def PrefixDenotes (r : PolicyRule) (a : Addr) : Prop :=
  match host.selector r with
  | some (cc, v6) => ∃ content, host.geoipContent cc v6 = some content ∧
      ∃ line ∈ lines content, Covers (trimSpace line) a
  | none => Covers r.pfx a ∨ Addr.parseIP r.pfx = some a

def Resolved (r : PolicyRule) (a : Addr) : Prop :=
  ∃ d ∈ r.domains, ∃ ips, host.lookupIP d = some ips ∧ ∃ ip ∈ ips, ip.addr? = some a

/-- Every result is a prefix, none comes twice, and one covers addresses that
the rule's prefix denotes, or no other than one that a domain resolved to. -/
def ExpandExact (r : PolicyRule) : Prop :=
  (∀ text ∈ host.expand r, (CIDR.parse text).isSome) ∧ (host.expand r).Nodup ∧
    ∀ text ∈ host.expand r, (∀ a, Covers text a → host.PrefixDenotes r a) ∨
      ∃ x, host.Resolved r x ∧ ∀ a, Covers text a → a = x

/-- The prefix of a rule is not a bare IPv6 address, and the lines of its
country file are prefixes. -/
def PlainPrefix (r : PolicyRule) : Prop :=
  match host.selector r with
  | some (cc, v6) => ∀ content, host.geoipContent cc v6 = some content →
      ∀ line ∈ scanned content, kept (trimSpace line) → (CIDR.parse (trimSpace line)).isSome
  | none => ∀ bits zone, Addr.parseIP r.pfx ≠ some (.v6 bits zone)

-- ---------------------------------------------------------------------------
-- Results
-- ---------------------------------------------------------------------------

variable {host} {r : PolicyRule} {text : String}

theorem mem_expand : text ∈ host.expand r ↔ r.validate = true ∧ text ≠ "" ∧
    (text ∈ host.prefixTexts r ∨ ∃ d ∈ r.domains, ∃ ip ∈ host.resolveDomain d, ip ++ "/32" = text) := by
  unfold expand
  split
  next hvalid =>
    rw [mem_dedup, List.mem_append, List.mem_flatMap, and_iff_right hvalid]
    simp only [List.mem_map]
  next hvalid => simp [hvalid]

theorem nodup_expand (host : PolicyHost) (r : PolicyRule) : (host.expand r).Nodup := by
  unfold expand
  split
  · exact nodup_dedup _
  · exact List.nodup_nil

theorem resolveDomain_host {d ip : String} (h : ip ∈ host.resolveDomain d) : ∃ ips, host.lookupIP d = some ips ∧
    ∃ x ∈ ips, ∃ bits, x.addr? = some (.v4 bits) ∧ CIDR.parse (ip ++ "/32") = some ⟨.v4 bits, 32⟩ := by
  obtain ⟨x, hx, htext⟩ := List.mem_filterMap.mp h
  obtain ⟨q, hq, rfl⟩ := Option.map_eq_some_iff.mp htext
  obtain ⟨hlen, haddr⟩ := IP.of_to4_eq_some hq
  cases hlookup : host.lookupIP d with
  | none =>
    rw [hlookup] at hx
    cases hx
  | some ips =>
    rw [hlookup] at hx
    refine ⟨ips, rfl, x, hx, _, haddr.trans (IP.addr?_of_length hlen), ?_⟩
    have hparse : Addr.parse q.string = some (.v4 (BitVec.ofNat 32 (IP.value q))) :=
      (IP.parse_string hlen).trans (IP.addr?_of_length hlen)
    rw [CIDR.parse_host (CIDR.slash_not_mem_of_parse hparse), Addr.parseIP, hparse]
    rfl

theorem mem_parseCIDRs {content : String} :
    text ∈ parseCIDRs content ↔ ∃ line ∈ scanned content, trimSpace line = text ∧ kept text = true := by
  rw [parseCIDRs, mem_dedup, List.mem_filter, List.mem_map]
  constructor
  · rintro ⟨-, ⟨line, hline, rfl⟩, hkept⟩
    exact ⟨line, hline, rfl, hkept⟩
  · rintro ⟨line, hline, rfl, hkept⟩
    refine ⟨fun hempty => ?_, ⟨line, hline, rfl⟩, hkept⟩
    rw [hempty] at hkept
    exact absurd hkept (by decide)

theorem mem_prefixTexts_selector {cc : String} {v6 : Bool} (hselector : host.selector r = some (cc, v6)) :
    text ∈ host.prefixTexts r ↔
      ∃ content, host.geoipContent cc v6 = some content ∧ text ∈ parseCIDRs content := by
  have hpfx : r.pfx ≠ "" := by
    intro hempty
    rw [selector, hempty] at hselector
    cases hselector
  rw [prefixTexts, if_neg hpfx, hselector]
  dsimp only
  unfold geoipPrefixes
  cases host.geoipContent cc v6 <;> simp

/-- The second reading of the prefix never applies: an address without a slash
is one of the first. -/
theorem prefixTexts_literal (hselector : host.selector r = none) : host.prefixTexts r =
    if '/' ∈ r.pfx.toList then (if (CIDR.parse r.pfx).isSome then [r.pfx] else [])
    else if (Addr.parseIP r.pfx).isSome then [r.pfx ++ "/32"] else [] := by
  by_cases hempty : r.pfx = ""
  · rw [prefixTexts, if_pos hempty, hempty]
    decide
  rw [prefixTexts, if_neg hempty, hselector]
  dsimp only
  by_cases hslash : '/' ∈ r.pfx.toList
  · have hnone : Addr.parseIP r.pfx = none := by
      rw [Option.eq_none_iff_forall_not_mem]
      exact fun a ha => Addr.slash_not_mem_of_parseIP ha hslash
    rw [if_pos hslash, if_pos hslash, hnone]
  · rw [if_neg hslash, if_neg hslash, CIDR.parse_host hslash]
    cases Addr.parseIP r.pfx <;> rfl

theorem mem_prefixTexts_literal (hselector : host.selector r = none) : text ∈ host.prefixTexts r ↔
    ((CIDR.parse r.pfx).isSome = true ∧ text = r.pfx) ∨
      ((Addr.parseIP r.pfx).isSome = true ∧ text = r.pfx ++ "/32") := by
  rw [prefixTexts_literal hselector]
  split
  next hslash =>
    have hno : ¬ ((Addr.parseIP r.pfx).isSome = true ∧ text = r.pfx ++ "/32") := by
      rintro ⟨hsome, -⟩
      obtain ⟨a, ha⟩ := Option.isSome_iff_exists.mp hsome
      exact Addr.slash_not_mem_of_parseIP ha hslash
    rw [List.mem_ite_nil_right, List.mem_singleton, or_iff_left hno]
  next hslash =>
    have hno : ¬ ((CIDR.parse r.pfx).isSome = true ∧ text = r.pfx) := by
      rintro ⟨hsome, -⟩
      obtain ⟨c, hc⟩ := Option.isSome_iff_exists.mp hsome
      exact hslash (CIDR.slash_mem_of_parse hc)
    rw [List.mem_ite_nil_right, List.mem_singleton, or_iff_right hno]

theorem parse_bare {a : Addr} (haddr : Addr.parseIP r.pfx = some a) : CIDR.parse (r.pfx ++ "/32") = some ⟨a, 32⟩ := by
  rw [CIDR.parse_host (Addr.slash_not_mem_of_parseIP haddr), haddr]
  rfl

theorem prefixDenotes_literal (hselector : host.selector r = none) {a : Addr} :
    host.PrefixDenotes r a ↔ Covers r.pfx a ∨ Addr.parseIP r.pfx = some a := by
  rw [PrefixDenotes, hselector]

theorem covers_iff {c : CIDR} {a : Addr} (h : CIDR.parse text = some c) : Covers text a ↔ c.Contains a := by
  rw [Covers, h]
  simp

/-- Under the condition, a result of the prefix stands for addresses that the
prefix denotes. -/
theorem PlainPrefix.exact (h : host.PlainPrefix r) (htext : text ∈ host.prefixTexts r) :
    (CIDR.parse text).isSome ∧ ∀ a, Covers text a → host.PrefixDenotes r a := by
  cases hselector : host.selector r with
  | some source =>
    obtain ⟨cc, v6⟩ := source
    obtain ⟨content, hcontent, hlisted⟩ := (mem_prefixTexts_selector hselector).mp htext
    obtain ⟨line, hline, rfl, hkept⟩ := mem_parseCIDRs.mp hlisted
    rw [PlainPrefix, hselector] at h
    refine ⟨h content hcontent line hline hkept, fun a ha => ?_⟩
    rw [PrefixDenotes, hselector]
    exact ⟨content, hcontent, line, (List.takeWhile_prefix _).subset hline, ha⟩
  | none =>
    rw [PlainPrefix, hselector] at h
    rcases (mem_prefixTexts_literal hselector).mp htext with ⟨hparse, rfl⟩ | ⟨hsome, rfl⟩
    · exact ⟨hparse, fun a ha => (prefixDenotes_literal hselector).mpr (.inl ha)⟩
    · obtain ⟨a, haddr⟩ := Option.isSome_iff_exists.mp hsome
      have hhost := parse_bare haddr
      cases a with
      | v4 bits =>
        refine ⟨by rw [hhost]; rfl, fun a ha => (prefixDenotes_literal hselector).mpr (.inr ?_)⟩
        rw [haddr, CIDR.contains_host.mp ((covers_iff hhost).mp ha)]
      | v6 bits zone => exact absurd haddr (h bits zone)

theorem not_single_of_v6 {bits : BitVec 128} {zone : String} (hparse : CIDR.parse text = some ⟨.v6 bits zone, 32⟩)
    (x : Addr) : ¬ ∀ a, Covers text a → a = x := by
  intro honly
  obtain ⟨other, hother, hne⟩ := CIDR.exists_ne_addr (c := ⟨.v6 bits zone, 32⟩) (show 32 < 128 by decide)
  have hself := honly (.v6 bits zone) ((covers_iff hparse).mpr (CIDR.contains_addr _))
  exact hne ((honly other ((covers_iff hparse).mpr hother)).trans hself.symm)

/-- The prefix of a rule that is a bare address denotes no other. -/
theorem prefixDenotes_bare {a b : Addr} (hselector : host.selector r = none) (haddr : Addr.parseIP r.pfx = some a) :
    host.PrefixDenotes r b → b = a := by
  intro hdenotes
  rcases (prefixDenotes_literal hselector).mp hdenotes with ⟨c, hc, -⟩ | hip
  · exact absurd (CIDR.slash_mem_of_parse hc) (Addr.slash_not_mem_of_parseIP haddr)
  · exact Option.some.inj (hip.symm.trans haddr)

theorem plainPrefix_of_exact (h : host.ExpandExact r) (hvalid : r.validate = true) : host.PlainPrefix r := by
  obtain ⟨hparse, -, hexact⟩ := h
  unfold PlainPrefix
  cases hselector : host.selector r with
  | some source =>
    obtain ⟨cc, v6⟩ := source
    intro content hcontent line hline hkept
    have hlisted : trimSpace line ∈ parseCIDRs content := mem_parseCIDRs.mpr ⟨line, hline, rfl, hkept⟩
    refine hparse _ (mem_expand.mpr ⟨hvalid, fun hempty => ?_, .inl ?_⟩)
    · rw [hempty] at hkept
      exact absurd hkept (by decide)
    · exact (mem_prefixTexts_selector hselector).mpr ⟨content, hcontent, hlisted⟩
  | none =>
    intro bits zone haddr
    have hhost := parse_bare haddr
    have hmem : r.pfx ++ "/32" ∈ host.expand r := by
      refine mem_expand.mpr ⟨hvalid, by simp, .inl ?_⟩
      exact (mem_prefixTexts_literal hselector).mpr (.inr ⟨Option.isSome_of_eq_some haddr, rfl⟩)
    -- either reading of the result leaves one address, and it covers more
    rcases hexact _ hmem with hdenotes | ⟨x, -, honly⟩
    · exact not_single_of_v6 hhost (.v6 bits zone) fun a ha => prefixDenotes_bare hselector haddr (hdenotes a ha)
    · exact not_single_of_v6 hhost x honly

theorem covered_of_plain (h : r.validate = true → host.PlainPrefix r) (htext : text ∈ host.expand r) :
    (CIDR.parse text).isSome ∧ ((∀ a, Covers text a → host.PrefixDenotes r a) ∨
      ∃ x, host.Resolved r x ∧ ∀ a, Covers text a → a = x) := by
  obtain ⟨hvalid, -, hprefix | ⟨d, hd, ip, hip, rfl⟩⟩ := mem_expand.mp htext
  · obtain ⟨hparse, hdenotes⟩ := (h hvalid).exact hprefix
    exact ⟨hparse, .inl hdenotes⟩
  · obtain ⟨ips, hlookup, x, hx, bits, haddr, hparse⟩ := resolveDomain_host hip
    refine ⟨by rw [hparse]; rfl, .inr ⟨.v4 bits, ⟨d, hd, ips, hlookup, x, hx, haddr⟩, fun a ha => ?_⟩⟩
    exact CIDR.contains_host.mp ((covers_iff hparse).mp ha)

theorem expandExact_iff (host : PolicyHost) (r : PolicyRule) :
    host.ExpandExact r ↔ (r.validate = true → host.PlainPrefix r) := by
  constructor
  · exact plainPrefix_of_exact
  · intro h
    exact ⟨fun text htext => (covered_of_plain h htext).1, nodup_expand host r,
      fun text htext => (covered_of_plain h htext).2⟩

def offline : PolicyHost where
  lower := Char.toLower
  upper := Char.toUpper
  cacheDir := false
  cached _ _ := none
  httpGet _ _ := none
  lookupIP _ := none

def bareV6 : PolicyRule := { pfx := "2001:db8::1", viaNode := "gw" }

theorem expandExact_counterexample : offline.expand bareV6 = ["2001:db8::1/32"] ∧ ¬ offline.ExpandExact bareV6 := by
  refine ⟨by decide, fun h => ?_⟩
  have hplain := plainPrefix_of_exact h (by decide)
  exact hplain 0x20010db8000000000000000000000001 "" (by decide)

-- ---------------------------------------------------------------------------
-- What a rendering takes
-- ---------------------------------------------------------------------------

theorem slash_mem_of_mem_expand (htext : text ∈ host.expand r) : '/' ∈ text.toList := by
  obtain ⟨-, -, hprefix | ⟨d, -, ip, -, rfl⟩⟩ := mem_expand.mp htext
  · cases hselector : host.selector r with
    | some source =>
      obtain ⟨content, -, hlisted⟩ := (mem_prefixTexts_selector hselector).mp hprefix
      obtain ⟨line, -, -, hkept⟩ := mem_parseCIDRs.mp hlisted
      rw [kept, Bool.and_eq_true] at hkept
      exact of_decide_eq_true hkept.2
    | none =>
      rcases (mem_prefixTexts_literal hselector).mp hprefix with ⟨hsome, rfl⟩ | ⟨-, rfl⟩
      · obtain ⟨c, hc⟩ := Option.isSome_iff_exists.mp hsome
        exact CIDR.slash_mem_of_parse hc
      · simp
  · simp

def expander (host : PolicyHost) : Expander where
  expand := host.expand
  invalid r hinvalid := if_neg (by simp [hinvalid])
  masked _ _ htext := slash_mem_of_mem_expand htext

/-- What a peer is wanted for, the default route apart, is denoted by a rule
that names it next. -/
theorem wants_denoted {node : Node} {id : String}
    (hplain : ∀ pr ∈ node.policyRules, pr.validate = true → host.PlainPrefix pr)
    (hwants : node.Wants host.expander id text) : text = zeroPrefix ∨
      ∃ pr ∈ node.policyRules, pr.nextID = id ∧ ∀ a, Covers text a → host.PrefixDenotes pr a ∨ host.Resolved pr a := by
  obtain ⟨-, ⟨pr, hpr, hnext, htext⟩ | ⟨-, -, hzero⟩⟩ := hwants
  · refine .inr ⟨pr, hpr, hnext, fun a ha => ?_⟩
    obtain ⟨-, hdenotes | ⟨x, hx, honly⟩⟩ := covered_of_plain (hplain pr hpr) htext
    · exact .inl (hdenotes a ha)
    · exact .inr (honly a ha ▸ hx)
  · exact .inl hzero

theorem allowed_denoted {node : Node} {peers : List Peer} {p : Peer}
    (hplain : ∀ pr ∈ node.policyRules, pr.validate = true → host.PlainPrefix pr)
    (hp : p ∈ augmentEgressAllowedIPs host.expander peers node) (htext : text ∈ p.allowedIPs) :
    (∃ q ∈ peers, q.id = p.id ∧ text ∈ q.allowedIPs) ∨ text = zeroPrefix ∨
      ∃ pr ∈ node.policyRules, pr.nextID = p.id ∧
        ∀ a, Covers text a → host.PrefixDenotes pr a ∨ host.Resolved pr a := by
  obtain ⟨q, hq, rfl⟩ := List.mem_map.mp hp
  rcases mem_addAllowed.mp htext with hold | hwant
  · exact .inl ⟨q, hq, rfl, hold⟩
  · exact .inr (wants_denoted hplain (mem_egressTargets.mp hwant))

end PolicyHost

end PeerWan
