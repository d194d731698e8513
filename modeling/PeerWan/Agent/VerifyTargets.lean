import PeerWan.Agent.EgressPrefixes
import PeerWan.Agent.GeoIP

/-!
# The targets of a final verification

`collectVerifyTargets` of `pkg/agent/verify.go` collects what `curl` is to reach
once a task has applied the rules: the text of each prefix, the domains, and
what the rules expand to.
-/

namespace PeerWan

open Lib

section

variable (host : PolicyHost)

/-- The texts that the loop comes to for a rule. The address part of a prefix is
what stands before its first slash. -/
def targetTexts (pr : PolicyRule) : List String :=
  (if pr.pfx = "" then [] else [firstPart pr.pfx]) ++ (pr.domains.map trimSpace).filter (· ≠ "") ++
    (host.expand pr).map firstPart

def collectVerifyTargets (rules : List PolicyRule) : List String :=
  rules.foldl (fun targets pr => addAllowed targets (targetTexts host pr)) []

/-- `curl` gives the error of a request that fails, and what it printed. -/
def runCurlVerify (curl : String → Option (String × String)) : List String → Option String
  | [] => none
  | t :: targets =>
    let arg := if "://".toList <:+: t.toList then t else "http://" ++ t
    match curl arg with
    | some (err, out) => some ("curl " ++ arg ++ " failed: " ++ err ++ " (" ++ out ++ ")")
    | none => runCurlVerify curl targets

end

-- ---------------------------------------------------------------------------
-- What is collected
-- ---------------------------------------------------------------------------

variable {host : PolicyHost} {rules : List PolicyRule} {pr : PolicyRule} {t : String}

theorem nodup_addAllowed {allowed want : List String} (h : allowed.Nodup) : (addAllowed allowed want).Nodup := by
  unfold addAllowed
  induction want generalizing allowed with
  | nil => exact h
  | cons w want ih =>
    rw [List.foldl_cons]
    split
    next => exact ih h
    next hw =>
      refine ih ?_
      rw [← List.concat_eq_append]
      exact (List.nodup_concat allowed w).mpr ⟨hw, h⟩

theorem mem_collectVerifyTargets :
    t ∈ collectVerifyTargets host rules ↔ ∃ pr ∈ rules, t ∈ targetTexts host pr := by
  have hloop : ∀ targets : List String,
      t ∈ rules.foldl (fun targets pr => addAllowed targets (targetTexts host pr)) targets ↔
        t ∈ targets ∨ ∃ pr ∈ rules, t ∈ targetTexts host pr := by
    induction rules with
    | nil => simp
    | cons pr rules ih =>
      intro targets
      rw [List.foldl_cons, ih, mem_addAllowed, List.exists_mem_cons_iff, or_assoc]
  rw [collectVerifyTargets, hloop, or_iff_right List.not_mem_nil]

theorem nodup_collectVerifyTargets (host : PolicyHost) (rules : List PolicyRule) :
    (collectVerifyTargets host rules).Nodup := by
  have hloop : ∀ targets : List String, targets.Nodup →
      (rules.foldl (fun targets pr => addAllowed targets (targetTexts host pr)) targets).Nodup := by
    induction rules with
    | nil => exact fun _ h => h
    | cons pr rules ih => exact fun targets h => ih _ (nodup_addAllowed h)
  exact hloop [] List.nodup_nil

/-- A domain of a rule, without the white space around it. -/
def IsDomain (rules : List PolicyRule) (t : String) : Prop :=
  ∃ pr ∈ rules, ∃ d ∈ pr.domains, trimSpace d = t ∧ t ≠ ""

/-- The address part of a prefix that a rule expands to. -/
def IsAddressPart (host : PolicyHost) (rules : List PolicyRule) (t : String) : Prop :=
  ∃ pr ∈ rules, ∃ text ∈ host.expand pr, firstPart text = t

theorem mem_targets_iff : t ∈ collectVerifyTargets host rules ↔
    (∃ pr ∈ rules, pr.pfx ≠ "" ∧ firstPart pr.pfx = t) ∨ IsDomain rules t ∨ IsAddressPart host rules t := by
  rw [mem_collectVerifyTargets]
  constructor
  · rintro ⟨pr, hpr, ht⟩
    rcases List.mem_append.mp ht with ht | ht
    · rcases List.mem_append.mp ht with ht | ht
      · split at ht
        next => cases ht
        next hpfx => exact .inl ⟨pr, hpr, hpfx, (List.mem_singleton.mp ht).symm⟩
      · obtain ⟨hdomain, hne⟩ := List.mem_filter.mp ht
        obtain ⟨d, hd, htrim⟩ := List.mem_map.mp hdomain
        exact .inr (.inl ⟨pr, hpr, d, hd, htrim, of_decide_eq_true hne⟩)
    · obtain ⟨text, htext, hpart⟩ := List.mem_map.mp ht
      exact .inr (.inr ⟨pr, hpr, text, htext, hpart⟩)
  · rintro (⟨pr, hpr, hpfx, rfl⟩ | ⟨pr, hpr, d, hd, rfl, hne⟩ | ⟨pr, hpr, text, htext, rfl⟩)
    · refine ⟨pr, hpr, List.mem_append_left _ (List.mem_append_left _ ?_)⟩
      rw [if_neg hpfx]
      exact List.mem_singleton_self _
    · refine ⟨pr, hpr, List.mem_append_left _ (List.mem_append_right _ ?_)⟩
      exact List.mem_filter.mpr ⟨List.mem_map_of_mem hd, decide_eq_true hne⟩
    · exact ⟨pr, hpr, List.mem_append_right _ (List.mem_map_of_mem htext)⟩

-- ---------------------------------------------------------------------------
-- What is to be collected
-- ---------------------------------------------------------------------------

/-- A text that `curl -4` reaches as a host, and no selector. -/
structure HostText (host : PolicyHost) (curl4 : String → Prop) (t : String) : Prop where
  plain : host.selector { pfx := t } = none
  reached : curl4 t

/-- The targets are the domains and the address parts, once each, and hosts. -/
structure TargetsExact (host : PolicyHost) (curl4 : String → Prop) (rules : List PolicyRule) : Prop where
  nodup : (collectVerifyTargets host rules).Nodup
  sound : ∀ t ∈ collectVerifyTargets host rules, IsDomain rules t ∨ IsAddressPart host rules t
  complete : ∀ t, IsDomain rules t ∨ IsAddressPart host rules t → t ∈ collectVerifyTargets host rules
  hosts : ∀ t ∈ collectVerifyTargets host rules, HostText host curl4 t

/-- What holds of `unicode.ToLower`, and of the texts that `curl -4` takes for a
host: an IPv4 address is one, an IPv6 address is none. -/
structure VerifyHost (host : PolicyHost) (curl4 : String → Prop) : Prop where
  lower : ∀ c : Char, c.isDigit ∨ c = '.' → host.lower c = c
  ipv4 : ∀ t b, Addr.parse t = some (.v4 b) → curl4 t
  ipv6 : ∀ t bits zone, Addr.parse t = some (.v6 bits zone) → ¬ curl4 t

/-- The prefix of a rule that takes effect, as an address or a network. -/
def Literal (host : PolicyHost) (pr : PolicyRule) : Prop :=
  pr.validate = true ∧ host.selector pr = none ∧
    ((CIDR.parse pr.pfx).isSome = true ∨ (Addr.parseIP pr.pfx).isSome = true)

/-- What a rule that takes effect has to offer, by what it is written with: the
lines of its country file, or its prefix if that is an address or a network,
and the addresses of its domains. -/
def Offers (host : PolicyHost) (pr : PolicyRule) (t : String) : Prop :=
  pr.validate = true ∧
    ((match host.selector pr with
      | some (cc, v6) => ∃ content, host.geoipContent cc v6 = some content ∧
          ∃ line ∈ PolicyHost.scanned content, PolicyHost.kept (trimSpace line) ∧ firstPart (trimSpace line) = t
      | none => ((CIDR.parse pr.pfx).isSome = true ∨ (Addr.parseIP pr.pfx).isSome = true) ∧ firstPart pr.pfx = t) ∨
    ∃ d ∈ pr.domains, t ∈ host.resolveDomain d)

theorem firstPart_eq_self {s : String} (h : '/' ∉ s.toList) : firstPart s = s := by
  rw [firstPart, CIDR.takeWhile_slash h, String.ofList_toList]

theorem firstPart_host {s : String} (h : '/' ∉ s.toList) : firstPart (s ++ "/32") = s := by
  have hall := List.takeWhile_eq_self_iff.mp (CIDR.takeWhile_slash h)
  have hfront : (s.toList ++ "/32".toList).takeWhile (· ≠ '/') = s.toList := by
    rw [List.takeWhile_append_of_pos hall]
    exact List.append_nil _
  rw [firstPart, String.toList_append, hfront, String.ofList_toList]

theorem slash_not_mem_resolveDomain {d ip : String} (h : ip ∈ host.resolveDomain d) : '/' ∉ ip.toList := by
  obtain ⟨x, -, htext⟩ := List.mem_filterMap.mp h
  obtain ⟨q, hq, rfl⟩ := Option.map_eq_some_iff.mp htext
  have hlen := (IP.of_to4_eq_some hq).1
  exact CIDR.slash_not_mem_of_parse ((IP.parse_string hlen).trans (IP.addr?_of_length hlen))

theorem addressPart_iff : (∃ text ∈ host.expand pr, firstPart text = t) ↔ Offers host pr t := by
  constructor
  · rintro ⟨text, htext, rfl⟩
    obtain ⟨hvalid, -, hprefix | ⟨d, hd, ip, hip, rfl⟩⟩ := PolicyHost.mem_expand.mp htext
    · refine ⟨hvalid, .inl ?_⟩
      cases hselector : host.selector pr with
      | some source =>
        obtain ⟨content, hcontent, hlisted⟩ := (PolicyHost.mem_prefixTexts_selector hselector).mp hprefix
        obtain ⟨line, hline, rfl, hkept⟩ := PolicyHost.mem_parseCIDRs.mp hlisted
        exact ⟨content, hcontent, line, hline, hkept, rfl⟩
      | none =>
        rcases (PolicyHost.mem_prefixTexts_literal hselector).mp hprefix with ⟨hparse, rfl⟩ | ⟨hparse, rfl⟩
        · exact ⟨.inl hparse, rfl⟩
        · obtain ⟨a, haddr⟩ := Option.isSome_iff_exists.mp hparse
          have hslash := Addr.slash_not_mem_of_parseIP haddr
          exact ⟨.inr hparse, (firstPart_eq_self hslash).trans (firstPart_host hslash).symm⟩
    · refine ⟨hvalid, .inr ⟨d, hd, ?_⟩⟩
      rw [firstPart_host (slash_not_mem_resolveDomain hip)]
      exact hip
  · rintro ⟨hvalid, hprefix | ⟨d, hd, hip⟩⟩
    · cases hselector : host.selector pr with
      | some source =>
        obtain ⟨cc, v6⟩ := source
        rw [hselector] at hprefix
        obtain ⟨content, hcontent, line, hline, hkept, rfl⟩ := hprefix
        have hlisted := PolicyHost.mem_parseCIDRs.mpr ⟨line, hline, rfl, hkept⟩
        have hne : trimSpace line ≠ "" := by
          intro hempty
          rw [hempty] at hkept
          exact absurd hkept (by decide)
        refine ⟨_, PolicyHost.mem_expand.mpr ⟨hvalid, hne, .inl ?_⟩, rfl⟩
        exact (PolicyHost.mem_prefixTexts_selector hselector).mpr ⟨content, hcontent, hlisted⟩
      | none =>
        rw [hselector] at hprefix
        obtain ⟨hparse | hparse, rfl⟩ := hprefix
        · have hmem := (PolicyHost.mem_prefixTexts_literal hselector).mpr (.inl ⟨hparse, rfl⟩)
          refine ⟨pr.pfx, PolicyHost.mem_expand.mpr ⟨hvalid, fun hempty => ?_, .inl hmem⟩, rfl⟩
          rw [hempty] at hparse
          exact absurd hparse (by decide)
        · obtain ⟨a, haddr⟩ := Option.isSome_iff_exists.mp hparse
          have hslash := Addr.slash_not_mem_of_parseIP haddr
          have hmem := (PolicyHost.mem_prefixTexts_literal hselector).mpr (.inr ⟨hparse, rfl⟩)
          refine ⟨pr.pfx ++ "/32", PolicyHost.mem_expand.mpr ⟨hvalid, by simp, .inl hmem⟩, ?_⟩
          exact (firstPart_host hslash).trans (firstPart_eq_self hslash).symm
    · refine ⟨t ++ "/32", PolicyHost.mem_expand.mpr ⟨hvalid, by simp, .inr ⟨d, hd, t, hip, rfl⟩⟩, ?_⟩
      exact firstPart_host (slash_not_mem_resolveDomain hip)

theorem isAddressPart_iff : IsAddressPart host rules t ↔ ∃ pr ∈ rules, Offers host pr t := by
  simp only [IsAddressPart, addressPart_iff]

/-- Literal prefixes are of IPv4, any other prefix has the text of a domain or of
what a rule offers, and domains and the lines of country files are hosts. -/
structure PlainTargets (host : PolicyHost) (curl4 : String → Prop) (rules : List PolicyRule) : Prop where
  literal : ∀ pr ∈ rules, Literal host pr → ∃ b, Addr.parse (firstPart pr.pfx) = some (.v4 b)
  other : ∀ pr ∈ rules, pr.pfx ≠ "" → ¬ Literal host pr →
    IsDomain rules (firstPart pr.pfx) ∨ ∃ other ∈ rules, Offers host other (firstPart pr.pfx)
  domain : ∀ pr ∈ rules, ∀ d ∈ pr.domains, trimSpace d ≠ "" → HostText host curl4 (trimSpace d)
  country : ∀ pr ∈ rules, pr.validate = true → ∀ cc v6, host.selector pr = some (cc, v6) →
    ∀ content, host.geoipContent cc v6 = some content → ∀ line ∈ PolicyHost.scanned content,
      PolicyHost.kept (trimSpace line) → HostText host curl4 (firstPart (trimSpace line))

theorem Literal.offers (h : Literal host pr) : Offers host pr (firstPart pr.pfx) := by
  obtain ⟨hvalid, hselector, hparse⟩ := h
  refine ⟨hvalid, .inl ?_⟩
  rw [hselector]
  exact ⟨hparse, rfl⟩

theorem Literal.pfx_ne (h : Literal host pr) : pr.pfx ≠ "" := by
  intro hempty
  obtain ⟨-, -, hparse⟩ := h
  rw [hempty] at hparse
  exact hparse.elim (fun h => absurd h (by decide)) fun h => absurd h (by decide)

theorem Literal.addr (h : Literal host pr) : ∃ a, Addr.parse (firstPart pr.pfx) = some a := by
  rcases h.2.2 with hcidr | haddr
  · unfold CIDR.parse at hcidr
    dsimp only at hcidr
    split at hcidr
    next a ha => exact ⟨a, ha⟩
    next => cases hcidr
  · obtain ⟨a, ha⟩ := Option.isSome_iff_exists.mp haddr
    rw [firstPart_eq_self (Addr.slash_not_mem_of_parseIP ha)]
    exact ⟨a, (Option.filter_eq_some_iff.mp ha).1⟩

theorem parse_of_mem_resolveDomain {d ip : String} (h : ip ∈ host.resolveDomain d) :
    ∃ b, Addr.parse ip = some (.v4 b) := by
  obtain ⟨x, -, htext⟩ := List.mem_filterMap.mp h
  obtain ⟨q, hq, rfl⟩ := Option.map_eq_some_iff.mp htext
  have hlen := (IP.of_to4_eq_some hq).1
  exact ⟨_, (IP.parse_string hlen).trans (IP.addr?_of_length hlen)⟩

section

variable {curl4 : String → Prop}

theorem VerifyHost.hostText (h : VerifyHost host curl4) {b : BitVec 32} (ht : Addr.parse t = some (.v4 b)) :
    HostText host curl4 t := by
  refine ⟨?_, h.ipv4 t b ht⟩
  have hchars := Addr.mem_of_parseIPv4 (Addr.parseIPv4_of_parse ht)
  have hlow : t.toList.map host.lower = t.toList :=
    (List.map_congr_left fun c hc => h.lower c (hchars c hc)).trans (List.map_id _)
  have hg : ∀ word : String, 'g' ∈ word.toList → ¬ word.toList <+: t.toList := fun word hword hpre =>
    absurd (hchars 'g' (hpre.subset hword)) (by decide)
  unfold PolicyHost.selector
  dsimp only
  rw [hlow, if_neg (hg "geoip6:" (by decide)), if_neg (hg "geoip:" (by decide))]

theorem PlainTargets.of_offers (h : PlainTargets host curl4 rules) (hcurl : VerifyHost host curl4) (hpr : pr ∈ rules)
    (ht : Offers host pr t) : HostText host curl4 t := by
  obtain ⟨hvalid, hprefix | ⟨d, hd, hip⟩⟩ := ht
  · split at hprefix
    next cc v6 hselector =>
      obtain ⟨content, hcontent, line, hline, hkept, rfl⟩ := hprefix
      exact h.country pr hpr hvalid cc v6 hselector content hcontent line hline hkept
    next hselector =>
      obtain ⟨hparse, rfl⟩ := hprefix
      obtain ⟨b, hb⟩ := h.literal pr hpr ⟨hvalid, hselector, hparse⟩
      exact hcurl.hostText hb
  · obtain ⟨b, hb⟩ := parse_of_mem_resolveDomain hip
    exact hcurl.hostText hb

theorem PlainTargets.exact (h : PlainTargets host curl4 rules) (hcurl : VerifyHost host curl4) :
    TargetsExact host curl4 rules := by
  have hsound : ∀ t ∈ collectVerifyTargets host rules, IsDomain rules t ∨ IsAddressPart host rules t := by
    intro t ht
    rcases mem_targets_iff.mp ht with ⟨pr, hpr, hpfx, rfl⟩ | ht
    · rw [isAddressPart_iff]
      by_cases hliteral : Literal host pr
      · exact .inr ⟨pr, hpr, hliteral.offers⟩
      · exact h.other pr hpr hpfx hliteral
    · exact ht
  refine ⟨nodup_collectVerifyTargets host rules, hsound, fun t ht => mem_targets_iff.mpr (.inr ht), fun t ht => ?_⟩
  rcases hsound t ht with ⟨pr, hpr, d, hd, rfl, hne⟩ | haddress
  · exact h.domain pr hpr d hd hne
  · obtain ⟨pr, hpr, hoffers⟩ := isAddressPart_iff.mp haddress
    exact h.of_offers hcurl hpr hoffers

theorem TargetsExact.plain (h : TargetsExact host curl4 rules) (hcurl : VerifyHost host curl4) :
    PlainTargets host curl4 rules where
  literal pr hpr hliteral := by
    have hmem : firstPart pr.pfx ∈ collectVerifyTargets host rules :=
      mem_targets_iff.mpr (.inl ⟨pr, hpr, hliteral.pfx_ne, rfl⟩)
    obtain ⟨a, ha⟩ := hliteral.addr
    cases a with
    | v4 b => exact ⟨b, ha⟩
    | v6 bits zone => exact absurd (h.hosts _ hmem).reached (hcurl.ipv6 _ bits zone ha)
  other pr hpr hpfx _ := by
    rw [← isAddressPart_iff]
    exact h.sound _ (mem_targets_iff.mpr (.inl ⟨pr, hpr, hpfx, rfl⟩))
  domain pr hpr d hd hne := h.hosts _ (h.complete _ (.inl ⟨pr, hpr, d, hd, rfl, hne⟩))
  country pr hpr hvalid cc v6 hselector content hcontent line hline hkept := by
    refine h.hosts _ (h.complete _ (.inr (isAddressPart_iff.mpr ⟨pr, hpr, hvalid, .inl ?_⟩)))
    rw [hselector]
    exact ⟨content, hcontent, line, hline, hkept, rfl⟩

end

theorem targetsExact_iff (host : PolicyHost) (curl4 : String → Prop) (h : VerifyHost host curl4)
    (rules : List PolicyRule) : TargetsExact host curl4 rules ↔ PlainTargets host curl4 rules :=
  ⟨fun hexact => hexact.plain h, fun hplain => hplain.exact h⟩

/-- IPv4 addresses and names of letters, digits, dots and hyphens. -/
def PlainHost (t : String) : Prop :=
  (∃ b, Addr.parse t = some (.v4 b)) ∨ (t ≠ "" ∧ ∀ c ∈ t.toList, c.isAlphanum ∨ c = '.' ∨ c = '-')

theorem colon_mem_of_parse {bits : BitVec 128} {zone : String} (h : Addr.parse t = some (.v6 bits zone)) :
    ':' ∈ t.toList := by
  unfold Addr.parse at h
  split at h
  next =>
    obtain ⟨b, -, hb⟩ := Option.map_eq_some_iff.mp h
    cases hb
  next hfind => exact List.mem_of_find?_eq_some hfind
  next => cases h

theorem plainHost_verifies : VerifyHost .offline PlainHost where
  lower c hc := by
    rcases hc with hdigit | rfl
    · have hhigh : c.val ≤ 57 := (Addr.toNat_of_isDigit hdigit).2
      have hupper : ¬ (c.val ≥ 'A'.val ∧ c.val ≤ 'Z'.val) := fun h =>
        absurd (UInt32.le_trans h.1 hhigh) (by decide)
      exact dif_neg hupper
    · rfl
  ipv4 t b h := .inl ⟨b, h⟩
  ipv6 t bits zone h := by
    rintro (⟨b, hb⟩ | ⟨-, hchars⟩)
    · rw [h] at hb
      cases hb
    · exact absurd (hchars ':' (colon_mem_of_parse h)) (by decide)

/-- A network and a domain, both within reach. -/
theorem targetsExact_plain :
    TargetsExact .offline PlainHost [{ pfx := "192.0.2.0/24", viaNode := "gw", domains := ["example.com"] }] ↔
      PlainTargets .offline PlainHost [{ pfx := "192.0.2.0/24", viaNode := "gw", domains := ["example.com"] }] :=
  targetsExact_iff .offline PlainHost plainHost_verifies _

theorem targetsExact_counterexample :
    collectVerifyTargets .offline [{ pfx := "geoip:cn", viaNode := "gw" }] = ["geoip:cn"] ∧
      ¬ TargetsExact .offline PlainHost [{ pfx := "geoip:cn", viaNode := "gw" }] := by
  refine ⟨by decide, fun h => ?_⟩
  exact absurd (h.hosts "geoip:cn" (by decide)).plain (by decide)

theorem runCurlVerify_eq_none {curl : String → Option (String × String)} {targets : List String} :
    runCurlVerify curl targets = none ↔
      ∀ t ∈ targets, curl (if "://".toList <:+: t.toList then t else "http://" ++ t) = none := by
  induction targets with
  | nil => simp [runCurlVerify]
  | cons t targets ih =>
    rw [runCurlVerify, List.forall_mem_cons, ← ih]
    split
    next err out herr =>
      rw [herr]
      constructor
      · intro h
        cases h
      · rintro ⟨h, -⟩
        cases h
    next hnone => exact ⟨fun h => ⟨hnone, h⟩, fun h => h.2⟩

/-- So one does not, where a rule names a country and no host has that name. -/
theorem verify_selector_fails {curl : String → Option (String × String)} {cc : String} (hpr : pr ∈ rules)
    (hpfx : pr.pfx = "geoip:" ++ cc) (hslash : '/' ∉ pr.pfx.toList) (hscheme : ¬ "://".toList <:+: pr.pfx.toList)
    (hcurl : curl ("http://geoip:" ++ cc) ≠ none) : runCurlVerify curl (collectVerifyTargets host rules) ≠ none := by
  intro hok
  have hne : pr.pfx ≠ "" := by simp [hpfx]
  have hmem : pr.pfx ∈ collectVerifyTargets host rules :=
    mem_targets_iff.mpr (.inl ⟨pr, hpr, hne, firstPart_eq_self hslash⟩)
  have hreached := runCurlVerify_eq_none.mp hok _ hmem
  rw [if_neg hscheme, hpfx, ← String.append_assoc] at hreached
  exact hcurl hreached

end PeerWan
