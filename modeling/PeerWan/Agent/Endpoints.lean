import PeerWan.Lib.IPBytes
import PeerWan.Text

/-!
# The endpoints an agent announces

`detectEndpoints` of `cmd/agent/main.go` takes the public ones among the
addresses that it finds: the one it dials from, those that services on the
internet see, and those of its interfaces. `isPrivate` reads the bytes of an
address where an IPv4 address of 4 bytes has its octets, and one of 16 bytes
has zeros.
-/

namespace PeerWan

open Lib

-- ---------------------------------------------------------------------------
-- Private and public addresses
-- ---------------------------------------------------------------------------

def isPrivate (ip : IP) : Bool :=
  ((ip.to4).isSome &&
    (ip.byte 0 = 10 || (ip.byte 0 = 172 && ip.byte 1 &&& 0xf0 = 16) || (ip.byte 0 = 192 && ip.byte 1 = 168) ||
      (ip.byte 0 = 100 && ip.byte 1 &&& 0xc0 = 0x40) || (ip.byte 0 = 169 && ip.byte 1 = 254))) ||
  ((ip.to16).isSome && ip.byte 0 &&& 0xfe = 0xfc) || ip.isLoopback

/-- A nil address is the empty slice. -/
def isPublic (ip : IP) : Bool := ip ≠ [] && ip.isGlobalUnicast && !isPrivate ip

-- ---------------------------------------------------------------------------
-- Detection
-- ---------------------------------------------------------------------------

structure Interface where
  up : Bool
  loopback : Bool
  /-- The addresses, empty where one is of another kind than `IPNet` and `IPAddr`. -/
  addrs : List IP

structure Surroundings where
  dialed : Option IP
  /-- What is read of the answer to a GET, if there is one. -/
  get : String → Option String
  interfaces : List Interface

def fetchPublicIP (s : Surroundings) (url : String) : String :=
  match s.get url with
  | none => ""
  | some body =>
    let ip := trimSpace body
    match Addr.parseIP ip with
    | some parsed => if ip ≠ "" ∧ isPublic (IP.ofAddr parsed) then ip else ""
    | none => ""

def services : List String :=
  ["http://ipv4.icanhazip.com", "http://ipv6.icanhazip.com", "https://api.ipify.org", "https://ip.sb"]

structure FoundEndpoint where
  ip : IP
  endpoint : String
  deriving DecidableEq, Repr

def bracketed (ip : String) (listenPort : Int) : String := "[" ++ ip ++ "]:" ++ toString listenPort

def unbracketed (ip : String) (listenPort : Int) : String := ip ++ ":" ++ toString listenPort

def dialFound (s : Surroundings) (listenPort : Int) : List FoundEndpoint :=
  (s.dialed.toList.filter isPublic).map fun ip => ⟨ip, unbracketed ip.string listenPort⟩

def serviceFound (s : Surroundings) (listenPort : Int) : List FoundEndpoint :=
  services.filterMap fun svc =>
    let ip := fetchPublicIP s svc
    if ip = "" then none
    else (Addr.parseIP ip).map fun parsed =>
      ⟨IP.ofAddr parsed, if ':' ∈ ip.toList then bracketed ip listenPort else unbracketed ip listenPort⟩

def interfaceFound (s : Surroundings) (listenPort : Int) : List FoundEndpoint :=
  let addrs := (s.interfaces.filter fun i => i.up && !i.loopback).flatMap (·.addrs)
  (addrs.filter isPublic).map fun ip =>
    ⟨ip, if (ip.to4).isNone ∧ ':' ∈ ip.string.toList then bracketed ip.string listenPort
      else unbracketed ip.string listenPort⟩

def found (s : Surroundings) (listenPort : Int) : List FoundEndpoint :=
  dialFound s listenPort ++ serviceFound s listenPort ++ interfaceFound s listenPort

def detectEndpoints (s : Surroundings) (listenPort : Int) : List String :=
  dedup ((found s listenPort).map (·.endpoint))

-- ---------------------------------------------------------------------------
-- Networks
-- ---------------------------------------------------------------------------

/-- The networks that the source names, which the internet does not route. -/
def privateBlocks : List CIDR :=
  [⟨.v4 0x0a000000, 8⟩, ⟨.v4 0xac100000, 12⟩, ⟨.v4 0xc0a80000, 16⟩, ⟨.v4 0x64400000, 10⟩]

def linkLocal : CIDR := ⟨.v4 0xa9fe0000, 16⟩

def loopback : CIDR := ⟨.v4 0x7f000000, 8⟩

def privateV6 : List CIDR := [⟨.v6 (0xfc#128 <<< 120) "", 7⟩, ⟨.v6 1 "", 128⟩]

def privateNetworks : List CIDR := privateBlocks ++ linkLocal :: loopback :: privateV6

example : ["10.0.0.0/8", "172.16.0.0/12", "192.168.0.0/16", "100.64.0.0/10", "169.254.0.0/16", "127.0.0.0/8",
    "fc00::/7", "::1/128"].map CIDR.parse = privateNetworks.map some := by decide

/-- The IPv4 addresses that begin with the bits of a unique local address. -/
def likeUniqueLocal : CIDR := ⟨.v4 0xfc000000, 7⟩

/-- The slice stands for an address of one of the networks. -/
def InNetworks (networks : List CIDR) (ip : IP) : Prop := ∃ a, ip.addr? = some a ∧ ∃ c ∈ networks, c.Contains a

section

variable {ip q : IP}

theorem inNetworks_iff {networks : List CIDR} {a : Addr} (h : ip.addr? = some a) :
    InNetworks networks ip ↔ ∃ c ∈ networks, c.Contains a := by
  simp only [InNetworks, h, Option.some.injEq, exists_eq_left']

theorem inNetworks_mapped {networks : List CIDR} (h : q.length = 4) :
    InNetworks networks (IP.mapped q) ↔ InNetworks networks q := by
  rw [InNetworks, InNetworks, IP.addr?_mapped h]

theorem toNat_octets (a b c d : BitVec 8) : (BitVec.ofNat 32 (IP.value [a, b, c, d])).toNat =
    a.toNat * 2 ^ 24 + b.toNat * 2 ^ 16 + c.toNat * 2 ^ 8 + d.toNat := by
  have hlt : IP.value [a, b, c, d] < 2 ^ 32 := by simpa using IP.value_lt [a, b, c, d]
  rw [BitVec.toNat_ofNat, Nat.mod_eq_of_lt hlt, IP.value_four]
  omega

theorem and_f0 (b : BitVec 8) : b &&& 0xf0 = 16 ↔ b.toNat / 16 = 1 := and_high_eq_iff b 4 1 (by decide)
theorem and_c0 (b : BitVec 8) : b &&& 0xc0 = 0x40 ↔ b.toNat / 64 = 1 := and_high_eq_iff b 6 1 (by decide)
theorem and_fe (b : BitVec 8) : b &&& 0xfe = 0xfc ↔ b.toNat / 2 = 126 := and_high_eq_iff b 1 126 (by decide)

theorem inNetworks_append {networks more : List CIDR} :
    InNetworks (networks ++ more) ip ↔ InNetworks networks ip ∨ InNetworks more ip := by
  simp only [InNetworks, List.mem_append, or_and_right, exists_or, and_or_left]

theorem inNetworks_cons_cons {c c' : CIDR} {networks : List CIDR} :
    InNetworks (c :: c' :: networks) ip ↔ InNetworks [c] ip ∨ InNetworks (c' :: networks) ip :=
  @inNetworks_append ip [c] (c' :: networks)

end

-- ---------------------------------------------------------------------------
-- IPv4
-- ---------------------------------------------------------------------------

section

variable (a b c d : BitVec 8)

theorem inNetwork_iff (x : BitVec 32) (n : Nat) : InNetworks [⟨.v4 x, n⟩] [a, b, c, d] ↔
    (a.toNat * 2 ^ 24 + b.toNat * 2 ^ 16 + c.toNat * 2 ^ 8 + d.toNat) / 2 ^ (32 - n) = x.toNat / 2 ^ (32 - n) := by
  rw [inNetworks_iff (IP.addr?_of_length rfl)]
  simp only [List.mem_singleton, exists_eq_left, CIDR.contains_v4, toNat_octets]

theorem inPrivateBlocks_iff : InNetworks privateBlocks [a, b, c, d] ↔
    a.toNat = 10 ∨ (a.toNat = 172 ∧ b.toNat / 16 = 1) ∨ (a.toNat = 192 ∧ b.toNat = 168) ∨
      (a.toNat = 100 ∧ b.toNat / 64 = 1) := by
  have hb := b.isLt
  have hc := c.isLt
  have hd := d.isLt
  rw [privateBlocks, inNetworks_cons_cons, inNetworks_cons_cons, inNetworks_cons_cons]
  refine or_congr ?_ (or_congr ?_ (or_congr ?_ ?_))
  all_goals
    rw [inNetwork_iff]
    simp only [BitVec.reduceToNat, Nat.reducePow, Nat.reduceDiv, Nat.reduceSub]
    omega

theorem inLinkLocal_iff : InNetworks [linkLocal] [a, b, c, d] ↔ a.toNat = 169 ∧ b.toNat = 254 := by
  have hb := b.isLt
  have hc := c.isLt
  have hd := d.isLt
  rw [linkLocal, inNetwork_iff]
  simp only [BitVec.reduceToNat, Nat.reducePow, Nat.reduceDiv, Nat.reduceSub]
  omega

theorem inLoopback_iff : InNetworks [loopback] [a, b, c, d] ↔ a.toNat = 127 := by
  have hb := b.isLt
  have hc := c.isLt
  have hd := d.isLt
  rw [loopback, inNetwork_iff]
  simp only [BitVec.reduceToNat, Nat.reducePow, Nat.reduceDiv, Nat.reduceSub]
  omega

theorem inLikeUniqueLocal_iff : InNetworks [likeUniqueLocal] [a, b, c, d] ↔ a.toNat / 2 = 126 := by
  have hb := b.isLt
  have hc := c.isLt
  have hd := d.isLt
  rw [likeUniqueLocal, inNetwork_iff]
  simp only [BitVec.reduceToNat, Nat.reducePow, Nat.reduceDiv, Nat.reduceSub]
  omega

theorem not_inPrivateV6 : ¬ InNetworks privateV6 [a, b, c, d] := by
  rw [inNetworks_iff (IP.addr?_of_length rfl)]
  simp [privateV6, CIDR.Contains, CIDR.network, Addr.mask]

theorem inPrivateNetworks_iff : InNetworks privateNetworks [a, b, c, d] ↔
    InNetworks privateBlocks [a, b, c, d] ∨ InNetworks [linkLocal] [a, b, c, d] ∨
      InNetworks [loopback] [a, b, c, d] := by
  have hv6 : InNetworks (loopback :: privateV6) [a, b, c, d] ↔ InNetworks [loopback] [a, b, c, d] :=
    inNetworks_cons_cons.trans (or_iff_left (not_inPrivateV6 a b c d))
  rw [privateNetworks, inNetworks_append, inNetworks_cons_cons, hv6]

theorem isPrivate_four : isPrivate [a, b, c, d] = true ↔
    InNetworks privateNetworks [a, b, c, d] ∨ InNetworks [likeUniqueLocal] [a, b, c, d] := by
  rw [inPrivateNetworks_iff, inPrivateBlocks_iff, inLinkLocal_iff, inLoopback_iff, inLikeUniqueLocal_iff]
  have hloopback : IP.isLoopback [a, b, c, d] = decide (a = 127) := rfl
  have hbytes : isPrivate [a, b, c, d] =
      ((a = 10 || (a = 172 && b &&& 0xf0 = 16) || (a = 192 && b = 168) || (a = 100 && b &&& 0xc0 = 0x40) ||
        (a = 169 && b = 254)) || a &&& 0xfe = 0xfc || IP.isLoopback [a, b, c, d]) := rfl
  rw [hbytes, hloopback]
  simp only [Bool.or_eq_true, Bool.and_eq_true, decide_eq_true_eq, and_f0, and_c0, and_fe]
  simp only [← BitVec.toNat_inj, BitVec.reduceToNat]
  -- the same alternatives, with the last two the other way round
  rw [or_right_comm]
  simp only [or_assoc]

theorem isPrivate_mapped : isPrivate (IP.mapped [a, b, c, d]) = true ↔ InNetworks [loopback] [a, b, c, d] := by
  have hzero : IP.byte (IP.mapped [a, b, c, d]) 0 = 0 := rfl
  have hbytes : isPrivate (IP.mapped [a, b, c, d]) = IP.isLoopback (IP.mapped [a, b, c, d]) := by
    rw [isPrivate, hzero]
    simp
  have hloopback : IP.isLoopback [a, b, c, d] = decide (a = 127) := rfl
  rw [hbytes, IP.isLoopback_mapped rfl, hloopback, inLoopback_iff, decide_eq_true_eq, ← BitVec.toNat_inj]
  rfl

theorem isGlobalUnicast_four : IP.isGlobalUnicast [a, b, c, d] = true ↔
    [a, b, c, d] ≠ [255, 255, 255, 255] ∧ [a, b, c, d] ≠ [0, 0, 0, 0] ∧ a.toNat ≠ 127 ∧ a.toNat / 16 ≠ 14 ∧
      ¬ (a.toNat = 169 ∧ b.toNat = 254) := by
  have hmulticast : IP.isMulticast [a, b, c, d] = decide (a &&& 0xf0 = 0xe0) := rfl
  have hlocal : IP.isLinkLocalUnicast [a, b, c, d] = (decide (a = 169) && decide (b = 254)) := rfl
  have hloopback : IP.isLoopback [a, b, c, d] = decide (a = 127) := rfl
  have hmask : a &&& 0xf0 = 0xe0 ↔ a.toNat / 16 = 14 := and_high_eq_iff a 4 14 (by decide)
  rw [IP.isGlobalUnicast, IP.isUnspecified_four rfl, IP.equal_four rfl rfl, hmulticast, hlocal, hloopback]
  simp only [List.length_cons, List.length_nil, Bool.and_eq_true, Bool.not_eq_true', decide_eq_false_iff_not,
    Bool.and_eq_false_iff, hmask, and_assoc]
  simp only [← BitVec.toNat_inj, BitVec.reduceToNat, not_and_or]
  simp

theorem isGlobalUnicast_of_privateBlocks (h : InNetworks privateBlocks [a, b, c, d]) :
    IP.isGlobalUnicast [a, b, c, d] = true := by
  rw [inPrivateBlocks_iff] at h
  refine (isGlobalUnicast_four a b c d).mpr ⟨fun heq => ?_, fun heq => ?_, by omega, by omega, by omega⟩
  all_goals
    obtain rfl := (List.cons.inj heq).1
    simp at h

theorem not_isGlobalUnicast (h : InNetworks [linkLocal] [a, b, c, d] ∨ InNetworks [loopback] [a, b, c, d]) :
    IP.isGlobalUnicast [a, b, c, d] = false := by
  rw [inLinkLocal_iff, inLoopback_iff] at h
  rw [← Bool.not_eq_true, isGlobalUnicast_four]
  omega

end

-- ---------------------------------------------------------------------------
-- IPv6
-- ---------------------------------------------------------------------------

theorem inPrivateNetworks_v6 {bits : BitVec 128} {ip : IP} (h : ip.addr? = some (.v6 bits "")) :
    InNetworks privateNetworks ip ↔ bits.toNat / 2 ^ 121 = 126 ∨ bits.toNat = 1 := by
  rw [inNetworks_iff h]
  simp only [privateNetworks, privateBlocks, linkLocal, loopback, privateV6, List.cons_append, List.nil_append,
    List.mem_cons, List.not_mem_nil, or_false, exists_eq_or_imp, exists_eq_left, CIDR.contains_v6]
  simp [CIDR.Contains, CIDR.network, Addr.mask]

/-- What the source takes for private is so, for the addresses of IPv6. -/
theorem isPrivate_v6 {ip : IP} (hlen : ip.length = 16) (h : ip.to4 = none) :
    isPrivate ip = true ↔ InNetworks privateNetworks ip := by
  obtain ⟨b, rest, rfl⟩ := List.exists_cons_of_length_pos (hlen ▸ (by decide : 0 < 16))
  have hrest : rest.length = 15 := Nat.succ.inj hlen
  have hlt : IP.value (b :: rest) < 2 ^ 128 := by
    have hvalue := IP.value_lt (b :: rest)
    rwa [hlen] at hvalue
  have haddr : IP.addr? (b :: rest) = some (.v6 (BitVec.ofNat 128 (IP.value (b :: rest))) "") := by
    rw [IP.addr?, h, if_pos hlen]
  have hone : IP.value (b :: rest) = 1 ↔ b :: rest = List.replicate 15 0 ++ [1] := by
    have hvalue : IP.value (List.replicate 15 0 ++ [1]) = 1 := by decide
    exact ⟨fun heq => IP.value_injective (hlen.trans rfl) (heq.trans hvalue.symm), fun heq => heq ▸ hvalue⟩
  have hfirst : IP.value (b :: rest) / 2 ^ 121 = b.toNat / 2 := by
    have hlow := IP.value_lt rest
    rw [hrest] at hlow
    rw [IP.value_cons, hrest]
    omega
  have hloopback : IP.isLoopback (b :: rest) = decide (b :: rest = List.replicate 15 0 ++ [1]) := by
    rw [IP.isLoopback, h]
    exact if_pos hlen
  have hto16 : (IP.to16 (b :: rest)).isSome = true := by
    rw [IP.to16, hlen]
    rfl
  rw [inPrivateNetworks_v6 haddr, BitVec.toNat_ofNat, Nat.mod_eq_of_lt hlt, hone, hfirst, isPrivate, h, hto16,
    hloopback]
  have hbyte : IP.byte (b :: rest) 0 = b := rfl
  simp [hbyte, ← and_fe]

-- ---------------------------------------------------------------------------
-- What is reported
-- ---------------------------------------------------------------------------

/-- A private IPv4 address in 16 bytes. -/
def Hidden (ip : IP) : Prop := ip.length = 16 ∧ InNetworks privateBlocks ip

/-- The source takes an address of a private network for a public one only so. -/
theorem isPublic_and_inPrivateNetworks (ip : IP) :
    isPublic ip = true ∧ InNetworks privateNetworks ip ↔ Hidden ip := by
  have hpublic : isPublic ip = true → isPrivate ip = false := by
    intro h
    simp only [isPublic, Bool.and_eq_true, Bool.not_eq_true'] at h
    exact h.2
  rcases IP.to4_cases ip with h4 | ⟨q, h4, rfl⟩ | hnone
  · obtain ⟨a, b, c, d, rfl⟩ := List.length_eq_four.mp h4
    constructor
    · rintro ⟨hip, hin⟩
      rw [(isPrivate_four a b c d).mpr (.inl hin)] at hpublic
      exact absurd (hpublic hip) (by decide)
    · intro h
      exact absurd h.1 (by simp)
  · obtain ⟨a, b, c, d, rfl⟩ := List.length_eq_four.mp h4
    rw [Hidden, and_iff_right (IP.length_mapped h4), inNetworks_mapped h4, inNetworks_mapped h4, inPrivateNetworks_iff]
    constructor
    · rintro ⟨hip, hin⟩
      refine hin.resolve_right fun hlocal => ?_
      simp only [isPublic, IP.isGlobalUnicast_mapped h4, not_isGlobalUnicast a b c d hlocal, Bool.and_false,
        Bool.false_and, Bool.false_eq_true] at hip
    · intro hin
      have hunicast := isGlobalUnicast_of_privateBlocks a b c d hin
      have hprivate : isPrivate (IP.mapped [a, b, c, d]) = false := by
        rw [← Bool.not_eq_true, isPrivate_mapped]
        intro hloopback
        rw [not_isGlobalUnicast a b c d (.inr hloopback)] at hunicast
        cases hunicast
      refine ⟨?_, .inl hin⟩
      rw [isPublic, IP.isGlobalUnicast_mapped h4, hunicast, hprivate]
      rfl
  · by_cases hlen : ip.length = 16
    · have haddr : ip.addr? = some (.v6 (BitVec.ofNat 128 (IP.value ip)) "") := by
        rw [IP.addr?, hnone]
        exact if_pos hlen
      constructor
      · rintro ⟨hip, hin⟩
        rw [(isPrivate_v6 hlen hnone).mpr hin] at hpublic
        exact absurd (hpublic hip) (by decide)
      · rintro ⟨-, hin⟩
        rw [inNetworks_iff haddr] at hin
        simp [privateBlocks, CIDR.Contains, CIDR.network, Addr.mask] at hin
    · have haddr : ip.addr? = none := by
        rw [IP.addr?, hnone]
        exact if_neg hlen
      simp [Hidden, InNetworks, haddr]

section

variable (s : Surroundings) (listenPort : Int)

/-- The address that a service tells, in the form that `net.ParseIP` gives it. -/
def answered (url : String) : Option IP :=
  (s.get url).bind fun body => (Addr.parseIP (trimSpace body)).map IP.ofAddr

/-- The addresses that the agent learns of. -/
def consulted : List IP :=
  s.dialed.toList ++ services.filterMap (answered s) ++
    (s.interfaces.filter fun i => i.up && !i.loopback).flatMap (·.addrs)

theorem fetchPublicIP_eq (url : String) : (Addr.parseIP (fetchPublicIP s url)).map IP.ofAddr =
    (answered s url).filter isPublic := by
  have hempty : Addr.parseIP "" = none := by decide
  unfold fetchPublicIP answered
  cases s.get url with
  | none => rw [hempty]; rfl
  | some body =>
    simp only [Option.bind_some]
    cases hparsed : Addr.parseIP (trimSpace body) with
    | none => rw [hempty]; rfl
    | some parsed =>
      have hne : trimSpace body ≠ "" := fun heq => by
        rw [heq, hempty] at hparsed
        cases hparsed
      by_cases hip : isPublic (IP.ofAddr parsed) = true
      · simp [hip, hne, hparsed, Option.filter]
      · simp [hip, hempty, Option.filter]

theorem found_ips : (found s listenPort).map (·.ip) = (consulted s).filter isPublic := by
  have hempty : Addr.parseIP "" = none := by decide
  have hservices : (serviceFound s listenPort).map (·.ip) = (services.filterMap (answered s)).filter isPublic := by
    rw [serviceFound, List.map_filterMap, List.filter_filterMap]
    refine List.filterMap_congr fun svc _ => ?_
    rw [← fetchPublicIP_eq]
    by_cases hip : fetchPublicIP s svc = ""
    · simp [hip, hempty]
    · simp [hip, Function.comp_def]
  rw [found, List.map_append, List.map_append, hservices, consulted, List.filter_append, List.filter_append, dialFound,
    interfaceFound, List.map_map, List.map_map]
  simp [Function.comp_def]

theorem bracketed_ne_empty (ip : String) : bracketed ip listenPort ≠ "" := by
  simp [bracketed, String.append_eq_empty_iff]

theorem unbracketed_ne_empty (ip : String) : unbracketed ip listenPort ≠ "" := by
  simp [unbracketed, String.append_eq_empty_iff]

variable {s listenPort} in
theorem endpoint_ne_empty {f : FoundEndpoint} (h : f ∈ found s listenPort) : f.endpoint ≠ "" := by
  simp only [found, dialFound, serviceFound, interfaceFound, List.mem_append, List.mem_map, List.mem_filterMap] at h
  obtain (⟨ip, -, rfl⟩ | ⟨svc, -, hf⟩) | ⟨ip, -, rfl⟩ := h
  · exact unbracketed_ne_empty _ _
  · split at hf
    · cases hf
    · obtain ⟨parsed, -, rfl⟩ := Option.map_eq_some_iff.mp hf
      dsimp only
      split
      · exact bracketed_ne_empty _ _
      · exact unbracketed_ne_empty _ _
  · dsimp only
    split
    · exact bracketed_ne_empty _ _
    · exact unbracketed_ne_empty _ _

/-- No endpoint that is announced is made of an address of a private network. -/
def NoneReported : Prop :=
  ∀ e ∈ detectEndpoints s listenPort, ∀ f ∈ found s listenPort, f.endpoint = e → ¬ InNetworks privateNetworks f.ip

def HonestAnswer (url : String) : Prop :=
  ∀ a, Addr.parseIP (fetchPublicIP s url) = some a → ¬ InNetworks privateNetworks (IP.ofAddr a)

theorem noneReported_iff : NoneReported s listenPort ↔ ∀ ip ∈ consulted s, ¬ Hidden ip := by
  have hfound : NoneReported s listenPort ↔
      ∀ ip ∈ (found s listenPort).map (·.ip), ¬ InNetworks privateNetworks ip := by
    constructor
    · intro h ip hip
      obtain ⟨f, hf, rfl⟩ := List.mem_map.mp hip
      exact h f.endpoint (mem_dedup.mpr ⟨endpoint_ne_empty hf, List.mem_map_of_mem hf⟩) f hf rfl
    · intro h e _ f hf _
      exact h f.ip (List.mem_map_of_mem hf)
  rw [hfound, found_ips]
  refine forall_congr' fun ip => ?_
  rw [List.mem_filter, and_imp, ← isPublic_and_inPrivateNetworks, not_and]

theorem honestAnswer_iff (url : String) : HonestAnswer s url ↔ ∀ ip, answered s url = some ip → ¬ Hidden ip := by
  have hfetched : HonestAnswer s url ↔ ∀ ip, (answered s url).filter isPublic = some ip →
      ¬ InNetworks privateNetworks ip := by
    rw [← fetchPublicIP_eq, HonestAnswer]
    simp only [Option.map_eq_some_iff, forall_exists_index, and_imp, forall_apply_eq_imp_iff₂]
  rw [hfetched]
  refine forall_congr' fun ip => ?_
  rw [Option.filter_eq_some_iff, and_imp, ← isPublic_and_inPrivateNetworks, not_and]

end

-- ---------------------------------------------------------------------------
-- Where the bytes mislead
-- ---------------------------------------------------------------------------

/-- Both forms of an IPv4 address are read alike, and as the networks have it. -/
def V4Exact (q : IP) : Prop :=
  (isPrivate q = true ↔ InNetworks privateNetworks q) ∧
    (isPrivate (IP.mapped q) = true ↔ InNetworks privateNetworks q) ∧ isPublic (IP.mapped q) = isPublic q

def V6Exact (ip : IP) : Prop :=
  ip.length = 16 → ip.to4 = none → (isPrivate ip = true ↔ InNetworks privateNetworks ip)

def Misread (q : IP) : Prop := InNetworks (likeUniqueLocal :: linkLocal :: privateBlocks) q

theorem v4Exact_iff (a b c d : BitVec 8) : V4Exact [a, b, c, d] ↔ ¬ Misread [a, b, c, d] := by
  have hmisread : Misread [a, b, c, d] ↔ InNetworks [likeUniqueLocal] [a, b, c, d] ∨
      InNetworks [linkLocal] [a, b, c, d] ∨ InNetworks privateBlocks [a, b, c, d] :=
    inNetworks_cons_cons.trans (or_congr_right (@inNetworks_append _ [linkLocal] privateBlocks))
  rw [V4Exact, hmisread, isPrivate_four, isPrivate_mapped, inPrivateNetworks_iff]
  have hloopback : InNetworks [linkLocal] [a, b, c, d] ∨ InNetworks privateBlocks [a, b, c, d] →
      ¬ InNetworks [loopback] [a, b, c, d] := by
    rw [inPrivateBlocks_iff, inLinkLocal_iff, inLoopback_iff]
    omega
  have hunique : InNetworks [likeUniqueLocal] [a, b, c, d] → ¬ (InNetworks privateBlocks [a, b, c, d] ∨
      InNetworks [linkLocal] [a, b, c, d] ∨ InNetworks [loopback] [a, b, c, d]) := by
    rw [inLikeUniqueLocal_iff, inPrivateBlocks_iff, inLinkLocal_iff, inLoopback_iff]
    omega
  constructor
  · rintro ⟨hfour, hmapped, -⟩ (hlike | hhidden)
    · exact hunique hlike (hfour.mp (.inr hlike))
    · refine hloopback hhidden (hmapped.mpr ?_)
      exact hhidden.elim (fun h => .inr (.inl h)) .inl
  · intro h
    obtain ⟨hlike, hhidden⟩ := not_or.mp h
    obtain ⟨hlink, hblocks⟩ := not_or.mp hhidden
    have hfour : isPrivate [a, b, c, d] = true ↔ InNetworks [loopback] [a, b, c, d] := by
      rw [isPrivate_four, or_iff_left hlike, inPrivateNetworks_iff, or_iff_right hblocks, or_iff_right hlink]
    have hpublic : isPublic (IP.mapped [a, b, c, d]) = isPublic [a, b, c, d] := by
      have hprivate : isPrivate (IP.mapped [a, b, c, d]) = isPrivate [a, b, c, d] := by
        rw [Bool.eq_iff_iff, hfour, isPrivate_mapped]
      rw [isPublic, isPublic, IP.isGlobalUnicast_mapped rfl, hprivate]
      rfl
    refine ⟨or_iff_left hlike, ?_, hpublic⟩
    rw [or_iff_right hblocks, or_iff_right hlink]

/-- What is said of an address in two forms, of one of IPv6, and of what an
agent reports, fails where an IPv4 address is misread, and for no other. -/
theorem privacyExact_iff (a b c d : BitVec 8) (ip : IP) (s : Surroundings) (listenPort : Int) (url : String) :
    (V4Exact [a, b, c, d] ∧ V6Exact ip ∧ NoneReported s listenPort ∧ HonestAnswer s url) ↔
      ¬ Misread [a, b, c, d] ∧ (∀ x ∈ consulted s, ¬ Hidden x) ∧ ∀ x, answered s url = some x → ¬ Hidden x := by
  have hv6 : V6Exact ip := fun hlen h => isPrivate_v6 hlen h
  rw [v4Exact_iff, noneReported_iff, honestAnswer_iff, and_iff_right hv6]

def lanAgent : Surroundings where
  dialed := none
  get _ := none
  interfaces := [⟨true, false, [IP.mapped [10, 0, 0, 1]]⟩]

theorem privacyExact_counterexample : isPrivate [10, 0, 0, 1] = true ∧ isPrivate (IP.mapped [10, 0, 0, 1]) = false ∧
    detectEndpoints lanAgent 51820 = ["10.0.0.1:51820"] ∧ ¬ NoneReported lanAgent 51820 := by
  refine ⟨by decide, by decide, by decide, fun h => ?_⟩
  have hin : InNetworks privateNetworks (IP.mapped [10, 0, 0, 1]) := by
    rw [inNetworks_mapped rfl, inPrivateNetworks_iff, inPrivateBlocks_iff]
    exact .inl (.inl rfl)
  exact h "10.0.0.1:51820" (by decide) ⟨IP.mapped [10, 0, 0, 1], "10.0.0.1:51820"⟩ (by decide) rfl hin

end PeerWan
