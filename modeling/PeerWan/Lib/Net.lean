import Mathlib.Data.List.DropRight

/-!
# Network addresses and their texts

Addresses, prefixes and host-port pairs as Go's `net` and `net/netip` read
them. An IPv4 address has four decimal octets without leading zeros. An IPv6
address has eight groups of hexadecimal digits; `::` stands for one or more
groups of zeros, and the last two may be written as an IPv4 address.
-/

namespace Lib

inductive Addr where
  | v4 (bits : BitVec 32)
  | v6 (bits : BitVec 128) (zone : String)
  deriving DecidableEq, Repr

namespace Addr

def decimal (ds : List Char) : Nat := ds.foldl (fun n c => n * 10 + (c.toNat - '0'.toNat)) 0

def parseOctet (ds : List Char) : Option Nat :=
  if ds ≠ [] ∧ ds.all Char.isDigit ∧ (ds.head? = some '0' → ds.length = 1) ∧ decimal ds ≤ 255 then
    some (decimal ds)
  else none

def parseIPv4 (cs : List Char) : Option (BitVec 32) :=
  match (cs.splitOn '.').map parseOctet with
  | [some a, some b, some c, some d] => some (BitVec.ofNat 32 (((a * 256 + b) * 256 + c) * 256 + d))
  | _ => none

def hexDigit? (c : Char) : Option Nat :=
  if c.isDigit then some (c.toNat - '0'.toNat)
  else if 'a' ≤ c ∧ c ≤ 'f' then some (c.toNat - 'a'.toNat + 10)
  else if 'A' ≤ c ∧ c ≤ 'F' then some (c.toNat - 'A'.toNat + 10)
  else none

def hexadecimal (ds : List Char) : Nat := ds.foldl (fun n c => n * 16 + (hexDigit? c).getD 0) 0

/-- The loop over the groups, `n` of which have room: the groups, the place of
the ellipsis among them, and the text that is left. -/
def parseGroups : Nat → List Nat → Option Nat → List Char → Option (List Nat × Option Nat × List Char)
  | 0, groups, ellipsis, cs => some (groups, ellipsis, cs)
  | n + 1, groups, ellipsis, cs =>
    let ds := cs.takeWhile fun c => (hexDigit? c).isSome
    if ds = [] ∨ ds.length > 4 then none
    else match cs.drop ds.length with
      | '.' :: _ =>
        -- an IPv4 address takes the last two groups, or ends what follows an ellipsis
        if (ellipsis = none ∧ groups.length ≠ 6) ∨ groups.length > 6 then none
        else (parseIPv4 cs).map fun b => (groups ++ [b.toNat / 65536, b.toNat % 65536], ellipsis, [])
      | [] => some (groups ++ [hexadecimal ds], ellipsis, [])
      | [':'] => none
      | ':' :: ':' :: rest =>
        if ellipsis.isSome then none
        else
          let groups := groups ++ [hexadecimal ds]
          if rest = [] then some (groups, some groups.length, [])
          else parseGroups n groups (some groups.length) rest
      | ':' :: rest => parseGroups n (groups ++ [hexadecimal ds]) ellipsis rest
      | _ => none

/-- The eight groups, with the ellipsis filled in. -/
def fillGroups : List Nat × Option Nat × List Char → Option (List Nat)
  | (groups, ellipsis, []) =>
    if groups.length < 8 then
      ellipsis.map fun j => groups.take j ++ List.replicate (8 - groups.length) 0 ++ groups.drop j
    else if ellipsis.isSome then none else some groups
  | _ => none

def ofGroups (groups : List Nat) : BitVec 128 := BitVec.ofNat 128 (groups.foldl (fun n g => n * 65536 + g) 0)

def parseIPv6 (cs : List Char) : Option Addr :=
  let s := cs.takeWhile (· ≠ '%')
  let zone := cs.drop (s.length + 1)
  if s.length < cs.length ∧ zone = [] then none
  else
    let groups := match s with
      | [':', ':'] => some (List.replicate 8 0)
      | ':' :: ':' :: rest => (parseGroups 8 [] (some 0) rest).bind fillGroups
      | s => (parseGroups 8 [] none s).bind fillGroups
    groups.map fun groups => .v6 (ofGroups groups) (String.ofList zone)

/-- `netip.ParseAddr`: the first dot, colon or percent sign decides. -/
def parse (s : String) : Option Addr :=
  match s.toList.find? fun c => c = '.' || c = ':' || c = '%' with
  | some '.' => (parseIPv4 s.toList).map .v4
  | some ':' => parseIPv6 s.toList
  | _ => none

def zone : Addr → String
  | .v4 _ => ""
  | .v6 _ zone => zone

/-- `net.ParseIP`, which takes no zone. -/
def parseIP (s : String) : Option Addr := (parse s).filter fun a => a.zone = ""

def bitLen : Addr → Nat
  | .v4 _ => 32
  | .v6 .. => 128

/-- The first `n` bits of the address, the others zero. -/
def mask (n : Nat) : Addr → Addr
  | .v4 bits => .v4 (bits &&& (BitVec.allOnes 32 <<< (32 - n)))
  | .v6 bits zone => .v6 (bits &&& (BitVec.allOnes 128 <<< (128 - n))) zone

/-- `To4`: an IPv6 address that maps an IPv4 address counts as that. -/
def to4 : Addr → Option (BitVec 32)
  | .v4 bits => some bits
  | .v6 bits _ => if bits >>> 32 = 0xffff then some (bits.truncate 32) else none

end Addr

/-- A prefix as it is written: its address may have bits past the length. -/
structure CIDR where
  addr : Addr
  length : Nat
  deriving DecidableEq, Repr

def CIDR.network (c : CIDR) : Addr := c.addr.mask c.length

/-- `net.ParseCIDR`. -/
def CIDR.parse (s : String) : Option CIDR :=
  let addr := s.toList.takeWhile (· ≠ '/')
  let ds := s.toList.drop (addr.length + 1)
  match Addr.parse (String.ofList addr) with
  | some a =>
    if a.zone = "" ∧ ds ≠ [] ∧ ds.all Char.isDigit ∧ Addr.decimal ds ≤ a.bitLen then some ⟨a, Addr.decimal ds⟩
    else none
  | none => none

/-- A prefix where an address may stand for its own, which has full length. -/
def CIDR.ofText (s : String) : Option CIDR :=
  match CIDR.parse s with
  | some c => some c
  | none => (Addr.parse s).map fun a => ⟨a, a.bitLen⟩

def CIDR.Contains (c : CIDR) (a : Addr) : Prop := a.mask c.length = c.network

instance (c : CIDR) (a : Addr) : Decidable (c.Contains a) := inferInstanceAs (Decidable (_ = _))

theorem CIDR.contains_addr (c : CIDR) : c.Contains c.addr := rfl

/-- `net.SplitHostPort`: the port follows the last colon, and a host with
colons stands in brackets. -/
def splitHostPort (s : String) : Option (String × String) :=
  let cs := s.toList
  let port := cs.rtakeWhile (· ≠ ':')
  if ':' ∉ cs then none
  else match cs with
    | '[' :: inner =>
      let host := inner.takeWhile (· ≠ ']')
      if inner.drop host.length = ']' :: ':' :: port ∧ '[' ∉ inner ∧ ']' ∉ port then
        some (String.ofList host, String.ofList port)
      else none
    | cs =>
      let host := cs.take (cs.length - port.length - 1)
      if ':' ∉ host ∧ '[' ∉ cs ∧ ']' ∉ cs then some (String.ofList host, String.ofList port) else none

end Lib
