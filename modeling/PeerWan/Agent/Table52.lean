import PeerWan.Agent.Directives
import PeerWan.Agent.Kernel
import PeerWan.Lib.AddrText
import PeerWan.PeerPlans

/-!
# The routes in table 52

`syncPeerRoutes` puts the prefixes of the peers into table 52 and then takes out
what `ip route show` prints and it does not know. The tool prints the route to
a host without its mask, under which the loop has it; so a host in 10. goes
again as soon as it is there.
-/

namespace PeerWan

open Lib

-- ---------------------------------------------------------------------------
-- The tool
-- ---------------------------------------------------------------------------

/-- The IPv4 prefix that an argument denotes: its address and length. -/
def ipv4Net (s : String) : Option (BitVec 32 × Nat) :=
  match CIDR.ofText s with
  | some ⟨.v4 b, n⟩ => some (b, n)
  | _ => none

structure Route52 where
  text : String
  dev : String
  net : BitVec 32 × Nat
  denotes : ipv4Net text = some net
  noHostBits : (Addr.v4 net.1).mask net.2 = .v4 net.1
  deriving DecidableEq

/-- A prefix as `ip route show` prints it. -/
def Route52.shown (r : Route52) : String := if r.net.2 = 32 then CIDR.addrText r.text else r.text

/-- A host whose `ip` does with table 52 what iproute2 does. A command may fail
for reasons of its own. -/
class Iproute (κ : Type) extends IpHost κ where
  table52 : κ → Table Route52.net
  /-- The route takes the place of the one that had its prefix. -/
  replace_ipv4 : ∀ {pfx hop net h}, (exec (.routeReplace pfx hop .t52) h).1 = true → ipv4Net pfx = some net →
    ∃ r : Route52, r.text = pfx ∧ r.dev = hop.dev ∧ table52 (exec (.routeReplace pfx hop .t52) h).2 = (table52 h).put r
  /-- An IPv6 prefix goes to a table of its own. -/
  replace_other : ∀ {pfx hop h}, ipv4Net pfx = none →
    table52 (exec (.routeReplace pfx hop .t52) h).2 = table52 h
  mem_del : ∀ {pfx dev h r}, r ∈ (table52 (exec (.routeDel pfx dev .t52) h).2).rows ↔
    r ∈ (table52 h).rows ∧ ¬ (ipv4Net pfx = some r.net ∧ r.dev = dev)
  flush : ∀ {h}, table52 (exec .flushCache h).2 = table52 h
  mem_shown : ∀ {dev h w}, w ∈ firstWords ((showTable52 dev h).getD "") ↔
    ∃ r ∈ (table52 h).rows, r.dev = dev ∧ r.shown = w

/-- Every IPv4 prefix of the peers is on the interface, and what else there is
does not begin with 10. -/
structure PeerRoutesSynced {κ : Type} [Iproute κ] (peers : List Peer) (iface : String) (h : κ) : Prop where
  installed : ∀ p ∈ peers, ∀ pref ∈ p.allowedIPs, pref ≠ zeroPrefix → ∀ b n, CIDR.parse pref = some ⟨.v4 b, n⟩ →
    ∃ r ∈ (Iproute.table52 h).rows, r.net = (b, n) ∧ r.dev = syncDevice iface
  pruned : ∀ r ∈ (Iproute.table52 h).rows, r.dev = syncDevice iface → "10.".toList <+: r.shown.toList →
    ∃ p ∈ peers, ∃ pref ∈ p.allowedIPs, pref ≠ zeroPrefix ∧ ipv4Net pref = some r.net

/-- No allowed IP of the peers is a host in 10. -/
def NoOverlayHosts (peers : List Peer) : Prop :=
  ∀ p ∈ peers, ∀ pref ∈ p.allowedIPs, ∀ b, CIDR.parse pref = some ⟨.v4 b, 32⟩ → ¬ "10.".toList <+: pref.toList

-- ---------------------------------------------------------------------------
-- Prefixes and what is shown of them
-- ---------------------------------------------------------------------------

theorem ipv4Net_eq_some {s : String} {b : BitVec 32} {n : Nat} :
    ipv4Net s = some (b, n) ↔ CIDR.ofText s = some ⟨.v4 b, n⟩ := by
  unfold ipv4Net
  split
  next b' n' h => simp [h]
  next hother => simpa using fun h => hother b n h

theorem ipv4Net_of_parse {s : String} {b : BitVec 32} {n : Nat} (h : CIDR.parse s = some ⟨.v4 b, n⟩) :
    ipv4Net s = some (b, n) := by
  rw [ipv4Net_eq_some, CIDR.ofText, h]

theorem Route52.ipv4Net_shown (r : Route52) : ipv4Net r.shown = some r.net := by
  unfold shown
  split
  next hhost =>
    have htext := ipv4Net_eq_some.mp (show ipv4Net r.text = some (r.net.1, r.net.2) from r.denotes)
    rw [ipv4Net_eq_some.mpr (CIDR.ofText_addrText htext)]
    exact congrArg some (Prod.ext rfl hhost.symm)
  next => exact r.denotes

theorem Route52.shown_eq {r : Route52} {pref : String} {b : BitVec 32} (hnet : r.net = (b, 32))
    (hparse : CIDR.parse pref = some ⟨.v4 b, 32⟩) : r.shown = CIDR.addrText pref := by
  have htext : CIDR.ofText r.text = some ⟨.v4 b, 32⟩ := ipv4Net_eq_some.mp (hnet ▸ r.denotes)
  have hpref : CIDR.ofText pref = some ⟨.v4 b, 32⟩ := ipv4Net_eq_some.mp (ipv4Net_of_parse hparse)
  rw [shown, if_pos (congrArg Prod.snd hnet), ← String.toList_inj]
  exact Addr.parseIPv4_injective (CIDR.ipv4_text htext).1 (CIDR.ipv4_text hpref).1

theorem Route52.parse_text {r : Route52} {c : CIDR} (h : CIDR.parse r.text = some c) :
    c = ⟨.v4 r.net.1, r.net.2⟩ := by
  have htext := ipv4Net_eq_some.mp (show ipv4Net r.text = some (r.net.1, r.net.2) from r.denotes)
  rw [CIDR.ofText, h] at htext
  exact Option.some.inj htext

theorem mem_desiredPrefixes {peers : List Peer} {pref : String} :
    pref ∈ desiredPrefixes peers ↔ (∃ p ∈ peers, pref ∈ p.allowedIPs) ∧ isPeerPrefix pref := by
  rw [desiredPrefixes, List.mem_dedup, List.mem_filter, List.mem_flatMap]

theorem isPeerPrefix_of_parse {pref : String} {b : BitVec 32} {n : Nat} (hzero : pref ≠ zeroPrefix)
    (h : CIDR.parse pref = some ⟨.v4 b, n⟩) : isPeerPrefix pref := by
  have hempty : pref ≠ "" := by
    rintro rfl
    cases h
  simp [isPeerPrefix, hempty, hzero, h, CIDR.network, Addr.mask, Addr.to4]

theorem parse_of_isPeerPrefix {pref : String} (h : isPeerPrefix pref) : ∃ c, CIDR.parse pref = some c := by
  unfold isPeerPrefix at h
  cases hparse : CIDR.parse pref with
  | some c => exact ⟨c, rfl⟩
  | none => simp [hparse] at h

theorem ten_addrText (s : String) : "10.".toList <+: (CIDR.addrText s).toList ↔ "10.".toList <+: s.toList := by
  have haddr : (CIDR.addrText s).toList = s.toList.takeWhile (· ≠ '/') := String.toList_ofList
  rw [haddr]
  constructor
  · exact fun h => h.trans (List.takeWhile_prefix _)
  · rintro ⟨rest, hrest⟩
    have hten : ∀ c ∈ "10.".toList, decide (c ≠ '/') = true := by simp
    rw [← hrest, List.takeWhile_append_of_pos hten]
    exact List.prefix_append _ _

/-- The route to a host is shown without the slash that every wanted prefix has. -/
theorem Route52.shown_host {r : Route52} (h : r.net.2 = 32) (peers : List Peer) :
    r.shown ∉ desiredPrefixes peers := by
  intro hmem
  obtain ⟨c, hc⟩ := parse_of_isPeerPrefix (mem_desiredPrefixes.mp hmem).2
  rw [shown, if_pos h] at hc
  exact CIDR.slash_not_mem_addrText r.text (CIDR.slash_mem_of_parse hc)

/-- Without such hosts, a wanted route is shown as it is wanted or outside of 10. -/
theorem NoOverlayHosts.keeps {peers : List Peer} {r : Route52} (h : NoOverlayHosts peers)
    (htext : r.text ∈ desiredPrefixes peers) :
    r.shown ∈ desiredPrefixes peers ∨ ¬ "10.".toList <+: r.shown.toList := by
  unfold Route52.shown
  split
  next hhost =>
    right
    obtain ⟨⟨p, hp, hpref⟩, hpeer⟩ := mem_desiredPrefixes.mp htext
    obtain ⟨c, hc⟩ := parse_of_isPeerPrefix hpeer
    obtain rfl := Route52.parse_text hc
    rw [hhost] at hc
    rw [ten_addrText]
    exact h p hp r.text hpref r.net.1 hc
  next =>
    left
    exact htext

-- ---------------------------------------------------------------------------
-- The two loops
-- ---------------------------------------------------------------------------

section

variable {κ : Type} [Iproute κ]

open Iproute (table52)

/-- The table has a route for the prefix on the device, under one of the texts. -/
def Has (texts : List String) (dev : String) (h : κ) (net : BitVec 32 × Nat) : Prop :=
  ∃ r ∈ (table52 h).rows, r.net = net ∧ r.dev = dev ∧ r.text ∈ texts

theorem has_replaced {texts : List String} {dev : String} {h h' : κ} {pref : String} (hpref : pref ∈ texts)
    (hok : IpHost.exec (.routeReplace pref { dev := dev } .t52) h = (true, h')) {net : BitVec 32 × Nat}
    (hnet : Has texts dev h net ∨ ipv4Net pref = some net) : Has texts dev h' net := by
  have hstep : (IpHost.exec (.routeReplace pref { dev := dev } .t52) h).2 = h' := congrArg Prod.snd hok
  cases hpfx : ipv4Net pref with
  | none =>
    rcases hnet with ⟨r, hr, hr'⟩ | hnet
    · refine ⟨r, ?_, hr'⟩
      rw [← hstep, Iproute.replace_other hpfx]
      exact hr
    · rw [hpfx] at hnet
      cases hnet
  | some net' =>
    obtain ⟨new, htext, hdev, hput⟩ := Iproute.replace_ipv4 (congrArg Prod.fst hok) hpfx
    rw [hstep] at hput
    have hnew : new.net = net' := Option.some.inj (new.denotes.symm.trans (htext ▸ hpfx))
    by_cases heq : net' = net
    · exact ⟨new, hput ▸ Table.mem_put.mpr (.inr rfl), hnew.trans heq, hdev, htext ▸ hpref⟩
    · rcases hnet with ⟨r, hr, hrnet, hr'⟩ | hnet
      · refine ⟨r, hput ▸ Table.mem_put.mpr (.inl ⟨hr, ?_⟩), hrnet, hr'⟩
        rw [hrnet, hnew]
        exact Ne.symm heq
      · exact absurd (Option.some.inj (hpfx.symm.trans hnet)) heq

theorem has_ensured {texts : List String} {dev : String} {prefs : List String} (hprefs : ∀ pref ∈ prefs, pref ∈ texts)
    {h h' : κ} (hok : execWhile (prefs.map fun pref => .routeReplace pref { dev := dev } .t52) h = (true, h'))
    {net : BitVec 32 × Nat} (hnet : Has texts dev h net ∨ ∃ pref ∈ prefs, ipv4Net pref = some net) :
    Has texts dev h' net := by
  induction prefs generalizing h with
  | nil =>
    obtain rfl : h = h' := congrArg Prod.snd hok
    simpa using hnet
  | cons pref prefs ih =>
    obtain ⟨hpref, hprefs⟩ := List.forall_mem_cons.mp hprefs
    rw [List.map_cons, execWhile] at hok
    split at hok
    next => cases hok
    next h₁ hexec =>
      refine ih hprefs hok ?_
      rcases hnet with hhas | ⟨pref', hpref', hnet⟩
      · exact .inl (has_replaced hpref hexec (.inl hhas))
      · rcases List.mem_cons.mp hpref' with rfl | hrest
        · exact .inl (has_replaced hpref hexec (.inr hnet))
        · exact .inr ⟨pref', hrest, hnet⟩

theorem mem_deleted {prefs : List String} {dev : String} {h : κ} {r : Route52} :
    r ∈ (table52 (run IpCmd.exec h (prefs.map fun pref => .routeDel pref dev .t52))).rows ↔
      r ∈ (table52 h).rows ∧ ∀ pref ∈ prefs, ¬ (ipv4Net pref = some r.net ∧ r.dev = dev) := by
  induction prefs generalizing h with
  | nil => simp
  | cons pref prefs ih =>
    rw [List.map_cons, run_cons, ih, IpCmd.exec, Iproute.mem_del, List.forall_mem_cons, and_assoc]

/-- The pruning loop leaves on the device what it knows under the shown text, and
what is shown outside of 10. -/
theorem mem_pruned {desired : List String} {dev : String} {h : κ} {r : Route52} :
    r ∈ (table52 (run IpCmd.exec h (pruneCmds desired dev ((IpHost.showTable52 dev h).getD "")))).rows ↔
      r ∈ (table52 h).rows ∧ (r.dev = dev → r.shown ∈ desired ∨ ¬ "10.".toList <+: r.shown.toList) := by
  rw [pruneCmds, mem_deleted]
  refine and_congr_right fun hr => ?_
  constructor
  · intro hkept hdev
    by_contra hgone
    rw [not_or, not_not] at hgone
    have hshown : r.shown ∈ firstWords ((IpHost.showTable52 dev h).getD "") := Iproute.mem_shown.mpr ⟨r, hr, hdev, rfl⟩
    exact hkept r.shown (List.mem_filter.mpr ⟨hshown, by simpa using hgone⟩) ⟨r.ipv4Net_shown, hdev⟩
  · rintro hkept pref hpref ⟨hnet, hdev⟩
    obtain ⟨hshown, hgone⟩ := List.mem_filter.mp hpref
    obtain ⟨r', hr', -, rfl⟩ := Iproute.mem_shown.mp hshown
    have hsame : r'.net = r.net := Option.some.inj (r'.ipv4Net_shown.symm.trans hnet)
    obtain rfl : r' = r := List.inj_on_of_nodup_map (table52 h).nodup hr' hr hsame
    obtain ⟨hunknown, hten⟩ := of_decide_eq_true hgone
    exact (hkept hdev).elim hunknown fun hother => hother hten

-- ---------------------------------------------------------------------------
-- The whole sync
-- ---------------------------------------------------------------------------

/-- What a sync that succeeds leaves in the table. -/
theorem table52_synced {o : RouteTable → MapOrder String} {peers : List Peer} {iface : String} {h : κ}
    (hok : (syncPeerRoutes o peers iface h).1 = true) : ∃ h₂ : κ,
      (∀ pref ∈ desiredPrefixes peers, ∀ net, ipv4Net pref = some net →
        Has (desiredPrefixes peers) (syncDevice iface) h₂ net) ∧
      ∀ r : Route52, r ∈ (table52 (syncPeerRoutes o peers iface h).2).rows ↔ r ∈ (table52 h₂).rows ∧
        (r.dev = syncDevice iface → r.shown ∈ desiredPrefixes peers ∨ ¬ "10.".toList <+: r.shown.toList) := by
  obtain ⟨h₁, h₂, hmain, ht52⟩ := ensured_of_syncPeerRoutes hok
  have hprefs : ∀ pref, pref ∈ (o .t52).order (desiredPrefixes peers) ↔ pref ∈ desiredPrefixes peers :=
    fun _ => ((o .t52).perm _).mem_iff
  refine ⟨h₂, fun pref hpref net hnet => ?_, fun r => ?_⟩
  · exact has_ensured (fun pref => (hprefs pref).mp) ht52 (.inr ⟨pref, (hprefs pref).mpr hpref, hnet⟩)
  · rw [syncPeerRoutes_of_ensured hmain ht52, IpCmd.exec, Iproute.flush]
    exact mem_pruned

/-- A sync that succeeds leaves the table as it should be exactly when no allowed
IP is a host in 10. -/
theorem peerRoutesSynced_iff {o : RouteTable → MapOrder String} {peers : List Peer} {iface : String} {h : κ}
    (hok : (syncPeerRoutes o peers iface h).1 = true) :
    PeerRoutesSynced peers iface (syncPeerRoutes o peers iface h).2 ↔ NoOverlayHosts peers := by
  obtain ⟨h₂, hensured, hleft⟩ := table52_synced hok
  constructor
  · intro hsynced p hp pref hpref b hparse hten
    have hzero : pref ≠ zeroPrefix := by
      rintro rfl
      exact absurd hten (by decide)
    obtain ⟨r, hr, hnet, hdev⟩ := hsynced.installed p hp pref hpref hzero b 32 hparse
    rcases ((hleft r).mp hr).2 hdev with hknown | hother
    · exact Route52.shown_host (congrArg Prod.snd hnet) peers hknown
    · rw [Route52.shown_eq hnet hparse, ten_addrText] at hother
      exact hother hten
  · intro hhosts
    refine ⟨fun p hp pref hpref hzero b n hparse => ?_, fun r hr hdev hten => ?_⟩
    · have hdesired : pref ∈ desiredPrefixes peers :=
        mem_desiredPrefixes.mpr ⟨⟨p, hp, hpref⟩, isPeerPrefix_of_parse hzero hparse⟩
      obtain ⟨r, hr, hnet, hdev, htext⟩ := hensured pref hdesired (b, n) (ipv4Net_of_parse hparse)
      exact ⟨r, (hleft r).mpr ⟨hr, fun _ => hhosts.keeps htext⟩, hnet, hdev⟩
    · rcases ((hleft r).mp hr).2 hdev with hknown | hother
      · obtain ⟨⟨p, hp, hpref⟩, hpeer⟩ := mem_desiredPrefixes.mp hknown
        refine ⟨p, hp, r.shown, hpref, ?_, r.ipv4Net_shown⟩
        intro hzero
        rw [hzero] at hten
        exact absurd hten (by decide)
      · exact absurd hten hother

end

theorem overlayHosts_of_plan {targetID : String} {nodes : List Node} {health : HealthMap} {n : Node} {b : BitVec 32}
    (hn : n ∈ peered targetID health nodes) (hparse : CIDR.parse n.overlayIP = some ⟨.v4 b, 32⟩)
    (hten : "10.".toList <+: n.overlayIP.toList) : ¬ NoOverlayHosts (buildPeerPlan targetID nodes health) := by
  obtain ⟨hn, hpeered⟩ := List.mem_filter.mp hn
  obtain ⟨hne, hcomplete, hup⟩ := of_decide_eq_true hpeered
  have hnonempty : n.overlayIP ≠ "" := by
    intro hempty
    rw [hempty] at hparse
    cases hparse
  have hallowed : n.overlayIP ∈ n.toPeer.allowedIPs := by
    rw [n.peerOf_toPeer.allowedIPs]
    exact Node.overlayIP_mem_prefixes hnonempty
  intro hhosts
  exact hhosts n.toPeer (mem_buildPeerPlan.mpr ⟨n, hn, hne, hcomplete, hup, rfl⟩) n.overlayIP hallowed b hparse hten

-- ---------------------------------------------------------------------------
-- A host with this table
-- ---------------------------------------------------------------------------

/-- The route that a command puts in, if its prefix is an IPv4 one without host
bits. -/
def Route52.of (text dev : String) : Option Route52 :=
  match h : ipv4Net text with
  | some net => if hbits : (Addr.v4 net.1).mask net.2 = .v4 net.1 then some ⟨text, dev, net, h, hbits⟩ else none
  | none => none

def Route52.line (r : Route52) : String := r.shown ++ " " ++ "scope link"

theorem Route52.of_eq_some {text dev : String} {r : Route52} (h : Route52.of text dev = some r) :
    r.text = text ∧ r.dev = dev := by
  unfold Route52.of at h
  split at h
  next =>
    split at h
    next =>
      obtain rfl := Option.some.inj h
      exact ⟨rfl, rfl⟩
    next => cases h
  next => cases h

theorem Route52.mem_shown {r : Route52} : ∀ c ∈ r.shown.toList, c.isDigit ∨ c = '.' ∨ c = '/' := by
  have hnet := r.ipv4Net_shown
  exact CIDR.mem_of_ofText (ipv4Net_eq_some.mp (show ipv4Net r.shown = some (r.net.1, r.net.2) from hnet))

theorem not_isSpace {c : Char} (h : c.isDigit ∨ c = '.' ∨ c = '/') : isSpace c = false := by
  rcases h with h | rfl | rfl
  · obtain ⟨hlow, hhigh⟩ := Addr.toNat_of_isDigit h
    simp only [isSpace, Bool.or_eq_false_iff, Bool.and_eq_false_iff, decide_eq_false_iff_not]
    omega
  · decide
  · decide

theorem fields_word {w : String} (hne : w ≠ "") (hword : ∀ c ∈ w.toList, isSpace c = false) (rest : String) :
    (fields (w ++ " " ++ rest)).head? = some w := by
  have hlist : (w ++ " " ++ rest).toList = w.toList ++ ' ' :: rest.toList := by simp [String.toList_append]
  have hnil : w.toList ≠ [] := by simpa using hne
  rw [fields, hlist, List.splitOnP_append_cons_of_forall_mem hword ' ' (by decide)]
  simp [hnil]

theorem firstWords_lines (rs : List Route52) :
    firstWords (String.join (rs.map fun r => r.line ++ "\n")) = rs.map Route52.shown := by
  induction rs with
  | nil => rfl
  | cons r rs ih =>
    have hchars : ∀ c ∈ r.shown.toList, isSpace c = false := fun c hc => not_isSpace (r.mem_shown c hc)
    have hnewline : '\n' ∉ r.line.toList := by
      rw [Route52.line, String.toList_append, String.toList_append, List.mem_append, List.mem_append, not_or, not_or]
      exact ⟨⟨fun hmem => absurd (hchars _ hmem) (by decide), by decide⟩, by decide⟩
    have hne : r.shown ≠ "" := by
      intro hempty
      have hnet := r.ipv4Net_shown
      rw [hempty] at hnet
      cases hnet
    have hword : (fields r.line).head? = some r.shown := fields_word hne hchars "scope link"
    rw [List.map_cons, String.join_cons, firstWords, lines_append_newline, List.filterMap_append,
      lines_eq_singleton hnewline, List.filterMap_cons, hword]
    exact congrArg (r.shown :: ·) ih

structure RouteHost where
  t52 : Table Route52.net

namespace RouteHost

def replaced (h : RouteHost) (pfx dev : String) (t : RouteTable) : Bool × RouteHost :=
  match Route52.of pfx dev with
  | some r => (true, if t = .t52 then ⟨h.t52.put r⟩ else h)
  | none => (ipv4Net pfx = none, h)

def deleted (h : RouteHost) (pfx dev : String) (t : RouteTable) : RouteHost :=
  if t = .t52 then
    { t52 := {
        rows := h.t52.rows.filter fun r => ¬ (ipv4Net pfx = some r.net ∧ r.dev = dev)
        nodup := h.t52.nodup.sublist (List.filter_sublist.map Route52.net) } }
  else h

theorem replaced_ipv4 {h : RouteHost} {pfx dev : String} {net : BitVec 32 × Nat}
    (hok : (h.replaced pfx dev .t52).1 = true) (hnet : ipv4Net pfx = some net) :
    ∃ r : Route52, r.text = pfx ∧ r.dev = dev ∧ (h.replaced pfx dev .t52).2.t52 = h.t52.put r := by
  unfold replaced at hok ⊢
  cases hof : Route52.of pfx dev with
  | none => simp [hof, hnet] at hok
  | some r =>
    obtain ⟨htext, hdev⟩ := Route52.of_eq_some hof
    exact ⟨r, htext, hdev, rfl⟩

theorem replaced_other {h : RouteHost} {pfx dev : String} (hnone : ipv4Net pfx = none) :
    (h.replaced pfx dev .t52).2 = h := by
  unfold replaced
  cases hof : Route52.of pfx dev with
  | none => rfl
  | some r =>
    obtain ⟨rfl, -⟩ := Route52.of_eq_some hof
    rw [r.denotes] at hnone
    cases hnone

theorem mem_deleted_t52 {h : RouteHost} {pfx dev : String} {r : Route52} :
    r ∈ (h.deleted pfx dev .t52).t52.rows ↔ r ∈ h.t52.rows ∧ ¬ (ipv4Net pfx = some r.net ∧ r.dev = dev) := by
  unfold deleted
  rw [if_pos rfl, List.mem_filter, decide_eq_true_eq]

def printed (h : RouteHost) (dev : String) : String :=
  String.join ((h.t52.rows.filter (·.dev = dev)).map fun r => r.line ++ "\n")

theorem mem_firstWords_printed {h : RouteHost} {dev w : String} :
    w ∈ firstWords (h.printed dev) ↔ ∃ r ∈ h.t52.rows, r.dev = dev ∧ r.shown = w := by
  rw [printed, firstWords_lines]
  simp [and_assoc]

instance : IpHost RouteHost where
  exec c h := match c with
    | .routeReplace pfx hop t => h.replaced pfx hop.dev t
    | .routeDel pfx dev t => (true, h.deleted pfx dev t)
    | .ruleAdd _ | .flushCache => (true, h)
  showDefault _ := none
  showTable52 dev h := some (h.printed dev)

theorem exec_replace (h : RouteHost) (pfx : String) (hop : RouteHop) (t : RouteTable) :
    IpHost.exec (.routeReplace pfx hop t) h = h.replaced pfx hop.dev t := rfl

instance : Iproute RouteHost where
  table52 := RouteHost.t52
  replace_ipv4 := by
    intro pfx hop net h hok hnet
    rw [exec_replace] at hok ⊢
    exact replaced_ipv4 hok hnet
  replace_other hnone := congrArg RouteHost.t52 (replaced_other hnone)
  mem_del := mem_deleted_t52
  flush := rfl
  mem_shown := mem_firstWords_printed

end RouteHost

def networkPeers : List Peer := [{ id := "b", allowedIPs := ["10.2.0.0/16"] }]

def staleHost : RouteHost := ⟨(Route52.of "10.9.0.0/16" "wg0").elim ∅ (∅ : Table Route52.net).put⟩

theorem peerRoutesSynced_network :
    PeerRoutesSynced networkPeers "wg0" (syncPeerRoutes (fun _ => default) networkPeers "wg0" staleHost).2 := by
  refine (peerRoutesSynced_iff (by decide)).mpr fun p hp pref hpref b hparse => ?_
  obtain rfl := List.mem_singleton.mp hp
  obtain rfl := List.mem_singleton.mp hpref
  have hlength : (CIDR.parse "10.2.0.0/16").map CIDR.length = some 16 := by decide
  rw [hparse] at hlength
  exact absurd (Option.some.inj hlength) (show 32 ≠ 16 by decide)

/-- The route to a peer's overlay address is deleted with the command that put
it in. -/
theorem peerRoutesSynced_counterexample : ¬ ∀ (o : RouteTable → MapOrder String) (peers : List Peer)
    (iface : String) (h : RouteHost), (syncPeerRoutes o peers iface h).1 = true →
      PeerRoutesSynced peers iface (syncPeerRoutes o peers iface h).2 := by
  intro h
  have hsynced := h (fun _ => default) [{ id := "b", allowedIPs := ["10.10.1.2/32"] }] "wg0" ⟨∅⟩ (by decide)
  have hnone : (Iproute.table52 (syncPeerRoutes (fun _ => default) [{ id := "b", allowedIPs := ["10.10.1.2/32"] }]
    "wg0" (RouteHost.mk ∅)).2).rows = [] := by decide
  obtain ⟨r, hr, -⟩ := hsynced.installed _ List.mem_cons_self _ List.mem_cons_self (by decide)
    0x0a0a0102 32 (by decide)
  rw [hnone] at hr
  cases hr

end PeerWan
