import PeerWan.Diagnose
import PeerWan.Lib.Net
import PeerWan.LinkStatuses

/-!
# The key of a node's telemetry

An agent reports what it measured of a peer under an address that it takes from
the peer's allowed IPs (`pkg/agent/health.go`). The diagnosis looks for it
under the first allowed IP, and the status of the links under the overlay
address of the record.
-/

namespace PeerWan

open Lib

-- ---------------------------------------------------------------------------
-- The report
-- ---------------------------------------------------------------------------

/-- The loop of `peerOverlayIP`: the first entry with a mask, or that is an
address. -/
def firstAddress : List String → String
  | [] => ""
  | ip :: ips =>
    if '/' ∈ ip.toList then (beforeSlash ip).getD ip
    else if (Addr.parseIP ip).isSome then ip
    else firstAddress ips

def peerOverlayIP (p : Peer) : String := firstAddress p.allowedIPs

/-- `ping` is what the probe of each peer gives, if it reaches the peer. -/
def probed (ping : Peer → Option (Int × Rat)) (maps : StrMap Int × StrMap Rat) (p : Peer) :
    StrMap Int × StrMap Rat :=
  let ip := peerOverlayIP p
  if ip = "" then maps
  else match ping p with
    | none => maps
    | some (ms, pct) => (maps.1.put (ip, ms), maps.2.put (ip, pct))

def reportOnce (ping : Peer → Option (Int × Rat)) (nodeID : String) (peers : List Peer)
    (frrState : StrMap String) (now : Int) : HealthReport :=
  let (latency, loss) := peers.foldl (probed ping) (∅, ∅)
  { nodeID := nodeID
    status := "up"
    latencyMs := latency
    packetLoss := loss
    frrState := frrState
    timestamp := now }

theorem probed_keeps (ping : Peer → Option (Int × Rat)) (peers : List Peer) (maps : StrMap Int × StrMap Rat)
    {ip : String} (h : (maps.1.get? ip).isSome) : ((peers.foldl (probed ping) maps).1.get? ip).isSome := by
  induction peers generalizing maps with
  | nil => exact h
  | cons p peers ih =>
    refine ih _ ?_
    unfold probed
    dsimp only
    split
    · exact h
    · split
      · exact h
      · rw [Table.get?_put]
        split
        · rfl
        · exact h

theorem reportOnce_measures (ping : Peer → Option (Int × Rat)) (nodeID : String) (frrState : StrMap String)
    (now : Int) {peers : List Peer} {p : Peer} (hp : p ∈ peers) (hkey : peerOverlayIP p ≠ "")
    (hping : (ping p).isSome) :
    ((reportOnce ping nodeID peers frrState now).latencyMs.get? (peerOverlayIP p)).isSome := by
  show ((peers.foldl (probed ping) (∅, ∅)).1.get? _).isSome
  generalize ((∅, ∅) : StrMap Int × StrMap Rat) = maps
  induction peers generalizing maps with
  | nil => cases hp
  | cons q peers ih =>
    rw [List.foldl_cons]
    rcases List.mem_cons.mp hp with rfl | hp
    · refine probed_keeps ping peers _ ?_
      obtain ⟨⟨ms, pct⟩, hseen⟩ := Option.isSome_iff_exists.mp hping
      simp only [probed, if_neg hkey, hseen, Table.get?_put, if_true, Option.isSome_some]
    · exact ih hp _

-- ---------------------------------------------------------------------------
-- Three keys
-- ---------------------------------------------------------------------------

/-- What `diagnoseNode` looks up for a peer. -/
def diagnoseKey (p : Peer) : String := (p.allowedIPs.head?.map ipWithoutMask).getD ""

/-- What `buildLinkStatuses` looks up for a node. -/
def linkKey (n : Node) : String := ipWithoutMask n.overlayIP

theorem probePeers_missing {health : HealthReport} {peers : List Peer} {missing blocked : List String}
    (h : probePeers health peers = some (missing, blocked)) (id : String) :
    id ∈ missing ↔ ∃ p ∈ peers, p.id = id ∧ (health.latencyMs.get? (diagnoseKey p)).isNone := by
  induction peers generalizing missing blocked with
  | nil =>
    obtain ⟨rfl, rfl⟩ := Prod.mk.inj (Option.some.inj h)
    simp
  | cons p peers ih =>
    rw [probePeers] at h
    cases hips : p.allowedIPs with
    | nil =>
      rw [hips] at h
      cases h
    | cons ip ips =>
      rw [hips] at h
      obtain ⟨⟨missing', blocked'⟩, hrest, hout⟩ := Option.map_eq_some_iff.mp h
      have hkey : diagnoseKey p = ipWithoutMask ip := by rw [diagnoseKey, hips]; rfl
      simp only [List.exists_mem_cons_iff, hkey, ← ih hrest]
      dsimp only at hout
      by_cases hnone : (health.latencyMs.get? (ipWithoutMask ip)).isNone
      · rw [if_pos hnone] at hout
        obtain ⟨rfl, rfl⟩ := Prod.mk.inj hout
        simp only [List.mem_cons, hnone, and_true, eq_comm]
      · rw [if_neg hnone] at hout
        have hmissing : missing' = missing := by
          split at hout <;> exact (Prod.mk.inj hout).1
        simp [hmissing, hnone]

/-- Both find what an agent reports of the node when it reaches it. -/
def Found (n : Node) : Prop := ∀ ping nodeID peers frrState now,
  n.toPeer ∈ peers → peerOverlayIP n.toPeer ≠ "" → (ping n.toPeer).isSome →
    let report := reportOnce ping nodeID peers frrState now
    (report.latencyMs.get? (diagnoseKey n.toPeer)).isSome ∧
      (measured (healthMap [report]) nodeID (linkKey n)).isSome

structure TelemetryAgrees (n : Node) : Prop where
  diagnose : peerOverlayIP n.toPeer = diagnoseKey n.toPeer
  link : peerOverlayIP n.toPeer = linkKey n
  found : Found n

theorem measured_isSome (report : HealthReport) (ip : String) :
    (measured (healthMap [report]) report.nodeID ip).isSome = (report.latencyMs.get? ip).isSome := by
  have hget : (healthMap [report]).get? report.nodeID = some report := by
    simp [healthMap, Table.ofList, Table.get?_put]
  rw [measured, hget, Option.bind_some, Option.isSome_map]

theorem found_of_keys {n : Node} (hdiagnose : peerOverlayIP n.toPeer = diagnoseKey n.toPeer)
    (hlink : peerOverlayIP n.toPeer = linkKey n) : Found n := by
  intro ping nodeID peers frrState now hp hkey hping
  have hreported := reportOnce_measures ping nodeID frrState now hp hkey hping
  refine ⟨hdiagnose ▸ hreported, ?_⟩
  exact (measured_isSome (reportOnce ping nodeID peers frrState now) (linkKey n)).trans (hlink ▸ hreported)

-- ---------------------------------------------------------------------------
-- Records whose keys agree
-- ---------------------------------------------------------------------------

/-- The agent takes such an entry for the address of the peer. -/
def Probeable (s : String) : Prop := '/' ∈ s.toList ∨ (Addr.parseIP s).isSome

instance decidableProbeable (s : String) : Decidable (Probeable s) := inferInstanceAs (Decidable (_ ∨ _))

/-- The overlay has a mask or is an address. Otherwise the agent goes on to the
CIDRs, where only one that has the overlay before its mask gives the same key;
a node without overlay has the empty key with the diagnosis and with the agent
only if the first CIDR is empty and none is an address. -/
def Keyed (n : Node) : Prop :=
  Probeable n.overlayIP ∨
  (n.overlayIP ≠ "" ∧ ∃ c, n.cidrs.find? (fun c => decide (Probeable c)) = some c ∧
    beforeSlash c = some n.overlayIP) ∨
  (n.overlayIP = "" ∧ n.cidrs.head? = some "" ∧ ∀ c ∈ n.cidrs, ¬ Probeable c)

theorem firstAddress_eq (ips : List String) :
    firstAddress ips = ((ips.find? fun ip => decide (Probeable ip)).map ipWithoutMask).getD "" := by
  induction ips with
  | nil => rfl
  | cons ip ips ih =>
    rw [firstAddress, List.find?_cons]
    by_cases hslash : '/' ∈ ip.toList
    · simp [hslash, Probeable, ipWithoutMask]
    · by_cases hip : (Addr.parseIP ip).isSome
      · simp [hslash, Probeable, hip, ipWithoutMask_eq_self]
      · simp [hslash, Probeable, hip, ih]

theorem find?_foldl_firsts (p : String → Bool) (cs allowed : List String) :
    (cs.foldl (fun allowed cidr => if cidr ∈ allowed then allowed else allowed ++ [cidr]) allowed).find? p =
      (allowed ++ cs).find? p := by
  induction cs generalizing allowed with
  | nil => rw [List.foldl_nil, List.append_nil]
  | cons c cs ih =>
    rw [List.foldl_cons, ih]
    split
    next hc =>
      -- an entry that is there already is not the first that satisfies `p`
      cases hp : p c with
      | false => simp [List.find?_append, hp]
      | true =>
        obtain ⟨d, hd⟩ := Option.isSome_iff_exists.mp (List.find?_isSome.mpr ⟨c, hc, hp⟩)
        simp [List.find?_append, hd]
    next => rw [List.append_assoc, List.singleton_append]

theorem find?_allowedIPs (n : Node) (p : String → Bool) :
    n.allowedIPs.find? p = ((if n.overlayIP ≠ "" then [n.overlayIP] else []) ++ n.cidrs).find? p :=
  find?_foldl_firsts p n.cidrs _

theorem head?_eq_find? (l : List α) : l.head? = l.find? fun _ => true := by
  cases l <;> rfl

theorem diagnoseKey_toPeer (n : Node) : diagnoseKey n.toPeer =
    if n.overlayIP ≠ "" then ipWithoutMask n.overlayIP else (n.cidrs.head?.map ipWithoutMask).getD "" := by
  show (n.allowedIPs.head?.map ipWithoutMask).getD "" = _
  rw [head?_eq_find?, find?_allowedIPs, ← head?_eq_find?]
  split
  · rfl
  · rfl

theorem not_probeable_empty : ¬ Probeable "" := by decide

theorem peerOverlayIP_toPeer (n : Node) : peerOverlayIP n.toPeer =
    if Probeable n.overlayIP then ipWithoutMask n.overlayIP
    else ((n.cidrs.find? fun c => decide (Probeable c)).map ipWithoutMask).getD "" := by
  show firstAddress n.allowedIPs = _
  rw [firstAddress_eq, find?_allowedIPs]
  by_cases ho : n.overlayIP = ""
  · rw [if_neg (not_not.mpr ho), ho, if_neg not_probeable_empty]
    rfl
  · rw [if_pos ho, List.singleton_append, List.find?_cons]
    by_cases hp : Probeable n.overlayIP <;> simp [hp]

section

variable {n : Node} (hp : ¬ Probeable n.overlayIP)
include hp

theorem keys_of_no_overlay (ho : n.overlayIP = "") (hcidrs : n.cidrs ≠ []) :
    (peerOverlayIP n.toPeer = diagnoseKey n.toPeer ∧ peerOverlayIP n.toPeer = linkKey n) ↔
      n.cidrs.head? = some "" ∧ ∀ c ∈ n.cidrs, ¬ Probeable c := by
  obtain ⟨c₀, cs, hcs⟩ := List.exists_cons_of_ne_nil hcidrs
  rw [peerOverlayIP_toPeer, if_neg hp, diagnoseKey_toPeer, if_neg (not_not.mpr ho), linkKey, ho, hcs]
  have hempty : ipWithoutMask "" = "" := ipWithoutMask_eq_empty.mpr rfl
  cases hfind : (c₀ :: cs).find? fun c => decide (Probeable c) with
  | none =>
    have hnone : ∀ c ∈ c₀ :: cs, ¬ Probeable c := by simpa using hfind
    simp only [Option.map_none, Option.getD_none, List.head?_cons, Option.map_some, Option.getD_some, hempty,
      and_true, Option.some.injEq, and_iff_left hnone]
    exact eq_comm.trans ipWithoutMask_eq_empty
  | some c =>
    have hc : Probeable c := by simpa using List.find?_some hfind
    have hne : ipWithoutMask c ≠ "" := fun heq => not_probeable_empty (ipWithoutMask_eq_empty.mp heq ▸ hc)
    rw [hempty]
    exact iff_of_false (fun h => hne h.2) fun h => h.2 c (List.mem_of_find?_eq_some hfind) hc

theorem keys_of_no_address (ho : n.overlayIP ≠ "") :
    (peerOverlayIP n.toPeer = diagnoseKey n.toPeer ∧ peerOverlayIP n.toPeer = linkKey n) ↔
      ∃ c, n.cidrs.find? (fun c => decide (Probeable c)) = some c ∧ beforeSlash c = some n.overlayIP := by
  have hself : ipWithoutMask n.overlayIP = n.overlayIP := ipWithoutMask_eq_self fun h => hp (.inl h)
  rw [peerOverlayIP_toPeer, if_neg hp, diagnoseKey_toPeer, if_pos ho, linkKey, hself, and_self]
  cases hfind : n.cidrs.find? fun c => decide (Probeable c) with
  | none => simp [Ne.symm ho]
  | some c =>
    have hc : Probeable c := by simpa using List.find?_some hfind
    simp only [Option.map_some, Option.getD_some, Option.some.injEq, exists_eq_left', ipWithoutMask]
    cases hslash : beforeSlash c with
    | none => exact iff_of_false (fun heq => hp (heq ▸ hc)) fun heq => by cases heq
    | some t => simp

end

/-- The agent, the diagnosis and the status of the links agree on the key of a
node exactly when its record is keyed. -/
theorem telemetryAgrees_iff {targetID : String} {health : HealthMap} {nodes : List Node} {n : Node}
    (h : n ∈ peered targetID health nodes) : TelemetryAgrees n ↔ Keyed n := by
  have hcidrs : n.cidrs ≠ [] := by
    simp only [peered, List.mem_filter, decide_eq_true_eq] at h
    exact h.2.2.1.1
  have hkeys : TelemetryAgrees n ↔
      peerOverlayIP n.toPeer = diagnoseKey n.toPeer ∧ peerOverlayIP n.toPeer = linkKey n :=
    ⟨fun h => ⟨h.diagnose, h.link⟩, fun h => ⟨h.1, h.2, found_of_keys h.1 h.2⟩⟩
  rw [hkeys, Keyed]
  by_cases hp : Probeable n.overlayIP
  · have ho : n.overlayIP ≠ "" := fun ho => not_probeable_empty (ho ▸ hp)
    rw [peerOverlayIP_toPeer, if_pos hp, diagnoseKey_toPeer, if_pos ho]
    exact iff_of_true ⟨rfl, rfl⟩ (.inl hp)
  rw [or_iff_right hp]
  by_cases ho : n.overlayIP = ""
  · rw [keys_of_no_overlay hp ho hcidrs, or_iff_right fun h => h.1 ho, and_iff_right ho]
  · rw [keys_of_no_address hp ho, or_iff_left fun h => ho h.1, and_iff_right ho]

def sampleUnkeyed : Node where
  id := "edge"
  publicKey := "ka"
  cidrs := ["10.1.0.0/24"]

def sampleKeyed : Node := { sampleUnkeyed with overlayIP := "10.10.1.1/32" }

theorem telemetryAgrees_overlay : TelemetryAgrees sampleKeyed := by
  have hpeer : sampleKeyed ∈ peered "hub" ∅ [sampleKeyed] := by decide
  have hslash : '/' ∈ sampleKeyed.overlayIP.toList := by decide
  exact (telemetryAgrees_iff hpeer).mpr (.inl (.inl hslash))

/-- A node that was registered without overlay: the agent reports it under the
address of its network, and the status of the links looks for the empty key. -/
theorem telemetryAgrees_counterexample : ¬ ∀ (targetID : String) (health : HealthMap) (nodes : List Node) (n : Node),
    n ∈ peered targetID health nodes → TelemetryAgrees n := by
  intro h
  have hlink := (h "hub" ∅ [sampleUnkeyed] sampleUnkeyed (by decide)).link
  exact absurd hlink (by decide)

end PeerWan
