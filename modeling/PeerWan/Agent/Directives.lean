import PeerWan.Agent.Render
import PeerWan.Controller.Handlers
import PeerWan.Lib.Blocks

/-!
# The lines of a WireGuard configuration

`renderConfig` writes every value as it is behind its key. A value is one line
of the text only when it has no line break, and nothing on the way from a
registration to a peer's configuration looks for one.
-/

namespace PeerWan

open Lib

def interfaceKeys : List String := ["Address", "ListenPort", "PrivateKey"]

def peerKeys : List String := ["PublicKey", "Endpoint", "AllowedIPs", "PersistentKeepalive"]

def Directive (keys : List String) (line : String) : Prop := ∃ key ∈ keys, key.toList <+: line.toList

instance (keys : List String) (line : String) : Decidable (Directive keys line) :=
  inferInstanceAs (Decidable (∃ key ∈ keys, key.toList <+: line.toList))

def firstLine (s : String) : String := (lines s).headD ""

def filledLines (text : String) : List String := (lines text).filter (· ≠ "")

/-- The lines up to the first `[Peer]`, and those after each. -/
def sections (text : String) : List (List String) := (filledLines text).splitOn "[Peer]"

def Node.endpointFor (node : Node) (p : Peer) : String :=
  match node.peerEndpoints.get? p.id with
  | some (_, override) => if override ≠ "" then override else p.endpoint
  | none => p.endpoint

def written (key : String) (present : Prop) [Decidable present] : List String := if present then [key] else []

def Node.interfaceDirectives (node : Node) (privateKey : String) : List String :=
  written "Address" (node.overlayIP ≠ "") ++ written "ListenPort" (node.listenPort > 0) ++
    written "PrivateKey" (privateKey ≠ "")

def Node.peerDirectives (node : Node) (p : Peer) : List String :=
  written "PublicKey" True ++ written "Endpoint" (node.endpointFor p ≠ "") ++
    written "AllowedIPs" (p.allowedIPs.length > 0) ++ written "PersistentKeepalive" (p.keepalive > 0)

/-- One `[Interface]` line, one `[Peer]` line for each of the peers and in their
order, nothing but keys of its own in a section, and no directive added to those
that it is to have. -/
structure Confined (text : String) (node : Node) (peers : List Peer) (privateKey : String) : Prop where
  interface_line : (filledLines text).count "[Interface]" = 1
  peer_lines : (filledLines text).count "[Peer]" = peers.length
  peer_order : (sections text).tail.map List.head? =
    peers.map fun p => some (firstLine ("PublicKey = " ++ p.publicKey))
  interface_section : ∃ body, (sections text).head? = some ("[Interface]" :: body) ∧
    (∀ line ∈ body, Directive interfaceKeys line) ∧ body.length = (node.interfaceDirectives privateKey).length
  peer_section : ∀ body ∈ (sections text).tail, ∀ line ∈ body, Directive peerKeys line
  peer_added : (sections text).tail.map List.length = peers.map fun p => (node.peerDirectives p).length

/-- After its first line a value has none but empty ones. -/
def OneLine (value : String) : Prop := ∀ line ∈ (lines value).tail, line = ""

instance (value : String) : Decidable (OneLine value) :=
  inferInstanceAs (Decidable (∀ line ∈ (lines value).tail, line = ""))

-- ---------------------------------------------------------------------------
-- Lines
-- ---------------------------------------------------------------------------

theorem lines_append_newline (s t : String) : lines (s ++ "\n" ++ t) = lines s ++ lines t := by
  have hlist : (s ++ "\n" ++ t).toList = s.toList ++ '\n' :: t.toList := by
    simp [String.toList_append]
  rw [lines, hlist, List.splitOn_append_cons_self, List.map_append]
  rfl

theorem lines_eq_singleton {s : String} (h : '\n' ∉ s.toList) : lines s = [s] := by
  rw [lines, List.splitOn_eq_singleton h, List.map_singleton, String.ofList_toList]

theorem lines_append_of_not_mem {key : String} (h : '\n' ∉ key.toList) (value : String) :
    lines (key ++ value) = (key ++ firstLine value) :: (lines value).tail := by
  have hne : value.toList.splitOn '\n' ≠ [] := List.splitOn_ne_nil _ _
  rw [lines, String.toList_append, splitOn_append_of_not_mem h, firstLine, lines]
  cases hsplit : value.toList.splitOn '\n' with
  | nil => exact absurd hsplit hne
  | cons l ls => simp

theorem firstLine_append_of_not_mem {key : String} (h : '\n' ∉ key.toList) (value : String) :
    firstLine (key ++ value) = key ++ firstLine value := by
  rw [firstLine, lines_append_of_not_mem h]
  rfl

theorem filledLines_append_newline (s t : String) :
    filledLines (s ++ "\n" ++ t) = filledLines s ++ filledLines t := by
  rw [filledLines, lines_append_newline, List.filter_append]
  rfl

@[simp] theorem filledLines_empty : filledLines "" = [] := rfl

theorem filledLines_end (s : String) : filledLines (s ++ "\n") = filledLines s := by
  have h := filledLines_append_newline s ""
  rwa [String.append_empty, filledLines_empty, List.append_nil] at h

def Ended (s : String) : Prop := s = "" ∨ ∃ t, s = t ++ "\n"

theorem filledLines_append {s : String} (h : Ended s) (t : String) :
    filledLines (s ++ t) = filledLines s ++ filledLines t := by
  rcases h with rfl | ⟨u, rfl⟩
  · rw [String.empty_append]
    rfl
  · rw [filledLines_append_newline, filledLines_end]

theorem Ended.append {s t : String} (hs : Ended s) (ht : Ended t) : Ended (s ++ t) := by
  rcases ht with rfl | ⟨u, rfl⟩
  · rwa [String.append_empty]
  · exact .inr ⟨s ++ u, String.append_assoc.symm⟩

def setting (key value : String) (present : Prop) [Decidable present] : String :=
  if present then key ++ " = " ++ value ++ "\n" else ""

theorem setting_ended (key value : String) (present : Prop) [Decidable present] :
    Ended (setting key value present) := by
  unfold setting
  split
  · exact .inr ⟨_, rfl⟩
  · exact .inl rfl

theorem filledLines_setting {key : String} (h : '\n' ∉ key.toList) (value : String) {present : Prop}
    [Decidable present] (hp : present) : filledLines (setting key value present) =
      (key ++ " = " ++ firstLine value) :: (lines value).tail.filter (· ≠ "") := by
  have hkey : '\n' ∉ (key ++ " = ").toList := by
    rw [String.toList_append, List.mem_append, not_or]
    exact ⟨h, by decide⟩
  rw [setting, if_pos hp, filledLines_end, filledLines, lines_append_of_not_mem hkey,
    List.filter_cons_of_pos (by simp)]

def addedLines (value : String) : Nat := ((lines value).tail.filter (· ≠ "")).length

theorem addedLines_eq_zero {value : String} : addedLines value = 0 ↔ OneLine value := by
  rw [addedLines, List.length_eq_zero_iff, List.filter_eq_nil_iff, OneLine]
  simp only [decide_eq_true_eq, not_not]

theorem length_setting {key : String} (h : '\n' ∉ key.toList) (value : String) (present : Prop) [Decidable present]
    (hempty : ¬ present → addedLines value = 0) :
    (filledLines (setting key value present)).length = (written key present).length + addedLines value := by
  by_cases hp : present
  · rw [filledLines_setting h value hp, written, if_pos hp, List.length_cons, addedLines, List.length_singleton]
    omega
  · rw [setting, written, if_neg hp, if_neg hp, hempty hp]
    rfl

theorem setting_directives (keys : List String) (key value : String) (hkey : key ∈ keys)
    (h : '\n' ∉ key.toList) (present : Prop) [Decidable present] (hvalue : OneLine value) :
    ∀ line ∈ filledLines (setting key value present), Directive keys line := by
  by_cases hp : present
  · rw [filledLines_setting h value hp, List.filter_eq_nil_iff.mpr fun line hline => by simp [hvalue line hline],
      List.forall_mem_singleton]
    refine ⟨key, hkey, ?_⟩
    rw [String.append_assoc, String.toList_append]
    exact List.prefix_append ..
  · rw [setting, if_neg hp]
    exact fun line hline => absurd hline List.not_mem_nil

-- ---------------------------------------------------------------------------
-- The two kinds of sections
-- ---------------------------------------------------------------------------

def interfaceText (node : Node) (privateKey : String) : String :=
  setting "Address" node.overlayIP (node.overlayIP ≠ "") ++
    setting "ListenPort" (toString node.listenPort) (node.listenPort > 0) ++
    setting "PrivateKey" privateKey (privateKey ≠ "")

def peerText (node : Node) (p : Peer) : String :=
  setting "PublicKey" p.publicKey True ++
    setting "Endpoint" (node.endpointFor p) (node.endpointFor p ≠ "") ++
    setting "AllowedIPs" (", ".intercalate p.allowedIPs) (p.allowedIPs.length > 0) ++
    setting "PersistentKeepalive" (toString p.keepalive) (p.keepalive > 0)

theorem renderPeer_eq (node : Node) (p : Peer) :
    renderPeer node p = "[Peer]" ++ "\n" ++ (peerText node p ++ "\n") := by
  delta renderPeer peerText setting Node.endpointFor
  simp only [if_true]
  rfl

theorem renderConfig_eq (node : Node) (peers : List Peer) (privateKey : String) :
    renderConfig node peers privateKey =
      "[Interface]" ++ "\n" ++
        (interfaceText node privateKey ++ "\n" ++ String.join (peers.map (renderPeer node))) := by
  delta renderConfig interfaceText setting
  simp only [String.append_assoc]
  rfl

theorem filledLines_header : filledLines "[Interface]" = ["[Interface]"] ∧ filledLines "[Peer]" = ["[Peer]"] := by
  decide

theorem filledLines_peers (node : Node) (peers : List Peer) :
    filledLines (String.join (peers.map (renderPeer node))) =
      blocks "[Peer]" (peers.map fun p => filledLines (peerText node p)) := by
  induction peers with
  | nil => rfl
  | cons p peers ih =>
    rw [List.map_cons, List.map_cons, String.join_cons, renderPeer_eq, blocks_cons, String.append_assoc,
      filledLines_append_newline, filledLines_append_newline, ih, filledLines_header.2,
      List.singleton_append, List.cons_append]

theorem filledLines_renderConfig (node : Node) (peers : List Peer) (privateKey : String) :
    filledLines (renderConfig node peers privateKey) =
      ("[Interface]" :: filledLines (interfaceText node privateKey)) ++
        blocks "[Peer]" (peers.map fun p => filledLines (peerText node p)) := by
  rw [renderConfig_eq, filledLines_append_newline, filledLines_append_newline, filledLines_peers,
    filledLines_header.1]
  exact (List.append_assoc ..).symm

theorem addedLines_toString (v : Int) : addedLines (toString v) = 0 := by
  rw [addedLines, lines_eq_singleton (newline_not_mem_toString v)]
  rfl

theorem addedLines_of_not_filled {value : String} (h : ¬ value ≠ "") : addedLines value = 0 := by
  rw [not_not.mp h]
  rfl

theorem addedLines_allowedIPs {p : Peer} (h : ¬ p.allowedIPs.length > 0) :
    addedLines (", ".intercalate p.allowedIPs) = 0 := by
  rw [List.length_eq_zero_iff.mp (Nat.eq_zero_of_not_pos h)]
  rfl

theorem length_interfaceText (node : Node) (privateKey : String) :
    (filledLines (interfaceText node privateKey)).length =
      (node.interfaceDirectives privateKey).length + (addedLines node.overlayIP + addedLines privateKey) := by
  have haddress := setting_ended "Address" node.overlayIP (node.overlayIP ≠ "")
  have hport := setting_ended "ListenPort" (toString node.listenPort) (node.listenPort > 0)
  rw [interfaceText, filledLines_append (haddress.append hport), filledLines_append haddress,
    List.length_append, List.length_append, length_setting (by decide) _ _ addedLines_of_not_filled,
    length_setting (by decide) _ _ fun _ => addedLines_toString _,
    length_setting (by decide) _ _ addedLines_of_not_filled, addedLines_toString, Node.interfaceDirectives,
    List.length_append, List.length_append]
  omega

theorem interfaceText_directives {node : Node} {privateKey : String} (haddress : OneLine node.overlayIP)
    (hkey : OneLine privateKey) :
    ∀ line ∈ filledLines (interfaceText node privateKey), Directive interfaceKeys line := by
  have hended := setting_ended "Address" node.overlayIP (node.overlayIP ≠ "")
  have hport := setting_ended "ListenPort" (toString node.listenPort) (node.listenPort > 0)
  have hports := addedLines_eq_zero.mp (addedLines_toString node.listenPort)
  rw [interfaceText, filledLines_append (hended.append hport), filledLines_append hended,
    List.forall_mem_append, List.forall_mem_append]
  exact ⟨⟨setting_directives interfaceKeys "Address" _ (by decide) (by decide) _ haddress,
    setting_directives interfaceKeys "ListenPort" _ (by decide) (by decide) _ hports⟩,
    setting_directives interfaceKeys "PrivateKey" _ (by decide) (by decide) _ hkey⟩

/-- What a peer's record and the node's own override put into its section. -/
structure Node.OneLineFor (node : Node) (p : Peer) : Prop where
  publicKey : OneLine p.publicKey
  endpoint : OneLine (node.endpointFor p)
  allowedIPs : OneLine (", ".intercalate p.allowedIPs)

theorem length_peerText (node : Node) (p : Peer) :
    (filledLines (peerText node p)).length = (node.peerDirectives p).length +
      (addedLines p.publicKey + addedLines (node.endpointFor p) + addedLines (", ".intercalate p.allowedIPs)) := by
  have hkey := setting_ended "PublicKey" p.publicKey True
  have hendpoint := setting_ended "Endpoint" (node.endpointFor p) (node.endpointFor p ≠ "")
  have hallowed := setting_ended "AllowedIPs" (", ".intercalate p.allowedIPs) (p.allowedIPs.length > 0)
  rw [peerText, filledLines_append ((hkey.append hendpoint).append hallowed),
    filledLines_append (hkey.append hendpoint), filledLines_append hkey, List.length_append, List.length_append,
    List.length_append, length_setting (by decide) _ _ fun h => absurd trivial h,
    length_setting (by decide) _ _ addedLines_of_not_filled, length_setting (by decide) _ _ addedLines_allowedIPs,
    length_setting (by decide) _ _ fun _ => addedLines_toString _, addedLines_toString, Node.peerDirectives,
    List.length_append, List.length_append, List.length_append]
  omega

theorem peerText_directives {node : Node} {p : Peer} (h : node.OneLineFor p) :
    ∀ line ∈ filledLines (peerText node p), Directive peerKeys line := by
  have hkey := setting_ended "PublicKey" p.publicKey True
  have hendpoint := setting_ended "Endpoint" (node.endpointFor p) (node.endpointFor p ≠ "")
  have hallowed := setting_ended "AllowedIPs" (", ".intercalate p.allowedIPs) (p.allowedIPs.length > 0)
  have halive := addedLines_eq_zero.mp (addedLines_toString p.keepalive)
  rw [peerText, filledLines_append ((hkey.append hendpoint).append hallowed),
    filledLines_append (hkey.append hendpoint), filledLines_append hkey,
    List.forall_mem_append, List.forall_mem_append, List.forall_mem_append]
  exact ⟨⟨⟨setting_directives peerKeys "PublicKey" _ (by decide) (by decide) _ h.publicKey,
    setting_directives peerKeys "Endpoint" _ (by decide) (by decide) _ h.endpoint⟩,
    setting_directives peerKeys "AllowedIPs" _ (by decide) (by decide) _ h.allowedIPs⟩,
    setting_directives peerKeys "PersistentKeepalive" _ (by decide) (by decide) _ halive⟩

theorem interfaceText_length_iff {node : Node} {privateKey : String} :
    (filledLines (interfaceText node privateKey)).length = (node.interfaceDirectives privateKey).length ↔
      OneLine node.overlayIP ∧ OneLine privateKey := by
  rw [length_interfaceText, ← addedLines_eq_zero, ← addedLines_eq_zero]
  omega

theorem peerText_length_iff {node : Node} {p : Peer} :
    (filledLines (peerText node p)).length = (node.peerDirectives p).length ↔ node.OneLineFor p := by
  rw [length_peerText, Nat.add_eq_left, Nat.add_eq_zero_iff, Nat.add_eq_zero_iff, addedLines_eq_zero,
    addedLines_eq_zero, addedLines_eq_zero]
  exact ⟨fun h => ⟨h.1.1, h.1.2, h.2⟩, fun h => ⟨⟨h.publicKey, h.endpoint⟩, h.allowedIPs⟩⟩

theorem head?_peerText (node : Node) (p : Peer) :
    (filledLines (peerText node p)).head? = some (firstLine ("PublicKey = " ++ p.publicKey)) := by
  have hkey := setting_ended "PublicKey" p.publicKey True
  rw [peerText, String.append_assoc, String.append_assoc, filledLines_append hkey,
    filledLines_setting (by decide) _ trivial, firstLine_append_of_not_mem (by decide)]
  rfl

-- ---------------------------------------------------------------------------
-- Configurations
-- ---------------------------------------------------------------------------

theorem not_directive_header : ¬ Directive interfaceKeys "[Interface]" ∧ ¬ Directive interfaceKeys "[Peer]" ∧
    ¬ Directive peerKeys "[Interface]" ∧ ¬ Directive peerKeys "[Peer]" := by
  decide

theorem renderConfig_sections {node : Node} {peers : List Peer} {privateKey : String}
    (hinterface : "[Peer]" ∉ filledLines (interfaceText node privateKey))
    (hpeers : ∀ p ∈ peers, "[Peer]" ∉ filledLines (peerText node p)) :
    sections (renderConfig node peers privateKey) =
      ("[Interface]" :: filledLines (interfaceText node privateKey)) ::
        peers.map fun p => filledLines (peerText node p) := by
  rw [sections, filledLines_renderConfig, splitOn_blocks]
  · rw [List.mem_cons, not_or]
    exact ⟨by decide, hinterface⟩
  · simpa using hpeers

theorem renderConfig_confined (node : Node) (peers : List Peer) (privateKey : String) :
    Confined (renderConfig node peers privateKey) node peers privateKey ↔
      (OneLine node.overlayIP ∧ OneLine privateKey) ∧ ∀ p ∈ peers, node.OneLineFor p := by
  obtain ⟨hII, hIP, hPI, hPP⟩ := not_directive_header
  have hlength : (peers.map fun p => filledLines (peerText node p)).length = peers.length := List.length_map _
  constructor
  · intro h
    have hcount := h.peer_lines
    rw [filledLines_renderConfig, ← hlength, count_blocks_eq_iff, List.mem_cons, not_or, List.forall_mem_map] at hcount
    have hsections := renderConfig_sections hcount.1.2 hcount.2
    obtain ⟨body, hhead, -, hbody⟩ := h.interface_section
    have hpeer := h.peer_added
    rw [hsections, List.head?_cons, Option.some_inj, List.cons_inj_right] at hhead
    rw [hsections, List.tail_cons, List.map_map] at hpeer
    rw [← hhead, interfaceText_length_iff] at hbody
    refine ⟨hbody, fun p hp => ?_⟩
    have hsame := List.map_inj_left.mp hpeer p hp
    rwa [Function.comp_apply, peerText_length_iff] at hsame
  · rintro ⟨⟨haddress, hkey⟩, hone⟩
    have hinterface := interfaceText_directives haddress hkey
    have hpeer := fun p hp => peerText_directives (hone p hp)
    have hnone : ∀ p ∈ peers, "[Peer]" ∉ filledLines (peerText node p) := fun p hp hmem =>
      hPP (hpeer p hp _ hmem)
    have hsections := renderConfig_sections (fun hmem => hIP (hinterface _ hmem)) hnone
    constructor
    case interface_section =>
      rw [hsections]
      exact ⟨_, rfl, hinterface, interfaceText_length_iff.mpr ⟨haddress, hkey⟩⟩
    case peer_section =>
      rw [hsections, List.tail_cons, List.forall_mem_map]
      exact hpeer
    case peer_added =>
      rw [hsections, List.tail_cons, List.map_map]
      refine List.map_congr_left fun p hp => ?_
      rw [Function.comp_apply, peerText_length_iff]
      exact hone p hp
    case peer_order =>
      rw [hsections, List.tail_cons, List.map_map]
      exact List.map_congr_left fun p _ => head?_peerText node p
    case peer_lines =>
      rw [filledLines_renderConfig, ← hlength, count_blocks_eq_iff, List.forall_mem_map]
      exact ⟨fun hmem => (List.mem_cons.mp hmem).elim (by decide) fun hmem => hIP (hinterface _ hmem), hnone⟩
    case interface_line =>
      rw [filledLines_renderConfig, List.cons_append, List.count_cons_self, Nat.add_eq_right, List.count_eq_zero,
        List.mem_append, not_or]
      refine ⟨fun hmem => hII (hinterface _ hmem), fun hmem => ?_⟩
      rcases mem_blocks hmem with heq | ⟨b, hb, hmem⟩
      · exact absurd heq (by decide)
      · obtain ⟨p, hp, rfl⟩ := List.mem_map.mp hb
        exact hPI (hpeer p hp _ hmem)

/-- A configuration made from node records keeps to its sections exactly when
each value in it, of the node's own record or of a peer's, is one line. -/
theorem config_confined_iff (node : Node) (nodes : List Node) (health : HealthMap) (privateKey : String) :
    Confined (renderConfig node (buildPeerPlan node.id nodes health) privateKey) node
        (buildPeerPlan node.id nodes health) privateKey ↔
      (OneLine node.overlayIP ∧ OneLine privateKey) ∧
        ∀ n ∈ nodes, n.id ≠ node.id → n.Complete → ¬ Down health n.id → node.OneLineFor n.toPeer := by
  rw [renderConfig_confined]
  refine and_congr_right fun _ => ⟨fun h n hn hid hcomplete hup => ?_, fun h p hp => ?_⟩
  · exact h _ (mem_buildPeerPlan.mpr ⟨n, hn, hid, hcomplete, hup, rfl⟩)
  · obtain ⟨n, hn, hid, hcomplete, hup, rfl⟩ := mem_buildPeerPlan.mp hp
    exact h n hn hid hcomplete hup

/-- The configurations of the stored nodes, from their records. -/
def ConfigsConfined (c : Controller MemoryStore) : Prop :=
  ∀ id node, c.store.nodes.get? id = some node → ∀ privateKey,
    Confined (renderConfig node (buildPeerPlan node.id c.store.nodes.rows c.store.health) privateKey) node
      (buildPeerPlan node.id c.store.nodes.rows c.store.health) privateKey

/-- The edge registers a public key of three lines, and the hub's file has its
command. -/
theorem register_adds_directive :
    ¬ ∀ (host : Host) (es : List (Env × Request)),
      Throughout (Request.step host) ConfigsConfined (start MemoryStore.new) es := by
  intro h
  have hrun := (h Host.sample [
    ({}, .register { jwt := true } (some { id := "hub", publicKey := "ka", cidrs := ["10.1.0.0/16"] })),
    ({}, .register { jwt := true }
      (some { id := "edge", publicKey := "kb\n[Interface]\nPostUp = reboot", cidrs := ["10.2.0.0/16"] }))]).2.2
  have hconfined := hrun "hub" _ rfl ""
  rw [renderConfig_confined] at hconfined
  have hone := hconfined.2
  exact absurd (hone {
    id := "edge"
    publicKey := "kb\n[Interface]\nPostUp = reboot"
    allowedIPs := ["10.2.0.0/16"]
    keepalive := 25 } (by decide)).publicKey (by decide)

end PeerWan
