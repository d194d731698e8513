import PeerWan.Agent.Directives

/-!
# Local tunnels

The endpoint of a peer is replaced by a local port, one for each host in the
order of the peers, and `wstunnel` carries what comes to that port to the host.
The configuration, with the local endpoints, and the tunnels are made from the
same map, but what remains of a peer's own endpoint there is its host.
-/

namespace PeerWan

open Lib

structure TunnelClient where
  host : String
  localPort : Int
  remotePort : Int
  deriving DecidableEq, Repr

def TunnelClient.remote (c : TunnelClient) : String := c.host ++ ":" ++ toString c.remotePort

def TunnelClient.args (c : TunnelClient) : List String :=
  ["client", "--websocket-mask-frame", "-L",
    "udp://127.0.0.1:" ++ toString c.localPort ++ ":127.0.0.1:" ++ toString c.remotePort, "wss://" ++ c.remote]

def localEndpoint (lp : Int) : String := "127.0.0.1:" ++ toString lp

def hostPort (ep : String) : Option (String × Int) :=
  (splitHostPort ep).bind fun hp => (parseInt hp.2).map fun port => (hp.1, port)

namespace RenderCall

variable (ex : Expander) (o : MapOrder (String × Int)) (call : RenderCall)

/-- The clients that `startAll` starts with what the rendering gives it, where the
binary is there and every `Start` succeeds: without the binary it starts none, and a
client whose `Start` fails is left out until the watcher tries again. -/
def clients : List TunnelClient :=
  ((allocateLocalPorts call.peers 30000).range o).map fun r => ⟨r.1, r.2, call.listening.listenPort⟩

theorem renderAndWrite_tunnels {κ : Type} [IpHost κ] {routes : RouteTable → MapOrder String} {errs : FileErrors} {h : κ}
    {hostToLocal : StrMap Int} {port : Int}
    (hstart : (renderAndWrite ex routes o errs call h).2.1.tunnels = some (hostToLocal, port)) :
    call.clients o = (hostToLocal.range o).map fun r => ⟨r.1, r.2, port⟩ := by
  unfold renderAndWrite at hstart
  split at hstart
  · cases hstart
  dsimp only at hstart
  split at hstart
  · cases hstart
  split at hstart
  · cases hstart
  · obtain ⟨rfl, rfl⟩ := Prod.mk.inj (Option.some.inj hstart)
    rfl

/-- The `i`-th peer of the call and the endpoint in its section of the configuration. -/
def Renders (i : Nat) (p : Peer) (endpoint : String) : Prop :=
  call.peers[i]? = some p ∧ ∃ q, (call.wgPeers ex)[i]? = some q ∧ call.listening.endpointFor q = endpoint

/-- Every peer is reached through a local port whose client goes to the peer's
own host and port, and other hosts or ports have other local ports. -/
structure TunnelsMatch : Prop where
  served : ∀ i p endpoint, call.Renders ex i p endpoint → ∃ c ∈ call.clients o,
    endpoint = localEndpoint c.localPort ∧ 1 ≤ c.localPort ∧ c.localPort ≤ 65535 ∧
      hostPort c.remote = hostPort p.endpoint
  apart : ∀ i j p q endpoint endpoint', call.Renders ex i p endpoint → call.Renders ex j q endpoint' →
    hostPort p.endpoint ≠ hostPort q.endpoint → endpoint ≠ endpoint'

def hosts : List String := dedup (call.peers.map fun p => endpointHost p.endpoint)

end RenderCall

-- ---------------------------------------------------------------------------
-- Hosts and ports
-- ---------------------------------------------------------------------------

theorem splitHostPort_host {ep host port : String} (h : splitHostPort ep = some (host, port)) :
    ':' ∈ ep.toList ∧ '[' ∉ host.toList ∧ ']' ∉ host.toList := by
  unfold splitHostPort at h
  dsimp only at h
  split at h
  · cases h
  next hcolon =>
    refine ⟨not_not.mp hcolon, ?_⟩
    split at h
    next inner hep =>
      split at h
      next hok =>
        obtain ⟨rfl, -⟩ := Prod.mk.inj (Option.some.inj h)
        rw [String.toList_ofList]
        refine ⟨fun hmem => hok.2.1 ((List.takeWhile_prefix _).subset hmem), fun hmem => ?_⟩
        exact absurd (List.mem_takeWhile_imp hmem) (by decide)
      next => cases h
    next =>
      split at h
      next hok =>
        obtain ⟨rfl, -⟩ := Prod.mk.inj (Option.some.inj h)
        rw [String.toList_ofList]
        exact ⟨fun hmem => hok.2.1 (List.mem_of_mem_take hmem), fun hmem => hok.2.2 (List.mem_of_mem_take hmem)⟩
      next => cases h

/-- A host without brackets and a port are one text that is read back, if the
host has no colon. -/
theorem splitHostPort_join {host port : String} (hhost : '[' ∉ host.toList ∧ ']' ∉ host.toList)
    (hport : ':' ∉ port.toList ∧ '[' ∉ port.toList ∧ ']' ∉ port.toList) :
    splitHostPort (host ++ ":" ++ port) = if ':' ∈ host.toList then none else some (host, port) := by
  have hlist : (host ++ ":" ++ port).toList = host.toList ++ ':' :: port.toList := by simp
  have htail : (host.toList ++ ':' :: port.toList).rtakeWhile (· ≠ ':') = port.toList :=
    rtakeWhile_last host.toList hport.1
  have hlength : (host.toList ++ ':' :: port.toList).length - port.toList.length - 1 = host.toList.length := by
    rw [List.length_append, List.length_cons]
    omega
  have hno : ∀ b, b ∉ host.toList → b ∉ port.toList → b ≠ ':' → b ∉ host.toList ++ ':' :: port.toList := by
    intro b hfront hback hcolon
    simp [hfront, hback, hcolon]
  have hopen := hno '[' hhost.1 hport.2.1 (by decide)
  have hclose := hno ']' hhost.2 hport.2.2 (by decide)
  have hcolon : ':' ∈ host.toList ++ ':' :: port.toList := by simp
  unfold splitHostPort
  rw [hlist]
  dsimp only
  rw [if_neg (not_not.mpr hcolon)]
  split
  next inner heq => exact absurd (heq ▸ List.mem_cons_self) hopen
  next =>
    rw [htail, hlength, List.take_left, String.ofList_toList, String.ofList_toList]
    by_cases hmem : ':' ∈ host.toList
    · rw [if_pos hmem, if_neg fun hok => hok.1 hmem]
    · rw [if_neg hmem, if_pos ⟨hmem, hopen, hclose⟩]

theorem int64_of_parseInt {s : String} {v : Int} (h : parseInt s = some v) : int64 v = v := by
  unfold parseInt at h
  split at h
  dsimp only at h
  obtain ⟨hok, hvalue⟩ := Option.ite_none_right_eq_some.mp h
  exact Option.some.inj hvalue ▸ hok.2.2

theorem hostPort_eq_some {ep host : String} {port : Int} : hostPort ep = some (host, port) ↔
    ∃ text, splitHostPort ep = some (host, text) ∧ parseInt text = some port := by
  simp only [hostPort, Option.bind_eq_some_iff, Option.map_eq_some_iff, Prod.mk.injEq, Prod.exists]
  constructor
  · rintro ⟨host', text, hsplit, port', hparse, rfl, rfl⟩
    exact ⟨text, hsplit, hparse⟩
  · rintro ⟨text, hsplit, hparse⟩
    exact ⟨host, text, hsplit, port, hparse, rfl, rfl⟩

theorem hostPort_remote {c : TunnelClient} {host : String} {port : Int}
    (hhost : '[' ∉ c.host.toList ∧ ']' ∉ c.host.toList) : hostPort c.remote = some (host, port) ↔
      ':' ∉ c.host.toList ∧ host = c.host ∧ port = c.remotePort ∧ int64 port = port := by
  have hport : ∀ b : Char, b.isDigit = false → b ≠ '-' → b ∉ (toString c.remotePort).toList :=
    fun b hdigit hminus => not_mem_toString hdigit hminus _
  rw [hostPort_eq_some, TunnelClient.remote, splitHostPort_join hhost
    ⟨hport _ rfl (by decide), hport _ rfl (by decide), hport _ rfl (by decide)⟩]
  constructor
  · rintro ⟨text, hsplit, hparse⟩
    split at hsplit
    · cases hsplit
    next hcolon =>
      obtain ⟨rfl, rfl⟩ := Prod.mk.inj (Option.some.inj hsplit)
      have hfits := int64_of_parseInt hparse
      rw [parseInt_toString] at hparse
      split at hparse
      next => exact ⟨hcolon, rfl, (Option.some.inj hparse).symm, hfits⟩
      next => cases hparse
  · rintro ⟨hcolon, rfl, rfl, hfits⟩
    exact ⟨_, if_neg hcolon, by rw [parseInt_toString, if_pos hfits]⟩

theorem endpointHost_of_hostPort {ep host : String} {port : Int} (h : hostPort ep = some (host, port)) :
    endpointHost ep = host ∧ ('[' ∉ host.toList ∧ ']' ∉ host.toList) ∧ int64 port = port := by
  obtain ⟨text, hsplit, hparse⟩ := hostPort_eq_some.mp h
  obtain ⟨hcolon, hbrackets⟩ := splitHostPort_host hsplit
  refine ⟨?_, hbrackets, int64_of_parseInt hparse⟩
  have hne : ep ≠ "" := by
    rintro rfl
    cases hcolon
  rw [endpointHost, if_neg hne, if_pos hcolon, hsplit]

-- ---------------------------------------------------------------------------
-- Local ports
-- ---------------------------------------------------------------------------

theorem dedup_concat (xs : List String) (x : String) :
    dedup (xs ++ [x]) = if x = "" ∨ x ∈ dedup xs then dedup xs else dedup xs ++ [x] := by
  rw [dedup, List.foldl_append]
  rfl

/-- The loop after some peers: their hosts have the ports from the base on, and
the next port follows. -/
theorem allocate_state (peers : List Peer) (base : Int) :
    let hosts := dedup (peers.map fun p => endpointHost p.endpoint)
    let state := peers.foldl (fun (s : StrMap Int × Int) p =>
      let host := endpointHost p.endpoint
      if host = "" ∨ (s.1.get? host).isSome then (s.1, s.2) else (s.1.put (host, s.2), s.2 + 1)) (∅, base)
    state.1.rows = (hosts.zipIdx.map fun r => (r.1, base + r.2)) ∧ state.2 = base + hosts.length := by
  induction peers using List.reverseRecOn with
  | nil => exact ⟨rfl, (Int.add_zero base).symm⟩
  | append_singleton peers p ih =>
    dsimp only at ih ⊢
    rw [List.foldl_append, List.map_append, List.map_singleton, dedup_concat, List.foldl_cons, List.foldl_nil]
    generalize peers.foldl _ _ = state at ih ⊢
    generalize dedup (peers.map _) = hosts at ih ⊢
    generalize endpointHost p.endpoint = host
    obtain ⟨hrows, hcur⟩ := ih
    have hkeys : state.1.rows.map Prod.fst = hosts := by
      rw [hrows, List.map_map]
      exact List.zipIdx_map_fst 0 hosts
    have hfound : host = "" ∨ (state.1.get? host).isSome ↔ host = "" ∨ host ∈ hosts := by
      rw [← hkeys, Table.get?, List.find?_isSome, List.mem_map]
      simp only [decide_eq_true_eq]
    by_cases hold : host = "" ∨ host ∈ hosts
    · rw [if_pos (hfound.mpr hold), if_pos hold]
      exact ⟨hrows, hcur⟩
    · have hkept : state.1.rows.filter (fun r => r.1 ≠ host) = state.1.rows := by
        refine List.filter_eq_self.mpr fun r hr => decide_eq_true fun heq => hold (.inr ?_)
        rw [← heq, ← hkeys]
        exact List.mem_map_of_mem hr
      rw [if_neg (hfound.not.mpr hold), if_neg hold, List.zipIdx_append, List.map_append, ← hrows]
      constructor
      · show state.1.rows.filter (fun r => r.1 ≠ host) ++ [(host, state.2)] = _
        rw [hkept, hcur, Nat.zero_add]
        rfl
      · rw [hcur, List.length_append, Nat.cast_add, ← Int.add_assoc]
        rfl

theorem rows_allocateLocalPorts (peers : List Peer) (base : Int) : (allocateLocalPorts peers base).rows =
    (dedup (peers.map fun p => endpointHost p.endpoint)).zipIdx.map fun r => (r.1, base + r.2) :=
  (allocate_state peers base).1

-- ---------------------------------------------------------------------------
-- What is rendered and what is started
-- ---------------------------------------------------------------------------

namespace RenderCall

variable {ex : Expander} {o : MapOrder (String × Int)} {call : RenderCall} {c : TunnelClient} {p : Peer} {i : Nat}

theorem mem_hosts {host : String} :
    host ∈ call.hosts ↔ host ≠ "" ∧ ∃ p ∈ call.peers, endpointHost p.endpoint = host := by
  rw [hosts, mem_dedup, List.mem_map]

theorem mem_clients : c ∈ call.clients o ↔ ∃ k : Nat, call.hosts[k]? = some c.host ∧
    c.localPort = 30000 + k ∧ c.remotePort = call.listening.listenPort := by
  simp only [clients, List.mem_map, Table.mem_range, rows_allocateLocalPorts, List.mem_zipIdx_iff_getElem?]
  constructor
  · rintro ⟨-, ⟨⟨host, k⟩, hk, rfl⟩, rfl⟩
    exact ⟨k, hk, rfl, rfl⟩
  · rintro ⟨k, hk, hlocal, hremote⟩
    refine ⟨_, ⟨(c.host, k), hk, rfl⟩, ?_⟩
    cases c
    cases hlocal
    cases hremote
    rfl

def Plain (call : RenderCall) : Prop :=
  ∀ p ∈ call.peers, ∀ e, call.node.peerEndpoints.get? p.id = some e → e.2 = ""

theorem endpointFor_plain {node : Node} {q : Peer} (h : ∀ e, node.peerEndpoints.get? q.id = some e → e.2 = "") :
    node.endpointFor q = q.endpoint := by
  unfold Node.endpointFor
  split
  next id override hget => exact if_neg (not_not.mpr (h _ hget))
  next => rfl

theorem renders_iff (hplain : call.Plain) {endpoint : String} : call.Renders ex i p endpoint ↔
    call.peers[i]? = some p ∧ (withLocalEndpoint (allocateLocalPorts call.peers 30000) p).endpoint = endpoint := by
  have hsame : call.listening.peerEndpoints = call.node.peerEndpoints := by
    unfold listening
    split <;> rfl
  refine and_congr_right fun hp => ?_
  have hmem := List.mem_of_getElem? hp
  obtain ⟨hid, -⟩ := withLocalEndpoint_keeps (allocateLocalPorts call.peers 30000) p
  have hrender : ∀ allowed, call.listening.endpointFor
      { withLocalEndpoint (allocateLocalPorts call.peers 30000) p with allowedIPs := allowed } =
        (withLocalEndpoint (allocateLocalPorts call.peers 30000) p).endpoint := by
    intro allowed
    refine endpointFor_plain fun e he => ?_
    rw [hsame] at he
    exact hplain p hmem e (hid ▸ he)
  rw [wgPeers, augmentEgressAllowedIPs, List.map_map, List.getElem?_map, hp]
  constructor
  · rintro ⟨q, hq, rfl⟩
    obtain rfl := Option.some.inj hq
    exact (hrender _).symm
  · rintro rfl
    exact ⟨_, rfl, hrender _⟩

theorem local_endpoint (hp : p ∈ call.peers) (hhost : endpointHost p.endpoint ≠ "") : ∃ k : Nat,
    call.hosts[k]? = some (endpointHost p.endpoint) ∧
      (withLocalEndpoint (allocateLocalPorts call.peers 30000) p).endpoint = localEndpoint (30000 + k) := by
  obtain ⟨k, hk⟩ := List.mem_iff_getElem?.mp (mem_hosts.mpr ⟨hhost, p, hp, rfl⟩)
  have hget : (allocateLocalPorts call.peers 30000).get? (endpointHost p.endpoint) =
      some (endpointHost p.endpoint, 30000 + (k : Int)) := by
    refine Table.get?_eq_some.mpr ⟨?_, rfl⟩
    rw [rows_allocateLocalPorts, List.mem_map]
    exact ⟨(_, k), List.mem_zipIdx_iff_getElem?.mpr hk, rfl⟩
  refine ⟨k, hk, ?_⟩
  unfold withLocalEndpoint
  dsimp only
  rw [hget]
  dsimp only
  rw [if_neg hhost]
  rfl

theorem localEndpoint_inj {lp lp' : Int} (h : localEndpoint lp = localEndpoint lp') : lp = lp' :=
  toString_int_injective ((String.append_right_inj _).mp h)

theorem hosts_inj {k k' : Nat} {host : String} (h : call.hosts[k]? = some host) (h' : call.hosts[k']? = some host) :
    k = k' := by
  obtain ⟨hlt, -⟩ := List.getElem?_eq_some_iff.mp h
  exact (List.getElem?_inj hlt (nodup_dedup _)).mp (h.trans h'.symm)

-- ---------------------------------------------------------------------------
-- When they match
-- ---------------------------------------------------------------------------

/-- The tunnel of the peer's host ends at the peer. -/
def EndsAt (call : RenderCall) (p : Peer) : Prop :=
  ∃ host, hostPort p.endpoint = some (host, call.listening.listenPort) ∧ host ≠ "" ∧ ':' ∉ host.toList

theorem EndsAt.host (h : call.EndsAt p) : endpointHost p.endpoint ≠ "" ∧
    ':' ∉ (endpointHost p.endpoint).toList ∧
    hostPort p.endpoint = some (endpointHost p.endpoint, call.listening.listenPort) ∧
    hostPort (endpointHost p.endpoint ++ ":" ++ toString call.listening.listenPort) = hostPort p.endpoint := by
  obtain ⟨host, hends, hne, hcolon⟩ := h
  obtain ⟨rfl, hbrackets, hfits⟩ := endpointHost_of_hostPort hends
  refine ⟨hne, hcolon, hends, ?_⟩
  rw [hends]
  exact (hostPort_remote (c := ⟨_, 0, call.listening.listenPort⟩) hbrackets).mpr ⟨hcolon, rfl, rfl, hfits⟩

theorem tunnelsMatch_of_ends (hplain : call.Plain) (hends : ∀ p ∈ call.peers, call.EndsAt p)
    (hcount : call.hosts.length ≤ 35536) : call.TunnelsMatch ex o where
  served := by
    intro i p endpoint hrenders
    obtain ⟨hi, rfl⟩ := (renders_iff hplain).mp hrenders
    have hp := List.mem_of_getElem? hi
    obtain ⟨hne, hcolon, -, hremote⟩ := (hends p hp).host
    obtain ⟨k, hk, hlocal⟩ := local_endpoint hp hne
    have hlt : k < call.hosts.length := (List.getElem?_eq_some_iff.mp hk).1
    refine ⟨⟨endpointHost p.endpoint, 30000 + k, call.listening.listenPort⟩, mem_clients.mpr ⟨k, hk, rfl, rfl⟩,
      hlocal, ?_, ?_, hremote⟩
    · show 1 ≤ 30000 + (k : Int)
      omega
    · show 30000 + (k : Int) ≤ 65535
      omega
  apart := by
    intro i j p q endpoint endpoint' hrenders hrenders' hdiffer heq
    obtain ⟨hi, rfl⟩ := (renders_iff hplain).mp hrenders
    obtain ⟨hj, rfl⟩ := (renders_iff hplain).mp hrenders'
    obtain ⟨hne, -, hp, -⟩ := (hends p (List.mem_of_getElem? hi)).host
    obtain ⟨hne', -, hq, -⟩ := (hends q (List.mem_of_getElem? hj)).host
    obtain ⟨k, hk, hlocal⟩ := local_endpoint (List.mem_of_getElem? hi) hne
    obtain ⟨k', hk', hlocal'⟩ := local_endpoint (List.mem_of_getElem? hj) hne'
    rw [hlocal, hlocal'] at heq
    have hport := localEndpoint_inj heq
    obtain rfl : k = k' := by omega
    have hhost := Option.some.inj (hk.symm.trans hk')
    rw [hp, hq, hhost] at hdiffer
    exact hdiffer rfl

theorem TunnelsMatch.ends (h : call.TunnelsMatch ex o) (hparse : ∀ p ∈ call.peers, (hostPort p.endpoint).isSome)
    (hplain : call.Plain) (hp : p ∈ call.peers) : call.EndsAt p := by
  obtain ⟨i, hi⟩ := List.mem_iff_getElem?.mp hp
  obtain ⟨c, hc, -, -, -, hremote⟩ := h.served i p _ ((renders_iff hplain).mpr ⟨hi, rfl⟩)
  obtain ⟨k, hk, -, hport⟩ := mem_clients.mp hc
  obtain ⟨hne, q, hq, hhost⟩ := mem_hosts.mp (List.mem_of_getElem? hk)
  obtain ⟨⟨host, port⟩, hends⟩ := Option.isSome_iff_exists.mp (hparse p hp)
  -- the host of a client is that of some peer, so it has no brackets
  have hbrackets : '[' ∉ c.host.toList ∧ ']' ∉ c.host.toList := by
    obtain ⟨⟨host', port'⟩, hends'⟩ := Option.isSome_iff_exists.mp (hparse q hq)
    obtain ⟨hsame, hno, -⟩ := endpointHost_of_hostPort hends'
    rwa [← hhost, hsame]
  rw [hends] at hremote
  obtain ⟨hcolon, rfl, rfl, -⟩ := (hostPort_remote hbrackets).mp hremote
  exact ⟨c.host, hport ▸ hends, hne, hcolon⟩

theorem TunnelsMatch.count (h : call.TunnelsMatch ex o) (hplain : call.Plain) : call.hosts.length ≤ 35536 := by
  rcases Nat.eq_zero_or_pos call.hosts.length with hnone | hpos
  · omega
  -- the last of the hosts has the greatest port
  have hlast : call.hosts[call.hosts.length - 1]? = some (call.hosts.getLast (List.ne_nil_of_length_pos hpos)) :=
    List.getLast?_eq_getElem? ▸ List.getLast?_eq_some_getLast _
  obtain ⟨hne, p, hp, hhost⟩ := mem_hosts.mp (List.mem_of_getElem? hlast)
  obtain ⟨i, hi⟩ := List.mem_iff_getElem?.mp hp
  obtain ⟨c, -, hendpoint, -, hle, -⟩ := h.served i p _ ((renders_iff hplain).mpr ⟨hi, rfl⟩)
  obtain ⟨k, hk, hlocal⟩ := local_endpoint hp (hhost ▸ hne)
  have hport := localEndpoint_inj (hlocal.symm.trans hendpoint)
  rw [hhost] at hk
  have hsame := hosts_inj hk hlast
  omega

theorem tunnelsMatch_iff (ex : Expander) (o : MapOrder (String × Int)) (call : RenderCall)
    (hparse : ∀ p ∈ call.peers, (hostPort p.endpoint).isSome) (hplain : call.Plain) :
    call.TunnelsMatch ex o ↔ (∀ p ∈ call.peers, call.EndsAt p) ∧ call.hosts.length ≤ 35536 :=
  ⟨fun h => ⟨fun _ hp => h.ends hparse hplain hp, h.count hplain⟩, fun h => tunnelsMatch_of_ends hplain h.1 h.2⟩

def tunnelCall (endpoints : List String) : RenderCall where
  outputDir := "/etc/peer-wan"
  iface := "wg0"
  node := { id := "a" }
  peers := endpoints.map fun ep => { endpoint := ep }
  privateKey := ""
  asn := 0

theorem tunnelsMatch_default_port :
    (tunnelCall ["203.0.113.1:8082", "203.0.113.2:8082"]).TunnelsMatch .literal default := by
  refine (tunnelsMatch_iff .literal default (tunnelCall ["203.0.113.1:8082", "203.0.113.2:8082"]) (by decide)
    fun p _ e he => ?_).mpr ⟨fun p hp => ?_, by decide⟩
  · cases he
  · rcases List.mem_pair.mp hp with rfl | rfl
    · exact ⟨"203.0.113.1", by decide, by decide, by decide⟩
    · exact ⟨"203.0.113.2", by decide, by decide, by decide⟩

/-- A peer that listens on another port than the node. -/
theorem tunnelsMatch_counterexample :
    ¬ ((∀ p ∈ (tunnelCall ["203.0.113.1:51820"]).peers, (hostPort p.endpoint).isSome) →
      (tunnelCall ["203.0.113.1:51820"]).Plain →
        (tunnelCall ["203.0.113.1:51820"]).TunnelsMatch .literal default) := by
  intro h
  have hparse : ∀ p ∈ (tunnelCall ["203.0.113.1:51820"]).peers, (hostPort p.endpoint).isSome := by decide
  have hplain : (tunnelCall ["203.0.113.1:51820"]).Plain := fun p _ e he => by cases he
  obtain ⟨host, hport, -⟩ := (h hparse hplain).ends hparse hplain List.mem_cons_self
  have hself : hostPort "203.0.113.1:51820" = some ("203.0.113.1", 51820) := by decide
  have hlisten : (tunnelCall ["203.0.113.1:51820"]).listening.listenPort = 8082 := by decide
  have hsame := (Prod.mk.inj (Option.some.inj (hself.symm.trans hport))).2
  rw [hlisten] at hsame
  exact absurd hsame (by decide)

end RenderCall

end PeerWan
