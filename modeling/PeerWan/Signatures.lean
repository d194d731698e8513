import PeerWan.Controller.Handlers

/-!
# What a plan's signature covers

`signPlan` hashes node ID, configuration version, peer IDs and joined
AllowedIPs one after another, with nothing between them. Two plans whose texts
run together to the same string have one signature, whatever the hash.
-/

namespace PeerWan

def Plan.Verifies (host : Host) (p : Plan) : Prop :=
  p.signature = signPlan host p.nodeID p.peers p.configVersion

theorem Plan.Verifies.valid {host : Host} {p : Plan} (h : p.Verifies host) : p.signatureValid host = true := by
  have hsigned : p.signature = signPlan host p.nodeID p.peers p.configVersion := h
  simp [Plan.signatureValid, ← hsigned]

def signedText (nodeID cfgVer : String) (peers : List Peer) : String :=
  peers.foldl (fun h p => h ++ p.id ++ ",".intercalate p.allowedIPs) (nodeID ++ cfgVer)

theorem signPlan_eq (host : Host) (nodeID cfgVer : String) (peers : List Peer) :
    signPlan host nodeID peers cfgVer = host.sha256Hex (signedText nodeID cfgVer peers) := rfl

def Plan.signedPeers (p : Plan) : List (String × List String) := p.peers.map fun q => (q.id, q.allowedIPs)

structure SameSigned (p q : Plan) : Prop where
  nodeID : q.nodeID = p.nodeID
  configVersion : q.configVersion = p.configVersion
  peers : q.signedPeers = p.signedPeers

/-- Plans with the signature of `p` have what it covers in common. -/
def SignatureUnique (host : Host) (p : Plan) : Prop :=
  ∀ q : Plan, signPlan host q.nodeID q.peers q.configVersion = signPlan host p.nodeID p.peers p.configVersion →
    SameSigned p q

def Plan.sign (host : Host) (p : Plan) : Plan :=
  { p with signature := signPlan host p.nodeID p.peers p.configVersion }

def Plan.withPeers (p : Plan) (peers : List Peer) : Plan := { p with peers := peers }

/-- A rollback accepts the stored plan with no other peers than its own. -/
def AlterationCaught (host : Host) (p : Plan) : Prop :=
  ∀ peers, ((p.sign host).withPeers peers).signatureValid host = true →
    (p.withPeers peers).signedPeers = p.signedPeers

theorem withPeers_verifies {host : Host} {p : Plan} {peers : List Peer}
    (h : signedText p.nodeID p.configVersion peers = signedText p.nodeID p.configVersion p.peers) :
    ((p.sign host).withPeers peers).Verifies host := by
  show host.sha256Hex (signedText p.nodeID p.configVersion p.peers) =
    host.sha256Hex (signedText p.nodeID p.configVersion peers)
  rw [h]

/-- The two first AllowedIPs written as one: in the joined list the comma stays. -/
def Peer.mergeIPs (p : Peer) : Peer :=
  match p.allowedIPs with
  | a :: b :: rest => { p with allowedIPs := (a ++ "," ++ b) :: rest }
  | _ => p

theorem Peer.intercalate_mergeIPs (p : Peer) :
    ",".intercalate p.mergeIPs.allowedIPs = ",".intercalate p.allowedIPs := by
  unfold Peer.mergeIPs
  split
  · next a b rest h =>
    rw [h]
    rfl
  · rfl

@[simp] theorem Peer.mergeIPs_id (p : Peer) : p.mergeIPs.id = p.id := by
  unfold Peer.mergeIPs
  split <;> rfl

theorem signedText_merge (nodeID cfgVer : String) (peers : List Peer) :
    signedText nodeID cfgVer (peers.map Peer.mergeIPs) = signedText nodeID cfgVer peers := by
  simp only [signedText, List.foldl_map, Peer.mergeIPs_id, Peer.intercalate_mergeIPs]

/-- A peer without ID and AllowedIPs adds nothing to the text. -/
theorem signedText_blank (nodeID cfgVer : String) (peers : List Peer) :
    signedText nodeID cfgVer (peers ++ [({} : Peer)]) = signedText nodeID cfgVer peers := by
  have hblank : signedText nodeID cfgVer (peers ++ [({} : Peer)]) =
      signedText nodeID cfgVer peers ++ "" ++ "" := by
    rw [signedText, List.foldl_append]
    rfl
  rw [hblank, String.append_empty, String.append_empty]

/-- Of every plan, and whatever the hash: another list of peers has its
signature, and a rollback accepts it in place of the signed one. -/
theorem signature_binds_no_plan (host : Host) (p : Plan) :
    ¬ SignatureUnique host p ∧ ¬ AlterationCaught host p := by
  have hpeers : (p.withPeers (p.peers ++ [({} : Peer)])).signedPeers ≠ p.signedPeers := by
    intro h
    have hlength := congrArg List.length h
    simp [Plan.signedPeers, Plan.withPeers] at hlength
  constructor
  · intro h
    refine hpeers (h (p.withPeers (p.peers ++ [({} : Peer)])) ?_).peers
    show host.sha256Hex (signedText p.nodeID p.configVersion (p.peers ++ [({} : Peer)])) = _
    rw [signedText_blank, signPlan_eq]
  · intro h
    exact hpeers (h _ (withPeers_verifies (signedText_blank _ _ _)).valid)

def sampleRoutes : Plan where
  nodeID := "hub"
  version := 1
  configVersion := "dynamic-v1"
  peers := [{ id := "edge", publicKey := "ka", allowedIPs := ["10.1.0.0/16", "10.2.0.0/16"] }]

/-- The hash has no collisions at all: two AllowedIPs written as one pass. -/
theorem regrouped_plan_passes :
    ¬ ∀ host : Host, Function.Injective host.sha256Hex → ∀ p, SignatureUnique host p ∧ AlterationCaught host p := by
  intro h
  have hcaught := (h { Host.sample with sha256Hex := fun s => s } Function.injective_id sampleRoutes).2
  have hsame := hcaught (sampleRoutes.peers.map Peer.mergeIPs) (withPeers_verifies (signedText_merge ..)).valid
  exact absurd hsame (by decide)

end PeerWan
