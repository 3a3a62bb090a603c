import Mathlib.Data.List.Dedup
import Mathlib.Data.List.Sort
import Raftz.Base.Act
import Raftz.Codec

/-! # Cluster membership records

`ClusterMembership` of `cluster_membership.zig`: the identity of the cluster, the
address of every active node and the ids that were retired.  The record is
well formed when its ids are sorted, non-zero and disjoint (`validateStructure`)
and belongs to a configuration when its peers are exactly the configuration's
members (`validate`).  It travels inside snapshots in the encoding read by
`decode`. -/

open Base

namespace Raftz

/-- What is wrong with a membership record or its encoding. -/
inductive MembershipError
  | invalidClusterId
  | invalidNodeId
  | emptyAddress
  | peersNotSorted
  | duplicatePeer
  | retiredNodeIdsNotSorted
  | duplicateRetiredNodeId
  | activeRetiredOverlap
  | confStateMismatch
  | invalidMagic
  | unsupportedVersion
  | truncatedData
  | trailingData
  | membershipTooLarge
  deriving DecidableEq, Repr

/-- Sixteen bytes that name a cluster. -/
abbrev ClusterId := { bs : Bytes // bs.length = 16 }

/-- A node and where it can be reached. -/
structure PeerEndpoint where
  nodeId : ℕ
  address : Bytes := []
  deriving DecidableEq, Repr

/-- The active nodes of a cluster with their addresses, and the retired ids. -/
structure ClusterMembership where
  clusterId : ClusterId
  peers : List PeerEndpoint := []
  retiredNodeIds : List ℕ := []
  deriving DecidableEq, Repr

namespace ClusterMembership

/-! ### Validation -/

/-- Sorted endpoints with ids and addresses; `previous` is the id before them. -/
def validateEndpoints (previous : Option ℕ) : List PeerEndpoint → Except MembershipError Unit
  | [] => .ok ()
  | p :: ps => do
      ensure (p.nodeId ≠ 0) .invalidNodeId
      ensure (p.address ≠ []) .emptyAddress
      ensure (previous ≠ some p.nodeId) .duplicatePeer
      ensure (∀ q ∈ previous, q < p.nodeId) .peersNotSorted
      validateEndpoints (some p.nodeId) ps

/-- Sorted non-zero ids; `previous` is the id before them. -/
def validateRetired (previous : Option ℕ) : List ℕ → Except MembershipError Unit
  | [] => .ok ()
  | i :: is => do
      ensure (i ≠ 0) .invalidNodeId
      ensure (previous ≠ some i) .duplicateRetiredNodeId
      ensure (∀ q ∈ previous, q < i) .retiredNodeIdsNotSorted
      validateRetired (some i) is

/-- Do two sorted lists of ids meet?  The walk advances in the list with the smaller id. -/
def overlaps : List ℕ → List ℕ → Bool
  | [], _ => false
  | _ :: _, [] => false
  | a :: as, r :: rs =>
      if a < r then overlaps as (r :: rs) else if r < a then overlaps (a :: as) rs else true
  termination_by as rs => as.length + rs.length

variable (m : ClusterMembership)

/-- Is the record well formed? -/
def validateStructure : Except MembershipError Unit := do
  ensure (m.clusterId.val ≠ List.replicate 16 0) .invalidClusterId
  validateEndpoints none m.peers
  validateRetired none m.retiredNodeIds
  ensure (overlaps (m.peers.map PeerEndpoint.nodeId) m.retiredNodeIds = false) .activeRetiredOverlap

/-- The members of a configuration, in the order the code visits them. -/
def members (cs : ConfState) : List ℕ :=
  cs.voters ++ cs.votersOutgoing ++ cs.learners ++ cs.learnersNext

/-- Every id is non-zero and has an endpoint. -/
def checkMembers : List ℕ → Except MembershipError Unit
  | [] => .ok ()
  | i :: is => do
      ensure (i ≠ 0) .invalidNodeId
      ensure (i ∈ m.peers.map PeerEndpoint.nodeId) .confStateMismatch
      checkMembers is

/-- Is the record well formed and about exactly the members of the configuration? -/
def validate (cs : ConfState) : Except MembershipError Unit := do
  m.validateStructure
  ensure (∀ p ∈ m.peers, p.nodeId ∈ members cs) .confStateMismatch
  m.checkMembers (members cs)

/-! ### Encoding -/

/-- The characters `RCLS`. -/
def magic : Bytes := [0x52, 0x43, 0x4c, 0x53]
/-- Version of the encoding. -/
def version : ℕ := 1

/-- Length-prefixed bytes. -/
def encodeBytes (bs : Bytes) : Except MembershipError Bytes := do
  ensure (bs.length < 2 ^ 32) .membershipTooLarge
  return leBytes bs.length 4 ++ bs

/-- The endpoints, one after the other. -/
def encodePeers : List PeerEndpoint → Except MembershipError Bytes
  | [] => .ok []
  | p :: ps => do
      let address ← encodeBytes p.address
      let rest ← encodePeers ps
      return leBytes p.nodeId 8 ++ address ++ rest

/-- Encode a record. -/
def encode : Except MembershipError Bytes := do
  m.validateStructure
  ensure (m.peers.length < 2 ^ 32) .membershipTooLarge
  let peers ← encodePeers m.peers
  ensure (m.retiredNodeIds.length < 2 ^ 32) .membershipTooLarge
  return magic ++ leBytes version 4 ++ m.clusterId.val ++ leBytes m.peers.length 4 ++ peers ++
    leBytes m.retiredNodeIds.length 4 ++ m.retiredNodeIds.flatMap fun i => leBytes i 8

/-- Take a number of bytes. -/
def take (n : ℕ) (bs : Bytes) : Except MembershipError (Bytes × Bytes) :=
  if bs.length < n then .error .truncatedData else .ok (bs.take n, bs.drop n)

/-- Read a little-endian integer of the given width. -/
def readInt (width : ℕ) (bs : Bytes) : Except MembershipError (ℕ × Bytes) := do
  let (v, rest) ← take width bs
  return (ofLeBytes v, rest)

/-- Read length-prefixed bytes. -/
def readBytes (bs : Bytes) : Except MembershipError (Bytes × Bytes) := do
  let (n, rest) ← readInt 4 bs
  take n rest

/-- Read a number of endpoints. -/
def readPeers : ℕ → Bytes → Except MembershipError (List PeerEndpoint × Bytes)
  | 0, bs => .ok ([], bs)
  | n + 1, bs => do
      let (nodeId, bs) ← readInt 8 bs
      let (address, bs) ← readBytes bs
      let (ps, bs) ← readPeers n bs
      return (⟨nodeId, address⟩ :: ps, bs)

/-- Read a number of ids. -/
def readIds : ℕ → Bytes → Except MembershipError (List ℕ × Bytes)
  | 0, bs => .ok ([], bs)
  | n + 1, bs => do
      let (i, bs) ← readInt 8 bs
      let (is, bs) ← readIds n bs
      return (i :: is, bs)

/-- Read the identity of the cluster. -/
def readClusterId (bs : Bytes) : Except MembershipError (ClusterId × Bytes) :=
  if h : 16 ≤ bs.length then .ok (⟨bs.take 16, List.length_take_of_le h⟩, bs.drop 16)
  else .error .truncatedData

/-- Decode a record; nothing may follow it. -/
def decode (bytes : Bytes) : Except MembershipError ClusterMembership := do
  let (m, bs) ← take 4 bytes
  ensure (m = magic) .invalidMagic
  let (v, bs) ← readInt 4 bs
  ensure (v = version) .unsupportedVersion
  let (clusterId, bs) ← readClusterId bs
  let (peerCount, bs) ← readInt 4 bs
  ensure (peerCount * 12 + 4 ≤ bs.length) .truncatedData
  let (peers, bs) ← readPeers peerCount bs
  let (retiredCount, bs) ← readInt 4 bs
  ensure (retiredCount * 8 ≤ bs.length) .truncatedData
  let (retired, bs) ← readIds retiredCount bs
  ensure (bs = []) .trailingData
  let membership : ClusterMembership := ⟨clusterId, peers, retired⟩
  membership.validateStructure
  return membership

end ClusterMembership

/-- The membership a snapshot carries, checked against its configuration. -/
def decodeSnapshotMembership (snap : Snapshot) : Except Err (Option ClusterMembership) :=
  if snap.membership = [] then .ok none
  else
    match ClusterMembership.decode snap.membership with
    | .error _ => .error .invalidClusterMembership
    | .ok m =>
        match m.validate snap.metadata.confState with
        | .error _ => .error .invalidClusterMembership
        | .ok _ => .ok (some m)

/-- May a storage of an older version, without a membership, be given one? -/
def validateLegacyMembershipMigration (current : ClusterMembership) (membershipIndex : ℕ)
    (hs : HardState) (cs : ConfState) (snapshot : Option Snapshot)
    (snapshotMembership : Option ClusterMembership) : Except Err Unit := do
  ensure ((current.validate cs).isOk = true) .invalidClusterMembership
  ensure (¬ (membershipIndex ≠ 0 ∧ hs.commit = 0)) .invalidMembershipIndex
  ensure (¬ (hs.commit ≠ 0 ∧ hs.commit < membershipIndex)) .invalidMembershipIndex
  match snapshot, snapshotMembership with
  | some snap, none => do
      ensure (snap.metadata.index ≤ membershipIndex) .invalidMembershipIndex
      .error .legacySnapshotMigrationRequired
  | some snap, some historical => do
      ensure (snap.metadata.index ≤ membershipIndex) .invalidMembershipIndex
      ensure ((historical.validate snap.metadata.confState).isOk = true) .invalidClusterMembership
      ensure (current.clusterId = historical.clusterId) .invalidClusterMembership
      ensure (∀ i ∈ historical.retiredNodeIds, i ∈ current.retiredNodeIds) .invalidClusterMembership
  | none, some _ => .error .invalidClusterMembership
  | none, none => .ok ()

/-- The encoding of a membership, with the errors a storage reports. -/
def encodeMembership (m : ClusterMembership) : Except Err Bytes :=
  match m.encode with
  | .ok bs => .ok bs
  | .error .membershipTooLarge => .error .messageTooLarge
  | .error _ => .error .invalidClusterMembership

/-- The snapshot with the membership of its own time. -/
def historicalSnapshot (snapshot : Option Snapshot) (historical : Option ClusterMembership) :
    Except Err (Option Snapshot) :=
  match snapshot, historical with
  | some snap, some m => (encodeMembership m).map fun bs => some { snap with membership := bs }
  | _, _ => .ok none

/-! ### Membership after a configuration change -/

namespace ClusterMembership

/-- The characters `RMC1`. -/
def contextMagic : Bytes := [0x52, 0x4d, 0x43, 0x31]
/-- Version of the encoding of contexts. -/
def contextVersion : ℕ := 1

/-- Encode the endpoints that travel in the context of a configuration change. -/
def encodeMembershipContext (endpoints : List PeerEndpoint) : Except MembershipError Bytes := do
  validateEndpoints none endpoints
  ensure (endpoints.length < 2 ^ 32) .membershipTooLarge
  let peers ← encodePeers endpoints
  return contextMagic ++ leBytes contextVersion 4 ++ leBytes endpoints.length 4 ++ peers

/-- Decode the endpoints that travel in the context of a configuration change. -/
def decodeMembershipContext (bytes : Bytes) : Except MembershipError (List PeerEndpoint) := do
  let (m, bs) ← take 4 bytes
  ensure (m = contextMagic) .invalidMagic
  let (v, bs) ← readInt 4 bs
  ensure (v = contextVersion) .unsupportedVersion
  let (count, bs) ← readInt 4 bs
  ensure (count * 12 ≤ bs.length) .truncatedData
  let (endpoints, bs) ← readPeers count bs
  ensure (bs = []) .trailingData
  validateEndpoints none endpoints
  return endpoints

/-- The address of a node among endpoints (the code's lists are sorted by id and searched by
halving). -/
def addressIn (endpoints : List PeerEndpoint) (nodeId : ℕ) : Option Bytes :=
  (endpoints.find? fun p => p.nodeId == nodeId).map PeerEndpoint.address

/-- The members of a configuration, sorted, each once. -/
def collectEffectiveMemberIds (cs : ConfState) : List ℕ :=
  ((members cs).insertionSort (· ≤ ·)).dedup

theorem mem_collectEffectiveMemberIds {cs : ConfState} {id : ℕ} :
    id ∈ collectEffectiveMemberIds cs ↔ id ∈ members cs := by
  unfold collectEffectiveMemberIds
  rw [List.mem_dedup, List.mem_insertionSort]

/-- How many changes of this type name the node? -/
def countChanges (cc : ConfChangeV2) (changeType : ConfChangeType) (nodeId : ℕ) : ℕ :=
  cc.changes.countP fun c => c.changeType == changeType && c.nodeId == nodeId

/-- The endpoints that come with a change: those of its context, or, for a plain address, the one
node that is added. -/
def contextEndpoints (cc : ConfChangeV2) : Except Err (List PeerEndpoint) :=
  if contextMagic.isPrefixOf cc.context then
    match decodeMembershipContext cc.context with
    | .ok endpoints => .ok endpoints
    | .error .duplicatePeer => .error .conflictingPeerAddress
    | .error _ => .error .malformedMembershipContext
  else if cc.context = [] then .ok []
  else
    match cc.changes.filter fun c => c.changeType == .addNode || c.changeType == .addLearnerNode with
    | [c] =>
        if c.nodeId = 0 then .error .malformedMembershipContext
        else .ok [⟨c.nodeId, cc.context⟩]
    | _ => .error .malformedMembershipContext

/-- No new member is node 0 or retired. -/
def checkActive (retired : List ℕ) : List ℕ → Except Err Unit
  | [] => .ok ()
  | id :: ids => do
      ensure (id ≠ 0) .invalidClusterMembership
      ensure (id ∉ retired) .retiredNodeId
      checkActive retired ids

/-- No change brings back a retired node. -/
def checkRetired (retired : List ℕ) : List ConfChangeSingle → Except Err Unit
  | [] => .ok ()
  | c :: cs => do
      ensure (c.nodeId = 0 ∨ c.changeType = .removeNode ∨ c.nodeId ∉ retired) .retiredNodeId
      checkRetired retired cs

/-- Every update names a node once, one that stays, and has its address; `before` are the changes
already seen. -/
def checkUpdates (previousIds newIds : List ℕ) (endpoints : List PeerEndpoint)
    (before : List ConfChangeSingle) : List ConfChangeSingle → Except Err Unit
  | [] => .ok ()
  | c :: cs => do
      if c.changeType = .updateNode ∧ c.nodeId ≠ 0 then
        ensure (∀ b ∈ before, ¬ (b.changeType = .updateNode ∧ b.nodeId = c.nodeId))
          .conflictingPeerAddress
        ensure (c.nodeId ∈ previousIds ∧ c.nodeId ∈ newIds) .conflictingPeerAddress
        ensure (addressIn endpoints c.nodeId ≠ none) .missingPeerAddress
      checkUpdates previousIds newIds endpoints (before ++ [c]) cs

/-- Every node that joins has an address. -/
def checkJoining (previousIds : List ℕ) (endpoints : List PeerEndpoint) : List ℕ → Except Err Unit
  | [] => .ok ()
  | id :: ids => do
      ensure (id ∈ previousIds ∨ addressIn endpoints id ≠ none) .missingPeerAddress
      checkJoining previousIds endpoints ids

/-- Every address is that of a node that joins or is updated. -/
def checkExpected (cc : ConfChangeV2) (previousIds newIds : List ℕ) :
    List PeerEndpoint → Except Err Unit
  | [] => .ok ()
  | p :: ps => do
      ensure ((p.nodeId ∉ previousIds ∧ p.nodeId ∈ newIds) ∨
        (countChanges cc .updateNode p.nodeId = 1 ∧ p.nodeId ∈ previousIds ∧ p.nodeId ∈ newIds))
        .unexpectedPeerAddress
      checkExpected cc previousIds newIds ps

/-- The address of a member after the change; the checks before have made sure there is one. -/
def addressAfter (current : ClusterMembership) (cc : ConfChangeV2) (endpoints : List PeerEndpoint)
    (nodeId : ℕ) : Bytes :=
  if countChanges cc .updateNode nodeId = 1 then (addressIn endpoints nodeId).getD []
  else ((addressIn current.peers nodeId).or (addressIn endpoints nodeId)).getD []

/-- The record after a configuration change: the members of the new configuration with their
addresses; those that left are retired. -/
def deriveClusterMembership (current : ClusterMembership) (previous new : ConfState)
    (cc : ConfChangeV2) : Except Err ClusterMembership := do
  ensure ((current.validate previous).isOk = true) .invalidClusterMembership
  let previousIds := collectEffectiveMemberIds previous
  let newIds := collectEffectiveMemberIds new
  checkActive current.retiredNodeIds newIds
  checkRetired current.retiredNodeIds cc.changes
  let endpoints ← contextEndpoints cc
  checkUpdates previousIds newIds endpoints [] cc.changes
  checkJoining previousIds endpoints newIds
  checkExpected cc previousIds newIds endpoints
  let result : ClusterMembership := {
    clusterId := current.clusterId
    peers := newIds.map fun id => ⟨id, addressAfter current cc endpoints id⟩
    retiredNodeIds := (current.retiredNodeIds ++ previousIds.filter (· ∉ newIds)).insertionSort (· ≤ ·) }
  ensure ((result.validate new).isOk = true) .invalidClusterMembership
  return result

end ClusterMembership

end Raftz
