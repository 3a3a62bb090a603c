import Mathlib.Data.List.AList
import Raftz.Derivation

/-! # Peers of the transport

Three layers know the peers of a host: each group the nodes it talks to (`GroupTransport`
of `multi_raft.zig`), the shared transport the address of each node for each group
(`GrpcLiteMultiTransport`), and the peer manager one connection for each node
(`PeerManager`).  The memberships that the groups install drive them through
`reconcileTransport` of `ready_processor.zig`, a merge of the old and the new peers.

Failures of the allocator and of the worker threads are chosen from outside
(`AddFaults`). -/

open Base

namespace Raftz

namespace TransportPeers

/-- What a transport call reports. -/
inductive TransportErr
  | shuttingDown
  | outOfMemory
  | invalidGroupId
  | invalidNodeId
  | invalidConfig
  | connectionClosed
  | conflictingPeerAddress
  | threadError
  deriving DecidableEq, Repr

/-- Where an addition fails. -/
structure AddFaults where
  groupCapacity : Bool := false
  capacity : Bool := false
  copy : Bool := false
  create : Bool := false
  peerCopy : Bool := false
  put : Bool := false
  spawn : Bool := false

/-- One connection for each node. -/
structure PeerManager where
  identity : ℕ
  started : Bool := false
  stopping : Bool := false
  peers : AList (fun _ : ℕ => Bytes) := ∅

/-- Where a transport is in its life. -/
inductive TransportState
  | initialized
  | starting
  | started
  | stopping
  | stopped
  deriving DecidableEq, Repr

/-- The transport that the groups share; registrations are by group and node. -/
structure GrpcLiteMultiTransport where
  state : TransportState := .initialized
  registrations : AList (fun _ : ℕ × ℕ => Bytes) := ∅
  peerManager : PeerManager

/-- The transport of a group. -/
structure GroupTransport where
  stopped : Bool := false
  peers : Finset ℕ := ∅

/-- A host: its transports, and the memberships of its groups. -/
structure Host where
  nodeId : ℕ
  shared : GrpcLiteMultiTransport
  groups : ℕ → GroupTransport := fun _ => {}
  memberships : ℕ → Option ClusterMembership := fun _ => none

/-! ### The layers -/

namespace PeerManager

/-- Connect to a node; the flag says whether it is new. -/
def addPeer (f : AddFaults) (id : ℕ) (addr : Bytes) : Act TransportErr PeerManager Bool := do
  let p ← Act.get
  if id = 0 then Act.throw .invalidNodeId
  else if id = p.identity ∨ addr = [] then Act.throw .invalidConfig
  else if p.stopping then Act.throw .connectionClosed
  else
    match p.peers.lookup id with
    | some existing => if existing ≠ addr then Act.throw .conflictingPeerAddress else return false
    | none =>
        if f.create ∨ f.peerCopy ∨ f.put then Act.throw .outOfMemory
        else do
          Act.modify (fun p => { p with peers := p.peers.insert id addr })
          if p.started ∧ f.spawn then do
            Act.modify (fun p => { p with peers := p.peers.erase id })
            Act.throw .threadError
          else return true

/-- Disconnect from a node. -/
def removePeer (id : ℕ) : Act TransportErr PeerManager Unit := do
  let p ← Act.get
  if p.stopping then Act.throw .connectionClosed
  else Act.modify (fun p => { p with peers := p.peers.erase id })

end PeerManager

namespace GrpcLiteMultiTransport

/-- Run a computation of the peer manager. -/
def onManager {α : Type} (x : Act TransportErr PeerManager α) : Act TransportErr GrpcLiteMultiTransport α :=
  Act.zoom peerManager (fun t p => { t with peerManager := p }) x

/-- The addresses that a node is registered under. -/
def references (t : GrpcLiteMultiTransport) (id : ℕ) : List Bytes :=
  (t.registrations.entries.filter fun e => e.1.2 == id).map Sigma.snd

/-- Register a node for a group; the first registration connects to it. -/
def addPeer (f : AddFaults) (groupId id : ℕ) (address : Bytes) : Act TransportErr GrpcLiteMultiTransport Bool := do
  let t ← Act.get
  if groupId = 0 then Act.throw .invalidGroupId
  else if t.state = .stopping ∨ t.state = .stopped then Act.throw .connectionClosed
  else
    match t.registrations.lookup (groupId, id) with
    | some existing => if existing ≠ address then Act.throw .conflictingPeerAddress else return false
    | none =>
        if ∃ a ∈ t.references id, a ≠ address then Act.throw .conflictingPeerAddress
        else if f.capacity ∨ f.copy then Act.throw .outOfMemory
        else do
          if t.references id = [] then do
            let _ ← onManager (PeerManager.addPeer f id address)
            Act.modify (fun t => { t with registrations := t.registrations.insert (groupId, id) address })
            return true
          else do
            Act.modify (fun t => { t with registrations := t.registrations.insert (groupId, id) address })
            return false

/-- Remove the registration of a node for a group; with the last one the connection goes. -/
def removePeer (groupId id : ℕ) : Act TransportErr GrpcLiteMultiTransport Unit := do
  let t ← Act.get
  if t.state = .stopping ∨ t.state = .stopped then Act.throw .connectionClosed
  else
    match t.registrations.lookup (groupId, id) with
    | none => return ()
    | some _ => do
        Act.modify (fun t => { t with registrations := t.registrations.erase (groupId, id) })
        let t ← Act.get
        Act.when (t.references id = []) (onManager (PeerManager.removePeer id))

end GrpcLiteMultiTransport

namespace Host

/-- Run a computation of the shared transport. -/
def onShared {α : Type} (x : Act TransportErr GrpcLiteMultiTransport α) : Act TransportErr Host α :=
  Act.zoom shared (fun h t => { h with shared := t }) x

/-- Change the peers of a group. -/
def setPeers (h : Host) (groupId : ℕ) (peers : Finset ℕ) : Host :=
  { h with groups := Function.update h.groups groupId { h.groups groupId with peers := peers } }

/-- Add a peer to a group. -/
def addPeer (f : AddFaults) (groupId id : ℕ) (address : Bytes) : Act TransportErr Host Bool := do
  let h ← Act.get
  if (h.groups groupId).stopped then Act.throw .shuttingDown
  else if id ∈ (h.groups groupId).peers then return false
  else if f.groupCapacity then Act.throw .outOfMemory
  else do
    let added ← onShared (GrpcLiteMultiTransport.addPeer f groupId id address)
    Act.modify (fun h => h.setPeers groupId (insert id (h.groups groupId).peers))
    return added

/-- Remove a peer of a group. -/
def removePeer (groupId id : ℕ) : Act TransportErr Host Unit := do
  let h ← Act.get
  if id ∉ (h.groups groupId).peers then return ()
  else do
    onShared (GrpcLiteMultiTransport.removePeer groupId id)
    Act.modify (fun h => h.setPeers groupId ((h.groups groupId).peers.erase id))

/-- Lead the peers of a group from the old members to the new ones; both are sorted. -/
def reconcileTransport (f : ℕ → AddFaults) (nodeId groupId : ℕ) :
    List PeerEndpoint → List PeerEndpoint → Act TransportErr Host Unit
  | [], [] => return ()
  | o :: os, [] => do
      Act.when (o.nodeId ≠ nodeId) (removePeer groupId o.nodeId)
      reconcileTransport f nodeId groupId os []
  | [], n :: ns => do
      Act.when (n.nodeId ≠ nodeId) (addPeer (f n.nodeId) groupId n.nodeId n.address >>= fun _ => pure ())
      reconcileTransport f nodeId groupId [] ns
  | o :: os, n :: ns =>
      if o.nodeId < n.nodeId then do
        Act.when (o.nodeId ≠ nodeId) (removePeer groupId o.nodeId)
        reconcileTransport f nodeId groupId os (n :: ns)
      else if n.nodeId < o.nodeId then do
        Act.when (n.nodeId ≠ nodeId) (addPeer (f n.nodeId) groupId n.nodeId n.address >>= fun _ => pure ())
        reconcileTransport f nodeId groupId (o :: os) ns
      else do
        Act.when (¬ (o.nodeId = nodeId ∨ o.address = n.address)) (do
          removePeer groupId o.nodeId
          let _ ← addPeer (f n.nodeId) groupId n.nodeId n.address
          return ())
        reconcileTransport f nodeId groupId os ns
  termination_by os ns => os.length + ns.length

/-- The peers of the membership of a group. -/
def members (h : Host) (groupId : ℕ) : List PeerEndpoint :=
  match h.memberships groupId with
  | none => []
  | some m => m.peers

/-- Set the membership of a group. -/
def setMembership (h : Host) (groupId : ℕ) (m : ClusterMembership) : Host :=
  { h with memberships := Function.update h.memberships groupId (some m) }

/-- A group starts with the membership in its storage. -/
def hydrateTransport (f : ℕ → AddFaults) (groupId : ℕ) (m : ClusterMembership) : Act TransportErr Host Unit := do
  let h ← Act.get
  Act.modify (fun h => h.setMembership groupId m)
  reconcileTransport f h.nodeId groupId [] m.peers

/-- A group installs a membership. -/
def installMembership (f : ℕ → AddFaults) (groupId : ℕ) (m : ClusterMembership) : Act TransportErr Host Unit := do
  let h ← Act.get
  Act.modify (fun h => h.setMembership groupId m)
  reconcileTransport f h.nodeId groupId (h.members groupId) m.peers

/-- A host without groups. -/
def start (nodeId identity : ℕ) : Host := { nodeId := nodeId, shared := { peerManager := { identity := identity } } }

/-- A group starts, or installs a membership; the merge succeeds. -/
inductive Step : Host → Host → Prop
  | hydrate (h h' : Host) (f : ℕ → AddFaults) (groupId : ℕ) (m : ClusterMembership)
      (hnew : h.memberships groupId = none) (hm : m.validateStructure = .ok ())
      (hrun : hydrateTransport f groupId m h = .ok () h') : Step h h'
  | install (h h' : Host) (f : ℕ → AddFaults) (groupId : ℕ) (m : ClusterMembership)
      (hm : m.validateStructure = .ok ()) (hrun : installMembership f groupId m h = .ok () h') : Step h h'
  /-- The transport goes on to another state of its life. -/
  | life (h : Host) (state : TransportState) (started stopping : Bool) : Step h { h with
      shared := { h.shared with
        state := state
        peerManager := { h.shared.peerManager with started := started, stopping := stopping } } }
  | stop (h : Host) (groupId : ℕ) : Step h { h with
      groups := Function.update h.groups groupId { h.groups groupId with stopped := true } }

end Host

/-! ### Additions and removals -/

/-- The connections are the union of the registrations. -/
def GrpcLiteMultiTransport.Union (t : GrpcLiteMultiTransport) : Prop :=
  ∀ id a, t.peerManager.peers.lookup id = some a ↔ ∃ g, t.registrations.lookup (g, id) = some a

theorem GrpcLiteMultiTransport.mem_references {t : GrpcLiteMultiTransport} {id : ℕ} {a : Bytes} :
    a ∈ t.references id ↔ ∃ g, t.registrations.lookup (g, id) = some a := by
  unfold references
  rw [List.mem_map]
  constructor
  · rintro ⟨⟨⟨g, i⟩, b⟩, he, rfl⟩
    obtain ⟨hmem, hid⟩ := List.mem_filter.mp he
    have hi : i = id := by simpa using hid
    subst hi
    exact ⟨g, AList.mem_lookup_iff.mpr hmem⟩
  · rintro ⟨g, hg⟩
    exact ⟨⟨(g, id), a⟩, List.mem_filter.mpr ⟨AList.mem_lookup_iff.mp hg, by simp⟩, rfl⟩

namespace Host

/-- The address of a node for a group. -/
def registered (h : Host) (groupId id : ℕ) : Option Bytes := h.shared.registrations.lookup (groupId, id)

/-- The address that the host is connected to a node under. -/
def physical (h : Host) (id : ℕ) : Option Bytes := h.shared.peerManager.peers.lookup id

/-- The layers agree: a group has its registered peers, and the connections are the union of the
registrations. -/
structure Agrees (h : Host) : Prop where
  group : ∀ g id, id ∈ (h.groups g).peers ↔ (h.registered g id).isSome = true
  union : h.shared.Union

/-- The registrations of a group for some nodes have changed, the others have not. -/
structure Changed (groupId : ℕ) (ids : List ℕ) (h h' : Host) : Prop where
  others : ∀ g id, ¬ (g = groupId ∧ id ∈ ids) → h'.registered g id = h.registered g id
  memberships : h'.memberships = h.memberships
  nodeId : h'.nodeId = h.nodeId

theorem Changed.refl (groupId : ℕ) (ids : List ℕ) (h : Host) : Changed groupId ids h h :=
  ⟨fun _ _ _ => rfl, rfl, rfl⟩

theorem Changed.trans {groupId : ℕ} {ids : List ℕ} {h h1 h2 : Host} (h01 : Changed groupId ids h h1)
    (h12 : Changed groupId ids h1 h2) : Changed groupId ids h h2 :=
  ⟨fun g id hn => (h12.others g id hn).trans (h01.others g id hn), h12.memberships.trans h01.memberships,
    h12.nodeId.trans h01.nodeId⟩

theorem Changed.mono {groupId : ℕ} {ids ids' : List ℕ} {h h' : Host} (hc : Changed groupId ids h h')
    (hsub : ∀ id ∈ ids, id ∈ ids') : Changed groupId ids' h h' :=
  ⟨fun g id hn => hc.others g id fun ⟨hg, hid⟩ => hn ⟨hg, hsub id hid⟩, hc.memberships, hc.nodeId⟩

end Host

namespace PeerManager

variable {p : PeerManager}

/-- An added node is connected to; a failure leaves the connections. -/
theorem wp_addPeer (f : AddFaults) (id : ℕ) (addr : Bytes) : (addPeer f id addr).wp
    (fun _ p' => p' = p ∧ p.peers.lookup id = some addr ∨
      p.peers.lookup id = none ∧ p' = { p with peers := p.peers.insert id addr })
    (fun _ p' => p' = p) p := by
  unfold addPeer
  rw [Act.wp_bind, Act.wp_get, Act.wp_ite]
  refine ⟨fun _ => rfl, fun _ => ?_⟩
  rw [Act.wp_ite]
  refine ⟨fun _ => rfl, fun _ => ?_⟩
  rw [Act.wp_ite]
  refine ⟨fun _ => rfl, fun _ => ?_⟩
  split
  · rename_i existing hex
    rw [Act.wp_ite]
    refine ⟨fun _ => rfl, fun heq => ?_⟩
    rw [not_not] at heq
    subst heq
    exact .inl ⟨rfl, hex⟩
  · rename_i hnone
    rw [Act.wp_ite]
    refine ⟨fun _ => rfl, fun _ => ?_⟩
    rw [Act.wp_bind, Act.wp_modify, Act.wp_ite]
    refine ⟨fun _ => ?_, fun _ => .inr ⟨hnone, rfl⟩⟩
    rw [Act.wp_bind, Act.wp_modify]
    -- the node that was put in is taken out again
    have hback : (p.peers.insert id addr).erase id = p.peers := by
      have hnot : id ∉ p.peers := AList.lookup_eq_none.mp hnone
      apply AList.ext
      show List.kerase id (p.peers.insert id addr).entries = p.peers.entries
      rw [AList.entries_insert_of_notMem hnot]
      exact List.kerase_cons_eq rfl
    show { p with peers := (p.peers.insert id addr).erase id } = p
    rw [hback]

theorem wp_removePeer (id : ℕ) : (removePeer id).wp (fun _ p' => p' = { p with peers := p.peers.erase id })
    (fun _ p' => p' = p) p := by
  unfold removePeer
  rw [Act.wp_bind, Act.wp_get, Act.wp_ite]
  exact ⟨fun _ => rfl, fun _ => rfl⟩

end PeerManager

namespace GrpcLiteMultiTransport

variable {t : GrpcLiteMultiTransport} {groupId id : ℕ} {address : Bytes}

/-- A node without a registration for the group is registered, and connected to. -/
theorem wp_addPeer (hu : t.Union) (hnew : t.registrations.lookup (groupId, id) = none) (f : AddFaults) :
    (addPeer f groupId id address).wp
      (fun _ t' => t'.registrations = t.registrations.insert (groupId, id) address ∧ t'.Union)
      (fun _ t' => t' = t) t := by
  unfold addPeer
  rw [Act.wp_bind, Act.wp_get, Act.wp_ite]
  refine ⟨fun _ => rfl, fun _ => ?_⟩
  rw [Act.wp_ite]
  refine ⟨fun _ => rfl, fun _ => ?_⟩
  rw [hnew]
  dsimp only
  rw [Act.wp_ite]
  refine ⟨fun _ => rfl, fun hsame => ?_⟩
  rw [Act.wp_ite]
  refine ⟨fun _ => rfl, fun _ => ?_⟩
  have hone : ∀ g a, t.registrations.lookup (g, id) = some a → a = address := by
    intro g a ha
    by_contra hne
    exact hsame ⟨a, mem_references.mpr ⟨g, ha⟩, hne⟩
  -- the union, once the connection to the node has the address
  have hunion : ∀ t' : GrpcLiteMultiTransport, t'.registrations = t.registrations.insert (groupId, id) address →
      t'.peerManager.peers.lookup id = some address →
      (∀ i, i ≠ id → t'.peerManager.peers.lookup i = t.peerManager.peers.lookup i) → t'.Union := by
    intro t' hreg hid hothers i a
    rw [hreg]
    by_cases hi : i = id
    · subst hi
      rw [hid]
      constructor
      · intro ha
        exact ⟨groupId, by rw [AList.lookup_insert, ha]⟩
      · rintro ⟨g, hg⟩
        by_cases hgid : g = groupId
        · subst hgid
          rwa [AList.lookup_insert] at hg
        · rw [AList.lookup_insert_ne (by simp [hgid])] at hg
          rw [hone g a hg]
    · rw [hothers i hi, hu i a]
      refine exists_congr fun g => ?_
      rw [AList.lookup_insert_ne (by simp [hi])]
  rw [Act.wp_ite]
  constructor
  · intro hnil
    have hnone : ∀ g a, t.registrations.lookup (g, id) ≠ some a := by
      intro g a ha
      have hmem := mem_references.mpr ⟨g, ha⟩
      rw [hnil] at hmem
      cases hmem
    unfold onManager
    rw [Act.wp_bind, Act.wp_zoom]
    refine Act.wp_mono (PeerManager.wp_addPeer f id address) ?_ ?_
    · intro b p' hp
      rw [Act.wp_bind, Act.wp_modify]
      rcases hp with ⟨rfl, hold⟩ | ⟨-, rfl⟩
      · obtain ⟨g, hg⟩ := (hu id address).mp hold
        exact absurd hg (hnone g address)
      · refine ⟨rfl, hunion _ rfl (AList.lookup_insert _) fun i hi => AList.lookup_insert_ne hi⟩
    · intro _ p' hp
      rw [hp]
  · intro hsome
    rw [Act.wp_bind, Act.wp_modify]
    refine ⟨rfl, hunion _ rfl ?_ fun _ _ => rfl⟩
    obtain ⟨a, ha⟩ := List.exists_mem_of_ne_nil _ hsome
    obtain ⟨g, hg⟩ := mem_references.mp ha
    have heq := hone g a hg
    subst heq
    exact (hu id a).mpr ⟨g, hg⟩

/-- A removed registration is gone, and the connection with the last one. -/
theorem wp_removePeer (hu : t.Union) : (removePeer groupId id).wp
    (fun _ t' => t'.registrations.lookup (groupId, id) = none ∧
      (∀ k, k ≠ (groupId, id) → t'.registrations.lookup k = t.registrations.lookup k) ∧ t'.Union)
    (fun _ _ => True) t := by
  unfold removePeer
  rw [Act.wp_bind, Act.wp_get, Act.wp_ite]
  refine ⟨fun _ => trivial, fun _ => ?_⟩
  split
  · rename_i hnone
    exact ⟨hnone, fun _ _ => rfl, hu⟩
  · rw [Act.wp_bind, Act.wp_modify, Act.wp_bind, Act.wp_get, Act.wp_when]
    have hlook : ∀ k, k ≠ (groupId, id) →
        (t.registrations.erase (groupId, id)).lookup k = t.registrations.lookup k := fun k hk =>
      AList.lookup_erase_ne hk
    have hother : ∀ i, i ≠ id → ∀ a, (∃ g, (t.registrations.erase (groupId, id)).lookup (g, i) = some a) ↔
        ∃ g, t.registrations.lookup (g, i) = some a := by
      intro i hi a
      refine exists_congr fun g => ?_
      rw [hlook (g, i) (by simp [hi])]
    constructor
    · intro hnil
      have hnone : ∀ g a, (t.registrations.erase (groupId, id)).lookup (g, id) ≠ some a := by
        intro g a ha
        have hmem : a ∈ ({ t with registrations := t.registrations.erase (groupId, id) } :
            GrpcLiteMultiTransport).references id := mem_references.mpr ⟨g, ha⟩
        rw [hnil] at hmem
        cases hmem
      unfold onManager
      rw [Act.wp_zoom]
      refine Act.wp_mono (PeerManager.wp_removePeer id) (fun _ p' hp => ?_) fun _ _ _ => trivial
      subst hp
      refine ⟨AList.lookup_erase _ _, hlook, fun i a => ?_⟩
      dsimp only
      by_cases hi : i = id
      · subst hi
        rw [AList.lookup_erase]
        constructor
        · intro ha
          cases ha
        · rintro ⟨g, hg⟩
          exact absurd hg (hnone g a)
      · rw [AList.lookup_erase_ne hi, hother i hi a]
        exact hu i a
    · intro hsome
      refine ⟨AList.lookup_erase _ _, hlook, fun i a => ?_⟩
      dsimp only
      by_cases hi : i = id
      · subst hi
        obtain ⟨b, hb⟩ := List.exists_mem_of_ne_nil _ hsome
        obtain ⟨g, hg⟩ := mem_references.mp hb
        dsimp only at hg
        have hkeep : ∀ {g c}, (t.registrations.erase (groupId, i)).lookup (g, i) = some c →
            t.registrations.lookup (g, i) = some c := by
          intro g c hc
          by_cases hgid : g = groupId
          · subst hgid
            rw [AList.lookup_erase] at hc
            cases hc
          · rwa [hlook (g, i) (by simp [hgid])] at hc
        have hphys := (hu i b).mpr ⟨g, hkeep hg⟩
        constructor
        · intro ha
          rw [hphys] at ha
          cases ha
          exact ⟨g, hg⟩
        · rintro ⟨g', hg'⟩
          exact (hu i a).mpr ⟨g', hkeep hg'⟩
      · rw [hother i hi a]
        exact hu i a

end GrpcLiteMultiTransport

namespace Host

variable {h h' : Host} {groupId id : ℕ} {address : Bytes}

/-- A failing addition changes nothing. -/
theorem wp_addPeer_failing (f : AddFaults) : (addPeer f groupId id address).wp (fun _ _ => True)
    (fun _ h' => h' = h) h := by
  have hshared : ∀ t, (GrpcLiteMultiTransport.addPeer f groupId id address).wp (fun _ _ => True)
      (fun _ t' => t' = t) t := by
    intro t
    unfold GrpcLiteMultiTransport.addPeer
    rw [Act.wp_bind, Act.wp_get, Act.wp_ite]
    refine ⟨fun _ => rfl, fun _ => ?_⟩
    rw [Act.wp_ite]
    refine ⟨fun _ => rfl, fun _ => ?_⟩
    split
    · rw [Act.wp_ite]
      exact ⟨fun _ => rfl, fun _ => trivial⟩
    · rw [Act.wp_ite]
      refine ⟨fun _ => rfl, fun _ => ?_⟩
      rw [Act.wp_ite]
      refine ⟨fun _ => rfl, fun _ => ?_⟩
      rw [Act.wp_ite]
      refine ⟨fun _ => ?_, fun _ => trivial⟩
      unfold GrpcLiteMultiTransport.onManager
      rw [Act.wp_bind, Act.wp_zoom]
      refine Act.wp_mono (PeerManager.wp_addPeer f id address) (fun _ _ _ => trivial) fun _ p' hp => ?_
      rw [hp]
  unfold addPeer
  rw [Act.wp_bind, Act.wp_get, Act.wp_ite]
  refine ⟨fun _ => rfl, fun _ => ?_⟩
  rw [Act.wp_ite]
  refine ⟨fun _ => trivial, fun _ => ?_⟩
  rw [Act.wp_ite]
  refine ⟨fun _ => rfl, fun _ => ?_⟩
  unfold onShared
  rw [Act.wp_bind, Act.wp_zoom]
  refine Act.wp_mono (hshared h.shared) (fun _ _ _ => trivial) fun _ t' ht => ?_
  rw [ht]

/-- What a step of the merge leaves: the layers agree and only the node's registration has changed. -/
structure Set (h : Host) (groupId id : ℕ) (address : Option Bytes) (h' : Host) : Prop where
  agrees : h'.Agrees
  registered : h'.registered groupId id = address
  changed : Changed groupId [id] h h'

/-- An added peer is registered. -/
theorem wp_addPeer (ha : h.Agrees) (hnew : h.registered groupId id = none) (f : AddFaults) :
    (addPeer f groupId id address).wp (fun _ => Set h groupId id (some address)) (fun _ _ => True) h := by
  unfold addPeer
  rw [Act.wp_bind, Act.wp_get, Act.wp_ite]
  refine ⟨fun _ => trivial, fun _ => ?_⟩
  rw [Act.wp_ite]
  refine ⟨fun hin => ?_, fun _ => ?_⟩
  · rw [ha.group, hnew] at hin
    cases hin
  rw [Act.wp_ite]
  refine ⟨fun _ => trivial, fun _ => ?_⟩
  unfold onShared
  rw [Act.wp_bind, Act.wp_zoom]
  refine Act.wp_mono (GrpcLiteMultiTransport.wp_addPeer ha.union hnew f) (fun added t' ht => ?_)
    fun _ _ _ => trivial
  obtain ⟨hreg, hunion⟩ := ht
  rw [Act.wp_bind, Act.wp_modify]
  have hself : t'.registrations.lookup (groupId, id) = some address := by
    rw [hreg, AList.lookup_insert]
  have hothers : ∀ g i, ¬ (g = groupId ∧ i = id) → t'.registrations.lookup (g, i) = h.registered g i := by
    intro g i hne
    rw [hreg, AList.lookup_insert_ne fun hk => hne (Prod.mk.inj hk)]
    rfl
  refine ⟨⟨fun g i => ?_, hunion⟩, hself, ⟨fun g i hne => hothers g i (by simpa using hne), rfl, rfl⟩⟩
  show i ∈ (Function.update h.groups groupId _ g).peers ↔ (t'.registrations.lookup (g, i)).isSome = true
  by_cases hg : g = groupId
  · subst hg
    rw [Function.update_self, Finset.mem_insert]
    by_cases hi : i = id
    · subst hi
      rw [hself]
      simp
    · rw [hothers g i (fun hc => hi hc.2), ← ha.group]
      simp [hi]
  · rw [Function.update_of_ne hg, hothers g i (fun hc => hg hc.1)]
    exact ha.group g i

/-- A removed peer is not registered. -/
theorem wp_removePeer (ha : h.Agrees) :
    (removePeer groupId id).wp (fun _ => Set h groupId id none) (fun _ _ => True) h := by
  unfold removePeer
  rw [Act.wp_bind, Act.wp_get, Act.wp_ite]
  refine ⟨fun hnot => ?_, fun _ => ?_⟩
  · rw [ha.group, Option.isSome_iff_ne_none, not_not] at hnot
    exact ⟨ha, hnot, Changed.refl _ _ h⟩
  unfold onShared
  rw [Act.wp_bind, Act.wp_zoom]
  refine Act.wp_mono (GrpcLiteMultiTransport.wp_removePeer ha.union) (fun _ t' ht => ?_) fun _ _ _ => trivial
  obtain ⟨hself, hlook, hunion⟩ := ht
  rw [Act.wp_modify]
  have hothers : ∀ g i, ¬ (g = groupId ∧ i = id) → t'.registrations.lookup (g, i) = h.registered g i := by
    intro g i hne
    rw [hlook (g, i) fun hk => hne (Prod.mk.inj hk)]
    rfl
  refine ⟨⟨fun g i => ?_, hunion⟩, hself, ⟨fun g i hne => hothers g i (by simpa using hne), rfl, rfl⟩⟩
  show i ∈ (Function.update h.groups groupId _ g).peers ↔ (t'.registrations.lookup (g, i)).isSome = true
  by_cases hg : g = groupId
  · subst hg
    rw [Function.update_self, Finset.mem_erase]
    by_cases hi : i = id
    · subst hi
      rw [hself]
      simp
    · rw [hothers g i (fun hc => hi hc.2), ← ha.group]
      simp [hi]
  · rw [Function.update_of_ne hg, hothers g i (fun hc => hg hc.1)]
    exact ha.group g i

/-! ### The merge -/

/-- The address that a node should be registered under, for peers of a group: none for the local node. -/
def expected (nodeId : ℕ) (peers : List PeerEndpoint) (id : ℕ) : Option Bytes :=
  if id = nodeId then none else ClusterMembership.addressIn peers id

/-- The ids of peers. -/
def idsOf (peers : List PeerEndpoint) : List ℕ := peers.map PeerEndpoint.nodeId

theorem expected_cons_self {nodeId : ℕ} {p : PeerEndpoint} {ps : List PeerEndpoint} (hp : p.nodeId ≠ nodeId) :
    expected nodeId (p :: ps) p.nodeId = some p.address := by
  simp [expected, hp, ClusterMembership.addressIn]

theorem expected_cons_ne {nodeId i : ℕ} {p : PeerEndpoint} {ps : List PeerEndpoint} (hi : i ≠ p.nodeId) :
    expected nodeId (p :: ps) i = expected nodeId ps i := by
  have hne : (p.nodeId == i) = false := by simpa using fun hc => hi hc.symm
  simp [expected, ClusterMembership.addressIn, hne]

theorem expected_of_notMem {nodeId i : ℕ} {ps : List PeerEndpoint} (hi : i ∉ idsOf ps) :
    expected nodeId ps i = none := by
  unfold expected
  split_ifs with hlocal
  · rfl
  · by_contra hne
    exact hi (ClusterMembership.addressIn_ne_none.mp hne)

theorem expected_local {nodeId : ℕ} {ps : List PeerEndpoint} : expected nodeId ps nodeId = none := if_pos rfl

/-- What the merge has done when it gets to the ends of both lists. -/
structure Merged (nodeId groupId : ℕ) (os ns : List PeerEndpoint) (h h' : Host) : Prop where
  agrees : h'.Agrees
  registered : ∀ id ∈ idsOf os ++ idsOf ns, h'.registered groupId id = expected nodeId ns id
  changed : Changed groupId (idsOf os ++ idsOf ns) h h'

/-- Where the merge starts from: the old peers are registered. -/
structure Unmerged (nodeId groupId : ℕ) (os ns : List PeerEndpoint) (h : Host) : Prop where
  agrees : h.Agrees
  old : (idsOf os).Pairwise (· < ·)
  new : (idsOf ns).Pairwise (· < ·)
  registered : ∀ id ∈ idsOf os ++ idsOf ns, h.registered groupId id = expected nodeId os id

/-- The head of a sorted list is below the others. -/
theorem lt_of_sorted {p : PeerEndpoint} {ps : List PeerEndpoint} (hs : (idsOf (p :: ps)).Pairwise (· < ·)) {i : ℕ}
    (hi : i ∈ idsOf ps) : p.nodeId < i := List.rel_of_pairwise_cons hs hi

/-- One node has been dealt with, and the merge goes on with the rest. -/
theorem Merged.step {nodeId : ℕ} {os ns os' ns' : List PeerEndpoint} {h1 h2 : Host} {id : ℕ} {a : Option Bytes}
    (hset : Set h groupId id a h1) (hrest : Merged nodeId groupId os' ns' h1 h2)
    (hid : id ∉ idsOf os' ++ idsOf ns') (ha : a = expected nodeId ns id)
    (hns : ∀ i ∈ idsOf os' ++ idsOf ns', expected nodeId ns' i = expected nodeId ns i)
    (hids : ∀ i, i ∈ idsOf os ++ idsOf ns ↔ i = id ∨ i ∈ idsOf os' ++ idsOf ns') :
    Merged nodeId groupId os ns h h2 where
  agrees := hrest.agrees
  registered := by
    intro i hi
    rcases (hids i).mp hi with rfl | hi
    · rw [hrest.changed.others groupId i fun hc => hid hc.2, hset.registered, ha]
    · rw [hrest.registered i hi, hns i hi]
  changed := by
    refine (hset.changed.mono fun i hi => ?_).trans (hrest.changed.mono fun i hi => (hids i).mpr (.inr hi))
    rw [List.mem_singleton] at hi
    exact (hids i).mpr (.inl hi)

/-- The rest still starts from the old peers. -/
theorem Unmerged.step {nodeId : ℕ} {os ns os' ns' : List PeerEndpoint} {h1 : Host} {id : ℕ} {a : Option Bytes}
    (hu : Unmerged nodeId groupId os ns h) (hset : Set h groupId id a h1)
    (ho : (idsOf os').Pairwise (· < ·)) (hn : (idsOf ns').Pairwise (· < ·))
    (hid : id ∉ idsOf os' ++ idsOf ns')
    (hos : ∀ i ∈ idsOf os' ++ idsOf ns', expected nodeId os i = expected nodeId os' i)
    (hids : ∀ i ∈ idsOf os' ++ idsOf ns', i ∈ idsOf os ++ idsOf ns) :
    Unmerged nodeId groupId os' ns' h1 where
  agrees := hset.agrees
  old := ho
  new := hn
  registered := by
    intro i hi
    have hne : ¬ (groupId = groupId ∧ i ∈ [id]) := by
      rintro ⟨-, hc⟩
      rw [List.mem_singleton] at hc
      exact hid (hc ▸ hi)
    rw [hset.changed.others groupId i hne, hu.registered i (hids i hi), hos i hi]

/-- A node that is registered as it should be. -/
theorem Set.same (ha : h.Agrees) : Set h groupId id (h.registered groupId id) h :=
  ⟨ha, rfl, Changed.refl _ _ h⟩

section merge
variable {nodeId : ℕ} {o n : PeerEndpoint} {os ns : List PeerEndpoint} {f : ℕ → AddFaults}

/-- A peer that is in the old list only is removed. -/
theorem wp_drop (hu : Unmerged nodeId groupId (o :: os) ns h) :
    (Act.when (o.nodeId ≠ nodeId) (removePeer groupId o.nodeId)).wp
      (fun _ => Set h groupId o.nodeId none) (fun _ _ => True) h := by
  rw [Act.wp_when]
  refine ⟨fun _ => wp_removePeer hu.agrees, fun hlocal => ?_⟩
  have heq := hu.registered o.nodeId (by simp [idsOf])
  rw [not_not.mp hlocal, expected_local] at heq
  rw [not_not.mp hlocal, ← heq]
  exact Set.same hu.agrees

/-- A peer that is in the new list only is added. -/
theorem wp_take (hu : Unmerged nodeId groupId os (n :: ns) h) (hn : n.nodeId ∉ idsOf os) :
    (Act.when (n.nodeId ≠ nodeId) (addPeer (f n.nodeId) groupId n.nodeId n.address >>= fun _ => pure ())).wp
      (fun _ => Set h groupId n.nodeId (expected nodeId (n :: ns) n.nodeId)) (fun _ _ => True) h := by
  have hold := hu.registered n.nodeId (by simp [idsOf])
  rw [expected_of_notMem hn] at hold
  rw [Act.wp_when]
  refine ⟨fun hne => ?_, fun hlocal => ?_⟩
  · rw [Act.wp_bind, expected_cons_self hne]
    exact wp_addPeer hu.agrees hold _
  · have hexp : expected nodeId (n :: ns) n.nodeId = h.registered groupId n.nodeId := by
      rw [hold, not_not.mp hlocal, expected_local]
    rw [hexp]
    exact Set.same hu.agrees

/-- A peer that is in both lists gets its new address. -/
theorem wp_replace (hu : Unmerged nodeId groupId (o :: os) (n :: ns) h) (heq : o.nodeId = n.nodeId) :
    (Act.when (¬ (o.nodeId = nodeId ∨ o.address = n.address)) (do
      removePeer groupId o.nodeId
      let _ ← addPeer (f n.nodeId) groupId n.nodeId n.address
      return ())).wp (fun _ => Set h groupId n.nodeId (expected nodeId (n :: ns) n.nodeId)) (fun _ _ => True) h := by
  have hold := hu.registered o.nodeId (by simp [idsOf])
  rw [Act.wp_when]
  refine ⟨fun hcond => ?_, fun hcond => ?_⟩
  · have hlocal : n.nodeId ≠ nodeId := fun hc => hcond (.inl (heq.trans hc))
    rw [Act.wp_bind]
    refine Act.wp_mono (wp_removePeer hu.agrees) (fun _ h1 h01 => ?_) fun _ _ _ => trivial
    rw [Act.wp_bind, expected_cons_self hlocal]
    rw [heq] at h01
    refine Act.wp_mono (wp_addPeer h01.agrees h01.registered _) (fun _ h2 h12 => ?_) fun _ _ _ => trivial
    exact ⟨h12.agrees, h12.registered, h01.changed.trans h12.changed⟩
  · have hexp : expected nodeId (n :: ns) n.nodeId = h.registered groupId n.nodeId := by
      rw [← heq, hold, heq]
      rcases not_not.mp hcond with hlocal | haddr
      · rw [← heq, hlocal, expected_local, expected_local]
      · by_cases hlocal : n.nodeId = nodeId
        · rw [hlocal, expected_local, expected_local]
        · rw [expected_cons_self hlocal, ← heq, expected_cons_self (by rw [heq]; exact hlocal), haddr]
    rw [hexp]
    exact Set.same hu.agrees

/-- The merge registers the new peers in place of the old ones. -/
theorem wp_reconcileTransport (hu : Unmerged nodeId groupId os ns h) :
    (reconcileTransport f nodeId groupId os ns).wp (fun _ => Merged nodeId groupId os ns h)
      (fun _ _ => True) h := by
  fun_induction reconcileTransport f nodeId groupId os ns generalizing h with
  | case1 => exact ⟨hu.agrees, fun _ hi => absurd hi List.not_mem_nil, Changed.refl _ _ h⟩
  | case2 o os ih =>
      rw [Act.wp_bind]
      refine Act.wp_mono (wp_drop hu) (fun _ h1 hset => ?_) fun _ _ _ => trivial
      have hid : o.nodeId ∉ idsOf os ++ idsOf [] := by
        intro hc
        rw [List.mem_append] at hc
        rcases hc with hc | hc
        · exact lt_irrefl _ (lt_of_sorted hu.old hc)
        · cases hc
      have hos : ∀ i ∈ idsOf os ++ idsOf [], expected nodeId (o :: os) i = expected nodeId os i := by
        intro i hi
        exact expected_cons_ne fun hc => hid (hc ▸ hi)
      have hu1 := hu.step hset hu.old.of_cons hu.new hid hos fun i hi => List.mem_cons_of_mem _ hi
      refine Act.wp_mono (ih hu1) (fun _ h2 hrest => ?_) fun _ _ _ => trivial
      refine Merged.step hset hrest hid ?_ (fun _ _ => rfl) fun i => ?_
      · rw [expected_of_notMem List.not_mem_nil]
      · simp [idsOf]
  | case3 n ns ih =>
      rw [Act.wp_bind]
      refine Act.wp_mono (wp_take hu List.not_mem_nil) (fun _ h1 hset => ?_) fun _ _ _ => trivial
      have hid : n.nodeId ∉ idsOf [] ++ idsOf ns := fun hc => lt_irrefl _ (lt_of_sorted hu.new hc)
      have hu1 := hu.step hset hu.old hu.new.of_cons hid (fun _ _ => rfl) fun i hi => List.mem_cons_of_mem _ hi
      refine Act.wp_mono (ih hu1) (fun _ h2 hrest => ?_) fun _ _ _ => trivial
      refine Merged.step hset hrest hid rfl (fun i hi => ?_) fun i => ?_
      · exact (expected_cons_ne fun hc => hid (hc ▸ hi)).symm
      · simp [idsOf]
  | case4 o os n ns hlt ih =>
      rw [Act.wp_bind]
      refine Act.wp_mono (wp_drop hu) (fun _ h1 hset => ?_) fun _ _ _ => trivial
      have hnot : o.nodeId ∉ idsOf (n :: ns) := by
        intro hc
        rcases List.mem_cons.mp hc with hc | hc
        · omega
        · have h2 := lt_of_sorted hu.new hc
          omega
      have hid : o.nodeId ∉ idsOf os ++ idsOf (n :: ns) := by
        intro hc
        rcases List.mem_append.mp hc with hc | hc
        · exact lt_irrefl _ (lt_of_sorted hu.old hc)
        · exact hnot hc
      have hos : ∀ i ∈ idsOf os ++ idsOf (n :: ns), expected nodeId (o :: os) i = expected nodeId os i := by
        intro i hi
        exact expected_cons_ne fun hc => hid (hc ▸ hi)
      have hu1 := hu.step hset hu.old.of_cons hu.new hid hos fun i hi => List.mem_cons_of_mem _ hi
      refine Act.wp_mono (ih hu1) (fun _ h2 hrest => ?_) fun _ _ _ => trivial
      refine Merged.step hset hrest hid ?_ (fun _ _ => rfl) fun i => ?_
      · rw [expected_of_notMem hnot]
      · simp [idsOf]
  | case5 o os n ns hlt hgt ih =>
      have hnot : n.nodeId ∉ idsOf (o :: os) := by
        intro hc
        rcases List.mem_cons.mp hc with hc | hc
        · omega
        · have h2 := lt_of_sorted hu.old hc
          omega
      rw [Act.wp_bind]
      refine Act.wp_mono (wp_take hu hnot) (fun _ h1 hset => ?_) fun _ _ _ => trivial
      have hid : n.nodeId ∉ idsOf (o :: os) ++ idsOf ns := by
        intro hc
        rcases List.mem_append.mp hc with hc | hc
        · exact hnot hc
        · exact lt_irrefl _ (lt_of_sorted hu.new hc)
      have hids : ∀ i, i ∈ idsOf (o :: os) ++ idsOf (n :: ns) ↔ i = n.nodeId ∨ i ∈ idsOf (o :: os) ++ idsOf ns := by
        intro i
        simp only [idsOf, List.map_cons, List.mem_append, List.mem_cons]
        tauto
      have hu1 := hu.step hset hu.old hu.new.of_cons hid (fun _ _ => rfl) fun i hi => (hids i).mpr (.inr hi)
      refine Act.wp_mono (ih hu1) (fun _ h2 hrest => ?_) fun _ _ _ => trivial
      refine Merged.step hset hrest hid rfl (fun i hi => ?_) hids
      exact (expected_cons_ne fun hc => hid (hc ▸ hi)).symm
  | case6 o os n ns hlt hgt ih =>
      have heq : o.nodeId = n.nodeId := by omega
      rw [Act.wp_bind]
      refine Act.wp_mono (wp_replace hu heq) (fun _ h1 hset => ?_) fun _ _ _ => trivial
      have hid : n.nodeId ∉ idsOf os ++ idsOf ns := by
        intro hc
        rcases List.mem_append.mp hc with hc | hc
        · have h2 := lt_of_sorted hu.old hc
          omega
        · exact lt_irrefl _ (lt_of_sorted hu.new hc)
      have hids : ∀ i, i ∈ idsOf (o :: os) ++ idsOf (n :: ns) ↔ i = n.nodeId ∨ i ∈ idsOf os ++ idsOf ns := by
        intro i
        simp only [idsOf, List.map_cons, List.mem_append, List.mem_cons, heq]
        tauto
      have hos : ∀ i ∈ idsOf os ++ idsOf ns, expected nodeId (o :: os) i = expected nodeId os i := by
        intro i hi
        exact expected_cons_ne fun hc => hid (heq ▸ hc ▸ hi)
      have hu1 := hu.step hset hu.old.of_cons hu.new.of_cons hid hos fun i hi => (hids i).mpr (.inr hi)
      refine Act.wp_mono (ih hu1) (fun _ h2 hrest => ?_) fun _ _ _ => trivial
      refine Merged.step hset hrest hid rfl (fun i hi => ?_) hids
      exact (expected_cons_ne fun hc => hid (hc ▸ hi)).symm

end merge

/-! ### Runs of a host -/

/-- A host is as it should be: the layers agree, and every group has the peers of its membership. -/
structure Follows (h : Host) : Prop where
  agrees : h.Agrees
  registered : ∀ g id, h.registered g id = expected h.nodeId (h.members g) id
  valid : ∀ g m, h.memberships g = some m → m.validateStructure = .ok ()

theorem follows_start (nodeId identity : ℕ) : (start nodeId identity).Follows where
  agrees := {
    group := fun _ _ => by simp [start, Host.registered]
    union := fun _ _ => by simp [start] }
  registered := fun _ _ => by
    rw [expected_of_notMem List.not_mem_nil]
    rfl
  valid := fun _ _ hm => by cases hm

/-- The peers of a valid membership are sorted. -/
theorem sorted_of_valid {m : ClusterMembership} (hm : m.validateStructure = .ok ()) :
    (idsOf m.peers).Pairwise (· < ·) := by
  obtain ⟨-, -, hsorted, -⟩ := ClusterMembership.validateStructure_eq_ok.mp hm
  exact hsorted

theorem expected_eq_some {nodeId id : ℕ} {ps : List PeerEndpoint} {a : Bytes} (ha : expected nodeId ps id = some a) :
    id ≠ nodeId ∧ ⟨id, a⟩ ∈ ps := by
  unfold expected at ha
  split_ifs at ha with hlocal
  exact ⟨hlocal, ClusterMembership.addressIn_mem ha⟩

theorem expected_isSome {nodeId id : ℕ} {ps : List PeerEndpoint} :
    (expected nodeId ps id).isSome = true ↔ id ∈ idsOf ps ∧ id ≠ nodeId := by
  unfold expected
  split_ifs with hlocal
  · simp [hlocal]
  · rw [Option.isSome_iff_ne_none, ClusterMembership.addressIn_ne_none]
    exact (and_iff_left hlocal).symm

/-- Each peer other than the local node is expected under its address, for ids that do not repeat. -/
theorem expected_of_mem {nodeId : ℕ} {ps : List PeerEndpoint} (hs : (idsOf ps).Pairwise (· < ·))
    {p : PeerEndpoint} (hp : p ∈ ps) (hlocal : p.nodeId ≠ nodeId) : expected nodeId ps p.nodeId = some p.address := by
  induction ps with
  | nil => cases hp
  | cons q ps ih =>
      rcases List.mem_cons.mp hp with rfl | hp
      · exact expected_cons_self hlocal
      · have hlt := lt_of_sorted hs (List.mem_map_of_mem hp)
        rw [expected_cons_ne (by omega)]
        exact ih hs.of_cons hp

theorem Follows.sorted (hf : h.Follows) (g : ℕ) : (idsOf (h.members g)).Pairwise (· < ·) := by
  unfold members
  split
  · exact List.Pairwise.nil
  · rename_i m hm
    exact sorted_of_valid (hf.valid g m hm)

theorem members_setMembership (m : ClusterMembership) :
    (h.setMembership groupId m).members groupId = m.peers := by
  simp [members, setMembership]

theorem members_setMembership_ne {g : ℕ} (hg : g ≠ groupId) (m : ClusterMembership) :
    (h.setMembership groupId m).members g = h.members g := by
  simp [members, setMembership, hg]

/-- The merge from the old peers of a group to those of a new membership. -/
theorem Follows.install (hf : h.Follows) {m : ClusterMembership} (hm : m.validateStructure = .ok ())
    (hrest : Merged h.nodeId groupId (h.members groupId) m.peers (h.setMembership groupId m) h') : h'.Follows where
  agrees := hrest.agrees
  registered := by
    intro g id
    have hmembers : h'.members g = (h.setMembership groupId m).members g := by
      unfold members
      rw [hrest.changed.memberships]
    rw [hmembers, hrest.changed.nodeId]
    by_cases hg : g = groupId
    · subst hg
      rw [members_setMembership]
      by_cases hid : id ∈ idsOf (h.members g) ++ idsOf m.peers
      · exact hrest.registered id hid
      · rw [hrest.changed.others g id fun hc => hid hc.2]
        rw [List.mem_append, not_or] at hid
        rw [expected_of_notMem hid.2, ← expected_of_notMem hid.1]
        exact hf.registered g id
    · rw [members_setMembership_ne hg, hrest.changed.others g id fun hc => hg hc.1]
      exact hf.registered g id
  valid := by
    intro g m' hm'
    rw [hrest.changed.memberships] at hm'
    by_cases hg : g = groupId
    · subst hg
      have heq : some m = some m' := by simpa [setMembership] using hm'
      cases heq
      exact hm
    · exact hf.valid g m' (by simpa [setMembership, hg] using hm')

/-- What the merge of an installed membership starts from. -/
theorem Follows.unmerged (hf : h.Follows) (groupId : ℕ) {m : ClusterMembership} (hm : m.validateStructure = .ok ()) :
    Unmerged h.nodeId groupId (h.members groupId) m.peers (h.setMembership groupId m) where
  agrees := ⟨hf.agrees.group, hf.agrees.union⟩
  old := hf.sorted groupId
  new := sorted_of_valid hm
  registered := fun id _ => hf.registered groupId id

/-- Every step keeps the peers at the memberships. -/
theorem Follows.step (hf : h.Follows) (hs : Step h h') : h'.Follows ∧ h'.nodeId = h.nodeId := by
  cases hs with
  | hydrate _ f g m hnew hm hrun =>
      have hold : h.members g = [] := by
        unfold members
        rw [hnew]
      have hmerge := wp_reconcileTransport (f := f) (hf.unmerged g hm)
      rw [hold] at hmerge
      have hrest := Act.wp_ok hmerge hrun
      rw [← hold] at hrest
      exact ⟨hf.install hm hrest, hrest.changed.nodeId⟩
  | install _ f g m hm hrun =>
      have hrest := Act.wp_ok (wp_reconcileTransport (f := f) (hf.unmerged g hm)) hrun
      exact ⟨hf.install hm hrest, hrest.changed.nodeId⟩
  | life state started stopping => exact ⟨⟨⟨hf.agrees.group, hf.agrees.union⟩, hf.registered, hf.valid⟩, rfl⟩
  | stop g =>
      refine ⟨⟨⟨fun g' id => ?_, hf.agrees.union⟩, hf.registered, hf.valid⟩, rfl⟩
      show id ∈ (Function.update h.groups g _ g').peers ↔ (h.registered g' id).isSome = true
      by_cases hg : g' = g
      · subst hg
        rw [Function.update_self]
        exact hf.agrees.group g' id
      · rw [Function.update_of_ne hg]
        exact hf.agrees.group g' id

theorem follows_run {nodeId identity : ℕ} (hrun : Relation.ReflTransGen Step (start nodeId identity) h) :
    h.Follows ∧ h.nodeId = nodeId := by
  induction hrun with
  | refl => exact ⟨follows_start nodeId identity, rfl⟩
  | tail _ hs ih =>
      obtain ⟨hf, hnode⟩ := ih.1.step hs
      exact ⟨hf, hnode.trans ih.2⟩

end Host

open Host in
/-- While every merge succeeds, the peers of each group are its members other than the local node, each under
its current address, and the host is connected to the union of them, with one address each.  A failing addition
changes nothing. -/
theorem peers_follow_membership :
    (∀ (nodeId identity : ℕ) (h : Host), Relation.ReflTransGen Step (start nodeId identity) h →
      (∀ g id, id ∈ (h.groups g).peers ↔ id ∈ (h.members g).map PeerEndpoint.nodeId ∧ id ≠ nodeId) ∧
      (∀ g, ∀ p ∈ h.members g, p.nodeId ≠ nodeId → h.registered g p.nodeId = some p.address) ∧
      (∀ g id, (h.registered g id).isSome = true ↔ id ∈ (h.groups g).peers) ∧
      ∀ id a, h.physical id = some a ↔ ∃ g, ⟨id, a⟩ ∈ h.members g ∧ id ≠ nodeId) ∧
    ∀ (f : AddFaults) (h h' : Host) (groupId id : ℕ) (address : Bytes) (e : TransportErr),
      addPeer f groupId id address h = .err e h' → h' = h := by
  refine ⟨fun nodeId identity h hrun => ?_, fun f h h' groupId id address e herr => ?_⟩
  · obtain ⟨hf, hnode⟩ := follows_run hrun
    subst hnode
    have hgroup : ∀ g p, p ∈ h.members g → p.nodeId ≠ h.nodeId → h.registered g p.nodeId = some p.address := by
      intro g p hp hlocal
      rw [hf.registered]
      exact expected_of_mem (hf.sorted g) hp hlocal
    refine ⟨fun g id => ?_, hgroup, fun g id => (hf.agrees.group g id).symm, fun id a => ?_⟩
    · rw [hf.agrees.group, hf.registered]
      exact expected_isSome
    · refine (hf.agrees.union id a).trans (exists_congr fun g => ?_)
      constructor
      · intro hreg
        have hexp : expected h.nodeId (h.members g) id = some a := by
          rw [← hf.registered]
          exact hreg
        exact (expected_eq_some hexp).symm
      · rintro ⟨hmem, hlocal⟩
        exact hgroup g ⟨id, a⟩ hmem hlocal
  · have hfail : (addPeer f groupId id address).wp (fun _ _ => True) (fun _ h' => h' = h) h := wp_addPeer_failing f
    have hsame := Act.wp_err hfail herr
    exact hsame

end TransportPeers

end Raftz
