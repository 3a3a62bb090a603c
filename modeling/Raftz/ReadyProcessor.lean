import Mathlib.Logic.Relation
import Raftz.ConfSets
import Raftz.MembershipCodec
import Raftz.Storage

/-! # Applying configuration entries and taking snapshots

The part of `ready_processor.zig` and `raftor.zig` that decides which
configuration a node has: `applyEntry`, the phases that install a received
snapshot, `takeSnapshotImpl` and the restart of a node from what its storage
kept.  The consensus core appears with the part of it that these functions
touch, its progress tracker and its commit index; the entries it hands out are
those of the committed log `history`, one after the other.

`Replica.Step` is everything that can happen to the configuration of a node:
phases of the driver in any order the data allow, entries and hard states
written in between, snapshots taken at any point, crashes and restarts. -/

open Base

namespace Raftz

/-! ### Storage of the configuration -/

/-- A storage that keeps the membership of the cluster beside the configuration. -/
class MembershipStorage (σ : Type) extends WritableStorage σ where
  setMembershipState : σ → ConfState → ClusterMembership → ℕ → Except Err σ
  /-- The snapshot that was installed last, if any. -/
  localSnapshot : σ → Option Snapshot

instance : MembershipStorage MemoryStorage where
  setMembershipState s := s.setMembershipState
  localSnapshot s := s.localSnapshot

/-- What every write does to the recorded state and to the position of the last snapshot. -/
class LawfulMembershipStorage (σ : Type) extends MembershipStorage σ where
  state : σ → RaftState
  snapshotIndex : σ → ℕ
  initialState_eq (s : σ) : initialState s = .ok (state s)
  localSnapshot_eq (s : σ) : ((localSnapshot s).map fun snap => snap.metadata.index).getD 0 = snapshotIndex s
  append_ok {s s' : σ} {es : List Entry} : append s es = .ok s' →
    state s' = state s ∧ snapshotIndex s' = snapshotIndex s
  setHardState_ok {s s' : σ} {hs : HardState} : setHardState s hs = .ok s' →
    state s' = { state s with hardState := hs } ∧ snapshotIndex s' = snapshotIndex s
  setConfState_ok {s s' : σ} {cs : ConfState} : setConfState s cs = .ok s' →
    state s' = { state s with confState := cs } ∧ snapshotIndex s' = snapshotIndex s
  setMembershipState_ok {s s' : σ} {cs : ConfState} {m : ClusterMembership} {i : ℕ} :
    setMembershipState s cs m i = .ok s' →
    state s' = { state s with confState := cs, clusterMembership := some m, membershipIndex := i } ∧
      snapshotIndex s' = snapshotIndex s
  applySnapshot_ok {s s' : σ} {snap : Snapshot} : applySnapshot s snap = .ok s' →
    ∃ m, decodeSnapshotMembership snap = .ok m ∧ (state s').confState = snap.metadata.confState ∧
      (state s').clusterMembership = m ∧
      (state s').membershipIndex = (if m = none then 0 else snap.metadata.index) ∧
      snap.metadata.index ≤ (state s').hardState.commit ∧ snapshotIndex s' = snap.metadata.index
  applyLocalSnapshot_ok {s s' : σ} {snap : Snapshot} : applyLocalSnapshot s snap = .ok s' →
    ∃ m, decodeSnapshotMembership snap = .ok m ∧ (state s').confState = snap.metadata.confState ∧
      (state s').clusterMembership = m ∧
      (state s').membershipIndex = (if m = none then 0 else snap.metadata.index) ∧
      (state s').hardState.commit = max (state s).hardState.commit snap.metadata.index ∧
      snapshotIndex s' = snap.metadata.index

namespace MemoryStorage

theorem localSnapshot_index (s : MemoryStorage) :
    (s.localSnapshot.map fun snap => snap.metadata.index).getD 0 = s.snapshotData.metadata.index := by
  unfold localSnapshot
  split
  · rename_i h
    exact h.symm
  · rfl

theorem snapshotMembership_ok {s : MemoryStorage} {snap : Snapshot} {m : Option ClusterMembership}
    (h : s.snapshotMembership snap = .ok m) : decodeSnapshotMembership snap = .ok m := by
  unfold snapshotMembership at h
  split at h
  · cases h
  · exact h

theorem compact_raftState {s s' : MemoryStorage} {i : ℕ} (h : s.compact i = .ok s') :
    s'.raftState = s.raftState := by
  unfold compact at h
  split at h
  · cases h
    rfl
  · split at h
    · cases h
    · cases h
      rfl

instance : LawfulMembershipStorage MemoryStorage where
  state s := s.raftState
  snapshotIndex s := s.snapshotData.metadata.index
  initialState_eq _ := rfl
  localSnapshot_eq := localSnapshot_index
  append_ok {s s' es} h := by
    have h : s.mayAppend es = .ok s' := h
    unfold mayAppend at h
    split at h
    · cases h
      exact ⟨rfl, rfl⟩
    · split at h
      · cases h
      · split at h
        · cases h
        · cases h
          exact ⟨rfl, rfl⟩
  setHardState_ok h := by
    cases h
    exact ⟨rfl, rfl⟩
  setConfState_ok h := by
    cases h
    exact ⟨rfl, rfl⟩
  setMembershipState_ok {s s' cs m i} h := by
    have h : s.setMembershipState cs m i = .ok s' := h
    unfold setMembershipState at h
    obtain ⟨_, _, h⟩ := bind_eq_ok.mp h
    cases h
    exact ⟨rfl, rfl⟩
  applySnapshot_ok {s s' snap} h := by
    have h : s.applySnapshot snap = .ok s' := h
    unfold applySnapshot at h
    obtain ⟨_, _, h⟩ := bind_eq_ok.mp h
    obtain ⟨m, hm, h⟩ := bind_eq_ok.mp h
    cases h
    exact ⟨m, snapshotMembership_ok hm, rfl, rfl, rfl, le_rfl, rfl⟩
  applyLocalSnapshot_ok {s s' snap} h := by
    have h : s.applyLocalSnapshot snap = .ok s' := h
    unfold applyLocalSnapshot at h
    obtain ⟨_, _, h⟩ := bind_eq_ok.mp h
    obtain ⟨m, hm, h⟩ := bind_eq_ok.mp h
    obtain ⟨u, hu, h⟩ := bind_eq_ok.mp h
    cases h
    refine ⟨m, snapshotMembership_ok hm, rfl, rfl, rfl, ?_, rfl⟩
    show max u.raftState.hardState.commit _ = max s.raftState.hardState.commit _
    rw [compact_raftState hu]

end MemoryStorage

/-! ### The driver -/

/-- The part of `Raft.applyConfChange` that changes the configuration. -/
def ProgressTracker.applyConfChange (t : ProgressTracker) (lastIndex : ℕ) (cc : ConfChangeV2) :
    Except Err (ProgressTracker × ConfState) := do
  let r ← changeConf t cc
  return (t.applyConf r.conf r.changes lastIndex, r.conf.toConfState)

/-- What `ReadyProcessor` keeps about the configuration, with the tracker of its node and its
storage.  `durable` is the storage as a crash would leave it. -/
structure ReadyProcessor (σ : Type) where
  tracker : ProgressTracker
  storage : σ
  durable : σ
  appliedIndex : ℕ := 0
  clusterMembership : Option ClusterMembership := none
  membershipIndex : ℕ := 0

namespace ReadyProcessor

variable {σ : Type} [MembershipStorage σ] (p : ReadyProcessor σ)

/-- Make everything written so far durable. -/
def sync : ReadyProcessor σ := { p with durable := p.storage }

/-- Install a membership; the transport follows it. -/
def installMembership (membership : ClusterMembership) (membershipIndex : ℕ) : ReadyProcessor σ :=
  { p with clusterMembership := some membership, membershipIndex := membershipIndex }

/-- Change the configuration as an entry says and record it, with the membership if there is one. -/
def applyConfEntry (lastIndex : ℕ) (e : Entry) (cc : ConfChangeV2) : Except Err (ReadyProcessor σ) :=
  match p.clusterMembership with
  | some membership => do
      let previous ← Storage.initialState p.storage
      let (tracker, applied) ← p.tracker.applyConfChange lastIndex cc
      let candidate ← membership.deriveClusterMembership previous.confState applied cc
      let storage ← MembershipStorage.setMembershipState p.storage applied candidate e.index
      return ({ p with tracker := tracker, storage := storage }.sync).installMembership candidate e.index
  | none => do
      let (tracker, applied) ← p.tracker.applyConfChange lastIndex cc
      let storage ← WritableStorage.setConfState p.storage applied
      return { p with tracker := tracker, storage := storage }.sync

/-- Apply a committed entry, once its checksum has been found `intact`.  With a membership,
configuration entries at or below its index are skipped.  Entries for the application do not touch
the configuration. -/
def applyEntry (intact : Entry → Bool) (lastIndex : ℕ) (e : Entry) : Except Err (ReadyProcessor σ) :=
  if intact e = false then .error .checksumMismatch
  else if e.isConf = false then .ok p
  else if p.clusterMembership ≠ none ∧ e.index ≤ p.membershipIndex then .ok p
  else
    match decodeConfChangeV2 e.data with
    | .error _ => .error .confChangeParseError
    | .ok cc => p.applyConfEntry lastIndex e cc

/-- One round of `applyCommittedEntries`. -/
def applyCommitted (intact : Entry → Bool) (lastIndex : ℕ) (e : Entry) :
    Except Err (ReadyProcessor σ) := do
  let p ← p.applyEntry intact lastIndex e
  return { p with appliedIndex := e.index }

/-- Write a received snapshot; the membership it carries is installed later. -/
def persistSnapshot (snap : Snapshot) : Except Err (ReadyProcessor σ × Option ClusterMembership) :=
  if snap.membership = [] ∧ p.clusterMembership ≠ none then .error .missingClusterMembership
  else do
    let storage ← WritableStorage.applySnapshot p.storage snap
    let p : ReadyProcessor σ := { p with storage := storage }.sync
    if snap.membership = [] then return (p, none)
    else
      match ClusterMembership.decode snap.membership with
      | .error _ => .error .invalidClusterMembership
      | .ok membership =>
          if (membership.validate snap.metadata.confState).isOk then return (p, some membership)
          else .error .invalidClusterMembership

/-- The phase after the writes: sync, and install the membership of the snapshot. -/
def installSnapshot (snap : Snapshot) (membership : Option ClusterMembership) : ReadyProcessor σ :=
  match membership with
  | some m => p.sync.installMembership m snap.metadata.index
  | none => p.sync

/-- Hand a received snapshot to the state machine. -/
def restoreSnapshot (snap : Snapshot) : ReadyProcessor σ :=
  { p with appliedIndex := snap.metadata.index }

/-- The membership as a snapshot carries it. -/
def encodedMembership : Except Err Bytes :=
  match p.clusterMembership with
  | none => .ok []
  | some m => match m.encode with
      | .ok bytes => .ok bytes
      | .error _ => .error .invalidClusterMembership

/-- The snapshot that is given to the storage: the state machine supplies the data for the position
and the configuration it is told. -/
def makeSnapshot (data : Bytes) : Except Err Snapshot := do
  let state ← Storage.initialState p.storage
  let term := match Storage.term p.storage p.appliedIndex with
    | .ok t => t
    | .error _ => 0
  let membership ← p.encodedMembership
  return { data := data, metadata := ⟨p.appliedIndex, term, state.confState⟩, membership := membership }

/-- Take a snapshot of the own state machine, unless nothing has been applied. -/
def takeSnapshotImpl (data : Bytes) : Except Err (ReadyProcessor σ) :=
  if p.appliedIndex = 0 then .ok p
  else do
    let snap ← p.makeSnapshot data
    let storage ← WritableStorage.applyLocalSnapshot p.storage snap
    return { p with storage := storage }.sync

end ReadyProcessor

/-! ### Restart -/

namespace Raftor

variable {σ : Type} [MembershipStorage σ]

/-- Is the configuration empty? -/
def confStateIsEmpty (cs : ConfState) : Bool :=
  cs.voters.isEmpty && cs.learners.isEmpty && cs.votersOutgoing.isEmpty && cs.learnersNext.isEmpty

/-- Where the state machine stands after a restart.  `durable` is the last entry a durable state
machine has applied, index and term. -/
def recoverStateMachine (durable : Option (ℕ × ℕ)) (commit fallback : ℕ) (s : σ) : Except Err ℕ :=
  let snapshot := MembershipStorage.localSnapshot s
  let snapshotIndex := (snapshot.map fun snap => snap.metadata.index).getD 0
  match durable with
  | some (index, term) =>
      if commit < index then .error .incompatibleStorage
      else if index < snapshotIndex then .ok snapshotIndex
      else if index = snapshotIndex then
        if term ≠ (snapshot.map fun snap => snap.metadata.term).getD 0 then .error .incompatibleStorage
        else .ok index
      else do
        let first ← Storage.firstIndex s
        let last ← Storage.lastIndex s
        if index < first ∨ last < index then .error .incompatibleStorage
        else
          match Storage.term s index with
          | .error .compacted => .error .incompatibleStorage
          | .error .unavailable => .error .incompatibleStorage
          | .error e => .error e
          | .ok stored => if term ≠ stored then .error .incompatibleStorage else .ok index
  | none => if 0 < snapshotIndex then .ok snapshotIndex else .ok fallback

/-- Start a node from what its storage has kept (`nodeId` is its own id).  A storage of an older
version, which would be migrated here, is not considered. -/
def restart (nodeId maxInflight : ℕ) (durable : Option (ℕ × ℕ)) (s : σ) :
    Except Err (ReadyProcessor σ) := do
  let state ← Storage.initialState s
  ensure (confStateIsEmpty state.confState = false) .incompatibleStorage
  match state.clusterMembership with
  | some m => do
      ensure (nodeId ∉ m.retiredNodeIds) .nodeRetired
      ensure ((m.validate state.confState).isOk = true) .invalidClusterMembership
  | none => ensure (state.membershipIndex = 0) .missingClusterMembership
  let applied ← recoverStateMachine durable state.hardState.commit 0 s
  let last ← Storage.lastIndex s
  let tracker ← ConfRestore.restore (ProgressTracker.init maxInflight) (last + 1) state.confState
  return {
    tracker := tracker
    storage := s
    durable := s
    appliedIndex := applied
    clusterMembership := state.clusterMembership
    membershipIndex := state.membershipIndex }

end Raftor

/-! ### A node and its history -/

/-- How far a received snapshot has come. -/
inductive Incoming
  | none
  /-- The core has taken it over. -/
  | accepted (snap : Snapshot)
  /-- It has been written, with the membership that is to be installed. -/
  | persisted (snap : Snapshot) (membership : Option ClusterMembership)
  /-- Its membership is installed, the state machine has not got it yet. -/
  | installed (snap : Snapshot)
  deriving DecidableEq

/-- The snapshot that is on its way. -/
def Incoming.snapshot : Incoming → Option Snapshot
  | .none => Option.none
  | .accepted snap => some snap
  | .persisted snap _ => some snap
  | .installed snap => some snap

/-- Is there a received snapshot in the storage that the state machine has not got yet? -/
def Incoming.underway : Incoming → Bool
  | .none => false
  | .accepted _ => false
  | .persisted _ _ => true
  | .installed _ => true

/-- A node as far as its configuration goes. -/
structure Replica (σ : Type) where
  processor : ReadyProcessor σ
  /-- Commit index of the core. -/
  committed : ℕ := 0
  incoming : Incoming := .none
  /-- The last position whose configuration the node has taken over, in this life or an earlier
  one: a record of its history that no step looks at. -/
  reached : ℕ := 0

namespace Replica

variable {σ : Type}

/-- What can happen next. -/
inductive Op
  /-- The core works on other things; its progress tracker may change, its configuration not. -/
  | core (tracker : ProgressTracker)
  | commit (index : ℕ)
  | append (entries : List Entry)
  | setHardState (hs : HardState)
  | sync
  | receive (maxInflight : ℕ) (snap : Snapshot)
  | persist
  | install
  | restore
  | apply (lastIndex : ℕ)
  | takeSnapshot (data : Bytes)
  | restart (maxInflight : ℕ) (durable : Option (ℕ × ℕ))

/-- The steps of the node `nodeId` along the committed log `history`. -/
inductive Step [MembershipStorage σ] (nodeId : ℕ) (intact : Entry → Bool) (history : ℕ → Entry) :
    Replica σ → Op → Replica σ → Prop
  | core (r : Replica σ) (t : ProgressTracker) (ht : t.Sound) (hc : t.conf = r.processor.tracker.conf) :
      Step nodeId intact history r (.core t) { r with processor := { r.processor with tracker := t } }
  | commit (r : Replica σ) (i : ℕ) (h : r.committed ≤ i) :
      Step nodeId intact history r (.commit i) { r with committed := i }
  | append (r : Replica σ) (es : List Entry) (s : σ)
      (h : WritableStorage.append r.processor.storage es = .ok s) :
      Step nodeId intact history r (.append es) { r with processor := { r.processor with storage := s } }
  -- the commit index of a hard state only grows
  | setHardState (r : Replica σ) (hs : HardState) (rs : RaftState) (s : σ)
      (hrs : Storage.initialState r.processor.storage = .ok rs) (hle : rs.hardState.commit ≤ hs.commit)
      (h : WritableStorage.setHardState r.processor.storage hs = .ok s) :
      Step nodeId intact history r (.setHardState hs)
        { r with processor := { r.processor with storage := s } }
  | sync (r : Replica σ) : Step nodeId intact history r .sync { r with processor := r.processor.sync }
  -- `Raft.restoreSnapshot`: the core takes over the configuration at once
  | receive (r : Replica σ) (k : ℕ) (snap : Snapshot) (t : ProgressTracker)
      (hu : r.incoming.underway = false) (hle : r.committed ≤ snap.metadata.index)
      (ht : ConfRestore.restore (ProgressTracker.init k) (snap.metadata.index + 1)
        snap.metadata.confState = .ok t) :
      Step nodeId intact history r (.receive k snap) { r with
        processor := { r.processor with tracker := t }
        committed := snap.metadata.index
        incoming := .accepted snap }
  | persist (r : Replica σ) (snap : Snapshot) (p : ReadyProcessor σ) (m : Option ClusterMembership)
      (hi : r.incoming = .accepted snap) (h : r.processor.persistSnapshot snap = .ok (p, m)) :
      Step nodeId intact history r .persist
        { r with processor := p, incoming := .persisted snap m, reached := snap.metadata.index }
  | install (r : Replica σ) (snap : Snapshot) (m : Option ClusterMembership)
      (hi : r.incoming = .persisted snap m) :
      Step nodeId intact history r .install
        { r with processor := r.processor.installSnapshot snap m, incoming := .installed snap }
  | restore (r : Replica σ) (snap : Snapshot) (hi : r.incoming = .installed snap) :
      Step nodeId intact history r .restore
        { r with processor := r.processor.restoreSnapshot snap, incoming := .none }
  -- The hard state of a batch is written before its entries are applied.  A batch with a
  -- configuration entry is worked off before the core sees another message, so that older entries
  -- that are applied while a snapshot is on its way are for the application.
  | apply (r : Replica σ) (last : ℕ) (rs : RaftState) (p : ReadyProcessor σ)
      (hc : r.processor.appliedIndex < r.committed) (hlast : r.processor.appliedIndex < last)
      (hrs : Storage.initialState r.processor.storage = .ok rs)
      (hs : r.processor.appliedIndex < rs.hardState.commit)
      (hi : ∀ snap, r.incoming.snapshot = some snap →
        (history (r.processor.appliedIndex + 1)).isConf = false ∧
          r.processor.appliedIndex < snap.metadata.index)
      (h : r.processor.applyCommitted intact last (history (r.processor.appliedIndex + 1)) = .ok p) :
      Step nodeId intact history r (.apply last)
        { r with processor := p, reached := max r.reached p.appliedIndex }
  | takeSnapshot (r : Replica σ) (data : Bytes) (p : ReadyProcessor σ)
      (h : r.processor.takeSnapshotImpl data = .ok p) :
      Step nodeId intact history r (.takeSnapshot data) { r with processor := p }
  -- a crash at any point, and a restart from what is durable
  | restart (r : Replica σ) (k : ℕ) (durable : Option (ℕ × ℕ)) (rs : RaftState) (p : ReadyProcessor σ)
      (hd : ∀ d ∈ durable, d.1 ≤ r.processor.appliedIndex)
      (hrs : Storage.initialState r.processor.durable = .ok rs)
      (h : Raftor.restart nodeId k durable r.processor.durable = .ok p) :
      Step nodeId intact history r (.restart k durable)
        ⟨p, rs.hardState.commit, .none, r.reached⟩

/-- Any number of steps. -/
abbrev Steps [MembershipStorage σ] (nodeId : ℕ) (intact : Entry → Bool) (history : ℕ → Entry) :
    Replica σ → Replica σ → Prop :=
  Relation.ReflTransGen fun r r' => ∃ op, Step nodeId intact history r op r'

/-! ### Scripts -/

variable [MembershipStorage σ] (nodeId : ℕ) (intact : Entry → Bool) (history : ℕ → Entry)

/-- Carry out a step on a node that receives no snapshot. -/
def exec (r : Replica σ) : Op → Except Err (Replica σ)
  | .commit i => if r.committed ≤ i then .ok { r with committed := i } else .error .fatal
  | .append es => do
      let s ← WritableStorage.append r.processor.storage es
      return { r with processor := { r.processor with storage := s } }
  | .setHardState hs => do
      let rs ← Storage.initialState r.processor.storage
      ensure (rs.hardState.commit ≤ hs.commit) .fatal
      let s ← WritableStorage.setHardState r.processor.storage hs
      return { r with processor := { r.processor with storage := s } }
  | .sync => .ok { r with processor := r.processor.sync }
  | .apply last => do
      let rs ← Storage.initialState r.processor.storage
      ensure (r.processor.appliedIndex < r.committed ∧ r.processor.appliedIndex < last ∧
        r.processor.appliedIndex < rs.hardState.commit ∧ r.incoming = .none) .fatal
      let p ← r.processor.applyCommitted intact last (history (r.processor.appliedIndex + 1))
      return { r with processor := p, reached := max r.reached p.appliedIndex }
  | .takeSnapshot data => do
      let p ← r.processor.takeSnapshotImpl data
      return { r with processor := p }
  | .restart k durable => do
      let rs ← Storage.initialState r.processor.durable
      ensure (∀ d ∈ durable, d.1 ≤ r.processor.appliedIndex) .fatal
      let p ← Raftor.restart nodeId k durable r.processor.durable
      return ⟨p, rs.hardState.commit, .none, r.reached⟩
  | _ => .error .fatal

/-- Carry out a script. -/
def play : List Op → Replica σ → Except Err (Replica σ)
  | [], r => .ok r
  | op :: ops, r => do
      let r ← exec nodeId intact history r op
      play ops r

variable {nodeId intact history}

theorem exec_step {r r' : Replica σ} {op : Op} (h : exec nodeId intact history r op = .ok r') :
    Step nodeId intact history r op r' := by
  cases op with
  | commit i =>
      unfold exec at h
      dsimp only at h
      split at h
      · rename_i hi
        cases h
        exact .commit r i hi
      · cases h
  | append es =>
      obtain ⟨s, hs, h⟩ := bind_eq_ok.mp h
      cases h
      exact .append r es s hs
  | setHardState hs =>
      obtain ⟨rs, hrs, h⟩ := bind_eq_ok.mp h
      obtain ⟨_, hle, h⟩ := bind_eq_ok.mp h
      obtain ⟨s, hset, h⟩ := bind_eq_ok.mp h
      cases h
      exact .setHardState r hs rs s hrs (ensure_eq_ok.mp hle) hset
  | sync =>
      cases h
      exact .sync r
  | apply last =>
      obtain ⟨rs, hrs, h⟩ := bind_eq_ok.mp h
      obtain ⟨_, hguard, h⟩ := bind_eq_ok.mp h
      obtain ⟨p, hp, h⟩ := bind_eq_ok.mp h
      cases h
      obtain ⟨h1, h2, h3, h4⟩ := ensure_eq_ok.mp hguard
      refine .apply r last rs p h1 h2 hrs h3 (fun snap hsnap => ?_) hp
      rw [h4] at hsnap
      cases hsnap
  | takeSnapshot data =>
      obtain ⟨p, hp, h⟩ := bind_eq_ok.mp h
      cases h
      exact .takeSnapshot r data p hp
  | restart k durable =>
      obtain ⟨rs, hrs, h⟩ := bind_eq_ok.mp h
      obtain ⟨_, hd, h⟩ := bind_eq_ok.mp h
      obtain ⟨p, hp, h⟩ := bind_eq_ok.mp h
      cases h
      exact .restart r k durable rs p (ensure_eq_ok.mp hd) hrs hp
  | _ => cases h

theorem play_steps {ops : List Op} {r r' : Replica σ} (h : play nodeId intact history ops r = .ok r') :
    Steps nodeId intact history r r' := by
  induction ops generalizing r with
  | nil =>
      cases h
      exact .refl
  | cons op ops ih =>
      obtain ⟨r1, h1, h⟩ := bind_eq_ok.mp h
      exact .head ⟨op, exec_step h1⟩ (ih h)

end Replica

end Raftz
