import Mathlib.Algebra.GroupWithZero.Nat
import Mathlib.Data.Int.Notation
import Mathlib.Tactic.Common

/-! # Wire and in-memory types

The data types of `core/types.zig`, `core/state_role.zig`, `core/error.zig` and
`raft_config.zig`, and the entry helpers of `core/util.zig`.  Unsigned integers
are natural numbers; where the source compares with or guards against the
largest `u64`, the comparison is written out with `maxU64`.  Byte slices are
lists of bytes. -/

namespace Raftz

/-- The largest `u64`. -/
def maxU64 : ℕ := 2 ^ 64 - 1

/-- `x -% 1` on `u64`. -/
def wrapPred (x : ℕ) : ℕ := if x = 0 then maxU64 else x - 1

@[simp] theorem wrapPred_succ (n : ℕ) : wrapPred (n + 1) = n := rfl

abbrev Bytes := List UInt8

/-- Sentinel for an unknown or invalid log index. -/
def invalidIndex : ℕ := 0
/-- Sentinel for an unknown or invalid node id. -/
def invalidId : ℕ := 0

/-- The errors the modelled functions report. -/
inductive Err
  | compacted
  | unavailable
  | logTemporarilyUnavailable
  | snapshotOutOfDate
  | snapshotTemporarilyUnavailable
  | zeroEntriesInSlice
  | stepLocalMsg
  | stepPeerNotFound
  | proposalDropped
  | requestSnapshotDropped
  | learnersNextMustBeEmpty
  | autoLeaveMustBeFalse
  | configAlreadyJoint
  | zeroVoterConfigJoint
  | leaveNonJointConfig
  | removedAllVoters
  | cannotApplySimpleInJointConfig
  | multipleVotersChangedWithoutJoint
  | confChangeError
  | invalidNodeId
  | heartbeatTickTooSmall
  | electionTickTooSmall
  | maxInflightMessagesTooSmall
  | leaseBasedReadRequiresCheckQuorum
  | invalidConfig
  | invalidClusterMembership
  | missingClusterMembership
  | invalidMembershipIndex
  | legacySnapshotMigrationRequired
  | confChangeParseError
  | retiredNodeId
  | malformedMembershipContext
  | conflictingPeerAddress
  | missingPeerAddress
  | unexpectedPeerAddress
  | incompatibleStorage
  | nodeRetired
  | checksumMismatch
  | messageTooLarge
  | outOfMemory
  | fatal
  /-- An input or output failure of a storage back end. -/
  | storageFailed
  deriving DecidableEq, Repr

/-- Raft node role. -/
inductive StateRole
  | follower
  | candidate
  | leader
  | preCandidate
  deriving DecidableEq, Repr

/-- The non-persisted portion of the status. -/
structure SoftState where
  leaderId : ℕ
  role : StateRole
  deriving DecidableEq, Repr

/-- Raft log entry kind. -/
inductive EntryType
  | normal
  | confChange
  | confChangeV2
  deriving DecidableEq, Repr

/-- Raft message kind. -/
inductive MessageType
  | hup
  | beat
  | propose
  | append
  | appendResponse
  | requestVote
  | requestVoteResponse
  | snapshot
  | heartbeat
  | heartbeatResponse
  | unreachablePeer
  | snapStatus
  | checkQuorum
  | transferLeader
  | timeoutNow
  | readIndex
  | readIndexResp
  | requestPreVote
  | requestPreVoteResponse
  deriving DecidableEq, Repr

/-- Configuration change operation. -/
inductive ConfChangeType
  | addNode
  | removeNode
  | addLearnerNode
  | updateNode
  deriving DecidableEq, Repr

/-- Strategy for entering joint consensus. -/
inductive ConfChangeTransition
  | auto
  | implicit
  | explicit
  deriving DecidableEq, Repr

/-- A single log entry. -/
structure Entry where
  entryType : EntryType := .normal
  term : ℕ := 0
  index : ℕ := 0
  data : Bytes := []
  context : Bytes := []
  checksum : ℕ := 0
  deriving DecidableEq, Repr, Inhabited

/-- Is the entry a configuration change (of either version)? -/
def Entry.isConf (e : Entry) : Bool := e.entryType == .confChange || e.entryType == .confChangeV2

/-- The state that survives restarts: term, vote and commit index. -/
structure HardState where
  term : ℕ := 0
  vote : ℕ := 0
  commit : ℕ := 0
  deriving DecidableEq, Repr, Inhabited

/-- No term, vote or commit has been recorded. -/
def HardState.isEmpty (hs : HardState) : Bool := hs.term == 0 && hs.vote == 0 && hs.commit == 0

/-- Cluster membership configuration. -/
structure ConfState where
  voters : List ℕ := []
  learners : List ℕ := []
  votersOutgoing : List ℕ := []
  learnersNext : List ℕ := []
  autoLeave : Bool := false
  deriving DecidableEq, Repr, Inhabited

/-- Position of a snapshot and the active configuration. -/
structure SnapshotMetadata where
  index : ℕ := 0
  term : ℕ := 0
  confState : ConfState := {}
  deriving DecidableEq, Repr, Inhabited

/-- An opaque state-machine image with its metadata. -/
structure Snapshot where
  membership : Bytes := []
  data : Bytes := []
  metadata : SnapshotMetadata := {}
  deriving DecidableEq, Repr, Inhabited

/-- A single configuration change operation. -/
structure ConfChangeSingle where
  changeType : ConfChangeType := .addNode
  nodeId : ℕ := 0
  deriving DecidableEq, Repr

/-- A membership change: simple or joint. -/
structure ConfChangeV2 where
  transition : ConfChangeTransition := .auto
  changes : List ConfChangeSingle := []
  context : Bytes := []
  deriving DecidableEq, Repr

/-- The unit exchanged between nodes (`dest` and `sender` are the source's `to` and `from`). -/
structure Message where
  msgType : MessageType := .hup
  dest : ℕ := 0
  sender : ℕ := 0
  term : ℕ := 0
  logTerm : ℕ := 0
  index : ℕ := 0
  entries : List Entry := []
  commit : ℕ := 0
  commitTerm : ℕ := 0
  snapshot : Option Snapshot := none
  requestSnapshot : ℕ := 0
  reject : Bool := false
  rejectHint : ℕ := 0
  context : Bytes := []
  priority : ℤ := 0
  deriving DecidableEq, Repr, Inhabited

/-- Why entries are fetched. -/
inductive GetEntriesContext
  | sendAppend (dest term : ℕ) (aggressively : Bool)
  | genReady
  | transferLeader
  | commitByVote
  | empty (canAsync : Bool)
  deriving DecidableEq, Repr

/-! ### Entry helpers -/

/-- Fixed overhead of an entry in the size estimate. -/
def entryMessageOverhead : ℕ := 12

/-- Approximate serialized size of an entry. -/
def entryApproximateSize (e : Entry) : ℕ := e.data.length + e.context.length + entryMessageOverhead

/-- The entries after the first that fit when `total` bytes are used already. -/
def limitRest (cap : ℕ) : ℕ → List Entry → List Entry
  | _, [] => []
  | total, e :: es =>
      if total + entryApproximateSize e > cap then []
      else e :: limitRest cap (total + entryApproximateSize e) es

/-- Truncate so that the total size stays at or below `max`, keeping at least one entry. -/
def limitSize (entries : List Entry) (max : Option ℕ) : List Entry :=
  match entries, max with
  | [], _ => []
  | [e], _ => [e]
  | es, none => es
  | e :: es, some cap =>
      if cap = maxU64 then e :: es else e :: limitRest cap (entryApproximateSize e) es

theorem limitRest_isPrefix (cap total : ℕ) (es : List Entry) : limitRest cap total es <+: es := by
  induction es generalizing total with
  | nil => exact List.prefix_refl _
  | cons e es ih =>
      unfold limitRest
      split
      · exact List.nil_prefix
      · exact (List.prefix_cons_inj e).mpr (ih _)

theorem limitSize_isPrefix (es : List Entry) (max : Option ℕ) : limitSize es max <+: es := by
  unfold limitSize
  split
  · exact List.prefix_refl _
  · exact List.prefix_refl _
  · exact List.prefix_refl _
  · split
    · exact List.prefix_refl _
    · exact (List.prefix_cons_inj _).mpr (limitRest_isPrefix _ _ _)

/-- Do the entries pick up where the last entry of the message ends? -/
def isContinuousEntries (message : Message) (entries : List Entry) : Bool :=
  match message.entries.getLast?, entries with
  | some last, e :: _ => last.index + 1 == e.index
  | _, _ => true

/-! ### Configuration -/

/-- Linearizable read-index strategy. -/
inductive ReadOnlyOption
  | safe
  | leaseBased
  deriving DecidableEq, Repr

/-- A full Raft configuration. -/
structure Config where
  id : ℕ := 0
  electionTick : ℕ := 20
  heartbeatTick : ℕ := 2
  applied : ℕ := 0
  maxSizePerMessage : ℕ := 0
  maxInflightMessages : ℕ := 256
  checkQuorum : Bool := false
  preVote : Bool := false
  minElectionTick : ℕ := 0
  maxElectionTick : ℕ := 0
  readOnlyOption : ReadOnlyOption := .safe
  skipBroadcastCommit : Bool := false
  batchAppend : Bool := false
  maxUncommittedSize : ℕ := maxU64
  maxUncommittedEntries : ℕ := maxU64
  maxCommittedSizePerReady : ℕ := maxU64
  maxApplyUnpersistedLogLimit : ℕ := 0
  disableProposalForwarding : Bool := false
  loadStateOnStartup : Bool := false
  deriving DecidableEq, Repr

namespace Config

/-- Lower bound of the randomized election timeout. -/
def effMinElectionTick (c : Config) : ℕ :=
  if c.minElectionTick = 0 then c.electionTick else c.minElectionTick

/-- Upper bound of the randomized election timeout. -/
def effMaxElectionTick (c : Config) : ℕ :=
  if c.maxElectionTick = 0 then 2 * c.electionTick else c.maxElectionTick

/-- Byte limit of one append message. -/
def effectiveMaxSizePerMessage (c : Config) : ℕ :=
  if c.maxSizePerMessage = 0 then maxU64 else c.maxSizePerMessage

/-- The first violated rule of a configuration. -/
def validate (c : Config) : Except Err Unit :=
  if c.id = invalidId then .error .invalidNodeId
  else if c.heartbeatTick = 0 then .error .heartbeatTickTooSmall
  else if c.electionTick ≤ c.heartbeatTick then .error .electionTickTooSmall
  else if c.effMinElectionTick < c.electionTick then .error .invalidConfig
  else if c.effMaxElectionTick ≤ c.effMinElectionTick then .error .invalidConfig
  else if c.maxInflightMessages = 0 then .error .maxInflightMessagesTooSmall
  else if c.readOnlyOption = .leaseBased ∧ c.checkQuorum = false then
    .error .leaseBasedReadRequiresCheckQuorum
  else if c.maxUncommittedSize < c.maxSizePerMessage then .error .invalidConfig
  else if c.maxUncommittedEntries = 0 then .error .invalidConfig
  else .ok ()

end Config

end Raftz
