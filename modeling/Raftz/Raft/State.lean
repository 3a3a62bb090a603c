import Raftz.Codec
import Raftz.ConfChanger
import Raftz.RaftLog
import Raftz.ReadOnly

/-! # The consensus state machine: state and role changes

The state of `raft.zig`, its role changes (`reset`, `becomeFollower`, ...),
appending to the own log, and queueing of outbound messages (`send`).

Methods are computations on the state (`RaftM`).  The pseudo-random generator
is a stream of draws, of which nothing is assumed.  The configuration-derived
constants are grouped in `Knobs`.  The runtime self-check `invariant.assertRaft`
is not part of the methods. -/

open Base

namespace Raftz

/-- Why a campaign is started. -/
inductive CampaignType
  | preElection
  | election
  | transfer
  deriving DecidableEq, Repr

/-- The context of vote requests in a leadership transfer: the characters `CampaignTransfer`. -/
def campaignTransfer : Bytes :=
  [0x43, 0x61, 0x6d, 0x70, 0x61, 0x69, 0x67, 0x6e, 0x54, 0x72, 0x61, 0x6e, 0x73, 0x66, 0x65, 0x72]

/-- Bounds and counters of the uncommitted tail of a leader's log. -/
structure UncommittedState where
  maxUncommittedSize : ℕ
  maxUncommittedEntries : ℕ
  uncommittedSize : ℕ := 0
  uncommittedEntries : ℕ := 0
  lastLogTailIndex : ℕ := 0
  deriving DecidableEq, Repr

namespace UncommittedState

/-- Is the uncommitted tail unbounded? -/
def isNoLimit (u : UncommittedState) : Bool :=
  u.maxUncommittedSize == maxU64 && u.maxUncommittedEntries == maxU64

/-- Total data size of the entries. -/
def dataSize (entries : List Entry) : ℕ := (entries.map (fun e => e.data.length)).sum

/-- Account for new entries; `none` when a bound would be exceeded. -/
def maybeIncreaseUncommittedSize (u : UncommittedState) (entries : List Entry) :
    Option UncommittedState :=
  if u.isNoLimit then some u
  else
    let countLimited := u.maxUncommittedEntries ≠ maxU64
    let sizeLimited := u.maxUncommittedSize ≠ maxU64
    let nextCount := u.uncommittedEntries + entries.length
    let size := dataSize entries
    if countLimited ∧ (maxU64 < nextCount ∨ u.maxUncommittedEntries < nextCount) then none
    else if sizeLimited ∧ maxU64 < size then none
    else if sizeLimited ∧ size ≠ 0 ∧ u.uncommittedSize ≠ 0 ∧
        (maxU64 < u.uncommittedSize + size ∨ u.maxUncommittedSize < u.uncommittedSize + size) then
      none
    else some { u with
      uncommittedEntries := if countLimited then nextCount else u.uncommittedEntries
      uncommittedSize := if sizeLimited then u.uncommittedSize + size else u.uncommittedSize }

/-- Account for entries handed out for application. -/
def maybeReduceUncommittedSize (u : UncommittedState) (entries : List Entry) : UncommittedState :=
  if u.isNoLimit ∨ entries = [] then u
  else
    let own := entries.filter (fun e => decide (u.lastLogTailIndex < e.index))
    { u with
      uncommittedEntries := if u.maxUncommittedEntries ≠ maxU64 then
          u.uncommittedEntries - own.length else u.uncommittedEntries
      uncommittedSize := if u.maxUncommittedSize ≠ maxU64 then
          u.uncommittedSize - dataSize own else u.uncommittedSize }

end UncommittedState

/-- Constants taken from the configuration. -/
structure Knobs where
  maxMessageSize : ℕ
  checkQuorum : Bool
  preVote : Bool
  skipBroadcastCommit : Bool
  batchAppend : Bool
  disableProposalForwarding : Bool
  heartbeatTimeout : ℕ
  electionTimeout : ℕ
  minElectionTimeout : ℕ
  maxElectionTimeout : ℕ
  maxCommittedSizePerReady : ℕ
  deriving DecidableEq, Repr

/-- The state of a consensus node. -/
structure Raft (σ : Type) where
  id : ℕ
  term : ℕ
  vote : ℕ
  state : StateRole
  leaderId : ℕ
  leadTransferee : Option ℕ
  promotable : Bool
  raftLog : RaftLog σ
  progressTracker : ProgressTracker
  readOnly : ReadOnly
  readStates : List ReadState
  pendingReadIndexMessages : List Message
  messages : List Message
  knobs : Knobs
  electionElapsed : ℕ
  heartbeatElapsed : ℕ
  randomizedElectionTimeout : ℕ
  pendingConfIndex : ℕ
  pendingRequestSnapshot : ℕ
  priority : ℤ
  uncommittedState : UncommittedState
  /-- The draws of the pseudo-random generator that are still to come. -/
  prng : List ℕ
  config : Config

/-- Computations of a consensus node. -/
abbrev RaftM (σ : Type) := Act Err (Raft σ)

namespace Raft

variable {σ : Type}

/-- The state to persist. -/
def hardState (r : Raft σ) : HardState := ⟨r.term, r.vote, r.raftLog.committed⟩

/-- The volatile status. -/
def softState (r : Raft σ) : SoftState := ⟨r.leaderId, r.state⟩

/-- Run a computation of the log. -/
def onLog {α : Type} (x : Act Err (RaftLog σ) α) : RaftM σ α :=
  Act.zoom raftLog (fun r l => { r with raftLog := l }) x

/-- Replace the progress of a peer. -/
def setProgress (id : ℕ) (p : Progress) : RaftM σ Unit :=
  Act.modify (fun r => { r with progressTracker := r.progressTracker.set id p })

/-- The next randomized election timeout. -/
def resetRandomizedElectionTimeout (r : Raft σ) : Raft σ :=
  let lo := r.knobs.minElectionTimeout
  let hi := r.knobs.maxElectionTimeout
  let span := if lo < hi then hi - lo else 1
  { r with
    randomizedElectionTimeout := lo + r.prng.headD 0 % span
    prng := r.prng.tail }

/-- Give up a leadership transfer. -/
def abortLeaderTransfer (r : Raft σ) : Raft σ := { r with leadTransferee := none }

/-- Does a proposed configuration change wait to be applied? -/
def hasPendingConf (r : Raft σ) : Bool := decide (r.raftLog.applied < r.pendingConfIndex)

/-- Is a commit broadcast at once? -/
def shouldBroadcastCommit (r : Raft σ) : Bool := !r.knobs.skipBroadcastCommit || r.hasPendingConf

/-! ### Outbound messages -/

/-- Vote requests and their responses. -/
def isVoteMessage : MessageType → Bool
  | .requestPreVote | .requestPreVoteResponse | .requestVote | .requestVoteResponse => true
  | _ => false

/-- The message as it is queued: sender, term and priority are filled in.  A vote message without
a term and any other message with one are refused. -/
def stamp (r : Raft σ) (m : Message) : Option Message :=
  let m := if m.sender = invalidId then { m with sender := r.id } else m
  if isVoteMessage m.msgType then
    if m.term = 0 then none
    else if m.msgType = .requestVote ∨ m.msgType = .requestPreVote then
      some { m with priority := r.priority }
    else some m
  else if m.term ≠ 0 then none
  else if m.msgType = .propose ∨ m.msgType = .readIndex then some m
  else some { m with term := r.term }

/-- Queue a message. -/
def send (m : Message) : RaftM σ Unit := do
  let r ← Act.get
  let m ← Act.orPanic (r.stamp m)
  Act.modify (fun r => { r with messages := r.messages ++ [m] })

variable [Storage σ]

/-! ### Role changes -/

/-- Start a term, or restart the current one, without a role. -/
def reset (r : Raft σ) (term : ℕ) : Raft σ :=
  let r := if r.term ≠ term then { r with term := term, vote := invalidId } else r
  let r := { r with leaderId := invalidId }
  let r := r.resetRandomizedElectionTimeout
  let r := { r with electionElapsed := 0, heartbeatElapsed := 0 }
  let r := r.abortLeaderTransfer
  let lastIndex := r.raftLog.lastIndex
  let progress := mapVals (fun _ p => p.reset (lastIndex + 1)) r.progressTracker.progress
  let progress := match progress.lookup r.id with
    | some p => progress.insert r.id
        { p with matched := r.raftLog.persisted, committedIndex := r.raftLog.committed }
    | none => progress
  { r with
    progressTracker := { r.progressTracker.resetVotes with progress := progress }
    pendingConfIndex := 0
    readOnly := ReadOnly.init r.readOnly.option
    pendingReadIndexMessages := []
    pendingRequestSnapshot := invalidIndex }

/-- A reset clears the progress of all peers but keeps what is known of the own log. -/
theorem reset_get (r : Raft σ) (t v : ℕ) :
    (r.reset t).progressTracker.get v = if v = r.id then
      (r.progressTracker.get v).map (fun p => { p.reset (r.raftLog.lastIndex + 1) with
        matched := r.raftLog.persisted, committedIndex := r.raftLog.committed })
      else (r.progressTracker.get v).map (fun p => p.reset (r.raftLog.lastIndex + 1)) := by
  have hfields : (r.reset t).progressTracker.progress =
      match (mapVals (fun _ p => p.reset (r.raftLog.lastIndex + 1))
        r.progressTracker.progress).lookup r.id with
      | some p => (mapVals (fun _ p => p.reset (r.raftLog.lastIndex + 1))
          r.progressTracker.progress).insert r.id
          { p with matched := r.raftLog.persisted, committedIndex := r.raftLog.committed }
      | none => mapVals (fun _ p => p.reset (r.raftLog.lastIndex + 1))
          r.progressTracker.progress := by
    unfold reset
    by_cases ht : r.term ≠ t
    · rw [if_pos ht]
      rfl
    · rw [if_neg ht]
      rfl
  unfold ProgressTracker.get
  rw [hfields, lookup_mapVals]
  cases hp : r.progressTracker.progress.lookup r.id with
  | none =>
      dsimp only [Option.map_none]
      rw [lookup_mapVals]
      split
      · rename_i hv
        rw [hv, hp]
        rfl
      · rfl
  | some p =>
      dsimp only [Option.map_some]
      rw [lookup_insert_eq]
      split
      · rename_i hv
        rw [hv, hp]
        rfl
      · rw [lookup_mapVals]

/-- Follow a leader (or none) in a term. -/
def becomeFollower (term leaderId : ℕ) : RaftM σ Unit :=
  Act.modify (fun r =>
    let pendingRequestSnapshot := r.pendingRequestSnapshot
    let r := r.reset term
    { r with
      leaderId := leaderId
      state := .follower
      pendingRequestSnapshot := pendingRequestSnapshot
      raftLog := { r.raftLog with maxApplyUnpersistedLogLimit := 0 } })

/-- Ask for votes without starting a term. -/
def becomePreCandidate : RaftM σ Unit := do
  let r ← Act.get
  Act.assert (r.state ≠ .leader)
  Act.modify (fun r => { r with
    state := .preCandidate
    progressTracker := r.progressTracker.resetVotes
    leaderId := invalidId })

/-- Start the next term as a candidate. -/
def becomeCandidate : RaftM σ Unit := do
  let r ← Act.get
  Act.assert (r.state ≠ .leader)
  Act.modify (fun r =>
    let r := r.reset (r.term + 1)
    { r with
      vote := r.id
      state := .candidate
      promotable := r.progressTracker.conf.voters.contains r.id })

/-! ### The own log -/

/-- The entries with the current term and the next indexes. -/
def retag (term : ℕ) : ℕ → List Entry → List Entry
  | _, [] => []
  | index, e :: es => { e with term := term, index := index } :: retag term (index + 1) es

/-- Append own entries; `false` when the uncommitted tail is full. -/
def appendEntry (entries : List Entry) : RaftM σ Bool := do
  if entries = [] then return true
  else do
    let r ← Act.get
    let lastIndex := r.raftLog.lastIndex
    if maxU64 ≤ lastIndex + entries.length then Act.throw .fatal
    else
      match r.uncommittedState.maybeIncreaseUncommittedSize entries with
      | none => return false
      | some u => do
          Act.modify (fun r => { r with uncommittedState := u })
          let _ ← Act.catchErr (onLog (RaftLog.append (retag r.term (lastIndex + 1) entries)))
            (fun e => do
              Act.modify (fun r' => { r' with uncommittedState := { r'.uncommittedState with
                uncommittedSize := r.uncommittedState.uncommittedSize
                uncommittedEntries := r.uncommittedState.uncommittedEntries } })
              Act.throw e)
          return true

/-- Lead the current term; an empty entry of the term is appended at once. -/
def becomeLeader : RaftM σ Unit := do
  let r ← Act.get
  Act.assert (r.state ≠ .follower)
  Act.modify (fun r =>
    let r := r.reset r.term
    let lastIndex := r.raftLog.lastIndex
    let tracker := match r.progressTracker.get r.id with
      | some p => r.progressTracker.set r.id p.becomeReplicate
      | none => r.progressTracker
    { r with
      leaderId := r.id
      state := .leader
      uncommittedState := { r.uncommittedState with
        uncommittedSize := 0
        uncommittedEntries := 0
        lastLogTailIndex := lastIndex }
      progressTracker := tracker
      pendingConfIndex := lastIndex })
  let appended ← appendEntry [{}]
  Act.assert appended

/-- Account for entries handed out for application. -/
def reduceUncommittedSize (ents : List Entry) : RaftM σ Unit :=
  Act.modify (fun r => if r.state = .leader then
    { r with uncommittedState := r.uncommittedState.maybeReduceUncommittedSize ents } else r)

end Raft

end Raftz
