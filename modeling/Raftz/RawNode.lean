import Raftz.Raft.Step

/-! # The node driver

`RawNode` of `raw_node.zig`: it wraps the consensus state machine and hands its
effects out in batches (`Ready`).  The application persists a batch, sends its
messages, applies its committed entries and reports back (`advance` and its
parts, or `advanceAppendAsync` followed later by `onPersistReady`). -/

open Base

namespace Raftz

/-- Committed entries and messages of a batch. -/
structure LightReady where
  commitIndex : Option ℕ := none
  committedEntries : List Entry := []
  messages : List Message := []
  deriving DecidableEq, Repr

/-- A batch of effects. -/
structure Ready where
  number : ℕ := 0
  ss : Option SoftState := none
  hs : Option HardState := none
  readStates : List ReadState := []
  entries : List Entry := []
  snapshot : Option Snapshot := none
  isPersistedMsg : Bool := false
  light : LightReady := {}
  mustSync : Bool := false
  deriving DecidableEq, Repr

/-- Messages that may be dispatched before the batch is durable. -/
def Ready.messages (rd : Ready) : List Message := if rd.isPersistedMsg then [] else rd.light.messages

/-- Messages that must wait until the batch is durable. -/
def Ready.persistedMessages (rd : Ready) : List Message :=
  if rd.isPersistedMsg then rd.light.messages else []

/-- What a batch persists: position of its last entry and of its snapshot. -/
structure ReadyRecord where
  number : ℕ
  lastEntry : Option (ℕ × ℕ) := none
  snapshot : Option (ℕ × ℕ) := none
  deriving DecidableEq, Repr

/-- The consensus state machine with the bookkeeping of the batches. -/
structure RawNode (σ : Type) where
  raft : Raft σ
  prevSs : SoftState
  prevHs : HardState
  maxNumber : ℕ
  records : List ReadyRecord
  commitSinceIndex : ℕ

namespace RawNode

variable {σ : Type}

/-- Run a computation of the consensus state machine. -/
def onRaft {α : Type} (x : RaftM σ α) : Act Err (RawNode σ) α :=
  Act.zoom raft (fun n r => { n with raft := r }) x

variable [Storage σ]

/-- Start a node from a storage. -/
def init (config : Config) (prng : List ℕ) (store : σ) : Outcome Err Unit (RawNode σ) :=
  match Raft.init config prng store with
  | .ok r _ => .ok {
      raft := r
      prevSs := r.softState
      prevHs := r.hardState
      maxNumber := 0
      records := []
      commitSinceIndex := config.applied } ()
  | .err e _ => .err e ()
  | .panic => .panic

theorem init_cases {config : Config} {prng : List ℕ} {store : σ} {n : RawNode σ}
    (h : init config prng store = .ok n ()) :
    Raft.init config prng store = .ok n.raft () ∧ n.prevHs = n.raft.hardState ∧ n.records = [] ∧
      n.commitSinceIndex = config.applied := by
  unfold init at h
  split at h
  · rename_i r _ hr
    cases h
    exact ⟨hr, rfl, rfl, rfl⟩
  · cases h
  · cases h

/-! ### Inputs -/

/-- Messages a node sends only to itself. -/
def isLocalMessage : MessageType → Bool
  | .hup | .beat | .unreachablePeer | .snapStatus | .checkQuorum => true
  | _ => false

/-- Answers to a message of the node. -/
def isResponseMessage : MessageType → Bool
  | .appendResponse | .requestVoteResponse | .heartbeatResponse | .unreachablePeer
  | .requestPreVoteResponse => true
  | _ => false

/-- Process a message from the network. -/
def step (m : Message) : Act Err (RawNode σ) Unit := do
  let n ← Act.get
  if isLocalMessage m.msgType then Act.throw .stepLocalMsg
  else if n.raft.progressTracker.contains m.sender = true ∨ isResponseMessage m.msgType = false then
    onRaft (Raft.step m)
  else Act.throw .stepPeerNotFound

/-- Advance time. -/
def tick : Act Err (RawNode σ) Bool := onRaft Raft.tick
/-- Send heartbeats out of turn. -/
def ping : Act Err (RawNode σ) Unit := onRaft Raft.ping
/-- Ask the leader for a snapshot. -/
def requestSnapshot : Act Err (RawNode σ) Unit := onRaft Raft.requestSnapshot

/-- Hand the leadership to another node. -/
def transferLeader (transferee : ℕ) : Act Err (RawNode σ) Unit :=
  onRaft (Raft.step { msgType := .transferLeader, sender := transferee })

/-- Report a peer as unreachable. -/
def reportUnreachable (id : ℕ) : Act Err (RawNode σ) Unit :=
  onRaft (Raft.step { msgType := .unreachablePeer, sender := id })

/-- Report how a snapshot transfer ended. -/
def reportSnapshot (id : ℕ) (failure : Bool) : Act Err (RawNode σ) Unit :=
  onRaft (Raft.step { msgType := .snapStatus, sender := id, reject := failure })

/-- Request a linearizable read. -/
def readIndex (ctx : Bytes) : Act Err (RawNode σ) Unit :=
  onRaft (Raft.step { msgType := .readIndex, entries := [{ data := ctx }] })

/-- Start an election. -/
def campaign : Act Err (RawNode σ) Unit := onRaft (Raft.step { msgType := .hup })

/-- Propose entries. -/
def proposeEntries (entries : List Entry) : Act Err (RawNode σ) Unit := do
  let n ← Act.get
  onRaft (Raft.step { msgType := .propose, sender := n.raft.id, entries := entries })

/-- Propose a payload. -/
def propose (ctx data : Bytes) : Act Err (RawNode σ) Unit :=
  proposeEntries [{ data := data, context := ctx }]

/-- Propose several payloads at once. -/
def proposeBatch (proposals : List (Bytes × Bytes)) : Act Err (RawNode σ) Unit :=
  Act.when (proposals ≠ [])
    (proposeEntries (proposals.map (fun p => { data := p.2, context := p.1 })))

/-- Propose a configuration change. -/
def proposeConfChange (ctx : Bytes) (cc : ConfChangeV2) : Act Err (RawNode σ) Unit := do
  let bytes ← Act.query (fun _ => encodeConfChangeV2 cc)
  proposeEntries [{ entryType := .confChangeV2, data := bytes, context := ctx }]

/-- Apply a committed configuration change. -/
def applyConfChange (cc : ConfChangeV2) : Act Err (RawNode σ) ConfState :=
  onRaft (Raft.applyConfChange cc)

/-! ### Batches -/

/-- Is there something to hand out? -/
def hasReady (n : RawNode σ) : Bool :=
  !n.raft.messages.isEmpty || n.raft.softState != n.prevSs || n.raft.hardState != n.prevHs ||
    !n.raft.readStates.isEmpty || !n.raft.raftLog.unstable.entries.isEmpty ||
    (match n.raft.raftLog.unstable.snapshot with
      | some s => decide (0 < s.metadata.index)
      | none => false) ||
    n.raft.raftLog.hasNextEntriesSince n.commitSinceIndex

/-- Note which entries have been handed out. -/
def noteHandedOut (since : ℕ) (ents : List Entry) : Act Err (RawNode σ) Unit := do
  match ents.getLast? with
  | some last => do
      Act.assert (since < last.index)
      Act.modify (fun n => { n with commitSinceIndex := last.index })
  | none => Act.modify (fun n => { n with commitSinceIndex := since })

/-- Hand out the committed entries after `since` and the queued messages. -/
def getLightReadySince (since : ℕ) : Act Err (RawNode σ) LightReady := do
  let n ← Act.get
  let next ← onRaft (Raft.onLog
    (RaftLog.nextEntriesSince since (some n.raft.knobs.maxCommittedSizePerReady)))
  let ents := next.getD []
  Act.modify (fun n => { n with raft := { n.raft with messages := [] } })
  onRaft (Raft.reduceUncommittedSize ents)
  noteHandedOut since ents
  return { committedEntries := ents, messages := n.raft.messages }

/-- A pending snapshot with a position. -/
def pendingSnapshot (n : RawNode σ) : Option Snapshot :=
  n.raft.raftLog.unstable.snapshot.filter (fun s => decide (0 < s.metadata.index))

/-- The position from which committed entries are handed out next: a snapshot moves it forward. -/
def handOutFrom (n : RawNode σ) : Act Err (RawNode σ) ℕ :=
  match n.pendingSnapshot with
  | some s => do
      Act.assert (n.commitSinceIndex ≤ s.metadata.index)
      Act.assert (!n.raft.raftLog.hasNextEntriesSince s.metadata.index)
      return s.metadata.index
  | none => return n.commitSinceIndex

/-- Collect the effects since the last batch.  When the committed entries cannot be read, nothing
is handed out: the read states are put back. -/
def getReady : Act Err (RawNode σ) Ready := do
  let n ← Act.get
  let hs := n.raft.hardState
  let entries := n.raft.raftLog.unstable.entries
  let number := n.maxNumber + 1
  Act.modify (fun n => { n with raft := { n.raft with readStates := [] } })
  let since ← handOutFrom n
  let light ← Act.catchErr (getLightReadySince since) (fun e => do
    Act.modify (fun n' => { n' with raft := { n'.raft with readStates := n.raft.readStates } })
    Act.throw e)
  let record : ReadyRecord := {
    number := number
    lastEntry := entries.getLast?.map (fun e => (e.index, e.term))
    snapshot := n.pendingSnapshot.map (fun s => (s.metadata.index, s.metadata.term)) }
  -- records of batches from before the leadership can no longer be matched
  Act.modify (fun n' => { n' with
    maxNumber := number
    records := (if n.prevSs.role ≠ .leader ∧ n.raft.state = .leader then [] else n'.records) ++
      [record] })
  return {
    number := number
    ss := if n.raft.softState = n.prevSs then none else some n.raft.softState
    hs := if hs = n.prevHs then none else some hs
    readStates := n.raft.readStates
    entries := entries
    snapshot := n.pendingSnapshot
    isPersistedMsg := decide (n.raft.state ≠ .leader)
    light := light
    mustSync := decide (hs.vote ≠ n.prevHs.vote ∨ hs.term ≠ n.prevHs.term) ||
      n.pendingSnapshot.isSome || !entries.isEmpty }

/-- The snapshot of a batch is in the storage. -/
def stabilizeSnapshot (record : ReadyRecord) : Act Err (RawNode σ) Unit := do
  match record.snapshot with
  | some s => onRaft (Raft.onLog (RaftLog.stableSnapshot s.1))
  | none => pure ()

/-- The entries of a batch are in the storage. -/
def stabilizeEntries (record : ReadyRecord) : Act Err (RawNode σ) Unit := do
  match record.lastEntry with
  | some e => onRaft (Raft.onLog (RaftLog.stableEntries e.1 e.2))
  | none => pure ()

/-- The batch has been written to the storage. -/
def commitReady (rd : Ready) : Act Err (RawNode σ) Unit := do
  Act.modify (fun n => { n with prevSs := rd.ss.getD n.prevSs, prevHs := rd.hs.getD n.prevHs })
  let n ← Act.get
  match n.records.getLast? with
  | none => Act.panic
  | some record => do
      Act.assert (record.number = rd.number)
      stabilizeSnapshot record
      stabilizeEntries record

/-- Positions persisted by the records: snapshot index and the last entry after it. -/
def persistedBy : List ReadyRecord → ℕ → ℕ × ℕ → ℕ × (ℕ × ℕ)
  | [], snapIndex, entry => (snapIndex, entry)
  | record :: records, snapIndex, entry =>
      let afterSnap := match record.snapshot with
        | some s => (s.1, (0, 0))
        | none => (snapIndex, entry)
      persistedBy records afterSnap.1 (record.lastEntry.getD afterSnap.2)

/-- The batches up to `number` are durable. -/
def onPersistReady (number : ℕ) : Act Err (RawNode σ) Unit := do
  let n ← Act.get
  let done := n.records.takeWhile (fun record => decide (record.number ≤ number))
  Act.modify (fun n => { n with
    records := n.records.dropWhile (fun record => decide (record.number ≤ number)) })
  let persisted := persistedBy done 0 (0, 0)
  Act.when (persisted.1 ≠ 0) (onRaft (Raft.onPersistSnapshot persisted.1))
  Act.when (persisted.2.1 ≠ 0)
    (Act.ignore (onRaft (Raft.onPersistEntries persisted.2.1 persisted.2.2)))

/-- The batch is durable; hand out what that made possible. -/
def advanceAppend (rd : Ready) : Act Err (RawNode σ) LightReady := do
  commitReady rd
  let n ← Act.get
  onPersistReady n.maxNumber
  let n ← Act.get
  let light ← getLightReadySince n.commitSinceIndex
  let n ← Act.get
  Act.assert (n.raft.state = .leader ∨ light.messages = [])
  let hs := n.raft.hardState
  Act.assert (n.prevHs.commit ≤ hs.commit)
  Act.modify (fun n => { n with prevHs := { n.prevHs with commit := hs.commit } })
  let n' ← Act.get
  Act.assert (hs = n'.prevHs)
  return { light with commitIndex := if n.prevHs.commit < hs.commit then some hs.commit else none }

/-- The batch has been written; its durability is reported later. -/
def advanceAppendAsync (rd : Ready) : Act Err (RawNode σ) Unit := commitReady rd

/-- The entries up to `applied` have been applied. -/
def advanceApplyTo (applied : ℕ) : Act Err (RawNode σ) Unit := onRaft (Raft.commitApply applied)

/-- All entries handed out have been applied. -/
def advanceApply : Act Err (RawNode σ) Unit := do
  let n ← Act.get
  onRaft (Raft.commitApply n.commitSinceIndex)

/-- The batch is durable and its entries have been applied. -/
def advance (rd : Ready) : Act Err (RawNode σ) LightReady := do
  let n ← Act.get
  let light ← advanceAppend rd
  advanceApplyTo n.commitSinceIndex
  return light

end RawNode

end Raftz
