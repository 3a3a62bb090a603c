import Raftz.Base.Faults
import Raftz.Driver
import Raftz.ReadyProcessor
import Raftz.Requests

/-! # The phases of a batch

`ReadyProcessor` of `ready_processor.zig`: it takes a batch from the `RawNode`,
persists it, sends its messages, applies its entries and reports back, one phase
after the other, or, in asynchronous mode, stages batches and makes several of
them durable at once.

The storage may refuse calls.  The phases are made so that a call of `process`,
`flush` or `processStep` that was refused is simply repeated; calls made while a
committed entry is applied are not, as a failure there ends the node. -/

open Base

namespace Raftz

namespace Phases

/-- The phases of a batch. -/
inductive ReadyPhase
  | validate
  | persistSnapshot
  | persistEntries
  | persistHardState
  | sync
  | restoreSnapshot
  | sendMessages
  | applyCommitted
  | completeReads
  | advance
  | persistAdvancedHardState
  | syncAdvancedHardState
  | sendAdvancedMessages
  | applyAdvancedCommitted
  | advanceApply
  | advanceAppendAsync
  | awaitingFlush
  deriving DecidableEq, Repr

/-- A batch on its way through the phases. -/
structure PendingReady where
  ready : Ready
  lightReady : LightReady := {}
  snapshotMembership : Option ClusterMembership := none
  phase : ReadyPhase := .validate
  deriving DecidableEq, Repr

/-- What the processor does to the outside. -/
inductive Effect
  | restoreSnapshot (metadata : SnapshotMetadata) (data : Bytes)
  | apply (e : Entry)
  | onLeadershipChange (isLeader : Bool) (term leader : ℕ)
  | send (m : Message)
  | addPeer (id : ℕ) (address : Bytes)
  | removePeer (id : ℕ)
  | answer (a : Requests.Answer)
  deriving DecidableEq, Repr

/-- The state machine and the transport, and the checksum test of an entry. -/
structure Surroundings (μ τ : Type) where
  apply : Entry → Act Err μ (Option Bytes)
  restoreSnapshot : SnapshotMetadata → Bytes → Act Err μ Unit
  onLeadershipChange : Bool → ℕ → ℕ → μ → μ
  send : Message → Act Err τ Unit
  addPeer : ℕ → Bytes → Act Err τ Unit
  removePeer : ℕ → Act Err τ Unit
  intact : Entry → Bool

/-- The processor with its node, its state machine, its transport and its tracker.  `durable` is
the storage as the last sync left it, `effects` all that was done to the outside. -/
structure Processor (σ μ τ : Type) where
  rawNode : RawNode σ
  durable : σ
  stateMachine : μ
  transport : τ
  proposalTracker : Requests.ProposalTracker := {}
  effects : List Effect := []
  nodeId : ℕ
  appliedIndex : ℕ := 0
  clusterMembership : Option ClusterMembership := none
  membershipIndex : ℕ := 0
  prevRole : StateRole
  prevLeader : ℕ
  prevTerm : ℕ
  fatalError : Option Err := none
  fatalAfterReady : Option Err := none
  pending : Option PendingReady := none
  asyncStaged : List PendingReady := []
  asyncReady : Bool
  asyncReadyMaxInflight : ℕ
  asyncFlushRequired : Bool := false
  checksumEnabled : Bool
  durableStateMachine : Bool

/-- A new processor. -/
def Processor.init {σ μ τ : Type} (rawNode : RawNode σ) (stateMachine : μ) (transport : τ)
    (proposalTracker : Requests.ProposalTracker) (nodeId : ℕ) (checksumEnabled : Bool)
    (appliedIndex : ℕ) (membership : Option ClusterMembership) (membershipIndex : ℕ)
    (asyncReady : Bool) (asyncReadyMaxInflight : ℕ) (durableStateMachine : Bool) :
    Processor σ μ τ where
  rawNode := rawNode
  durable := rawNode.store
  stateMachine := stateMachine
  transport := transport
  proposalTracker := proposalTracker
  nodeId := nodeId
  appliedIndex := appliedIndex
  clusterMembership := membership
  membershipIndex := membershipIndex
  prevRole := rawNode.raft.softState.role
  prevLeader := rawNode.raft.softState.leaderId
  prevTerm := rawNode.raft.term
  asyncReady := asyncReady
  asyncReadyMaxInflight := asyncReadyMaxInflight
  checksumEnabled := checksumEnabled
  durableStateMachine := durableStateMachine

/-- Computations of the processor that make no calls to the storage. -/
abbrev Local (σ μ τ : Type) := Act Err (Processor σ μ τ)

/-- Computations of the processor. -/
abbrev M (σ μ τ : Type) := Faulty Err (Processor σ μ τ)

variable {σ μ τ α : Type}

/-! ### Parts of the state -/

/-- Run a computation of the node. -/
def onNode (x : Act Err (RawNode σ) α) : Local σ μ τ α :=
  Act.zoom Processor.rawNode (fun p n => { p with rawNode := n }) x

/-- Run a computation of the state machine. -/
def onMachine (x : Act Err μ α) : Local σ μ τ α :=
  Act.zoom Processor.stateMachine (fun p s => { p with stateMachine := s }) x

/-- Run a computation of the transport. -/
def onTransport (x : Act Err τ α) : Local σ μ τ α :=
  Act.zoom Processor.transport (fun p t => { p with transport := t }) x

/-- Record an effect. -/
def note (e : Effect) : Local σ μ τ Unit :=
  Act.modify (fun p => { p with effects := p.effects ++ [e] })

/-- The node cannot go on. -/
def setFatal (e : Err) : Local σ μ τ Unit := Act.modify (fun p => { p with fatalError := some e })

/-- Go to another phase. -/
def setPhase (phase : ReadyPhase) : Local σ μ τ Unit :=
  Act.modify (fun p => { p with pending := p.pending.map fun q => { q with phase := phase } })

/-! ### Requests -/

/-- Answer a proposal that is still tracked. -/
def answerProposal (ctx : Bytes) (result : Requests.RequestResult) : Local σ μ τ Unit := do
  let p ← Act.get
  match p.proposalTracker.proposals.lookup ctx with
  | none => pure ()
  | some q => do
      Act.modify (fun p => { p with proposalTracker := { p.proposalTracker with
        proposals := p.proposalTracker.proposals.erase ctx } })
      note (.answer (q.callback, result))

/-- The entry of a proposal has been applied. -/
def complete (ctx response : Bytes) : Local σ μ τ Unit := answerProposal ctx (.ok (some response))

/-- A proposal fails; an entry without a context is nobody's. -/
def failProposal (ctx : Bytes) (e : Err) : Local σ μ τ Unit :=
  Act.when (ctx ≠ []) (answerProposal ctx (.err (.raft e)))

/-- Give detached requests their answers. -/
def answerAll (answers : List Requests.Answer) : Local σ μ τ Unit :=
  Act.modify (fun p => { p with effects := p.effects ++ answers.map Effect.answer })

/-- Answer the reads that are confirmed at an applied index, in the order of the table. -/
def completeReadyReads : Local σ μ τ Unit := do
  let p ← Act.get
  let ready := p.proposalTracker.reads.entries.filter fun r =>
    match r.2.readyIndex with
    | some i => decide (i ≤ p.appliedIndex)
    | none => false
  Act.modify (fun p => { p with proposalTracker := { p.proposalTracker with
    reads := ready.foldl (fun reads r => reads.erase r.1) p.proposalTracker.reads } })
  answerAll (ready.map fun r => (r.2.callback, .ok none))

/-- Confirm reads, and answer those that can be. -/
def completeReads (readStates : List ReadState) : Local σ μ τ Unit := do
  Act.each readStates fun rs => Act.modify (fun p => { p with
    proposalTracker := p.proposalTracker.markReadReady rs.requestCtx rs.index })
  completeReadyReads

/-! ### The outside -/

variable (env : Surroundings μ τ)

section local_
variable [Storage σ]

/-- Send a message; a failure is reported to the node. -/
def sendMessage (m : Message) : Local σ μ τ Unit := do
  note (.send m)
  let sent ← Act.attempt (onTransport (env.send m))
  match sent with
  | .ok _ => pure ()
  | .error _ => do
      Act.ignore (onNode (RawNode.reportUnreachable m.dest))
      Act.when (m.msgType = .snapshot) (Act.ignore (onNode (RawNode.reportSnapshot m.dest true)))

/-- Send messages. -/
def sendMessages (messages : List Message) : Local σ μ τ Unit :=
  Act.each messages (sendMessage env)

/-- Tell the state machine who leads. -/
def tellLeadership (isLeader : Bool) (term leader : ℕ) : Local σ μ τ Unit := do
  note (.onLeadershipChange isLeader term leader)
  Act.modify (fun p => { p with
    stateMachine := env.onLeadershipChange isLeader term leader p.stateMachine })

/-- Has the leadership changed?  A node that has lost it gives up its requests. -/
def noteLeadership (ss : SoftState) (term : ℕ) : Local σ μ τ Bool := do
  let p ← Act.get
  let lost := p.prevRole = .leader ∧ ss.role ≠ .leader
  if ss.role ≠ p.prevRole ∨ ss.leaderId ≠ p.prevLeader then do
    Act.modify (fun p => { p with prevRole := ss.role, prevLeader := ss.leaderId })
    Act.when lost (Act.modify (fun p => { p with proposalTracker := {} }))
    tellLeadership env (decide (ss.role = .leader)) term ss.leaderId
    return decide lost
  else return false

/-- Note a change of the leadership, and answer the requests of a node that has lost it. -/
def checkLeadershipChange (rd : Ready) : Local σ μ τ Unit := do
  let p ← Act.get
  let term := p.rawNode.raft.term
  let lost ← match rd.ss with
    | some ss => noteLeadership env ss term
    | none => pure false
  Act.modify (fun p => { p with prevTerm := term })
  Act.when (lost = true) (answerAll (p.proposalTracker.detachAll (.raft .proposalDropped) .lostLeadership))

end local_

/-- Check the entries; a corrupt one ends the node. -/
def validateEntries (entries : List Entry) : Local σ μ τ Unit :=
  Act.each entries fun e =>
    Act.when (env.intact e = false) do
      failProposal e.context .checksumMismatch
      setFatal .checksumMismatch
      Act.throw .checksumMismatch

/-- Hand a received snapshot to the state machine. -/
def restoreSnapshot (snap : Snapshot) : Local σ μ τ Unit := do
  note (.restoreSnapshot snap.metadata snap.data)
  onMachine (env.restoreSnapshot snap.metadata snap.data)
  Act.modify (fun p => { p with appliedIndex := snap.metadata.index })
  completeReadyReads

/-- Connect to a peer. -/
def addPeer (id : ℕ) (address : Bytes) : Local σ μ τ Unit := do
  note (.addPeer id address)
  onTransport (env.addPeer id address)

/-- Disconnect from a peer. -/
def removePeer (id : ℕ) : Local σ μ τ Unit := do
  note (.removePeer id)
  onTransport (env.removePeer id)

/-- Go through the old and the new endpoints, which are sorted, side by side. -/
def reconcileTransport (self : ℕ) : List PeerEndpoint → List PeerEndpoint → Local σ μ τ Unit
  | [], [] => pure ()
  | old :: olds, [] => do
      Act.when (old.nodeId ≠ self) (removePeer env old.nodeId)
      reconcileTransport self olds []
  | [], new :: news => do
      Act.when (new.nodeId ≠ self) (addPeer env new.nodeId new.address)
      reconcileTransport self [] news
  | old :: olds, new :: news =>
      if old.nodeId < new.nodeId then do
        Act.when (old.nodeId ≠ self) (removePeer env old.nodeId)
        reconcileTransport self olds (new :: news)
      else if new.nodeId < old.nodeId then do
        Act.when (new.nodeId ≠ self) (addPeer env new.nodeId new.address)
        reconcileTransport self (old :: olds) news
      else do
        Act.when (old.nodeId ≠ self ∧ old.address ≠ new.address) do
          removePeer env old.nodeId
          addPeer env new.nodeId new.address
        reconcileTransport self olds news
  termination_by olds news => olds.length + news.length

/-- Install a membership; the transport follows it.  When it cannot, the node ends after the
batch. -/
def installMembership (membership : ClusterMembership) (membershipIndex : ℕ) : Local σ μ τ Unit := do
  let p ← Act.get
  Act.modify (fun p => { p with
    clusterMembership := some membership, membershipIndex := membershipIndex })
  let old := match p.clusterMembership with
    | some previous => previous.peers
    | none => []
  let followed ← Act.attempt (reconcileTransport env p.nodeId old membership.peers)
  match followed with
  | .ok _ => pure ()
  | .error e => Act.modify (fun p => { p with fatalAfterReady := some e })

/-- Follow a configuration change without a membership. -/
def followChange (address : Bytes) (change : ConfChangeSingle) : Local σ μ τ Unit := do
  let followed ← Act.attempt (match change.changeType with
    | .addNode | .addLearnerNode => addPeer env change.nodeId address
    | .removeNode => removePeer env change.nodeId
    | .updateNode => pure ())
  match followed with
  | .ok _ => pure ()
  | .error e => Act.modify (fun p => { p with fatalAfterReady := some e })

/-- The answer of the state machine to an entry. -/
def applyNormal (e : Entry) : Local σ μ τ Unit := do
  note (.apply e)
  let response ← onMachine (env.apply e)
  Act.modify (fun p => { p with appliedIndex := e.index })
  Act.when (e.context ≠ []) (complete e.context (response.getD []))

/-! ### Calls to the storage -/

/-- Write to the storage. -/
def write (f : σ → Except Err σ) : Local σ μ τ Unit := fun p =>
  match f p.rawNode.store with
  | .ok store => .ok () { p with rawNode := p.rawNode.setStore store }
  | .error e => .err e p

/-- Make everything written so far durable. -/
def makeDurable : Local σ μ τ Unit := Act.modify (fun p => { p with durable := p.rawNode.store })

/-- A write that is repeated after a refusal. -/
def store (f : σ → Except Err σ) : M σ μ τ Unit := do
  Faulty.refuse
  Faulty.lift (write f)

/-- A sync that is repeated after a refusal. -/
def sync : M σ μ τ Unit := do
  Faulty.refuse
  Faulty.lift makeDurable

/-- Reads of entries fail. -/
@[reducible] def failing (S : Storage σ) (e : Err) : Storage σ := { S with entries := fun _ _ _ _ _ => .error e }

/-- Take a batch from the node; the read of its committed entries may be refused. -/
def getReady [S : Storage σ] : M σ μ τ Ready :=
  Faulty.served (onNode RawNode.getReady) (fun e => onNode (@RawNode.getReady σ (failing S e)))

section calls
variable [MembershipStorage σ]

/-- Apply a configuration entry.  A refused call is an error here. -/
def applyConfEntry (e : Entry) (cc : ConfChangeV2) : M σ μ τ Unit := do
  let p ← Faulty.state
  match p.clusterMembership with
  | some membership => do
      Faulty.refuseFinal
      let previous ← Faulty.lift (Act.query fun p : Processor σ μ τ =>
        Storage.initialState p.rawNode.store)
      let applied ← Faulty.lift (onNode (RawNode.applyConfChange cc))
      let candidate ← Faulty.lift (Act.query fun _ =>
        membership.deriveClusterMembership previous.confState applied cc)
      Faulty.refuseFinal
      Faulty.lift (write fun s => MembershipStorage.setMembershipState s applied candidate e.index)
      Faulty.refuseFinal
      Faulty.lift makeDurable
      Faulty.lift (installMembership env candidate e.index)
  | none => do
      let applied ← Faulty.lift (onNode (RawNode.applyConfChange cc))
      Faulty.refuseFinal
      Faulty.lift (write fun s => WritableStorage.setConfState s applied)
      Faulty.refuseFinal
      Faulty.lift makeDurable
      Faulty.lift (Act.each cc.changes (followChange env cc.context))

/-- Apply a committed entry.  With a membership, configuration entries at or below its index are
skipped. -/
def applyEntry (e : Entry) : M σ μ τ Unit := do
  let p ← Faulty.state
  Faulty.lift (Act.when (p.checksumEnabled = true) (validateEntries env [e]))
  if e.isConf = false then Faulty.lift (applyNormal env e)
  else if p.clusterMembership ≠ none ∧ e.index ≤ p.membershipIndex then pure ()
  else
    match decodeConfChangeV2 e.data with
    | .error _ => Faulty.fail .confChangeParseError
    | .ok cc => applyConfEntry env e cc

/-- Apply a committed entry; an error ends the node. -/
def applyCommittedEntry (e : Entry) : M σ μ τ Unit := do
  Faulty.catchReported (applyEntry env e) fun err => do
    Faulty.lift (failProposal e.context err)
    Faulty.lift (setFatal err)
    Faulty.fail err
  Faulty.lift (Act.modify fun p => { p with appliedIndex := e.index })
  Faulty.lift completeReadyReads

/-- Apply committed entries. -/
def applyCommittedEntries (entries : List Entry) : M σ μ τ Unit :=
  Act.each entries (applyCommittedEntry env)

/-- The membership a persisted snapshot carries; a bad one ends the node. -/
def snapshotMembership (snap : Snapshot) : Local σ μ τ (Option ClusterMembership) :=
  if snap.membership = [] then pure none
  else
    match ClusterMembership.decode snap.membership with
    | .error _ => do
        setFatal .invalidClusterMembership
        Act.throw .invalidClusterMembership
    | .ok membership =>
        if (membership.validate snap.metadata.confState).isOk then pure (some membership)
        else do
          setFatal .invalidClusterMembership
          Act.throw .invalidClusterMembership

/-- Write a received snapshot; the membership it carries is installed later. -/
def persistSnapshot (snap : Snapshot) : M σ μ τ (Option ClusterMembership) := do
  let p ← Faulty.state
  if snap.membership = [] ∧ p.clusterMembership ≠ none then Faulty.fail .missingClusterMembership
  else do
    store fun s => WritableStorage.applySnapshot s snap
    Faulty.lift (snapshotMembership snap)

end calls

/-! ### Phases -/

/-- The snapshot of a batch, if it has a position. -/
def readySnapshot (rd : Ready) : Option Snapshot :=
  rd.snapshot.filter fun snap => decide (0 < snap.metadata.index)

/-- Does the batch carry a snapshot? -/
def readyHasSnapshot (rd : Ready) : Bool := (readySnapshot rd).isSome

/-- Does the batch commit a configuration change? -/
def readyHasCommittedConfChange (rd : Ready) : Bool := rd.light.committedEntries.any Entry.isConf

/-- Does the batch need a sync? -/
def mustSync (p : Processor σ μ τ) (rd : Ready) : Bool :=
  rd.mustSync || readyHasSnapshot rd || (p.durableStateMachine && rd.hs.isSome)

section phases
variable [MembershipStorage σ]

/-- Take the next batch. -/
def takeReady : M σ μ τ Unit := do
  let rd ← getReady
  Faulty.lift (Act.modify fun p => { p with pending := some { ready := rd } })
  Faulty.lift (checkLeadershipChange env rd)

/-- The phases that both modes begin with; `next` is what comes after them. -/
def persistStep (pending : PendingReady) (next : ReadyPhase) : ReadyPhase → M σ μ τ Unit
  | .validate => do
      let p ← Faulty.state
      Faulty.lift (Act.when (p.checksumEnabled = true) (validateEntries env pending.ready.entries))
      Faulty.lift (setPhase .persistSnapshot)
  | .persistSnapshot => do
      match readySnapshot pending.ready with
      | some snap => do
          let membership ← persistSnapshot snap
          Faulty.lift (Act.modify fun p => { p with
            pending := p.pending.map fun q => { q with snapshotMembership := membership } })
      | none => pure ()
      Faulty.lift (setPhase .persistEntries)
  | .persistEntries => do
      if pending.ready.entries = [] then pure ()
      else store fun s => WritableStorage.append s pending.ready.entries
      Faulty.lift (setPhase .persistHardState)
  | .persistHardState => do
      match pending.ready.hs with
      | some hs => store fun s => WritableStorage.setHardState s hs
      | none => pure ()
      Faulty.lift (setPhase next)
  | _ => Act.panic

/-- Install the membership that came with the snapshot of the batch. -/
def installPending (pending : PendingReady) : Local σ μ τ Unit :=
  match pending.snapshotMembership with
  | none => pure ()
  | some membership => do
      Act.modify fun p => { p with
        pending := p.pending.map fun q => { q with snapshotMembership := none } }
      let snap ← Act.orPanic pending.ready.snapshot
      installMembership env membership snap.metadata.index

/-- Report the batch back to the node; an error ends it. -/
def advanceReady (pending : PendingReady) : Local σ μ τ Unit := do
  let light ← Act.catchErr (onNode (RawNode.advance pending.ready)) fun e => do
    setFatal e
    Act.throw e
  Act.modify fun p => { p with pending := p.pending.map fun q => { q with lightReady := light } }

/-- One phase of the batch. -/
def phaseSync (pending : PendingReady) : ReadyPhase → M σ μ τ Unit
  | .sync => do
      let p ← Faulty.state
      if mustSync p pending.ready = true then sync else pure ()
      Faulty.lift (installPending env pending)
      Faulty.lift (setPhase .restoreSnapshot)
  | .restoreSnapshot => do
      match readySnapshot pending.ready with
      | some snap => Faulty.lift (restoreSnapshot env snap)
      | none => pure ()
      Faulty.lift (setPhase .sendMessages)
  | .sendMessages => do
      Faulty.lift (sendMessages env pending.ready.light.messages)
      Faulty.lift (setPhase .applyCommitted)
  | .applyCommitted => do
      applyCommittedEntries env pending.ready.light.committedEntries
      Faulty.lift (setPhase .completeReads)
  | .completeReads => do
      Faulty.lift (completeReads pending.ready.readStates)
      Faulty.lift (setPhase .advance)
  | .advance => do
      Faulty.lift (advanceReady pending)
      Faulty.lift (setPhase .persistAdvancedHardState)
  | .persistAdvancedHardState => do
      let p ← Faulty.state
      if pending.lightReady.commitIndex.isSome then
        store fun s => WritableStorage.setHardState s p.rawNode.raft.hardState
      else pure ()
      Faulty.lift (setPhase .syncAdvancedHardState)
  | .syncAdvancedHardState => do
      if pending.lightReady.commitIndex.isSome then sync else pure ()
      Faulty.lift (setPhase .sendAdvancedMessages)
  | .sendAdvancedMessages => do
      Faulty.lift (sendMessages env pending.lightReady.messages)
      Faulty.lift (setPhase .applyAdvancedCommitted)
  | .applyAdvancedCommitted => do
      applyCommittedEntries env pending.lightReady.committedEntries
      Faulty.lift (setPhase .advanceApply)
  | .advanceApply => do
      Faulty.lift (onNode RawNode.advanceApply)
      Faulty.lift (Act.modify fun p => { p with
        pending := none, fatalError := p.fatalAfterReady, fatalAfterReady := none })
  | .advanceAppendAsync => Act.panic
  | .awaitingFlush => Act.panic
  | phase => persistStep env pending .sync phase

/-- One phase of the current batch, or the next batch.  Was there work? -/
def processStepSync : M σ μ τ Bool := do
  let p ← Faulty.state
  match p.fatalError with
  | some e => Faulty.fail e
  | none =>
      match p.pending with
      | none =>
          if p.rawNode.hasReady then do
            takeReady env
            return true
          else return false
      | some pending => do
          phaseSync env pending pending.phase
          return true

/-- Stage the batch: it has been written. -/
def stage (pending : PendingReady) : Local σ μ τ Unit := do
  let p ← Act.get
  let forceFlush := readyHasSnapshot pending.ready || readyHasCommittedConfChange pending.ready ||
    decide (p.asyncReadyMaxInflight ≤ p.asyncStaged.length + 1)
  Act.catchErr (onNode (RawNode.advanceAppendAsync pending.ready)) fun e => do
    setFatal e
    Act.throw e
  Act.modify fun p => { p with pending := none, asyncStaged := p.asyncStaged ++ [pending] }
  sendMessages env pending.ready.messages
  Act.modify fun p => { p with asyncFlushRequired := p.asyncFlushRequired || forceFlush }

/-- One phase of the current batch. -/
def processStepAsync : M σ μ τ Bool := do
  let p ← Faulty.state
  match p.pending with
  | none => Act.panic
  | some pending => do
      match pending.phase with
      | .advanceAppendAsync => Faulty.lift (stage env pending)
      | phase => persistStep env pending .advanceAppendAsync phase
      return true

/-- The first staged batch is done.  A membership that the transport could not follow ends the
node now. -/
def removeFirst (rest : List PendingReady) : M σ μ τ Unit := do
  let p ← Faulty.state
  Faulty.lift (onNode (RawNode.advanceApplyTo p.appliedIndex))
  Faulty.lift (Act.modify fun p => { p with asyncStaged := rest })
  match p.fatalAfterReady with
  | some e => do
      Faulty.lift (Act.modify fun p => { p with fatalAfterReady := none, fatalError := some e })
      Faulty.fail e
  | none => pure ()

/-- Send what had to wait for the first staged batch, and apply what it commits. -/
def finishFirst (pending : PendingReady) (rest : List PendingReady) : M σ μ τ Unit := do
  Faulty.lift (sendMessages env pending.ready.persistedMessages)
  applyCommittedEntries env pending.ready.light.committedEntries
  Faulty.lift (completeReads pending.ready.readStates)
  removeFirst rest

/-- Install the membership that came with the snapshot of the first staged batch. -/
def installFirst (pending : PendingReady) (rest : List PendingReady) : Local σ μ τ Unit :=
  match pending.snapshotMembership with
  | none => pure ()
  | some membership => do
      Act.modify fun p => { p with
        asyncStaged := { pending with snapshotMembership := none } :: rest }
      let snap ← Act.orPanic pending.ready.snapshot
      installMembership env membership snap.metadata.index

/-- Do what had to wait until the first staged batch was durable. -/
def flushFirst : M σ μ τ Unit := do
  let p ← Faulty.state
  match p.asyncStaged with
  | [] => Act.panic
  | pending :: rest => do
      Faulty.lift (installFirst env pending rest)
      match readySnapshot pending.ready with
      | some snap => Faulty.lift (restoreSnapshot env snap)
      | none => pure ()
      finishFirst env pending rest

/-- Make the staged batches durable. -/
def syncStaged : M σ μ τ Unit := do
  let p ← Faulty.state
  if p.asyncStaged.any (fun pending => mustSync p pending.ready) then
    Faulty.onRefusal sync fun p => { p with asyncFlushRequired := true }
  else pure ()

/-- No flush is due any more. -/
def clearFlush : Local σ μ τ Unit := Act.modify fun p => { p with asyncFlushRequired := false }

/-- Make the staged batches durable, the last of which is `last`, and report it.  The report itself
cannot fail. -/
def persistStaged (last : PendingReady) : M σ μ τ Unit := do
  syncStaged
  Faulty.lift (Act.ignore (onNode (RawNode.onPersistReady last.ready.number)))
  Faulty.lift clearFlush

/-- Make the staged batches durable and finish them. -/
def flushAsyncReadies : M σ μ τ Unit := do
  let p ← Faulty.state
  match p.asyncStaged.getLast? with
  | none => Faulty.lift clearFlush
  | some last => do
      persistStaged last
      Act.each p.asyncStaged fun _ => flushFirst env

/-- Make the staged batches durable when that is due. -/
def flushIfRequired : M σ μ τ Bool := do
  let p ← Faulty.state
  if p.asyncFlushRequired then do
    flushAsyncReadies env
    return true
  else return false

/-- Take the next batch unless there is one. -/
def takeIfNone : M σ μ τ Bool := do
  let p ← Faulty.state
  match p.pending with
  | none => do
      takeReady env
      return true
  | some _ => return false

/-- Is there a batch to stage? -/
def toStage (p : Processor σ μ τ) : Bool := p.pending.isSome || p.rawNode.hasReady

/-- Stage a batch. -/
def stageRound (n : ℕ) : M σ μ τ Bool := do
  let taken ← takeIfNone env
  let _ ← Faulty.loop (fun p => p.pending.isSome) (processStepAsync env) n
  let flushed ← flushIfRequired env
  return taken || flushed

/-- Stage every batch. -/
def stageAsyncReadies (n : ℕ) : M σ μ τ Bool := do
  let flushed ← flushIfRequired env
  let staged ← Faulty.loop toStage (stageRound env n) n
  return flushed || staged

/-- Process batches without forcing the staged ones to be durable. -/
def process (n : ℕ) : M σ μ τ Bool := do
  let p ← Faulty.state
  match p.fatalError with
  | some e => Faulty.fail e
  | none =>
      if p.asyncReady then stageAsyncReadies env n
      else do
        let worked ← processStepSync env
        if worked then do
          let _ ← Faulty.loop (fun p => p.pending.isSome) (processStepSync env) n
          return true
        else return false

/-- Flush the staged batches and stage those that this makes possible. -/
def flushRound (n : ℕ) : M σ μ τ Bool := do
  flushAsyncReadies env
  let _ ← stageAsyncReadies env n
  return true

/-- Flush every staged batch, and process the work that this makes possible. -/
def flush (n : ℕ) : M σ μ τ Bool := do
  let p ← Faulty.state
  match p.fatalError with
  | some e => Faulty.fail e
  | none =>
      if p.asyncReady then do
        let worked ← stageAsyncReadies env n
        let flushed ← Faulty.loop (fun p => !p.asyncStaged.isEmpty) (flushRound env n) n
        return worked || flushed
      else return false

/-- Advance by one phase. -/
def processStep : M σ μ τ Bool := do
  let p ← Faulty.state
  if p.asyncReady = false then processStepSync env
  else
    match p.fatalError with
    | some e => Faulty.fail e
    | none =>
        if p.pending.isSome then processStepAsync env
        else if p.asyncFlushRequired then do
          flushAsyncReadies env
          return true
        else if p.rawNode.hasReady then do
          takeReady env
          return true
        else if p.asyncStaged ≠ [] then do
          flushAsyncReadies env
          return true
        else return false

end phases

end Phases

end Raftz
