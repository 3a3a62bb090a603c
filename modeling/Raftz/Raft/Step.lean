import Raftz.Raft.Replication

/-! # Elections, message handlers and the public operations

The rest of `raft.zig`: campaigns and vote counting, the handlers of every
message type in every role (`step`), time (`tick`), configuration changes,
application and persistence progress, and initialisation from a storage.

A won pre-vote starts a campaign, and a campaign polls the own vote, which can
win at once: the source's mutual recursion of `poll` and `campaign` is at most
two calls deep, since the inner campaign is a real one and leaves the
pre-candidate role.  `pollWith` and `campaignWith` take the other function as a
parameter and are tied together at that depth. -/

open Base

namespace Raftz.Raft

variable {σ : Type} [Storage σ]

/-! ### Elections -/

/-- Record a vote and act on the tally; `elect` starts the campaign after a won pre-vote. -/
def pollWith (elect : RaftM σ Unit) (sender : ℕ) (vote : Bool) : RaftM σ VoteResult := do
  Act.modify (fun r => { r with progressTracker := r.progressTracker.recordVote sender vote })
  let r ← Act.get
  match r.progressTracker.getVoteResult with
  | .pending => return .pending
  | .lost => do
      becomeFollower r.term invalidId
      return .lost
  | .won =>
      if r.state = .preCandidate then do
        Act.ignore elect
        return .won
      else do
        Act.ignore becomeLeader
        Act.ignore broadcastAppend
        return .won

/-- Ask another voter for its vote. -/
def requestVote (t : CampaignType) (msgType : MessageType) (term commit commitTerm voterId : ℕ) :
    RaftM σ Unit := do
  let r ← Act.get
  if voterId = r.id then return ()
  else send {
    msgType := msgType
    dest := voterId
    term := term
    index := r.raftLog.lastIndex
    logTerm := match r.raftLog.lastTerm with
      | .ok t => t
      | .error _ => 0
    commit := commit
    commitTerm := commitTerm
    context := if t = .transfer then campaignTransfer else [] }

/-- Take the role a campaign is run in. -/
def takeRole (t : CampaignType) : RaftM σ Unit :=
  if t = .preElection then becomePreCandidate else becomeCandidate

/-- Take the candidate role, poll the own vote and ask the other voters. -/
def campaignWith (poll : ℕ → Bool → RaftM σ VoteResult) (t : CampaignType) : RaftM σ Unit := do
  takeRole t
  let r ← Act.get
  let voteMsg : MessageType := if t = .preElection then .requestPreVote else .requestVote
  let term := if t = .preElection then r.term + 1 else r.term
  let result ← poll r.id true
  if result = .won then return ()
  else do
    let info ← Act.query (fun r => r.raftLog.commitInfo)
    let r ← Act.get
    Act.each r.progressTracker.conf.voters.ids (requestVote t voteMsg term info.1 info.2)

/-- A real campaign; its own poll never finds a pre-candidate. -/
def campaignElection (t : CampaignType) : RaftM σ Unit := campaignWith (pollWith (pure ())) t

/-- Record a vote and act on the tally. -/
def poll (sender : ℕ) (vote : Bool) : RaftM σ VoteResult :=
  pollWith (campaignElection .election) sender vote

/-- Start a campaign. -/
def campaign (t : CampaignType) : RaftM σ Unit := campaignWith poll t

/-- Does the log hold a configuration change in `[low, high)` that may still have to be applied?  A
failed read counts as yes. -/
def hasUnappliedConfChanges (low high : ℕ) : RaftM σ Bool := do
  let r ← Act.get
  if r.raftLog.committed ≤ r.raftLog.applied then return false
  else
    Act.catchErr (onLog (RaftLog.scan Entry.isConf high r.knobs.maxCommittedSizePerReady
      .transferLeader (high - low) low)) (fun _ => return true)

/-- Start an election unless a committed configuration change is not applied yet. -/
def hup (transferLeader : Bool) : RaftM σ Unit := do
  let r ← Act.get
  if r.state = .leader then return ()
  else do
    let low := match r.raftLog.unstable.maybeFirstIndex with
      | some i => i
      | none => r.raftLog.applied + 1
    let pending ← hasUnappliedConfChanges low (r.raftLog.committed + 1)
    if pending then return ()
    else if transferLeader then Act.ignore (campaign .transfer)
    else if r.knobs.preVote then Act.ignore (campaign .preElection)
    else Act.ignore (campaign .election)

/-- Commit up to the position a vote message carries, if the own log has it. -/
def maybeCommitByVote (m : Message) : RaftM σ Unit := do
  let r ← Act.get
  if m.commit = 0 ∨ m.commitTerm = 0 then return ()
  else if m.commit ≤ r.raftLog.committed ∨ r.state = .leader then return ()
  else do
    let advanced ← onLog (RaftLog.maybeCommit m.commit m.commitTerm)
    if advanced = false then return ()
    else do
      let r' ← Act.get
      if r'.state ≠ .candidate ∧ r'.state ≠ .preCandidate then return ()
      else do
        let pending ← hasUnappliedConfChanges (r.raftLog.committed + 1) (r'.raftLog.committed + 1)
        if pending then becomeFollower r'.term invalidId else return ()

/-- The type of the answer to a vote request. -/
def voteRespMsgType (t : MessageType) : MessageType :=
  if t = .requestPreVote then .requestPreVoteResponse else .requestVoteResponse

/-- Grant or reject a vote request. -/
def handleVoteRequest (m : Message) : RaftM σ Unit := do
  let r ← Act.get
  let canVote := r.vote = m.sender ∨ (r.vote = invalidId ∧ r.leaderId = invalidId) ∨
    (m.msgType = .requestPreVote ∧ r.term < m.term)
  let upToDate ← Act.query (fun r => r.raftLog.isUpToDate m.index m.logTerm)
  let priorityOk := r.raftLog.lastIndex < m.index ∨ r.priority ≤ m.priority
  if canVote ∧ upToDate = true ∧ priorityOk then do
    send {
      msgType := voteRespMsgType m.msgType
      dest := m.sender
      term := m.term
      reject := false }
    if m.msgType = .requestVote then
      Act.modify (fun r => { r with electionElapsed := 0, vote := m.sender })
    else return ()
  else do
    let info ← Act.query (fun r => r.raftLog.commitInfo)
    send {
      msgType := voteRespMsgType m.msgType
      dest := m.sender
      term := r.term
      reject := true
      commit := info.1
      commitTerm := info.2 }
    maybeCommitByVote m

/-! ### Snapshots -/

/-- The roles an id has in an exported configuration: 1 voter, 2 learner, 4 outgoing voter,
8 next learner. -/
def memberRoles (cs : ConfState) (id : ℕ) : ℕ :=
  (if id ∈ cs.voters then 1 else 0) + (if id ∈ cs.learners then 2 else 0) +
    (if id ∈ cs.votersOutgoing then 4 else 0) + (if id ∈ cs.learnersNext then 8 else 0)

/-- The checks of a received configuration: no id 0, no id twice in a list, only compatible roles,
and staged learners only as outgoing voters. -/
def validConfState (cs : ConfState) : Bool :=
  let ids := cs.voters ++ cs.learners ++ cs.votersOutgoing ++ cs.learnersNext
  ids.all (fun id => decide (id ≠ invalidId)) &&
    decide (cs.voters.Nodup) && decide (cs.learners.Nodup) &&
    decide (cs.votersOutgoing.Nodup) && decide (cs.learnersNext.Nodup) &&
    ids.all (fun id => decide (memberRoles cs id ∈ [1, 2, 4, 5, 8, 12])) &&
    !(cs.votersOutgoing.isEmpty && cs.autoLeave) &&
    cs.learnersNext.all (fun id => decide (id ∈ cs.votersOutgoing))

/-- Has the local node a current role in a configuration? -/
def hasLocalRole (cs : ConfState) (id : ℕ) : Bool :=
  decide (id ∈ cs.voters) || decide (id ∈ cs.learners) || decide (id ∈ cs.votersOutgoing)

/-- Send after a change of the configuration: the new commit index, or what is outstanding. -/
def sendAfterConfChange (committed : Bool) : RaftM σ Unit := do
  let r ← Act.get
  if committed then Act.ignore broadcastAppend
  else
    Act.each r.progressTracker.peerIds (fun id =>
      if id = r.id then pure () else Act.ignore (maybeSendAppend id false))

/-- Record an acknowledgement of a read and release the reads up to it when a quorum has
acknowledged it. -/
def ackRead (sender : ℕ) (ctx : Bytes) : RaftM σ Unit := do
  let r ← Act.get
  let acked := r.readOnly.recvACK sender ctx
  Act.modify (fun r => { r with readOnly := acked.1 })
  match acked.2 with
  | none => return ()
  | some acks => if r.progressTracker.hasQuorum acks then releaseReads ctx else return ()

/-- The own acknowledgement of the youngest read may complete its quorum after a change. -/
def ackOwnRead : RaftM σ Unit := do
  let r ← Act.get
  match r.readOnly.lastPendingRequestCtx with
  | none => return ()
  | some ctx => Act.ignore (ackRead r.id ctx)

/-- What remains after the configuration has changed: a leader that still votes commits with the
new quorum, sends what it can, and releases the reads that now have a quorum. -/
def postConfChange (cs : ConfState) : RaftM σ Unit := do
  Act.modify (fun r => { r with promotable := r.progressTracker.conf.voters.contains r.id })
  let r ← Act.get
  if r.progressTracker.conf.voters.contains r.id = false ∧ r.state = .leader then return ()
  else if r.state ≠ .leader ∨ cs.voters = [] then return ()
  else do
    let committed ← Act.catchErr maybeCommit (fun _ => return false)
    sendAfterConfChange committed
    ackOwnRead
    Act.modify (fun r => match r.leadTransferee with
      | some lt => if r.progressTracker.conf.voters.contains lt then r else r.abortLeaderTransfer
      | none => r)

/-- Install a received snapshot, or commit up to it when the log has its position already.  The
flag says whether the log was replaced. -/
def restoreSnapshot (snap : Snapshot) : RaftM σ Bool := do
  let r ← Act.get
  let meta_ := snap.metadata
  if meta_.index = maxU64 then return false
  else if r.pendingRequestSnapshot ≠ invalidIndex ∧ meta_.index < r.pendingRequestSnapshot then
    return false
  else if meta_.index < r.raftLog.committed then return false
  else if meta_.index = r.raftLog.committed ∧ r.pendingRequestSnapshot = invalidIndex then
    return false
  else if r.state ≠ .follower then do
    becomeFollower (r.term + 1) invalidId
    return false
  else if validConfState meta_.confState = false then return false
  else if hasLocalRole meta_.confState r.id = false then return false
  else if r.pendingRequestSnapshot = invalidIndex ∧
      (match r.raftLog.matchTerm meta_.index meta_.term with
        | .ok b => b
        | .error _ => false) = true then do
    Act.ignore (onLog (RaftLog.commitTo meta_.index))
    return false
  else
    match ConfRestore.restore (ProgressTracker.init r.config.maxInflightMessages)
        (meta_.index + 1) meta_.confState with
    | .error .outOfMemory => Act.throw .outOfMemory
    | .error _ => return false
    | .ok tracker => do
        let restored ← Act.attempt (onLog (RaftLog.restore snap))
        match restored with
        | .error .outOfMemory => Act.throw .outOfMemory
        | .error _ => return false
        | .ok _ => do
            Act.modify (fun r => { r with progressTracker := tracker })
            postConfChange tracker.conf.toConfState
            Act.modify (fun r => { r with pendingRequestSnapshot := invalidIndex })
            return true

/-- Answer the leader with a request for a snapshot. -/
def sendRequestSnapshot : RaftM σ Unit := do
  let r ← Act.get
  send {
    msgType := .appendResponse
    index := r.raftLog.committed
    reject := true
    rejectHint := r.raftLog.lastIndex
    dest := r.leaderId
    requestSnapshot := r.pendingRequestSnapshot
    logTerm := match r.raftLog.term r.raftLog.lastIndex with
      | .ok t => t
      | .error _ => 0 }

/-- Ask the leader for a snapshot. -/
def requestSnapshot : RaftM σ Unit := do
  let r ← Act.get
  if r.state = .leader ∨ r.leaderId = invalidId ∨ r.raftLog.unstable.snapshot ≠ none ∨
      r.pendingRequestSnapshot ≠ invalidIndex then Act.throw .requestSnapshotDropped
  else
    let requestIndex := r.raftLog.lastIndex
    let requestIndexTerm := match r.raftLog.term requestIndex with
      | .ok t => t
      | .error _ => 0
    if r.term = requestIndexTerm then do
      Act.modify (fun r => { r with pendingRequestSnapshot := requestIndex })
      sendRequestSnapshot
    else Act.throw .requestSnapshotDropped

/-! ### Handlers of a follower -/

/-- Append a leader's entries and answer. -/
def handleAppendEntries (m : Message) : RaftM σ Unit := do
  let r ← Act.get
  if r.pendingRequestSnapshot ≠ invalidIndex then sendRequestSnapshot
  else if m.index < r.raftLog.committed then
    send {
      msgType := .appendResponse
      dest := m.sender
      index := r.raftLog.committed
      commit := r.raftLog.committed }
  else do
    let result ← onLog (RaftLog.maybeAppend m.index m.logTerm m.commit m.entries)
    let r ← Act.get
    if result.termMatched then
      send {
        msgType := .appendResponse
        dest := m.sender
        index := result.lastIndex
        commit := r.raftLog.committed }
    else do
      let fc ← Act.query (fun r =>
        r.raftLog.findConflictByTerm (min m.index r.raftLog.lastIndex) m.logTerm)
      send {
        msgType := .appendResponse
        dest := m.sender
        index := m.index
        reject := true
        rejectHint := fc.1
        logTerm := fc.2.getD 0
        commit := r.raftLog.committed }

/-- Commit up to the heartbeat's commit index and answer. -/
def handleHeartbeat (m : Message) : RaftM σ Unit := do
  Act.ignore (onLog (RaftLog.commitTo m.commit))
  let r ← Act.get
  if r.pendingRequestSnapshot ≠ invalidIndex then sendRequestSnapshot
  else
    send {
      msgType := .heartbeatResponse
      dest := m.sender
      context := m.context
      commit := r.raftLog.committed }

/-- Install a snapshot and answer with the position reached. -/
def handleSnapshot (m : Message) : RaftM σ Unit :=
  match m.snapshot with
  | none => return ()
  | some snap => do
      let restored ← restoreSnapshot snap
      let r ← Act.get
      send {
        msgType := .appendResponse
        dest := m.sender
        index := if restored then r.raftLog.lastIndex else r.raftLog.committed }

/-! ### Handlers of a leader -/

/-- React to an acknowledged append: adjust the state of the peer. -/
def ackProgress (p : Progress) (index : ℕ) : Progress :=
  match p.state with
  | .probe => p.becomeReplicate
  | .replicate =>
      let p := { p with inflights := p.inflights.freeTo index }
      if p.isSnapshotCaughtUp then p.becomeProbe else p
  | .snapshot => if p.isSnapshotCaughtUp then p.becomeProbe else p

/-- A leadership transfer to a peer that has the whole log: let it campaign now. -/
def transferIfCaughtUp (sender : ℕ) : RaftM σ Unit := do
  let r ← Act.get
  match r.leadTransferee, r.progressTracker.get sender with
  | some lt, some p =>
      if lt = sender ∧ p.matched = r.raftLog.lastIndex then
        send { msgType := .timeoutNow, dest := sender }
      else return ()
  | _, _ => return ()

/-- The peer rejected an append: probe further back. -/
def handleAppendReject (m : Message) (pr : Progress) (nextProbeIndex : ℕ) : RaftM σ Unit := do
  let decreased := pr.maybeDecTo m.index nextProbeIndex m.requestSnapshot
  if decreased.2 then do
    setProgress m.sender
      (if decreased.1.state = .replicate then decreased.1.becomeProbe else decreased.1)
    sendAppend m.sender
  else setProgress m.sender decreased.1

/-- Send after an acknowledged append: the new commit index to all, or more to a peer that was
paused. -/
def sendAfterAck (sender : ℕ) (committed oldPaused : Bool) : RaftM σ Unit := do
  let r ← Act.get
  if committed then Act.when (r.shouldBroadcastCommit = true) broadcastAppend
  else Act.when (oldPaused = true) (sendAppend sender)

/-- The peer acknowledged an append: commit, and send it more. -/
def handleAppendAck (m : Message) (pr : Progress) : RaftM σ Unit := do
  let updated := pr.maybeUpdate m.index
  if updated.2 = false then setProgress m.sender updated.1
  else do
    setProgress m.sender (ackProgress updated.1 m.index)
    let committed ← maybeCommit
    sendAfterAck m.sender committed pr.isPaused
    sendAppendAggressively m.sender
    transferIfCaughtUp m.sender

/-- Where to probe next: the peer's hint, moved back to a term both logs can share. -/
def nextProbe (r : Raft σ) (m : Message) : Except Err ℕ :=
  if m.reject = true ∧ 0 < m.logTerm then
    match r.raftLog.findConflictByTerm m.rejectHint m.logTerm with
    | .ok fc => .ok fc.1
    | .error e => .error e
  else .ok m.rejectHint

/-- A peer answered an append message. -/
def handleAppendResponse (m : Message) : RaftM σ Unit := do
  let nextProbeIndex ← Act.query (fun r => r.nextProbe m)
  let r ← Act.get
  match r.progressTracker.get m.sender with
  | none => return ()
  | some pr =>
      let pr := { pr with recentActive := true }.updateCommitted m.commit
      if m.reject then handleAppendReject m pr nextProbeIndex else handleAppendAck m pr

/-- A peer answered a heartbeat: resume sending, and count it for the pending reads. -/
def handleHeartbeatResponse (m : Message) : RaftM σ Unit := do
  let r ← Act.get
  match r.progressTracker.get m.sender with
  | none => return ()
  | some pr => do
      let pr := { (pr.updateCommitted m.commit) with recentActive := true, paused := false }
      let pr := if pr.state = .replicate ∧ pr.inflights.full = true then
        { pr with inflights := pr.inflights.freeFirstOne } else pr
      setProgress m.sender pr
      Act.when (pr.matched < r.raftLog.lastIndex ∨ pr.pendingRequestSnapshot ≠ invalidIndex)
        (sendAppend m.sender)
      Act.when (r.readOnly.option = .safe ∧ m.context ≠ []) (ackRead m.sender m.context)

/-- The application reports how a snapshot transfer ended. -/
def handleSnapshotStatus (m : Message) : RaftM σ Unit := do
  let r ← Act.get
  match r.progressTracker.get m.sender with
  | none => return ()
  | some pr =>
      if pr.state ≠ .snapshot then return ()
      else
        let pr := if m.reject then pr.snapshotFailure.becomeProbe else pr.becomeProbe
        setProgress m.sender { pr.pause with pendingRequestSnapshot := invalidIndex }

/-- The application reports that a peer cannot be reached. -/
def handleUnreachable (m : Message) : RaftM σ Unit := do
  let r ← Act.get
  match r.progressTracker.get m.sender with
  | none => return ()
  | some pr => if pr.state = .replicate then setProgress m.sender pr.becomeProbe else return ()

/-- Hand the leadership to a voter, now or when it has caught up. -/
def handleTransferLeader (m : Message) : RaftM σ Unit := do
  let r ← Act.get
  match r.progressTracker.get m.sender with
  | none => return ()
  | some pr =>
      if m.sender ∈ r.progressTracker.conf.learners then return ()
      else if r.leadTransferee = some m.sender then return ()
      else do
        Act.modify abortLeaderTransfer
        if m.sender = r.id then return ()
        else do
          Act.modify (fun r => { r with electionElapsed := 0, leadTransferee := some m.sender })
          if pr.matched = r.raftLog.lastIndex then send { msgType := .timeoutNow, dest := m.sender }
          else sendAppend m.sender

/-- The position of the configuration change among proposed entries; an error when it may not be
proposed now. -/
def confChangePosition (pending : Bool) : ℕ → Option ℕ → List Entry → Except Err (Option ℕ)
  | _, found, [] => .ok found
  | i, found, e :: es =>
      if e.isConf then
        if pending then .error .proposalDropped
        else if found ≠ none then .error .proposalDropped
        else if e.data = [] then .error .proposalDropped
        else confChangePosition pending (i + 1) (some i) es
      else confChangePosition pending (i + 1) found es

/-- Append proposed entries and replicate them. -/
def handlePropose (m : Message) : RaftM σ Unit := do
  let r ← Act.get
  if m.entries = [] then Act.panic
  else if r.progressTracker.contains r.id = false then Act.throw .proposalDropped
  else if r.leadTransferee ≠ none then Act.throw .proposalDropped
  else do
    let pos ← Act.query (fun r => confChangePosition r.hasPendingConf 0 none m.entries)
    let appended ← appendEntry m.entries
    if appended = false then Act.throw .proposalDropped
    else do
      Act.modify (fun r' => match pos with
        | some i => { r' with pendingConfIndex := r.raftLog.lastIndex + i + 1 }
        | none => r')
      broadcastAppend

/-! ### Step -/

/-- A message for a candidate or pre-candidate. -/
def stepCandidate (m : Message) : RaftM σ Unit :=
  match m.msgType with
  | .propose => Act.throw .proposalDropped
  | .append => do
      becomeFollower m.term m.sender
      handleAppendEntries m
  | .heartbeat => do
      becomeFollower m.term m.sender
      handleHeartbeat m
  | .snapshot => do
      becomeFollower m.term m.sender
      handleSnapshot m
  | .requestPreVoteResponse | .requestVoteResponse => do
      let r ← Act.get
      if (r.state = .preCandidate ∧ m.msgType ≠ .requestPreVoteResponse) ∨
          (r.state = .candidate ∧ m.msgType ≠ .requestVoteResponse) then return ()
      else do
        let _ ← poll m.sender (!m.reject)
        maybeCommitByVote m
  | _ => return ()

/-- Pass a message on to the leader. -/
def forward (m : Message) : RaftM σ Unit := do
  let r ← Act.get
  send { m with dest := r.leaderId }

/-- Accept a message of the leader. -/
def heardFromLeader (m : Message) : RaftM σ Unit :=
  Act.modify (fun r => { r with electionElapsed := 0, leaderId := m.sender })

/-- A message for a follower. -/
def stepFollower (m : Message) : RaftM σ Unit := do
  let r ← Act.get
  match m.msgType with
  | .propose =>
      if r.leaderId = invalidId ∨ r.knobs.disableProposalForwarding = true then
        Act.throw .proposalDropped
      else forward m
  | .append => do
      heardFromLeader m
      handleAppendEntries m
  | .heartbeat => do
      heardFromLeader m
      handleHeartbeat m
  | .snapshot => do
      heardFromLeader m
      handleSnapshot m
  | .transferLeader => if r.leaderId = invalidId then return () else forward m
  | .timeoutNow => if r.promotable then hup true else return ()
  | .readIndex => if r.leaderId = invalidId then return () else forward m
  | .readIndexResp =>
      if r.leaderId = invalidId ∨ m.sender ≠ r.leaderId then return ()
      else
        match m.entries with
        | [e] => do
            Act.modify (fun r => { r with readStates := r.readStates ++ [⟨m.index, e.data⟩] })
            Act.ignore (onLog (RaftLog.maybeCommit m.index m.term))
        | _ => return ()
  | _ => return ()

/-- A message for a leader. -/
def stepLeader (m : Message) : RaftM σ Unit := do
  let r ← Act.get
  match m.msgType with
  | .beat => broadcastHeartbeat
  | .checkQuorum => do
      let swept := r.progressTracker.quorumRecentlyActive r.id
      Act.modify (fun r => { r with progressTracker := swept.1 })
      if swept.2 then return () else becomeFollower r.term invalidId
  | .propose => handlePropose m
  | .readIndex =>
      if r.commitToCurrentTerm then serveReadIndex m
      else Act.modify (fun r => { r with
        pendingReadIndexMessages := r.pendingReadIndexMessages ++ [m] })
  | .appendResponse => handleAppendResponse m
  | .heartbeatResponse => handleHeartbeatResponse m
  | .snapStatus => handleSnapshotStatus m
  | .unreachablePeer => handleUnreachable m
  | .transferLeader => handleTransferLeader m
  | _ => return ()

/-- A message at the current term (or a local one). -/
def stepCurrent (m : Message) : RaftM σ Unit := do
  let r ← Act.get
  match m.msgType with
  | .hup => if r.promotable then hup false else return ()
  | .requestVote | .requestPreVote => handleVoteRequest m
  | _ =>
      match r.state with
      | .preCandidate | .candidate => stepCandidate m
      | .follower => stepFollower m
      | .leader => stepLeader m

/-- Does a message of a higher term make the node follow that term? -/
def raisesTerm (m : Message) : Bool :=
  !(m.msgType == .requestPreVote || (m.msgType == .requestPreVoteResponse && !m.reject))

/-- Is a vote request ignored because the leader's lease has not expired? -/
def inLease (r : Raft σ) (m : Message) : Bool :=
  (m.msgType == .requestVote || m.msgType == .requestPreVote) &&
    !(m.context == campaignTransfer) &&
    (r.knobs.checkQuorum && r.leaderId != invalidId &&
      decide (r.electionElapsed < r.knobs.electionTimeout))

/-- The leader a message of a higher term reveals. -/
def revealedLeader (m : Message) : ℕ :=
  if m.msgType = .append ∨ m.msgType = .heartbeat ∨ m.msgType = .snapshot then m.sender else invalidId

/-- Answer a message of an older term. -/
def stepLowerTerm (m : Message) : RaftM σ Unit := do
  let r ← Act.get
  if (r.knobs.checkQuorum = true ∨ r.knobs.preVote = true) ∧
      (m.msgType = .heartbeat ∨ m.msgType = .append) then
    send { msgType := .appendResponse, dest := m.sender }
  else if m.msgType = .requestPreVote then
    send { msgType := .requestPreVoteResponse, dest := m.sender, term := r.term, reject := true }
  else return ()

/-- Process a message. -/
def step (m : Message) : RaftM σ Unit := do
  let r ← Act.get
  if m.term = 0 then stepCurrent m
  else if r.term < m.term then
    if r.inLease m then return ()
    else if raisesTerm m then do
      becomeFollower m.term (revealedLeader m)
      stepCurrent m
    else stepCurrent m
  else if m.term < r.term then stepLowerTerm m
  else stepCurrent m

/-! ### Time -/

/-- A tick of a node that is not the leader. -/
def tickElection : RaftM σ Bool := do
  Act.modify (fun r => { r with
    heartbeatElapsed := r.heartbeatElapsed + 1
    electionElapsed := r.electionElapsed + 1 })
  let r ← Act.get
  if r.randomizedElectionTimeout ≤ r.electionElapsed then do
    Act.modify (fun r => { r with electionElapsed := 0 })
    step { msgType := .hup, sender := r.id }
    return true
  else return false

/-- The periodic quorum check of a leader. -/
def tickCheckQuorum : RaftM σ Bool := do
  let r ← Act.get
  if r.randomizedElectionTimeout ≤ r.electionElapsed then do
    Act.modify (fun r => { r with electionElapsed := 0 })
    Act.when (r.knobs.checkQuorum = true) (step { msgType := .checkQuorum, sender := r.id })
    Act.modify (fun r => if r.state = .leader then r.abortLeaderTransfer else r)
    return r.knobs.checkQuorum
  else return false

/-- A tick of the leader. -/
def tickHeartbeat : RaftM σ Bool := do
  Act.modify (fun r => { r with
    heartbeatElapsed := r.heartbeatElapsed + 1
    electionElapsed := r.electionElapsed + 1 })
  let hasReady ← tickCheckQuorum
  let r ← Act.get
  if r.state ≠ .leader then return hasReady
  else if r.knobs.heartbeatTimeout ≤ r.heartbeatElapsed then do
    Act.modify (fun r => { r with heartbeatElapsed := 0 })
    step { msgType := .beat, sender := r.id }
    return true
  else return hasReady

/-- Advance time by one tick. -/
def tick : RaftM σ Bool := do
  let r ← Act.get
  if r.state = .leader then tickHeartbeat else tickElection

/-! ### Configuration, application and persistence -/

/-- Apply a committed configuration change. -/
def applyConfChange (cc : ConfChangeV2) : RaftM σ ConfState := do
  let result ← Act.query (fun r => changeConf r.progressTracker cc)
  Act.modify (fun r => { r with
    progressTracker :=
      r.progressTracker.applyConf result.conf result.changes r.raftLog.lastIndex })
  postConfChange result.conf.toConfState
  return result.conf.toConfState

/-- Load the persisted hard state. -/
def loadState (hs : HardState) : RaftM σ Unit := do
  let r ← Act.get
  if hs.commit < r.raftLog.committed ∨ r.raftLog.lastIndex < hs.commit then Act.panic
  else Act.modify (fun r => { r with
    raftLog := { r.raftLog with committed := hs.commit }
    term := hs.term
    vote := hs.vote })

/-- When the configuration asks for it, the leader proposes to leave the joint configuration once
the change that entered it is applied. -/
def maybeAutoLeave (oldApplied applied : ℕ) : RaftM σ Unit := do
  let r ← Act.get
  if r.progressTracker.conf.autoLeave = true ∧ oldApplied ≤ r.pendingConfIndex ∧
      r.pendingConfIndex ≤ applied ∧ r.state = .leader then
    match encodeConfChangeV2 {} with
    | .error _ => Act.panic
    | .ok data => do
        let _ ← Act.catchErr (appendEntry [{ entryType := .confChangeV2, data := data }])
          (fun _ => Act.panic)
        Act.modify (fun r => { r with pendingConfIndex := r.raftLog.lastIndex })
  else return ()

/-- Record that the entries up to `applied` have been applied. -/
def commitApply (applied : ℕ) : RaftM σ Unit := do
  let r ← Act.get
  onLog (RaftLog.appliedTo applied)
  maybeAutoLeave r.raftLog.applied applied

/-- The unchecked form used at start. -/
def commitApplyUnchecked (applied : ℕ) : RaftM σ Unit := do
  let r ← Act.get
  Act.modify (fun r => { r with raftLog := { r.raftLog with applied := applied } })
  maybeAutoLeave r.raftLog.applied applied

/-- Entries have been persisted up to `(index, term)`. -/
def onPersistEntries (index term : ℕ) : RaftM σ Unit := do
  let update ← onLog (RaftLog.maybePersist index term)
  let r ← Act.get
  if update = true ∧ r.state = .leader then
    match r.progressTracker.get r.id with
    | none => return ()
    | some pr => do
        let updated := pr.maybeUpdate index
        setProgress r.id updated.1
        if updated.2 = false then return ()
        else do
          let committed ← maybeCommit
          let r ← Act.get
          if committed = true ∧ r.shouldBroadcastCommit = true then broadcastAppend else return ()
  else return ()

/-- A snapshot has been persisted. -/
def onPersistSnapshot (index : ℕ) : RaftM σ Unit := do
  let _ ← onLog (RaftLog.maybePersistSnapshot index)
  return ()

/-- Change the election priority. -/
def setPriority (p : ℤ) : RaftM σ Unit := Act.modify (fun r => { r with priority := p })

/-! ### Start -/

/-- The state before the hard state is loaded. -/
def initial (config : Config) (prng : List ℕ) (raftLog : RaftLog σ) (tracker : ProgressTracker) :
    Raft σ where
  id := config.id
  term := 0
  vote := 0
  state := .follower
  leaderId := invalidId
  leadTransferee := none
  promotable := false
  raftLog := raftLog
  progressTracker := tracker
  readOnly := ReadOnly.init config.readOnlyOption
  readStates := []
  pendingReadIndexMessages := []
  messages := []
  knobs := {
    maxMessageSize := config.effectiveMaxSizePerMessage
    checkQuorum := config.checkQuorum
    preVote := config.preVote
    skipBroadcastCommit := config.skipBroadcastCommit
    batchAppend := config.batchAppend
    disableProposalForwarding := config.disableProposalForwarding
    heartbeatTimeout := config.heartbeatTick
    electionTimeout := config.electionTick
    minElectionTimeout := config.effMinElectionTick
    maxElectionTimeout := config.effMaxElectionTick
    maxCommittedSizePerReady := config.maxCommittedSizePerReady }
  electionElapsed := 0
  heartbeatElapsed := 0
  randomizedElectionTimeout := 0
  pendingConfIndex := 0
  pendingRequestSnapshot := invalidIndex
  priority := 0
  uncommittedState := {
    maxUncommittedSize := config.maxUncommittedSize
    maxUncommittedEntries := config.maxUncommittedEntries }
  prng := prng
  config := config

/-- What is done with the initial state: load the hard state, take over the applied index, follow. -/
def boot (config : Config) (hs : HardState) (cs : ConfState) : RaftM σ Unit := do
  Act.when (config.loadStateOnStartup = true ∧ hs.isEmpty = false) (loadState hs)
  Act.when (0 < config.applied) (commitApplyUnchecked config.applied)
  let r ← Act.get
  becomeFollower r.term invalidId
  postConfChange cs

/-- Start a node from a storage. -/
def init (config : Config) (prng : List ℕ) (store : σ) : Outcome Err Unit (Raft σ) :=
  let prepared : Except Err (Raft σ × RaftState) := do
    config.validate
    let raftLog ← RaftLog.init store config.maxApplyUnpersistedLogLimit
    let raftState ← Storage.initialState store
    let tracker ← ConfRestore.restore (ProgressTracker.init config.maxInflightMessages)
      (raftLog.lastIndex + 1) raftState.confState
    return (initial config prng raftLog tracker, raftState)
  match prepared with
  | .error e => .err e ()
  | .ok (r, rs) =>
      match boot config rs.hardState r.progressTracker.conf.toConfState r with
      | .ok _ r => .ok r ()
      | .err e _ => .err e ()
      | .panic => .panic

/-- What a start that succeeds has gone through. -/
theorem init_cases {config : Config} {prng : List ℕ} {store : σ} {r : Raft σ}
    (h : init config prng store = .ok r ()) :
    ∃ log rs tracker, config.validate = .ok () ∧
      RaftLog.init store config.maxApplyUnpersistedLogLimit = .ok log ∧ Storage.initialState store = .ok rs ∧
      ConfRestore.restore (ProgressTracker.init config.maxInflightMessages) (log.lastIndex + 1) rs.confState =
        .ok tracker ∧
      boot config rs.hardState tracker.conf.toConfState (initial config prng log tracker) = .ok () r := by
  unfold init at h
  dsimp only at h
  split at h
  · cases h
  · rename_i r0 rs hprep
    obtain ⟨⟨⟩, hval, hprep⟩ := bind_eq_ok.mp hprep
    obtain ⟨log, hlog, hprep⟩ := bind_eq_ok.mp hprep
    obtain ⟨rs, hrs, hprep⟩ := bind_eq_ok.mp hprep
    obtain ⟨tracker, htracker, hprep⟩ := bind_eq_ok.mp hprep
    cases hprep
    split at h
    · rename_i r1 hboot
      cases h
      exact ⟨log, rs, tracker, hval, hlog, hrs, htracker, hboot⟩
    · cases h
    · cases h

end Raftz.Raft
