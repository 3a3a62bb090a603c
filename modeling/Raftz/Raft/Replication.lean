import Raftz.Raft.State

/-! # Replication: sending, committing and serving reads

The sending half of `raft.zig`: append and snapshot messages (with batching
into a queued message), heartbeats, the leader's commit rule, and the answers
to read-index requests. -/

open Base

namespace Raftz.Raft

variable {σ : Type} [Storage σ]

/-! ### Append and snapshot messages -/

/-- Send the peer a snapshot, if it is active and the storage has one. -/
def sendSnapshot (dest : ℕ) (pr : Progress) : RaftM σ Bool := do
  if pr.recentActive = false then return false
  else do
    let r ← Act.get
    match r.raftLog.getSnapshot pr.pendingRequestSnapshot dest with
    | .error .snapshotTemporarilyUnavailable => return false
    | .error e => Act.throw e
    | .ok snap => do
        Act.assert (snap.metadata.index ≠ 0)
        setProgress dest (pr.becomeSnapshot snap.metadata.index)
        send { msgType := .snapshot, dest := dest, snapshot := some snap }
        return true

/-- Put new entries into the first queued append message for the peer, if they continue it. -/
def tryBatching (dest : ℕ) (pr : Progress) (newEntries : List Entry) : RaftM σ Bool := do
  let r ← Act.get
  match r.messages.findIdx? (fun m => m.msgType == .append && m.dest == dest) with
  | none => return false
  | some i =>
      let msg := r.messages.getD i {}
      match newEntries.getLast? with
      | none => do
          Act.modify (fun r => { r with
            messages := r.messages.set i { msg with commit := r.raftLog.committed } })
          return true
      | some last =>
          if isContinuousEntries msg newEntries = false then return false
          else do
            let pr ← Act.orPanic (pr.updateState last.index)
            setProgress dest pr
            Act.modify (fun r => { r with
              messages := r.messages.set i
                { msg with entries := msg.entries ++ newEntries, commit := r.raftLog.committed } })
            return true

/-- Note in the peer's progress that the entries are on their way. -/
def noteSent (dest : ℕ) (pr : Progress) (entries : List Entry) : RaftM σ Unit :=
  match entries.getLast? with
  | none => pure ()
  | some last => do
      let pr ← Act.orPanic (pr.updateState last.index)
      setProgress dest pr

/-- Send entries after `(pr.nextIdx - 1, term)` in a message of their own. -/
def sendEntries (dest : ℕ) (pr : Progress) (term : ℕ) (entries : List Entry) : RaftM σ Unit := do
  let r ← Act.get
  noteSent dest pr entries
  send {
    msgType := .append
    dest := dest
    index := pr.nextIdx - 1
    logTerm := term
    entries := entries
    commit := r.raftLog.committed }

/-- Send the peer what it lacks: entries, or a snapshot when they are compacted.  The flag says
whether a message went out. -/
def maybeSendAppend (dest : ℕ) (allowEmpty : Bool) : RaftM σ Bool := do
  let r ← Act.get
  match r.progressTracker.get dest with
  | none => return false
  | some pr =>
      if pr.isPaused then return false
      else if pr.pendingRequestSnapshot ≠ invalidIndex then sendSnapshot dest pr
      else do
        let got ← Act.attempt (onLog (RaftLog.getEntries pr.nextIdx (some r.knobs.maxMessageSize)
          (.sendAppend dest r.term (!allowEmpty))))
        match got with
        | .error .logTemporarilyUnavailable => return false
        | .error .compacted => sendSnapshot dest pr
        | .error e => Act.throw e
        | .ok ents =>
            if allowEmpty = false ∧ ents = [] then return false
            else
              match r.raftLog.term (pr.nextIdx - 1) with
              | .error _ => sendSnapshot dest pr
              | .ok t => do
                  let batched ← if r.knobs.batchAppend then tryBatching dest pr ents else pure false
                  if batched then return true
                  else do
                    sendEntries dest pr t ents
                    return true

/-- Send the peer an append message, an empty one if need be. -/
def sendAppend (dest : ℕ) : RaftM σ Unit := do
  let _ ← maybeSendAppend dest true
  return ()

/-- Send until the peer is paused or has everything.  The first argument bounds the iterations; the
loop of the source has no bound. -/
def sendAppendLoop (dest : ℕ) : ℕ → RaftM σ Unit
  | 0 => Act.panic
  | fuel + 1 => do
      let sent ← maybeSendAppend dest false
      if sent then sendAppendLoop dest fuel else return ()

/-- Stream entries to the peer.  Every message but the last advances its next index, so more
iterations than entries cannot happen. -/
def sendAppendAggressively (dest : ℕ) : RaftM σ Unit := do
  let r ← Act.get
  match r.progressTracker.get dest with
  | none => return ()
  | some _ => sendAppendLoop dest (r.raftLog.lastIndex + 2)

/-- Send every other peer an append message. -/
def broadcastAppend : RaftM σ Unit := do
  let r ← Act.get
  Act.each r.progressTracker.peerIds (fun id =>
    if id = r.id then pure () else sendAppend id)

/-! ### Heartbeats -/

/-- Send a peer a heartbeat; its commit index never exceeds the peer's match. -/
def sendHeartbeat (dest : ℕ) (pr : Progress) (ctx : Option Bytes) : RaftM σ Unit := do
  let r ← Act.get
  send {
    msgType := .heartbeat
    dest := dest
    commit := min pr.matched r.raftLog.committed
    context := ctx.getD [] }

/-- Send every other peer a heartbeat. -/
def broadcastHeartbeatWithCtx (ctx : Option Bytes) : RaftM σ Unit := do
  let r ← Act.get
  Act.each r.progressTracker.peerIds (fun id =>
    if id = r.id then pure ()
    else do
      let r ← Act.get
      match r.progressTracker.get id with
      | none => pure ()
      | some pr => sendHeartbeat id pr ctx)

/-- Send every other peer a heartbeat for the youngest pending read. -/
def broadcastHeartbeat : RaftM σ Unit := do
  let r ← Act.get
  broadcastHeartbeatWithCtx r.readOnly.lastPendingRequestCtx

/-- Send heartbeats out of turn. -/
def ping : RaftM σ Unit := do
  let r ← Act.get
  if r.state = .leader then Act.ignore broadcastHeartbeat else return ()

/-! ### Read-index requests -/

/-- Answer a read: a local one goes to the read states, a remote one is returned as a message. -/
def handleReadyReadIndex (req : Message) (index : ℕ) : RaftM σ (Option Message) := do
  let r ← Act.get
  if req.sender = invalidId ∨ req.sender = r.id then do
    let ctx := match req.entries with
      | e :: _ => e.data
      | [] => []
    Act.modify (fun r => { r with readStates := r.readStates ++ [⟨index, ctx⟩] })
    return none
  else
    return some {
      msgType := .readIndexResp
      dest := req.sender
      index := index
      entries := req.entries }

/-- Answer a read and send the answer. -/
def answerRead (req : Message) (index : ℕ) : RaftM σ Unit := do
  let resp ← handleReadyReadIndex req index
  match resp with
  | none => return ()
  | some m => send m

/-- Serve a read: at once when the node is alone or leases are used, else after a heartbeat round. -/
def serveReadIndex (m : Message) : RaftM σ Unit := do
  let r ← Act.get
  if r.progressTracker.isSingleton then answerRead m r.raftLog.committed
  else
    match r.readOnly.option with
    | .safe =>
        match m.entries with
        | [] => return ()
        | e :: _ => do
            Act.modify (fun r => { r with
              readOnly := r.readOnly.addRequest r.raftLog.committed m r.id })
            broadcastHeartbeatWithCtx (some e.data)
    | .leaseBased => answerRead m r.raftLog.committed

/-- Has the node committed an entry of its term? -/
def commitToCurrentTerm (r : Raft σ) : Bool :=
  match r.raftLog.term r.raftLog.committed with
  | .ok t => t == r.term
  | .error _ => false

/-- Serve the reads postponed until the leader committed in its term. -/
def releasePendingReadIndexMessages : RaftM σ Unit := do
  let r ← Act.get
  if r.pendingReadIndexMessages = [] then return ()
  else if r.commitToCurrentTerm = false then return ()
  else do
    Act.modify (fun r => { r with pendingReadIndexMessages := [] })
    Act.each r.pendingReadIndexMessages serveReadIndex

/-- Release the reads up to `ctx`, whose heartbeat a quorum has acknowledged. -/
def releaseReads (ctx : Bytes) : RaftM σ Unit := do
  let r ← Act.get
  match r.readOnly.advance ctx with
  | .error e => Act.throw e
  | .ok (ro, statuses) => do
      Act.modify (fun r => { r with readOnly := ro })
      Act.each statuses (fun st => answerRead st.req st.index)

/-! ### Committing -/

/-- Commit what a quorum has acknowledged, if it is of the current term. -/
def maybeCommit : RaftM σ Bool := do
  let r ← Act.get
  let advanced ← onLog (RaftLog.maybeCommit r.progressTracker.maxCommittedIndex r.term)
  if advanced then do
    Act.modify (fun r => match r.progressTracker.get r.id with
      | some p => { r with progressTracker :=
          r.progressTracker.set r.id (p.updateCommitted r.raftLog.committed) }
      | none => r)
    releasePendingReadIndexMessages
    return true
  else return false

end Raftz.Raft
