import Raftz.Raft.Step

/-! # What sending and answering leave alone

Most methods of `raft.zig` only read the log, move cursors and progress, and queue
messages.  The standing of a node is everything else: its role and term, its
configuration and votes, the content of its log and what it has applied, and the
backlog of a leader.  Only a change of role, an append, an application and a change
of configuration touch it. -/

open Base

namespace Raftz

/-- What only a few methods of a node change. -/
structure Standing (σ : Type) where
  id : ℕ
  term : ℕ
  state : StateRole
  conf : TrackerConfiguration
  votes : AList (fun _ : ℕ => Bool)
  store : σ
  unstable : Unstable
  applied : ℕ
  knobs : Knobs
  uncommittedState : UncommittedState
  pendingConfIndex : ℕ

/-- The part of a log that only appends, snapshots, applications and reports of the driver change. -/
def RaftLog.content {σ : Type} (l : RaftLog σ) : σ × Unstable × ℕ := (l.store, l.unstable, l.applied)

namespace RaftLog

variable {σ : Type} [Storage σ]

/-! ### Reads of the log -/

section reads
variable {γ : Type} {f : RaftLog σ → γ}

theorem keeps_slice (lo hi : ℕ) (m : Option ℕ) (c : GetEntriesContext) :
    Act.Keeps f (slice lo hi m c : Act Err (RaftLog σ) (List Entry)) := by
  unfold slice storeEntries
  refine .bind (.query _) fun _ => .ite (.pure _) (.bind .get fun l => ?_)
  refine .ite (.bind (.catchErr (.query _) fun _ => .ite .panic (.throw _)) fun ents => ?_)
    (.bind (.orPanic _) fun _ => .pure _)
  exact .ite (.pure _) (.ite (.bind (.orPanic _) fun _ => .pure _) (.pure _))

theorem keeps_getEntries (i : ℕ) (m : Option ℕ) (c : GetEntriesContext) :
    Act.Keeps f (getEntries i m c : Act Err (RaftLog σ) (List Entry)) := by
  unfold getEntries
  exact .bind .get fun l => .ite (.pure _) (keeps_slice _ _ _ _)

theorem keeps_nextEntriesSince (i : ℕ) (m : Option ℕ) :
    Act.Keeps f (nextEntriesSince i m : Act Err (RaftLog σ) (Option (List Entry))) := by
  unfold nextEntriesSince
  exact .bind .get fun l => .ite (.bind (keeps_slice _ _ _ _) fun _ => .pure _) (.pure _)

theorem keeps_scan (p : Entry → Bool) (hi page : ℕ) (c : GetEntriesContext) (fuel lo : ℕ) :
    Act.Keeps f (scan p hi page c fuel lo : Act Err (RaftLog σ) Bool) := by
  induction fuel generalizing lo with
  | zero => exact .pure _
  | succ fuel ih =>
      unfold scan
      refine .ite (.bind (keeps_slice _ _ _ _) fun got => ?_) (.pure _)
      exact .ite (.throw _) (.ite (.pure _) (ih _))

end reads

/-! ### Cursors of the log -/

theorem keeps_commitTo (i : ℕ) : Act.Keeps content (commitTo i : Act Err (RaftLog σ) Unit) := by
  unfold commitTo
  exact .bind .get fun l => .ite (.throw _) (.ite (.pure _) (.ite (.throw _) (.modify fun _ => rfl)))

theorem keeps_maybeCommit (i t : ℕ) :
    Act.Keeps content (maybeCommit i t : Act Err (RaftLog σ) Bool) := by
  unfold maybeCommit
  exact .bind .get fun l => .ite (.bind (.query _) fun _ =>
    .ite (.bind (keeps_commitTo _) fun _ => .pure _) (.pure _)) (.pure _)

section persisted
variable {γ : Type} {f : RaftLog σ → γ}

theorem keeps_maybePersist (hf : ∀ (l : RaftLog σ) (i : ℕ), f { l with persisted := i } = f l) (i t : ℕ) :
    Act.Keeps f (maybePersist i t : Act Err (RaftLog σ) Bool) := by
  unfold maybePersist
  exact .bind .get fun l => .ite (.bind (.query _) fun _ =>
    .ite (.bind (.modify fun _ => hf _ _) fun _ => .pure _) (.pure _)) (.pure _)

omit [Storage σ] in
theorem keeps_maybePersistSnapshot (hf : ∀ (l : RaftLog σ) (i : ℕ), f { l with persisted := i } = f l) (i : ℕ) :
    Act.Keeps f (maybePersistSnapshot i : Act Err (RaftLog σ) Bool) := by
  unfold maybePersistSnapshot
  exact .bind .get fun l => .ite (.pure _) (.bind (.assert _) fun _ => .bind (.assert _) fun _ =>
    .bind (.modify fun _ => hf _ _) fun _ => .pure _)

end persisted

end RaftLog

namespace Raft

variable {σ : Type}

/-- The standing of a node. -/
def standing (r : Raft σ) : Standing σ where
  id := r.id
  term := r.term
  state := r.state
  conf := r.progressTracker.conf
  votes := r.progressTracker.votes
  store := r.raftLog.store
  unstable := r.raftLog.unstable
  applied := r.raftLog.applied
  knobs := r.knobs
  uncommittedState := r.uncommittedState
  pendingConfIndex := r.pendingConfIndex

/-- The computation leaves the standing alone. -/
abbrev Stands {α : Type} (x : RaftM σ α) : Prop := Act.Keeps standing x

theorem stands_onLog {α : Type} {x : Act Err (RaftLog σ) α} (hx : Act.Keeps RaftLog.content x) :
    Stands (onLog x) := by
  intro r
  unfold onLog
  rw [Act.wp_zoom]
  have hput : ∀ l : RaftLog σ, l.content = r.raftLog.content →
      ({ r with raftLog := l } : Raft σ).standing = r.standing := by
    intro l hl
    obtain ⟨h1, h2, h3⟩ : l.store = r.raftLog.store ∧ l.unstable = r.raftLog.unstable ∧
        l.applied = r.raftLog.applied := by simpa [RaftLog.content] using hl
    unfold standing
    dsimp only
    rw [h1, h2, h3]
  exact Act.wp_mono (hx r.raftLog) (fun _ l hl => hput l hl) fun _ l hl => hput l hl

theorem stands_setProgress (id : ℕ) (p : Progress) : Stands (setProgress id p : RaftM σ Unit) :=
  .modify fun _ => rfl

theorem stands_send (m : Message) : Stands (send m : RaftM σ Unit) :=
  .bind .get fun _ => .bind (.orPanic _) fun _ => .modify fun _ => rfl

/-! ### Replication -/

theorem stands_tryBatching (dest : ℕ) (pr : Progress) (es : List Entry) :
    Stands (tryBatching dest pr es : RaftM σ Bool) := by
  unfold tryBatching
  refine .bind .get fun r => ?_
  split
  · exact .pure _
  · dsimp only
    split
    · exact .bind (.modify fun _ => rfl) fun _ => .pure _
    · exact .ite (.pure _) (.bind (.orPanic _) fun _ => .bind (stands_setProgress _ _) fun _ =>
        .bind (.modify fun _ => rfl) fun _ => .pure _)

theorem stands_sendEntries (dest : ℕ) (pr : Progress) (t : ℕ) (es : List Entry) :
    Stands (sendEntries dest pr t es : RaftM σ Unit) := by
  unfold sendEntries noteSent
  refine .bind .get fun r => .bind ?_ fun _ => stands_send _
  split
  · exact .pure _
  · exact .bind (.orPanic _) fun _ => stands_setProgress _ _

theorem stands_broadcastHeartbeatWithCtx (ctx : Option Bytes) :
    Stands (broadcastHeartbeatWithCtx ctx : RaftM σ Unit) := by
  unfold broadcastHeartbeatWithCtx sendHeartbeat
  refine .bind .get fun r => .each _ fun id => .ite (.pure _) (.bind .get fun r' => ?_)
  split
  · exact .pure _
  · exact .bind .get fun _ => stands_send _

theorem stands_broadcastHeartbeat : Stands (broadcastHeartbeat : RaftM σ Unit) :=
  .bind .get fun _ => stands_broadcastHeartbeatWithCtx _

theorem stands_answerRead (req : Message) (index : ℕ) :
    Stands (answerRead req index : RaftM σ Unit) := by
  unfold answerRead handleReadyReadIndex
  refine .bind (.bind .get fun r => .ite (.bind (.modify fun _ => rfl) fun _ => .pure _) (.pure _))
    fun resp => ?_
  split
  · exact .pure _
  · exact stands_send _

theorem stands_serveReadIndex (m : Message) : Stands (serveReadIndex m : RaftM σ Unit) := by
  unfold serveReadIndex
  refine .bind .get fun r => .ite (stands_answerRead _ _) ?_
  split
  · split
    · exact .pure _
    · exact .bind (.modify fun _ => rfl) fun _ => stands_broadcastHeartbeatWithCtx _
  · exact stands_answerRead _ _

theorem stands_ackRead (sender : ℕ) (ctx : Bytes) : Stands (ackRead sender ctx : RaftM σ Unit) := by
  unfold ackRead releaseReads
  refine .bind .get fun r => .bind (.modify fun _ => rfl) fun _ => ?_
  split
  · exact .pure _
  · refine .ite (.bind .get fun r' => ?_) (.pure _)
    split
    · exact .throw _
    · exact .bind (.modify fun _ => rfl) fun _ => .each _ fun _ => stands_answerRead _ _

variable [Storage σ]

theorem stands_sendSnapshot (dest : ℕ) (pr : Progress) :
    Stands (sendSnapshot dest pr : RaftM σ Bool) := by
  unfold sendSnapshot
  refine .ite (.pure _) (.bind .get fun r => ?_)
  split
  · exact .pure _
  · exact .throw _
  · exact .bind (.assert _) fun _ => .bind (stands_setProgress _ _) fun _ =>
      .bind (stands_send _) fun _ => .pure _

theorem stands_maybeSendAppend (dest : ℕ) (allowEmpty : Bool) :
    Stands (maybeSendAppend dest allowEmpty : RaftM σ Bool) := by
  unfold maybeSendAppend
  refine .bind .get fun r => ?_
  split
  · exact .pure _
  · refine .ite (.pure _) (.ite (stands_sendSnapshot _ _)
      (.bind (.attempt (stands_onLog (RaftLog.keeps_getEntries _ _ _))) fun got => ?_))
    split
    · exact .pure _
    · exact stands_sendSnapshot _ _
    · exact .throw _
    · refine .ite (.pure _) ?_
      split
      · exact stands_sendSnapshot _ _
      · dsimp only
        split
        · exact .bind (stands_tryBatching _ _ _) fun _ => .ite (.pure _)
            (.bind (stands_sendEntries _ _ _ _) fun _ => .pure _)
        · exact .bind (.pure _) fun _ => .ite (.pure _)
            (.bind (stands_sendEntries _ _ _ _) fun _ => .pure _)

theorem stands_sendAppend (dest : ℕ) : Stands (sendAppend dest : RaftM σ Unit) :=
  .bind (stands_maybeSendAppend _ _) fun _ => .pure _

theorem stands_sendAppendAggressively (dest : ℕ) :
    Stands (sendAppendAggressively dest : RaftM σ Unit) := by
  have hloop : ∀ fuel, Stands (sendAppendLoop dest fuel : RaftM σ Unit) := by
    intro fuel
    induction fuel with
    | zero => exact .panic
    | succ fuel ih =>
        unfold sendAppendLoop
        exact .bind (stands_maybeSendAppend _ _) fun _ => .ite ih (.pure _)
  unfold sendAppendAggressively
  refine .bind .get fun r => ?_
  split
  · exact .pure _
  · exact hloop _

theorem stands_broadcastAppend : Stands (broadcastAppend : RaftM σ Unit) := by
  unfold broadcastAppend
  exact .bind .get fun r => .each r.progressTracker.peerIds fun id => .ite (.pure _) (stands_sendAppend _)

omit [Storage σ] in
theorem stands_ping : Stands (ping : RaftM σ Unit) := by
  unfold ping
  exact .bind .get fun r => .ite (.ignore stands_broadcastHeartbeat) (.pure _)

theorem stands_maybeCommit : Stands (maybeCommit : RaftM σ Bool) := by
  unfold maybeCommit releasePendingReadIndexMessages
  refine .bind .get fun r => .bind (stands_onLog (RaftLog.keeps_maybeCommit _ _)) fun advanced =>
    .ite ?_ (.pure _)
  refine .bind (.modify fun s => ?_) fun _ => .bind (.bind .get fun r' => ?_) fun _ => .pure _
  · split <;> rfl
  · exact .ite (.pure _) (.ite (.pure _) (.bind (.modify fun _ => rfl) fun _ =>
      .each _ stands_serveReadIndex))

theorem stands_postConfChange (cs : ConfState) : Stands (postConfChange cs : RaftM σ Unit) := by
  unfold postConfChange sendAfterConfChange ackOwnRead
  refine .bind (.modify fun _ => rfl) fun _ => .bind .get fun r => .ite (.pure _) (.ite (.pure _) ?_)
  refine .bind (.catchErr stands_maybeCommit fun _ => .pure _) fun committed => .bind ?_ fun _ =>
    .bind ?_ fun _ => .modify fun s => ?_
  · exact .bind .get fun r' => .ite (.ignore stands_broadcastAppend)
      (.each _ fun _ => .ite (.pure _) (.ignore (stands_maybeSendAppend _ _)))
  · refine .bind .get fun r' => ?_
    split
    · exact .pure _
    · exact .ignore (stands_ackRead _ _)
  · split
    · split <;> rfl
    · rfl

/-! ### Handlers -/

theorem stands_requestVote (t : CampaignType) (msgType : MessageType) (term commit commitTerm id : ℕ) :
    Stands (requestVote t msgType term commit commitTerm id : RaftM σ Unit) := by
  unfold requestVote
  exact .bind .get fun r => .ite (.pure _) (stands_send _)

theorem stands_hasUnappliedConfChanges (lo hi : ℕ) :
    Stands (hasUnappliedConfChanges lo hi : RaftM σ Bool) := by
  unfold hasUnappliedConfChanges
  exact .bind .get fun r => .ite (.pure _)
    (.catchErr (stands_onLog (RaftLog.keeps_scan _ _ _ _ _ _)) fun _ => .pure _)

theorem stands_sendRequestSnapshot : Stands (sendRequestSnapshot : RaftM σ Unit) :=
  .bind .get fun _ => stands_send _

theorem stands_requestSnapshot : Stands (requestSnapshot : RaftM σ Unit) := by
  unfold requestSnapshot
  exact .bind .get fun r => .ite (.throw _) (.ite (.bind (.modify fun _ => rfl) fun _ =>
    stands_sendRequestSnapshot) (.throw _))

theorem stands_handleHeartbeat (m : Message) : Stands (handleHeartbeat m : RaftM σ Unit) := by
  unfold handleHeartbeat
  exact .bind (.ignore (stands_onLog (RaftLog.keeps_commitTo _))) fun _ => .bind .get fun r =>
    .ite stands_sendRequestSnapshot (stands_send _)

theorem stands_handleAppendResponse (m : Message) :
    Stands (handleAppendResponse m : RaftM σ Unit) := by
  unfold handleAppendResponse handleAppendReject handleAppendAck sendAfterAck transferIfCaughtUp
  refine .bind (.query _) fun next => .bind .get fun r => ?_
  split
  · exact .pure _
  · refine .ite (.ite (.bind (stands_setProgress _ _) fun _ => stands_sendAppend _)
      (stands_setProgress _ _)) (.ite (stands_setProgress _ _) ?_)
    refine .bind (stands_setProgress _ _) fun _ => .bind stands_maybeCommit fun committed =>
      .bind (.bind .get fun r' => ?_) fun _ => .bind (stands_sendAppendAggressively _) fun _ =>
        .bind .get fun r' => ?_
    · exact .ite (.ite stands_broadcastAppend (.pure _)) (.ite (stands_sendAppend _) (.pure _))
    · split
      · exact .ite (stands_send _) (.pure _)
      · exact .pure _

theorem stands_handleHeartbeatResponse (m : Message) :
    Stands (handleHeartbeatResponse m : RaftM σ Unit) := by
  unfold handleHeartbeatResponse
  refine .bind .get fun r => ?_
  split
  · exact .pure _
  · exact .bind (stands_setProgress _ _) fun _ =>
      .bind (.ite (stands_sendAppend _) (.pure _)) fun _ => .ite (stands_ackRead _ _) (.pure _)

omit [Storage σ] in
theorem stands_handleSnapshotStatus (m : Message) :
    Stands (handleSnapshotStatus m : RaftM σ Unit) := by
  unfold handleSnapshotStatus
  refine .bind .get fun r => ?_
  split
  · exact .pure _
  · exact .ite (.pure _) (stands_setProgress _ _)

omit [Storage σ] in
theorem stands_handleUnreachable (m : Message) : Stands (handleUnreachable m : RaftM σ Unit) := by
  unfold handleUnreachable
  refine .bind .get fun r => ?_
  split
  · exact .pure _
  · exact .ite (stands_setProgress _ _) (.pure _)

theorem stands_handleTransferLeader (m : Message) :
    Stands (handleTransferLeader m : RaftM σ Unit) := by
  unfold handleTransferLeader
  refine .bind .get fun r => ?_
  split
  · exact .pure _
  · refine .ite (.pure _) (.ite (.pure _) (.bind (.modify fun _ => rfl) fun _ => .ite (.pure _) ?_))
    exact .bind (.modify fun _ => rfl) fun _ => .ite (stands_send _) (stands_sendAppend _)

omit [Storage σ] in
theorem stands_stepLowerTerm (m : Message) : Stands (stepLowerTerm m : RaftM σ Unit) := by
  unfold stepLowerTerm
  exact .bind .get fun r => .ite (stands_send _) (.ite (stands_send _) (.pure _))

theorem stands_onPersistEntries (index term : ℕ) :
    Stands (onPersistEntries index term : RaftM σ Unit) := by
  unfold onPersistEntries
  refine .bind (stands_onLog (RaftLog.keeps_maybePersist (fun _ _ => rfl) _ _)) fun update => .bind .get fun r =>
    .ite ?_ (.pure _)
  split
  · exact .pure _
  · exact .bind (stands_setProgress _ _) fun _ => .ite (.pure _) (.bind stands_maybeCommit fun _ =>
      .bind .get fun r' => .ite stands_broadcastAppend (.pure _))

omit [Storage σ] in
theorem stands_onPersistSnapshot (index : ℕ) : Stands (onPersistSnapshot index : RaftM σ Unit) :=
  .bind (stands_onLog (RaftLog.keeps_maybePersistSnapshot (fun _ _ => rfl) _)) fun _ => .pure _

end Raft

end Raftz
