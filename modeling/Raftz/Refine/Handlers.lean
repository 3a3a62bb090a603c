import Raftz.Refine.Roles

/-! # The message handlers refine the protocol

Configuration changes and snapshots, the handlers of a follower and those of a
leader.  `Reaches honest m c r x` says that `x`, run on `r`, only takes protocol
steps on `m`, whether it returns or fails. -/

open Base

namespace Raftz.Raft

variable {σ : Type} [LawfulStorage σ] {honest : Prop} {m : Message} {c : Peer} {r : Raft σ}

/-- The computation takes protocol steps on `m` only. -/
def Reaches {α : Type} (honest : Prop) (m : Message) (c : Peer) (r : Raft σ) (x : RaftM σ α) :
    Prop :=
  x.wp (fun _ r' => Reach honest m c r') (fun _ r' => Reach honest m c r') r

/-- A computation that a leader runs, and after which it still leads. -/
def Leads {α : Type} (honest : Prop) (m : Message) (c : Peer) (r : Raft σ) (x : RaftM σ α) : Prop :=
  x.wp (fun _ r' => Reach honest m c r' ∧ Served r.core r')
    (fun _ r' => Reach honest m c r' ∧ Served r.core r') r

theorem Leads.reaches {α : Type} {x : RaftM σ α} (h : Leads honest m c r x) :
    Reaches honest m c r x := Act.wp_mono h (fun _ _ h => h.1) fun _ _ h => h.1

theorem SendsOnly.leads {α : Type} {x : RaftM σ α} (hx : SendsOnly honest m x)
    (h : Reach honest m c r) (hl : r.state = .leader) : Leads honest m c r x :=
  Act.wp_mono (hx c r h hl) (fun _ _ h => ⟨h.1, h.2.served⟩) fun _ _ h => ⟨h.1, h.2.served⟩

/-- Continue on the state that a leader's computation left. -/
theorem Leads.wp_bind {α β : Type} {x : RaftM σ α} {f : α → RaftM σ β}
    (hx : Leads honest m c r x) (hl : r.state = .leader)
    (hf : ∀ a (r' : Raft σ), Reach honest m c r' → r'.state = .leader → Served r.core r' →
      Leads honest m c r' (f a)) : Leads honest m c r (x >>= f) := by
  unfold Leads
  rw [Act.wp_bind]
  refine Act.wp_mono hx ?_ fun _ _ h => h
  rintro a r' ⟨h', hs⟩
  refine Act.wp_mono (hf a r' h' (hs.role.trans hl) hs) ?_ ?_
  · exact fun _ _ h'' => ⟨h''.1, hs.trans h''.2⟩
  · exact fun _ _ h'' => ⟨h''.1, hs.trans h''.2⟩

theorem Leads.ignore {α : Type} {x : RaftM σ α} (hx : Leads honest m c r x) :
    Leads honest m c r (Act.ignore x) := by
  unfold Leads
  rw [Act.wp_ignore]
  exact hx

/-! ### Reads -/

theorem leads_ackRead (h : Reach honest m c r) (hl : r.state = .leader) {v : ℕ} {ctx : Bytes}
    (hv : v = r.core.id ∨ (v = m.sender ∧ ctx = m.context ∧ m.msgType = .heartbeatResponse ∧
      r.core.Current m)) : Leads honest m c r (ackRead v ctx) := by
  unfold Leads ackRead
  rw [Act.wp_bind, Act.wp_get, Act.wp_bind, Act.wp_modify]
  have hack : Reach honest m c
      ({ r with readOnly := (r.readOnly.recvACK v ctx).1 } : Raft σ) :=
    h.step { h.sound with reads := h.sound.reads.recvACK v ctx } (.ackRead r.core v ctx hl hv)
  split
  · exact ⟨hack, rfl⟩
  · rename_i acks hacks
    rw [Act.wp_ite]
    refine ⟨fun hq => ?_, fun _ => ⟨hack, rfl⟩⟩
    obtain ⟨st, hst, rfl⟩ := ReadOnly.recvACK_some hacks
    refine Act.wp_mono (wp_releaseReads hack hl hst hq) ?_ ?_
    · exact fun _ r' h' => ⟨h'.1, Served.trans (r := { r with
        readOnly := (r.readOnly.recvACK v ctx).1 }) rfl h'.2⟩
    · exact fun _ r' h' => ⟨h'.1, Served.trans (r := { r with
        readOnly := (r.readOnly.recvACK v ctx).1 }) rfl h'.2⟩

theorem leads_ackOwnRead (h : Reach honest m c r) (hl : r.state = .leader) :
    Leads honest m c r ackOwnRead := by
  unfold Leads ackOwnRead
  rw [Act.wp_bind, Act.wp_get]
  split
  · exact ⟨h, Served.refl r⟩
  · exact (leads_ackRead h hl (Or.inl rfl)).ignore

/-! ### Configurations and snapshots -/

theorem leads_sendAfterConfChange (h : Reach honest m c r) (hl : r.state = .leader) (b : Bool) :
    Leads honest m c r (sendAfterConfChange b) := by
  unfold Leads sendAfterConfChange
  rw [Act.wp_bind, Act.wp_get, Act.wp_ite]
  refine ⟨fun _ => sendsOnly_broadcastAppend.ignore.leads h hl, fun _ => ?_⟩
  exact (SendsOnly.each _ fun id => .ite _ (.of_pure ())
    (sendsOnly_maybeSendAppend id false).ignore).leads h hl

/-- After a change of the configuration the node is sound again, and a leader has only committed,
sent and answered. -/
theorem wp_postConfChange (cs : ConfState)
    (hs : ({ r with promotable := r.progressTracker.conf.voters.contains r.id } : Raft σ).Sound honest)
    (hmic : Micros honest m c r.core) : Leads honest m c r (postConfChange cs) := by
  have h : Reach honest m c
      ({ r with promotable := r.progressTracker.conf.voters.contains r.id } : Raft σ) := ⟨hs, hmic⟩
  unfold Leads postConfChange
  rw [Act.wp_bind, Act.wp_modify, Act.wp_bind, Act.wp_get, Act.wp_ite]
  refine ⟨fun _ => ⟨h, rfl⟩, fun _ => ?_⟩
  rw [Act.wp_ite]
  refine ⟨fun _ => ⟨h, rfl⟩, fun hl => ?_⟩
  have hl : r.state = .leader := by
    by_contra hf
    exact hl (Or.inl hf)
  have hcommit : Leads honest m c
      ({ r with promotable := r.progressTracker.conf.voters.contains r.id } : Raft σ)
      (Act.catchErr maybeCommit (fun _ => pure false)) := by
    unfold Leads
    rw [Act.wp_catchErr]
    exact Act.wp_mono (wp_maybeCommit h hl) (fun _ _ h => h) fun _ _ h => h
  refine Act.wp_mono (hcommit.wp_bind hl fun b r1 h1 hl1 _ => ?_) (fun _ r' h' => ⟨h'.1, h'.2⟩)
    fun _ r' h' => ⟨h'.1, h'.2⟩
  refine (leads_sendAfterConfChange h1 hl1 b).wp_bind hl1 fun _ r2 h2 hl2 _ => ?_
  refine (leads_ackOwnRead h2 hl2).wp_bind hl2 fun _ r3 h3 _ _ => ?_
  unfold Leads
  rw [Act.wp_modify]
  split
  · split
    · exact ⟨h3, Served.refl r3⟩
    · exact ⟨h3.same { h3.sound with } rfl, rfl⟩
  · exact ⟨h3, Served.refl r3⟩

/-- Nothing is left to a follower after a configuration is in place. -/
theorem wp_postConfChange_follower (cs : ConfState) (hf : r.state = .follower)
    {Q : Unit → Raft σ → Prop} {E : Err → Raft σ → Prop}
    (hQ : Q () { r with promotable := r.progressTracker.conf.voters.contains r.id }) :
    (postConfChange cs).wp Q E r := by
  unfold postConfChange
  rw [Act.wp_bind, Act.wp_modify, Act.wp_bind, Act.wp_get, Act.wp_ite]
  refine ⟨fun _ => hQ, fun _ => ?_⟩
  rw [Act.wp_ite]
  refine ⟨fun _ => hQ, fun hl => absurd (Or.inl ?_) hl⟩
  exact fun hl' => absurd (hf.symm.trans hl') (by decide)

/-- Installing a snapshot, as a follower that processes it or by a call that has no term. -/
theorem wp_restoreSnapshot (h : Reach honest m c r) {snap : Snapshot}
    (hm : m.msgType = .snapshot) (hs : m.snapshot = some snap) (hcur : r.core.Current m)
    (hr : r.state = .follower ∨ m.term = 0) :
    (restoreSnapshot snap).wp
      (fun b r' => Reach honest m c r' ∧
        (r.state = .follower → r'.state = .follower ∧ r'.term = r.term) ∧
        (b = true → r'.raftLog.lastIndex = r'.raftLog.committed))
      (fun _ r' => Reach honest m c r') r := by
  have hsame : Reach honest m c r ∧ (r.state = .follower → r.state = .follower ∧ r.term = r.term) ∧
      (false = true → r.raftLog.lastIndex = r.raftLog.committed) :=
    ⟨h, fun hf => ⟨hf, rfl⟩, fun hf => by cases hf⟩
  unfold restoreSnapshot
  rw [Act.wp_bind, Act.wp_get, Act.wp_ite]
  refine ⟨fun _ => hsame, fun hmax => ?_⟩
  rw [Act.wp_ite]
  refine ⟨fun _ => hsame, fun hreq => ?_⟩
  rw [Act.wp_ite]
  refine ⟨fun _ => hsame, fun hlow => ?_⟩
  rw [Act.wp_ite]
  refine ⟨fun _ => hsame, fun heq => ?_⟩
  have hpos : 0 < snap.metadata.index := by
    unfold invalidIndex at hreq heq
    omega
  rw [Act.wp_ite]
  refine ⟨fun hnf => ?_, fun hf => ?_⟩
  · rw [Act.wp_bind]
    refine wp_becomeFollower h (.unstamped (hr.resolve_left hnf) (Or.inr (Or.inr hm))) ?_
    intro r' h' _ _ _ _ _
    exact ⟨h', fun hf => absurd hf hnf, fun hf => by cases hf⟩
  have hf : r.state = .follower := not_not.mp hf
  rw [Act.wp_ite]
  refine ⟨fun _ => hsame, fun _ => ?_⟩
  rw [Act.wp_ite]
  refine ⟨fun _ => hsame, fun _ => ?_⟩
  rw [Act.wp_ite]
  refine ⟨fun hmatch => ?_, fun _ => ?_⟩
  · have hat : r.raftLog.log.termAt snap.metadata.index = some snap.metadata.term := by
      have := hmatch.2
      rw [h.sound.log.matchTerm_eq] at this
      simpa using this
    unfold onLog
    rw [Act.wp_bind, Act.wp_ignore, Act.wp_zoom]
    refine Act.wp_mono (h.sound.log.wp_commitTo _) ?_ ?_
    · rintro _ l' (⟨_, rfl⟩ | ⟨hlt, hle, rfl⟩)
      · exact hsame
      · refine ⟨h.step { h.sound with log := h.sound.log.setCommitted hlt.le hle } ?_,
          fun _ => ⟨hf, rfl⟩, fun hb => by cases hb⟩
        exact .commit r.core _ hlt hle (.snapshot snap hm hs hf hcur rfl hat)
    · rintro _ l' rfl
      exact hsame
  · split
    · exact h
    · exact hsame
    · rename_i tracker htracker
      unfold onLog
      rw [Act.wp_bind, Act.wp_attempt, Act.wp_zoom]
      refine Act.wp_mono (h.sound.log.wp_restore snap) ?_ ?_
      · rintro _ l' ⟨hwf, hle, hlog, rfl⟩
        dsimp only
        rw [Act.wp_bind, Act.wp_modify, Act.wp_bind]
        have htr := ConfRestore.restore_sound (Nat.succ_pos _) htracker
        have hfresh := ConfRestore.restore_fresh htracker
        refine wp_postConfChange_follower _ ?_ ?_
        · exact hf
        rw [Act.wp_bind, Act.wp_modify]
        refine ⟨⟨?_, h.micros.tail ?_⟩, fun _ => ⟨hf, rfl⟩, fun _ => ?_⟩
        · exact {
            id_ne := h.sound.id_ne
            log := hwf
            limit := h.sound.limit
            snapshot := by
              rintro s ⟨⟩
              exact ⟨hpos, hmax⟩
            requested := fun _ => rfl
            tracker := htr
            promotable := rfl
            leader := fun hl => absurd (hf.symm.trans hl) (by decide)
            candidate := by
              rintro (hl | hl)
              · exact absurd (hf.symm.trans hl) (by decide)
              · exact absurd (hf.symm.trans hl) (by decide)
            reads := h.sound.reads
            asked := fun _ id p hp => by
              rw [(hfresh.progress id p hp).2]
              exact Nat.zero_le _ }
        · have hmicro := @Micro.restore honest m r.core snap tracker _ _ hm hs hf hcur hle
            (fun hp => ?_) htracker
          · convert hmicro using 1
            unfold core
            congr 1
            · funext v
              show tracker.votes.lookup v = none
              rw [hfresh.votes]
              exact AList.lookup_empty v
            · funext v
              show ((tracker.get v).map Progress.matched).getD 0 = 0
              cases hp : tracker.get v with
              | none => rfl
              | some p => exact (hfresh.progress v p hp).1
          · -- a second snapshot is not taken at the position of the first
            have hnone : r.raftLog.unstable.snapshot ≠ none := by
              intro hnone
              refine hp ?_
              show r.raftLog.unstable.snapshot.map _ = none
              rw [hnone]
              rfl
            have hzero := h.sound.requested hnone
            show r.raftLog.committed < snap.metadata.index
            have : ¬ snap.metadata.index = r.raftLog.committed := fun he => heq ⟨he, hzero⟩
            omega
        · rw [show (_ : RaftLog σ).lastIndex = _ from hwf.lastIndex_eq]
          rw [hlog]
          rfl
      · rintro e l' rfl
        split
        · exact h
        · exact hsame
        · rename_i heq
          cases heq

/-! ### Handlers of a follower -/

theorem wp_sendRequestSnapshot (h : Reach honest m c r) :
    Reaches honest m c r sendRequestSnapshot := by
  unfold Reaches sendRequestSnapshot
  rw [Act.wp_bind, Act.wp_get]
  refine wp_send_stamped rfl rfl rfl (h.send ?_)
  exact .appendResponse _ rfl rfl rfl (Or.inl rfl)

theorem wp_requestSnapshot (h : Reach honest m c r) : Reaches honest m c r requestSnapshot := by
  unfold Reaches requestSnapshot
  rw [Act.wp_bind, Act.wp_get, Act.wp_ite]
  refine ⟨fun _ => h, fun hno => ?_⟩
  dsimp only
  rw [Act.wp_ite]
  refine ⟨fun _ => ?_, fun _ => h⟩
  rw [Act.wp_bind, Act.wp_modify]
  refine wp_sendRequestSnapshot (h.same { h.sound with requested := fun hs => ?_ } rfl)
  exact absurd (Or.inr (Or.inr (Or.inl hs))) hno

/-- Merging a leader's entries is a protocol step, and so is the commit that follows it. -/
theorem reach_of_merge (h : Reach honest m c r) (hm : m.msgType = .append)
    (hf : r.state = .follower) (hcur : r.core.Current m) (hidx : r.raftLog.committed ≤ m.index)
    {commit : ℕ} (hcom : commit ≤ m.commit) {res : MaybeAppendResult} {l : RaftLog σ}
    (hl : RaftLog.MergeSpec r.raftLog m.index m.logTerm commit m.entries res l) :
    Reach honest m c ({ r with raftLog := l } : Raft σ) ∧ l.log.Holds m := by
  have hholds : l.log.Holds m :=
    ⟨(hl.merged.termAt_le hl.consecutive le_rfl).trans hl.termAt, hl.consecutive,
      hl.merged.holds h.sound.log.base_le hl.consecutive⟩
  have hmerge : Micro honest m r.core
      { r.core with log := l.log, persisted := l.persisted } :=
    .merge r.core l.log l.persisted hm hf hcur hidx hl.termAt hl.consecutive hl.merged
      hl.persisted_le hl.persisted_ge hl.stable
  have hcore : ({ r with raftLog := l } : Raft σ).core =
      { r.core with log := l.log, persisted := l.persisted, committed := l.committed } := by
    unfold core
    dsimp only
    rw [hl.snapshot, hl.store, hl.applied]
  refine ⟨⟨h.sound.setLog hl.wf hl.store hl.snapshot hl.limit, ?_⟩, hholds⟩
  rw [hcore]
  have hmic := h.micros.tail hmerge
  have hcl := hl.wf.committed_le
  have hlen := hl.lastIndex
  have hceq := hl.committed
  rcases Nat.lt_or_ge r.raftLog.committed l.committed with hlt | hge
  · refine hmic.tail (.commit _ l.committed hlt hcl (.append hm hf hcur hholds ?_ ?_))
    · omega
    · omega
  · have heq : l.committed = r.core.committed := by
      show l.committed = r.raftLog.committed
      omega
    rw [heq]
    exact hmic

theorem wp_handleAppendEntries (h : Reach honest m c r) (hm : m.msgType = .append)
    (hf : r.state = .follower) (hcur : r.core.Current m) :
    Reaches honest m c r (handleAppendEntries m) := by
  unfold Reaches handleAppendEntries
  rw [Act.wp_bind, Act.wp_get, Act.wp_ite]
  refine ⟨fun _ => wp_sendRequestSnapshot h, fun _ => ?_⟩
  rw [Act.wp_ite]
  refine ⟨fun _ => ?_, fun hidx => ?_⟩
  · refine wp_send_stamped rfl rfl rfl (h.send ?_)
    exact .appendResponse _ rfl rfl rfl (Or.inr (Or.inr ⟨hcur, hf, Or.inl ⟨Or.inl hm, rfl⟩⟩))
  have hidx : r.raftLog.committed ≤ m.index := by omega
  unfold onLog
  rw [Act.wp_bind, Act.wp_zoom]
  refine Act.wp_mono (h.sound.log.wp_maybeAppend _ _ _ _) ?_ ?_
  · rintro res l hcase
    rw [Act.wp_bind, Act.wp_get, Act.wp_ite]
    rcases hcase with ⟨hno, rfl⟩ | ⟨hyes, hl⟩
    · refine ⟨fun hy => absurd (hy.symm.trans hno) (by decide), fun _ => ?_⟩
      rw [Act.wp_bind, Act.wp_query]
      refine ⟨fun fc _ => ?_, fun _ _ => h⟩
      refine wp_send_stamped rfl rfl rfl (h.send ?_)
      exact .appendResponse _ rfl rfl rfl (Or.inl rfl)
    · refine ⟨fun _ => ?_, fun hn => absurd hyes hn⟩
      obtain ⟨h', hholds⟩ := reach_of_merge h hm hf hcur hidx le_rfl hl
      refine wp_send_stamped rfl rfl rfl (h'.send ?_)
      exact .appendResponse _ rfl rfl rfl
        (Or.inr (Or.inr ⟨hcur, hf, Or.inr ⟨hm, hholds, hl.lastIndex⟩⟩))
  · rintro e l (rfl | ⟨res, hl⟩)
    · exact h
    · exact (reach_of_merge h hm hf hcur hidx (Nat.zero_le _) hl).1

theorem wp_handleHeartbeat (h : Reach honest m c r) (hm : m.msgType = .heartbeat)
    (hf : r.state = .follower) (hcur : r.core.Current m) :
    Reaches honest m c r (handleHeartbeat m) := by
  have hrest : ∀ r' : Raft σ, Reach honest m c r' → r'.state = .follower → r'.core.Current m →
      (do
        let r ← Act.get
        if r.pendingRequestSnapshot ≠ invalidIndex then sendRequestSnapshot
        else
          send {
            msgType := .heartbeatResponse
            dest := m.sender
            context := m.context
            commit := r.raftLog.committed } : RaftM σ Unit).wp
        (fun _ r' => Reach honest m c r') (fun _ r' => Reach honest m c r') r' := by
    intro r' h' hf' hcur'
    rw [Act.wp_bind, Act.wp_get, Act.wp_ite]
    refine ⟨fun _ => wp_sendRequestSnapshot h', fun _ => ?_⟩
    refine wp_send_stamped rfl rfl rfl (h'.send ?_)
    exact .heartbeatResponse _ hf' hm hcur' rfl rfl rfl rfl
  unfold Reaches handleHeartbeat onLog
  rw [Act.wp_bind, Act.wp_ignore, Act.wp_zoom]
  refine Act.wp_mono (h.sound.log.wp_commitTo _) ?_ ?_
  · rintro _ l' (⟨_, rfl⟩ | ⟨hlt, hle, rfl⟩)
    · exact hrest r h hf hcur
    · refine hrest _ (h.step { h.sound with log := h.sound.log.setCommitted hlt.le hle } ?_) hf hcur
      exact .commit r.core _ hlt hle (.heartbeat hm hf hcur rfl)
  · rintro _ l' rfl
    exact hrest r h hf hcur

theorem wp_handleSnapshot (h : Reach honest m c r) (hm : m.msgType = .snapshot)
    (hf : r.state = .follower) (hcur : r.core.Current m) :
    Reaches honest m c r (handleSnapshot m) := by
  unfold Reaches handleSnapshot
  split
  · exact h
  · rename_i snap hsnap
    rw [Act.wp_bind]
    refine Act.wp_mono (wp_restoreSnapshot h hm hsnap hcur (Or.inl hf)) ?_ fun _ _ h' => h'
    rintro b r' ⟨h', hrole, hb⟩
    obtain ⟨hf', ht'⟩ := hrole hf
    rw [Act.wp_bind, Act.wp_get]
    refine wp_send_stamped rfl rfl rfl (h'.send ?_)
    refine .appendResponse _ rfl rfl rfl (Or.inr (Or.inr ⟨?_, hf', Or.inl ⟨Or.inr hm, ?_⟩⟩))
    · show m.term = r'.term ∨ m.term = 0
      rw [ht']
      exact hcur
    · dsimp only
      split
      · rename_i hb'
        exact hb hb'
      · rfl

end Raftz.Raft
