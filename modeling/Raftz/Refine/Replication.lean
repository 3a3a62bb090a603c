import Raftz.Refine.Sound

/-! # Replication refines the protocol

What the sending half of the state machine does to the protocol's view: the
send operations only add messages (`SendsOnly`), the read operations register
and answer requests, and `maybeCommit` commits what a quorum acknowledged. -/

open Base

namespace Raftz.Raft

variable {σ : Type} [LawfulStorage σ] {honest : Prop} {m : Message} {c : Peer} {r : Raft σ}

/-- Only the queue of outbound messages has changed. -/
def Sent (c : Peer) (r : Raft σ) : Prop := r.core = { c with out := r.messages }

theorem Sent.refl (r : Raft σ) : Sent r.core r := rfl

theorem Sent.trans {r' : Raft σ} (h : Sent c r) (h' : Sent r.core r') : Sent c r' := by
  unfold Sent at *
  rw [h', h]

theorem Sent.role (h : Sent c r) : r.state = c.role := congrArg Peer.role h
theorem Sent.log (h : Sent c r) : r.core.log = c.log := (congrArg Peer.log h :)
theorem Sent.committed (h : Sent c r) : r.core.committed = c.committed :=
  (congrArg Peer.committed h :)

/-- On a leader, the computation only sends. -/
def SendsOnly {α : Type} (honest : Prop) (m : Message) (x : RaftM σ α) : Prop :=
  ∀ c r, Reach honest m c r → r.state = .leader →
    x.wp (fun _ r' => Reach honest m c r' ∧ Sent r.core r')
      (fun _ r' => Reach honest m c r' ∧ Sent r.core r') r

namespace SendsOnly

variable {α β : Type}

theorem of_pure (a : α) : SendsOnly honest m (pure a : RaftM σ α) :=
  fun _ r h _ => ⟨h, Sent.refl r⟩

/-- After a sending step, continue on the state it left. -/
theorem wp_bind {x : RaftM σ α} {f : α → RaftM σ β} (hx : SendsOnly honest m x)
    (hf : ∀ a, SendsOnly honest m (f a)) : SendsOnly honest m (x >>= f) := by
  intro c r h hl
  rw [Act.wp_bind]
  refine Act.wp_mono (hx c r h hl) ?_ fun _ _ h => h
  rintro a r' ⟨h', hs⟩
  refine Act.wp_mono (hf a c r' h' (hs.role.trans hl)) ?_ ?_
  · exact fun _ _ h'' => ⟨h''.1, hs.trans h''.2⟩
  · exact fun _ _ h'' => ⟨h''.1, hs.trans h''.2⟩

theorem ignore {x : RaftM σ α} (hx : SendsOnly honest m x) : SendsOnly honest m (Act.ignore x) := by
  intro c r h hl
  rw [Act.wp_ignore]
  exact hx c r h hl

theorem when {x : RaftM σ Unit} (p : Prop) [Decidable p] (hx : SendsOnly honest m x) :
    SendsOnly honest m (Act.when p x) := by
  intro c r h hl
  rw [Act.wp_when]
  exact ⟨fun _ => hx c r h hl, fun _ => ⟨h, Sent.refl r⟩⟩

theorem ite {x y : RaftM σ α} (p : Prop) [Decidable p] (hx : SendsOnly honest m x)
    (hy : SendsOnly honest m y) : SendsOnly honest m (if p then x else y) := by
  split
  · exact hx
  · exact hy

theorem each (l : List α) {f : α → RaftM σ Unit} (hf : ∀ a, SendsOnly honest m (f a)) :
    SendsOnly honest m (Act.each l f) := by
  induction l with
  | nil => exact of_pure ()
  | cons a as ih => exact wp_bind (hf a) (fun _ => ih)

/-- A computation that reads the state first. -/
theorem of_get {f : Raft σ → RaftM σ α}
    (hf : ∀ c r, Reach honest m c r → r.state = .leader →
      (f r).wp (fun _ r' => Reach honest m c r' ∧ Sent r.core r')
        (fun _ r' => Reach honest m c r' ∧ Sent r.core r') r) :
    SendsOnly honest m (Act.get >>= f) := by
  intro c r h hl
  rw [Act.wp_bind, Act.wp_get]
  exact hf c r h hl

end SendsOnly

/-! ### Append and snapshot messages -/

theorem sent_setProgress {id : ℕ} {p q : Progress} (hq : r.progressTracker.get id = some q)
    (hm : p.matched = q.matched) :
    Sent r.core ({ r with progressTracker := r.progressTracker.set id p } : Raft σ) :=
  core_setProgress_same hq hm

theorem sent_post (msgs : List Message) : Sent r.core ({ r with messages := msgs } : Raft σ) := rfl

/-- Where a snapshot of the combined log comes from. -/
theorem getSnapshot_cases (h : r.Sound honest) {req dest : ℕ} {snap : Snapshot}
    (hreq : honest → req ≤ (LawfulStorage.view r.raftLog.store).hardState.commit)
    (hs : r.raftLog.getSnapshot req dest = .ok snap) :
    r.core.pending = some snap.metadata ∨ (snap.metadata.confState = r.core.store.confState ∧
      (honest → snap.metadata.index ≤ r.core.store.hardState.commit ∧
        r.core.store.log.termAt snap.metadata.index = some snap.metadata.term)) := by
  have hstore : Storage.getSnapshot r.raftLog.store req dest = .ok snap →
      snap.metadata.confState = r.core.store.confState ∧
      (honest → snap.metadata.index ≤ r.core.store.hardState.commit ∧
        r.core.store.log.termAt snap.metadata.index = some snap.metadata.term) := by
    intro hs
    obtain ⟨h1, h2⟩ := LawfulStorage.getSnapshot_ok h.log.valid hs
    exact ⟨h1, fun hh => h2 (hreq hh)⟩
  unfold RaftLog.getSnapshot at hs
  split at hs
  · rename_i s hsnap
    split at hs
    · cases hs
      left
      show r.raftLog.unstable.snapshot.map Snapshot.metadata = _
      rw [hsnap]
      rfl
    · exact Or.inr (hstore hs)
  · exact Or.inr (hstore hs)

theorem wp_sendSnapshot (h : Reach honest m c r) (hl : r.state = .leader) {dest : ℕ} {pr : Progress}
    (hpr : r.progressTracker.get dest = some pr) :
    (sendSnapshot dest pr).wp (fun _ r' => Reach honest m c r' ∧ Sent r.core r')
      (fun _ r' => Reach honest m c r' ∧ Sent r.core r') r := by
  have hpend := fun hh => h.sound.asked hh dest pr hpr
  unfold sendSnapshot
  rw [Act.wp_ite]
  refine ⟨fun _ => ⟨h, Sent.refl r⟩, fun _ => ?_⟩
  rw [Act.wp_bind, Act.wp_get]
  split
  · exact ⟨h, Sent.refl r⟩
  · exact ⟨h, Sent.refl r⟩
  · rename_i snap hsnap
    rw [Act.wp_bind, Act.wp_assert]
    intro _
    unfold setProgress
    rw [Act.wp_bind, Act.wp_modify, Act.wp_bind]
    have hp := h.setProgress hpr ((h.sound.tracker.progress dest pr hpr).becomeSnapshot
      snap.metadata.index) rfl hpend
    refine wp_send_stamped rfl rfl rfl ?_
    exact ⟨hp.send (.snapshot _ snap hl rfl rfl rfl rfl (getSnapshot_cases h.sound hpend hsnap)),
      (sent_setProgress (p := pr.becomeSnapshot snap.metadata.index) hpr rfl).trans (sent_post _)⟩

/-- The entries a peer lacks are a piece of the log; the peer's next index is after `i`. -/
theorem segment_of_isPrefix {es : List Entry} {j : ℕ} {l : Log}
    (hp : es <+: l.slice j (l.last + 1)) (hj : es ≠ [] → l.base < j ∧ j ≤ l.last) :
    l.Segment j es := fun hne => ⟨(hj hne).1, hp⟩

/-- The last entry of a piece of the log that starts at `j` lies at or after `j`. -/
theorem getLast?_index {l : Log} (hc : l.Contiguous) {es : List Entry} {j : ℕ} {e : Entry}
    (hs : l.Segment j es) (he : es.getLast? = some e) : j ≤ e.index := by
  have hne : es ≠ [] := by
    rintro rfl
    cases he
  obtain ⟨hb, hp⟩ := hs hne
  have hcons := (hc.slice hb (l.last + 1)).of_isPrefix hp
  rw [List.getLast?_eq_getElem?, List.getElem?_eq_some_iff] at he
  obtain ⟨hk, rfl⟩ := he
  have hidx : es[es.length - 1].index = j + (es.length - 1) := Log.consecutive_iff.mp hcons _ hk
  omega

theorem updateState_asked {p q : Progress} {last : ℕ} (h : p.updateState last = some q) :
    q.pendingRequestSnapshot = p.pendingRequestSnapshot := by
  unfold Progress.updateState at h
  split at h
  · cases h
    rfl
  · split at h
    · cases h
      rfl
    · cases h
  · cases h

/-- Batching into a queued message. -/
theorem wp_tryBatching (h : Reach honest m c r) (hl : r.state = .leader) {dest : ℕ} {pr : Progress}
    (hpr : r.progressTracker.get dest = some pr) {es : List Entry}
    (hes : r.raftLog.log.Segment pr.nextIdx es) :
    (tryBatching dest pr es).wp (fun b r' => Reach honest m c r' ∧ Sent r.core r' ∧
        (b = false → r' = r))
      (fun _ r' => Reach honest m c r' ∧ Sent r.core r') r := by
  unfold tryBatching
  rw [Act.wp_bind, Act.wp_get]
  split
  · exact ⟨h, Sent.refl r, fun _ => rfl⟩
  · rename_i i hi
    obtain ⟨hlt, hat, _⟩ := List.findIdx?_eq_some_iff_getElem.mp hi
    have hget : r.messages[i]? = some (r.messages.getD i {}) := by
      rw [List.getD_eq_getElem?_getD, List.getElem?_eq_getElem hlt]
      rfl
    have htype : (r.messages.getD i {}).msgType = .append := by
      rw [List.getD_eq_getElem?_getD, List.getElem?_eq_getElem hlt]
      simp only [Bool.and_eq_true, beq_iff_eq] at hat
      exact hat.1
    split
    · rename_i hnil
      have hnil : es = [] := List.getLast?_eq_none_iff.mp hnil
      rw [Act.wp_bind, Act.wp_modify]
      refine ⟨h.step (h.sound.setMessages _) ?_, sent_post _, fun hb => by cases hb⟩
      have := @Micro.batch honest m r.core i (r.messages.getD i {}) [] hget htype hl
        (fun hn => absurd rfl hn) 0 (fun hn => absurd rfl hn)
      rwa [List.append_nil] at this
    · rename_i last hlast
      rw [Act.wp_ite]
      refine ⟨fun _ => ⟨h, Sent.refl r, fun _ => rfl⟩, fun hcont => ?_⟩
      rw [Act.wp_bind, Act.wp_orPanic]
      intro pr' hpr'
      unfold setProgress
      rw [Act.wp_bind, Act.wp_modify, Act.wp_bind, Act.wp_modify]
      have hm' := Progress.updateState_matched pr hpr'
      have hge := getLast?_index h.sound.log.contiguous hes hlast
      have hs' := (h.sound.tracker.progress dest pr hpr).updateState hpr' hge
      have hp := h.setProgress hpr hs' hm' (fun hh => by
        rw [updateState_asked hpr']
        exact h.sound.asked hh dest pr hpr)
      refine ⟨hp.step (hp.sound.setMessages _) ?_,
        (sent_setProgress hpr hm').trans (sent_post _), fun hb => by cases hb⟩
      have hb := @Micro.batch honest m
        ({ r with progressTracker := r.progressTracker.set dest pr' } : Raft σ).core i
        (r.messages.getD i {}) es hget htype hl (fun _ => by simpa using hcont) pr.nextIdx hes
      exact hb

theorem wp_sendEntries (h : Reach honest m c r) (hl : r.state = .leader) {dest : ℕ} {pr : Progress}
    (hpr : r.progressTracker.get dest = some pr) {es : List Entry}
    (hes : r.raftLog.log.Segment pr.nextIdx es) :
    (sendEntries dest pr (r.raftLog.log.term (pr.nextIdx - 1)) es).wp
      (fun _ r' => Reach honest m c r' ∧ Sent r.core r')
      (fun _ r' => Reach honest m c r' ∧ Sent r.core r') r := by
  have hpos := (h.sound.tracker.progress dest pr hpr).next_pos
  have hidx : pr.nextIdx - 1 + 1 = pr.nextIdx := by omega
  have hfinish : ∀ r' : Raft σ, Reach honest m c r' → Sent r.core r' → r'.messages = r.messages →
      (send {
        msgType := .append
        dest := dest
        index := pr.nextIdx - 1
        logTerm := r.raftLog.log.term (pr.nextIdx - 1)
        entries := es
        commit := r.raftLog.committed }).wp (fun _ r' => Reach honest m c r' ∧ Sent r.core r')
        (fun _ r' => Reach honest m c r' ∧ Sent r.core r') r' := by
    intro r' h' hs hmsg
    refine wp_send_stamped rfl rfl rfl ?_
    refine ⟨h'.send (.append _ (hs.role.trans hl) rfl rfl rfl ?_ ?_ ?_), hs.trans (sent_post _)⟩
    · dsimp only
      rw [hs.log]
      rfl
    · dsimp only
      rw [hs.log, hidx]
      exact hes
    · exact hs.committed.symm
  unfold sendEntries
  rw [Act.wp_bind, Act.wp_get, Act.wp_bind]
  unfold noteSent
  split
  · exact hfinish r h (Sent.refl r) rfl
  · rename_i last hlast
    rw [Act.wp_bind, Act.wp_orPanic]
    intro pr' hpr'
    unfold setProgress
    rw [Act.wp_modify]
    have hm' := Progress.updateState_matched pr hpr'
    have hge := getLast?_index h.sound.log.contiguous hes hlast
    have hs' := (h.sound.tracker.progress dest pr hpr).updateState hpr' hge
    exact hfinish _ (h.setProgress hpr hs' hm' (fun hh => by
      rw [updateState_asked hpr']
      exact h.sound.asked hh dest pr hpr)) (sent_setProgress hpr hm') rfl

theorem sendsOnly_maybeSendAppend (dest : ℕ) (allowEmpty : Bool) :
    SendsOnly honest m (maybeSendAppend dest allowEmpty : RaftM σ Bool) := by
  refine SendsOnly.of_get fun c r h hl => ?_
  split
  · exact ⟨h, Sent.refl r⟩
  · rename_i pr hpr
    rw [Act.wp_ite]
    refine ⟨fun _ => ⟨h, Sent.refl r⟩, fun _ => ?_⟩
    rw [Act.wp_ite]
    refine ⟨fun _ => wp_sendSnapshot h hl hpr, fun _ => ?_⟩
    unfold onLog
    rw [Act.wp_bind, Act.wp_attempt, Act.wp_zoom]
    refine Act.wp_mono h.sound.log.wp_getEntries ?_ ?_
    · rintro es l' ⟨rfl, hpre, hrange⟩
      have hseg := segment_of_isPrefix hpre hrange
      dsimp only
      rw [Act.wp_ite]
      refine ⟨fun _ => ⟨h, Sent.refl r⟩, fun _ => ?_⟩
      rw [h.sound.log.term_eq]
      dsimp only
      rw [Act.wp_ite]
      refine ⟨fun _ => ?_, fun _ => ?_⟩
      · rw [Act.wp_bind]
        refine Act.wp_mono (wp_tryBatching h hl hpr hseg) ?_ fun _ _ h => h
        rintro b r' ⟨h', hs, hb⟩
        rw [Act.wp_ite]
        refine ⟨fun _ => ⟨h', hs⟩, fun hbf => ?_⟩
        obtain rfl := hb (by simpa using hbf)
        rw [Act.wp_bind]
        exact Act.wp_mono (wp_sendEntries h hl hpr hseg) (fun _ _ h => h) fun _ _ h => h
      · rw [Act.wp_bind, Act.wp_pure, if_neg Bool.false_ne_true, Act.wp_bind]
        exact Act.wp_mono (wp_sendEntries h hl hpr hseg) (fun _ _ h => h) fun _ _ h => h
    · rintro e l' rfl
      dsimp only
      split
      · exact ⟨h, Sent.refl r⟩
      · exact wp_sendSnapshot h hl hpr
      · exact ⟨h, Sent.refl r⟩
      · rename_i heq
        cases heq

theorem sendsOnly_sendAppend (dest : ℕ) : SendsOnly honest m (sendAppend dest : RaftM σ Unit) :=
  (sendsOnly_maybeSendAppend dest true).wp_bind fun _ => .of_pure ()

theorem sendsOnly_sendAppendLoop (dest fuel : ℕ) :
    SendsOnly honest m (sendAppendLoop dest fuel : RaftM σ Unit) := by
  induction fuel with
  | zero => exact fun _ _ _ _ => trivial
  | succ fuel ih =>
      exact (sendsOnly_maybeSendAppend dest false).wp_bind fun _ => .ite _ ih (.of_pure ())

theorem sendsOnly_sendAppendAggressively (dest : ℕ) :
    SendsOnly honest m (sendAppendAggressively dest : RaftM σ Unit) := by
  refine SendsOnly.of_get fun c r h hl => ?_
  split
  · exact ⟨h, Sent.refl r⟩
  · exact sendsOnly_sendAppendLoop dest _ c r h hl

theorem sendsOnly_broadcastAppend : SendsOnly honest m (broadcastAppend : RaftM σ Unit) := by
  refine SendsOnly.of_get fun c r h hl => ?_
  exact SendsOnly.each _ (fun id => .ite _ (.of_pure ()) (sendsOnly_sendAppend id)) c r h hl

/-! ### Heartbeats -/

/-- A heartbeat of the leader for a context. -/
structure IsHeartbeat (c : Peer) (ctx : Bytes) (msg : Message) : Prop where
  msgType : msg.msgType = .heartbeat
  sender : msg.sender = c.id
  term : msg.term = c.term
  commit : msg.commit = min (c.matched msg.dest) c.committed
  context : msg.context = ctx

/-- Only heartbeats for the context have been queued. -/
def Beats (ctx : Bytes) (r r' : Raft σ) : Prop :=
  ∃ msgs, r' = { r with messages := r.messages ++ msgs } ∧ ∀ msg ∈ msgs, IsHeartbeat r.core ctx msg

theorem wp_broadcastHeartbeatWithCtx (r : Raft σ) (ctx : Option Bytes) :
    (broadcastHeartbeatWithCtx ctx).wp (fun _ r' => Beats (ctx.getD []) r r')
      (fun _ r' => Beats (ctx.getD []) r r') r := by
  unfold broadcastHeartbeatWithCtx
  rw [Act.wp_bind, Act.wp_get]
  refine Act.wp_each _ ?_ ⟨[], by rw [List.append_nil], by simp⟩
  rintro id - r' ⟨msgs, rfl, hmsgs⟩
  rw [Act.wp_ite]
  refine ⟨fun _ => ⟨msgs, rfl, hmsgs⟩, fun _ => ?_⟩
  rw [Act.wp_bind, Act.wp_get]
  split
  · exact ⟨msgs, rfl, hmsgs⟩
  · rename_i pr hpr
    unfold sendHeartbeat
    rw [Act.wp_bind, Act.wp_get]
    refine wp_send_stamped rfl rfl rfl ?_
    refine ⟨msgs ++ [_], by rw [← List.append_assoc], ?_⟩
    intro msg hmsg
    rcases List.mem_append.mp hmsg with hmsg | hmsg
    · exact hmsgs msg hmsg
    · cases List.mem_singleton.mp hmsg
      have hmatch := core_matched_get (r := r) hpr
      exact ⟨rfl, rfl, rfl, by rw [hmatch]; rfl, rfl⟩

theorem Beats.sends (honest : Prop) (m : Message) {r' : Raft σ} {ctx : Bytes} (h : Beats ctx r r')
    (hl : r.state = .leader) (hctx : ctx = [] ∨ ctx ∈ r.readOnly.queue) : ∃ msgs, r' = { r with
      messages := r.messages ++ msgs } ∧ ∀ msg ∈ msgs, Sends honest m r.core msg := by
  obtain ⟨msgs, rfl, hmsgs⟩ := h
  refine ⟨msgs, rfl, fun msg hmsg => ?_⟩
  obtain ⟨h1, h2, h3, h4, h5⟩ := hmsgs msg hmsg
  exact .heartbeat _ hl h1 h2 h3 h4 (by rw [h5]; exact hctx)

theorem sendsOnly_broadcastHeartbeat : SendsOnly honest m (broadcastHeartbeat : RaftM σ Unit) := by
  refine SendsOnly.of_get fun c r h hl => ?_
  have hctx : (r.readOnly.lastPendingRequestCtx.getD []) = [] ∨
      (r.readOnly.lastPendingRequestCtx.getD []) ∈ r.readOnly.queue := by
    unfold ReadOnly.lastPendingRequestCtx
    cases hq : r.readOnly.queue.getLast? with
    | none => exact Or.inl rfl
    | some ctx => exact Or.inr (List.mem_of_getLast? hq)
  have hdone : ∀ r' : Raft σ, Beats (r.readOnly.lastPendingRequestCtx.getD []) r r' →
      Reach honest m c r' ∧ Sent r.core r' := by
    intro r' hb
    obtain ⟨msgs, rfl, hmsgs⟩ := hb.sends honest m hl hctx
    exact ⟨⟨h.sound.setMessages _, h.micros.trans (micros_posts msgs hmsgs)⟩, sent_post _⟩
  exact Act.wp_mono (wp_broadcastHeartbeatWithCtx r _) (fun _ => hdone) fun _ => hdone

theorem wp_ping (h : Reach honest m c r) :
    ping.wp (fun _ r' => Reach honest m c r') (fun _ r' => Reach honest m c r') r := by
  unfold ping
  rw [Act.wp_bind, Act.wp_get, Act.wp_ite]
  refine ⟨fun hl => ?_, fun _ => h⟩
  exact Act.wp_mono (sendsOnly_broadcastHeartbeat.ignore c r h hl) (fun _ _ h => h.1)
    fun _ _ h => h.1

/-! ### Read requests -/

omit [LawfulStorage σ] in
/-- Answering a request: a local one goes to the read states, a remote one to the queue. -/
theorem wp_answerRead {req : Message} {i : ℕ} {Q : Unit → Raft σ → Prop} {E : Err → Raft σ → Prop}
    (hloc : req.sender = invalidId ∨ req.sender = r.id →
      Q () { r with readStates := r.readStates ++ [⟨i, readCtx req⟩] })
    (hrem : ∀ msg : Message, msg.msgType = .readIndexResp → msg.dest = req.sender →
      msg.sender = r.id → msg.term = r.term → msg.index = i → msg.entries = req.entries →
      Q () { r with messages := r.messages ++ [msg] }) :
    (answerRead req i).wp Q E r := by
  unfold answerRead handleReadyReadIndex
  rw [Act.wp_bind, Act.wp_bind, Act.wp_get, Act.wp_ite]
  refine ⟨fun h => ?_, fun _ => ?_⟩
  · rw [Act.wp_bind, Act.wp_modify]
    exact hloc h
  · rw [Act.wp_pure]
    exact wp_send_stamped rfl rfl rfl (hrem _ rfl rfl rfl rfl rfl rfl)

/-- Everything but the commit index, the reads and the queue is unchanged. -/
def Served (c : Peer) (r : Raft σ) : Prop :=
  r.core = { c with
    committed := r.raftLog.committed
    reads := r.readOnly
    postponed := r.pendingReadIndexMessages
    readStates := r.readStates
    out := r.messages }

theorem Served.refl (r : Raft σ) : Served r.core r := rfl

theorem Served.trans {r' : Raft σ} (h : Served c r) (h' : Served r.core r') : Served c r' := by
  unfold Served at *
  rw [h', h]

theorem Sent.served (h : Sent c r) : Served c r := by
  show r.core = { c with
    committed := r.core.committed
    reads := r.core.reads
    postponed := r.core.postponed
    readStates := r.core.readStates
    out := r.core.out }
  unfold Sent at h
  rw [h]

theorem Served.role (h : Served c r) : r.state = c.role := congrArg Peer.role h
theorem Served.id (h : Served c r) : r.id = c.id := congrArg Peer.id h
theorem Served.voters (h : Served c r) : r.core.voters = c.voters := (congrArg Peer.voters h :)

/-- Releasing the requests up to `ctx`, which a quorum has acknowledged. -/
theorem wp_releaseReads (h : Reach honest m c r) (hl : r.state = .leader) {ctx : Bytes}
    {st : ReadIndexStatus} (hst : r.readOnly.pending.lookup ctx = some st)
    (hq : r.progressTracker.hasQuorum st.acks = true) :
    (releaseReads ctx).wp (fun _ r' => Reach honest m c r' ∧ Served r.core r')
      (fun _ r' => Reach honest m c r' ∧ Served r.core r') r := by
  unfold releaseReads
  rw [Act.wp_bind, Act.wp_get]
  split
  · exact ⟨h, Served.refl r⟩
  · rename_i ro sts hadv
    rw [Act.wp_bind, Act.wp_modify]
    have hsound : ∀ r' : Raft σ, r'.Sound honest → r'.readOnly = r.readOnly →
        ({ r' with readOnly := ro } : Raft σ).Sound honest := fun r' hs he =>
      { hs with reads := (he ▸ hs.reads : r.readOnly.Sound).advance hadv }
    -- the answers are protocol steps while the requests are still pending
    refine Act.wp_mono (Q := fun _ r' => r'.Sound honest ∧ r'.readOnly = ro ∧
      Micros honest m c { r'.core with reads := r.readOnly } ∧ Served r.core r')
      (E := fun _ _ => False) (Act.wp_each (E := fun _ _ => False) _ ?_ ?_) ?_ ?_
    · intro st' hst' r' ⟨hs', hro, hmic, hserv⟩
      have hans : Answers m { r'.core with reads := r.readOnly } st'.req st'.index := by
        rcases ReadOnly.advance_ok hadv with ⟨_, _, hnil⟩ | ⟨hin, _, _, _, hrel⟩
        · rw [hnil] at hst'
          exact absurd hst' List.not_mem_nil
        · obtain ⟨key, hkey, hlook⟩ := hrel st' hst'
          refine .released key st' (hserv.role.trans hl) hlook rfl rfl
            ⟨ctx, st, hst, hin, ?_, hkey⟩
          show r'.core.voters.getVoteResult _ = _
          rw [hserv.voters]
          exact eq_of_beq hq
      refine wp_answerRead ?_ ?_
      · intro hsend
        refine ⟨{ hs' with }, hro, hmic.tail (.answerLocal _ st'.req st'.index hans hsend), ?_⟩
        exact hserv.trans rfl
      · intro msg h1 h2 h3 h4 h5 h6
        refine ⟨hs'.setMessages _, hro,
          hmic.tail (.answerRemote _ st'.req st'.index msg hans h1 h2 h3 h4 h5 h6), ?_⟩
        exact hserv.trans rfl
    · refine ⟨hsound r h.sound rfl, rfl, ?_, rfl⟩
      exact h.micros
    · rintro _ r' ⟨hs', hro, hmic, hserv⟩
      refine ⟨⟨hs', ?_⟩, hserv⟩
      have := hmic.tail (.dropReads _ ctx ro sts hadv)
      have heq : ({ r'.core with reads := ro } : Peer) = r'.core := by
        rw [← hro]
        rfl
      rwa [show ({ ({ r'.core with reads := r.readOnly } : Peer) with reads := ro } : Peer) =
        r'.core from heq] at this
    · exact fun _ _ hf => hf.elim

/-- The commit index is in the current term exactly when the code says so. -/
theorem inTerm_of_commitToCurrentTerm (h : r.raftLog.WF) (hc : r.commitToCurrentTerm = true) :
    r.core.InTerm := by
  unfold commitToCurrentTerm at hc
  rw [h.term_eq] at hc
  show r.raftLog.log.termAt r.raftLog.committed = some r.term
  rw [Log.termAt_eq_some_term h.base_le h.committed_le]
  exact congrArg some (eq_of_beq hc)

/-- Serving a request that is at hand: `req` is the message or one of the postponed requests. -/
theorem wp_serveReadIndex (hs : r.Sound honest) (hl : r.state = .leader) (hin : r.core.InTerm)
    {req : Message} {old : List Message} (hreq : req = m ∨ req ∈ old)
    (hmic : Micros honest m c { r.core with postponed := old }) :
    (serveReadIndex req).wp
      (fun _ r' => r'.Sound honest ∧ Micros honest m c { r'.core with postponed := old } ∧
        Served r.core r' ∧ r'.raftLog = r.raftLog ∧
        r'.pendingReadIndexMessages = r.pendingReadIndexMessages)
      (fun _ r' => r'.Sound honest ∧ Micros honest m c { r'.core with postponed := old } ∧
        Served r.core r' ∧ r'.raftLog = r.raftLog ∧
        r'.pendingReadIndexMessages = r.pendingReadIndexMessages) r := by
  have hdirect : r.progressTracker.isSingleton = true ∨ r.readOnly.option = .leaseBased →
      (answerRead req r.raftLog.committed).wp
      (fun _ r' => r'.Sound honest ∧ Micros honest m c { r'.core with postponed := old } ∧
        Served r.core r' ∧ r'.raftLog = r.raftLog ∧
        r'.pendingReadIndexMessages = r.pendingReadIndexMessages)
      (fun _ r' => r'.Sound honest ∧ Micros honest m c { r'.core with postponed := old } ∧
        Served r.core r' ∧ r'.raftLog = r.raftLog ∧
        r'.pendingReadIndexMessages = r.pendingReadIndexMessages) r := by
    intro hsing
    have hans : Answers m { r.core with postponed := old } req r.raftLog.committed :=
      .direct hl hreq rfl hin hsing
    refine wp_answerRead ?_ ?_
    · intro hsend
      exact ⟨{ hs with }, hmic.tail (.answerLocal _ req _ hans hsend), rfl, rfl, rfl⟩
    · intro msg h1 h2 h3 h4 h5 h6
      exact ⟨hs.setMessages _, hmic.tail (.answerRemote _ req _ msg hans h1 h2 h3 h4 h5 h6),
        rfl, rfl, rfl⟩
  unfold serveReadIndex
  rw [Act.wp_bind, Act.wp_get, Act.wp_ite]
  refine ⟨fun hsing => hdirect (Or.inl hsing), fun _ => ?_⟩
  cases hopt : r.readOnly.option with
  | leaseBased => exact hdirect (Or.inr hopt)
  | safe =>
      dsimp only
      split
      · exact ⟨hs, hmic, rfl, rfl, rfl⟩
      · rename_i e es he
        rw [Act.wp_bind, Act.wp_modify]
        have hreg : Micros honest m c { ({ r with
            readOnly := r.readOnly.addRequest r.raftLog.committed req r.id } : Raft σ).core with
            postponed := old } := hmic.tail (.register _ req hl hin hreq)
        have hs' : ({ r with
            readOnly := r.readOnly.addRequest r.raftLog.committed req r.id } : Raft σ).Sound honest :=
          { hs with reads := hs.reads.addRequest _ _ _ }
        have hctx := ReadOnly.mem_queue_addRequest hs.reads r.raftLog.committed r.id he
        have hdone : ∀ r' : Raft σ, Beats e.data { r with
            readOnly := r.readOnly.addRequest r.raftLog.committed req r.id } r' →
            r'.Sound honest ∧ Micros honest m c { r'.core with postponed := old } ∧
            Served r.core r' ∧ r'.raftLog = r.raftLog ∧
            r'.pendingReadIndexMessages = r.pendingReadIndexMessages := by
          rintro r' ⟨msgs, rfl, hmsgs⟩
          refine ⟨hs'.setMessages _, hreg.trans ?_, rfl, rfl, rfl⟩
          refine micros_posts msgs fun msg hmsg => ?_
          obtain ⟨h1, h2, h3, h4, h5⟩ := hmsgs msg hmsg
          exact .heartbeat _ hl h1 h2 h3 h4 (Or.inr (by rw [h5]; exact hctx))
        exact Act.wp_mono (wp_broadcastHeartbeatWithCtx _ (some e.data)) (fun _ => hdone)
          fun _ => hdone

theorem wp_releasePendingReadIndexMessages (h : Reach honest m c r) (hl : r.state = .leader) :
    releasePendingReadIndexMessages.wp (fun _ r' => Reach honest m c r' ∧ Served r.core r')
      (fun _ r' => Reach honest m c r' ∧ Served r.core r') r := by
  unfold releasePendingReadIndexMessages
  rw [Act.wp_bind, Act.wp_get, Act.wp_ite]
  refine ⟨fun _ => ⟨h, Served.refl r⟩, fun _ => ?_⟩
  rw [Act.wp_ite]
  refine ⟨fun _ => ⟨h, Served.refl r⟩, fun hin => ?_⟩
  have hin := inTerm_of_commitToCurrentTerm h.sound.log (by simpa using hin)
  rw [Act.wp_bind, Act.wp_modify]
  -- the requests are served while they still count as postponed
  have hloop : ∀ (l : List Message), (∀ req ∈ l, req ∈ r.pendingReadIndexMessages) →
      ∀ r' : Raft σ, r'.Sound honest → Served r.core r' → r'.raftLog = r.raftLog →
      r'.pendingReadIndexMessages = [] →
      Micros honest m c { r'.core with postponed := r.pendingReadIndexMessages } →
      (Act.each l serveReadIndex).wp (fun _ r' => Reach honest m c r' ∧ Served r.core r')
        (fun _ r' => Reach honest m c r' ∧ Served r.core r') r' := by
    have hfin : ∀ r' : Raft σ, r'.Sound honest → Served r.core r' →
        r'.pendingReadIndexMessages = [] →
        Micros honest m c { r'.core with postponed := r.pendingReadIndexMessages } →
        Reach honest m c r' ∧ Served r.core r' := by
      intro r' hs' hserv hnil hmic
      refine ⟨⟨hs', ?_⟩, hserv⟩
      have hclear := hmic.tail (.clear _)
      have heq : ({ r'.core with postponed := [] } : Peer) = r'.core := by
        rw [← hnil]
        rfl
      rwa [show ({ ({ r'.core with postponed := r.pendingReadIndexMessages } : Peer) with
        postponed := [] } : Peer) = r'.core from heq] at hclear
    intro l
    induction l with
    | nil =>
        intro _ r' hs' hserv _ hnil hmic
        exact hfin r' hs' hserv hnil hmic
    | cons req l ih =>
        intro hl' r' hs' hserv hlog hnil hmic
        unfold Act.each
        rw [Act.wp_bind]
        have hin' : r'.core.InTerm := by
          unfold Peer.InTerm
          show r'.raftLog.log.termAt r'.raftLog.committed = some r'.core.term
          rw [hlog, show r'.core.term = r.core.term from (congrArg Peer.term hserv :)]
          exact hin
        refine Act.wp_mono (wp_serveReadIndex hs' (hserv.role.trans hl) hin'
          (Or.inr (hl' req List.mem_cons_self)) hmic) ?_ ?_
        · rintro _ r'' ⟨hs'', hmic'', hserv'', hlog'', hpost''⟩
          exact ih (fun q hq => hl' q (List.mem_cons_of_mem req hq)) r'' hs''
            (hserv.trans hserv'') (hlog''.trans hlog) (hpost''.trans hnil) hmic''
        · rintro _ r'' ⟨hs'', hmic'', hserv'', _, hpost''⟩
          exact hfin r'' hs'' (hserv.trans hserv'') (hpost''.trans hnil) hmic''
  exact hloop _ (fun _ hq => hq) _ { h.sound with } rfl rfl rfl h.micros

/-! ### Committing -/

theorem wins_maxCommittedIndex (t : ProgressTracker) :
    t.conf.voters.Wins {v | t.maxCommittedIndex ≤ ((t.get v).map Progress.matched).getD 0} := by
  have h : t.conf.voters.Wins {v | t.maxCommittedIndex ≤ ((t.ackedIndex v).getD ⟨0, 0⟩).index} :=
    JointConfiguration.wins_committedIndex t.groupCommit le_rfl
  refine h.mono fun v _ hv => ?_
  have heq : ((t.ackedIndex v).getD ⟨0, 0⟩).index = ((t.get v).map Progress.matched).getD 0 := by
    unfold ProgressTracker.ackedIndex ProgressTracker.get
    cases t.progress.lookup v <;> rfl
  show t.maxCommittedIndex ≤ _
  rw [← heq]
  exact hv

theorem wp_maybeCommit (h : Reach honest m c r) (hl : r.state = .leader) :
    maybeCommit.wp (fun _ r' => Reach honest m c r' ∧ Served r.core r')
      (fun _ r' => Reach honest m c r' ∧ Served r.core r') r := by
  unfold maybeCommit onLog
  rw [Act.wp_bind, Act.wp_get, Act.wp_bind, Act.wp_zoom]
  refine Act.wp_mono (h.sound.log.wp_maybeCommit _ _) ?_ ?_
  · rintro b l' (⟨rfl, rfl⟩ | ⟨rfl, hlt, hle, hterm, rfl⟩)
    · rw [Act.wp_ite]
      exact ⟨fun hb => (by cases hb), fun _ => ⟨h, Served.refl r⟩⟩
    · rw [Act.wp_ite]
      refine ⟨fun _ => ?_, fun hb => absurd rfl hb⟩
      have hcommit : Reach honest m c ({ r with raftLog := { r.raftLog with
          committed := r.progressTracker.maxCommittedIndex } } : Raft σ) := by
        refine h.step { h.sound with log := h.sound.log.setCommitted hlt.le hle } ?_
        exact .commit r.core _ hlt hle
          (.quorum hl hterm (wins_maxCommittedIndex r.progressTracker))
      rw [Act.wp_bind, Act.wp_modify, Act.wp_bind]
      refine Act.wp_mono (Q := fun _ r' => Reach honest m c r' ∧ Served r.core r')
        (E := fun _ r' => Reach honest m c r' ∧ Served r.core r') ?_ (fun _ _ h => h) fun _ _ h => h
      have hrel : ∀ r' : Raft σ, Reach honest m c r' → Served r.core r' →
          releasePendingReadIndexMessages.wp (fun _ r' => Reach honest m c r' ∧ Served r.core r')
            (fun _ r' => Reach honest m c r' ∧ Served r.core r') r' := by
        intro r' h' hserv
        refine Act.wp_mono (wp_releasePendingReadIndexMessages h' (hserv.role.trans hl)) ?_ ?_
        · exact fun _ _ h'' => ⟨h''.1, hserv.trans h''.2⟩
        · exact fun _ _ h'' => ⟨h''.1, hserv.trans h''.2⟩
      split
      · rename_i p hp
        have hp : r.progressTracker.get r.id = some p := hp
        refine hrel _ (hcommit.setProgress hp ((h.sound.tracker.progress _ p hp).updateCommitted _)
          (p.updateCommitted_matched _) (fun hh => ?_)) ?_
        · have := h.sound.asked hh _ p hp
          unfold Progress.updateCommitted
          split
          · exact this
          · exact this
        · exact core_setProgress_same (r := { r with raftLog := { r.raftLog with
            committed := r.progressTracker.maxCommittedIndex } }) hp (p.updateCommitted_matched _)
      · exact hrel _ hcommit rfl
  · rintro e l' rfl
    exact ⟨h, Served.refl r⟩

end Raftz.Raft
