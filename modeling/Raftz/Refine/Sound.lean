import Raftz.Protocol.Peer
import Raftz.TrackerSound

/-! # From the state machine to the protocol's view

`Raft.core` reads off the protocol's view of a node, and `Raft.Sound` is the
local invariant of `raft.zig` that every method keeps, whatever message it is
given.  `Reach honest m c r` says that `r` is sound and that its view is
reached from `c` by protocol steps on `m`; the rules below carry it through
the primitive operations. -/

open Base

namespace Raftz

/-- The queue lists the pending requests, each once. -/
structure ReadOnly.Sound (ro : ReadOnly) : Prop where
  nodup : ro.queue.Nodup
  mem_iff : ∀ key, key ∈ ro.queue ↔ key ∈ ro.pending

namespace ReadOnly

variable {ro : ReadOnly}

theorem sound_init (option : ReadOnlyOption) : (init option).Sound :=
  ⟨List.nodup_nil, fun key => ⟨fun h => absurd h List.not_mem_nil,
    fun h => absurd h (AList.notMem_empty key)⟩⟩

theorem Sound.addRequest (h : ro.Sound) (index : ℕ) (req : Message) (selfId : ℕ) :
    (ro.addRequest index req selfId).Sound := by
  unfold ReadOnly.addRequest
  split
  · exact h
  · rename_i e _
    split
    · exact h
    · rename_i hnew
      refine ⟨?_, fun key => ?_⟩
      · refine List.nodup_append.mpr ⟨h.nodup, List.nodup_singleton _, ?_⟩
        intro a ha b hb hab
        rw [List.mem_singleton] at hb
        exact hnew ((h.mem_iff _).mp (by rw [← hb, ← hab]; exact ha))
      · dsimp only
        rw [List.mem_append, List.mem_singleton, AList.mem_insert, h.mem_iff]
        exact Or.comm

theorem mem_queue_addRequest (h : ro.Sound) (index : ℕ) {req : Message} (selfId : ℕ) {e : Entry}
    {es : List Entry} (he : req.entries = e :: es) :
    e.data ∈ (ro.addRequest index req selfId).queue := by
  unfold ReadOnly.addRequest
  rw [he]
  dsimp only
  split
  · rename_i hin
    exact (h.mem_iff _).mpr hin
  · exact List.mem_append_right _ (List.mem_singleton_self _)

theorem recvACK_queue (id : ℕ) (ctx : Bytes) : (ro.recvACK id ctx).1.queue = ro.queue := by
  unfold ReadOnly.recvACK
  split <;> rfl

theorem Sound.recvACK (h : ro.Sound) (id : ℕ) (ctx : Bytes) : (ro.recvACK id ctx).1.Sound := by
  refine ⟨by rw [recvACK_queue]; exact h.nodup, fun key => ?_⟩
  rw [recvACK_queue, h.mem_iff]
  unfold ReadOnly.recvACK
  split
  · exact Iff.rfl
  · rename_i st hst
    dsimp only
    rw [AList.mem_insert]
    refine ⟨Or.inr, ?_⟩
    rintro (rfl | hk)
    · exact AList.lookup_isSome.mp (by rw [hst]; rfl)
    · exact hk

theorem recvACK_some {id : ℕ} {ctx : Bytes} {acks : IdSet} (h : (ro.recvACK id ctx).2 = some acks) :
    ∃ st, (ro.recvACK id ctx).1.pending.lookup ctx = some st ∧ st.acks = acks := by
  unfold ReadOnly.recvACK at h ⊢
  split at h
  · cases h
  · rename_i st hst
    cases h
    refine ⟨{ st with acks := st.acks.add id }, ?_, rfl⟩
    dsimp only
    rw [lookup_insert_eq, if_pos rfl]

theorem mem_foldl_erase (l : List Bytes) (p : AList (fun _ : Bytes => ReadIndexStatus)) (key : Bytes) :
    key ∈ l.foldl (fun m key => m.erase key) p ↔ key ∉ l ∧ key ∈ p := by
  induction l generalizing p with
  | nil => simp
  | cons a l ih =>
      rw [List.foldl_cons, ih, AList.mem_erase, List.mem_cons]
      tauto

/-- What `advance` releases and keeps. -/
theorem advance_ok {ctx : Bytes} {ro' : ReadOnly} {sts : List ReadIndexStatus}
    (h : ro.advance ctx = .ok (ro', sts)) :
    (ctx ∉ ro.queue ∧ ro' = ro ∧ sts = []) ∨
      (ctx ∈ ro.queue ∧ ro'.queue = ro.queue.drop (ro.queue.idxOf ctx + 1) ∧
        ro'.pending = (ro.queue.take (ro.queue.idxOf ctx + 1)).foldl (fun m key => m.erase key)
          ro.pending ∧ ro'.option = ro.option ∧
        ∀ st ∈ sts, ∃ key ∈ ro.queue.take (ro.queue.idxOf ctx + 1),
          ro.pending.lookup key = some st) := by
  unfold ReadOnly.advance at h
  split at h
  · rename_i hin
    dsimp only at h
    split at h
    · cases h
      refine Or.inr ⟨hin, rfl, rfl, rfl, ?_⟩
      intro st hst
      obtain ⟨key, hk, hl⟩ := List.mem_filterMap.mp hst
      exact ⟨key, hk, hl⟩
    · cases h
  · rename_i hin
    cases h
    exact Or.inl ⟨hin, rfl, rfl⟩

theorem Sound.advance (h : ro.Sound) {ctx : Bytes} {ro' : ReadOnly} {sts : List ReadIndexStatus}
    (ha : ro.advance ctx = .ok (ro', sts)) : ro'.Sound := by
  rcases advance_ok ha with ⟨_, rfl, _⟩ | ⟨_, hq, hp, _, _⟩
  · exact h
  · have hsplit := List.take_append_drop (ro.queue.idxOf ctx + 1) ro.queue
    have hnd := h.nodup
    rw [← hsplit, List.nodup_append] at hnd
    refine ⟨by rw [hq]; exact hnd.2.1, fun key => ?_⟩
    rw [hq, hp, mem_foldl_erase, ← h.mem_iff]
    constructor
    · exact fun hk => ⟨fun hk' => hnd.2.2 key hk' key hk rfl, List.mem_of_mem_drop hk⟩
    · rintro ⟨h1, h2⟩
      rw [← hsplit, List.mem_append] at h2
      exact h2.resolve_left h1

end ReadOnly

/-! ### The view and the local invariant -/

namespace Raft

variable {σ : Type} [LawfulStorage σ]

/-- The protocol's view of a node. -/
def core (r : Raft σ) : Peer where
  id := r.id
  voters := r.progressTracker.conf.voters
  term := r.term
  vote := r.vote
  role := r.state
  log := r.raftLog.log
  pending := r.raftLog.unstable.snapshot.map Snapshot.metadata
  committed := r.raftLog.committed
  persisted := r.raftLog.persisted
  applied := r.raftLog.applied
  votes := fun v => r.progressTracker.votes.lookup v
  matched := fun v => ((r.progressTracker.get v).map Progress.matched).getD 0
  pendingConf := r.pendingConfIndex
  reads := r.readOnly
  postponed := r.pendingReadIndexMessages
  readStates := r.readStates
  out := r.messages
  store := LawfulStorage.view r.raftLog.store

/-- The local invariant. -/
structure Sound (honest : Prop) (r : Raft σ) : Prop where
  id_ne : r.id ≠ 0
  log : r.raftLog.WF
  limit : r.raftLog.maxApplyUnpersistedLogLimit = 0
  snapshot : ∀ s, r.raftLog.unstable.snapshot = some s →
    0 < s.metadata.index ∧ s.metadata.index ≠ maxU64
  requested : r.raftLog.unstable.snapshot ≠ none → r.pendingRequestSnapshot = invalidIndex
  tracker : r.progressTracker.Sound
  promotable : r.promotable = r.progressTracker.conf.voters.contains r.id
  leader : r.state = .leader → r.leaderId = r.id
  candidate : r.state = .candidate ∨ r.state = .preCandidate → r.leaderId = invalidId
  reads : r.readOnly.Sound
  asked : honest → ∀ id p, r.progressTracker.get id = some p →
    p.pendingRequestSnapshot ≤ (LawfulStorage.view r.raftLog.store).hardState.commit

/-- `r` is sound, and its view is reached from `c` by protocol steps on `m`. -/
structure Reach (honest : Prop) (m : Message) (c : Peer) (r : Raft σ) : Prop where
  sound : r.Sound honest
  micros : Micros honest m c r.core

section rules
variable {honest : Prop} {m : Message} {c : Peer} {r r' : Raft σ}

theorem Sound.reach (h : r.Sound honest) : Reach honest m r.core r := ⟨h, .refl⟩

theorem Reach.same (h : Reach honest m c r) (hs : r'.Sound honest) (hc : r'.core = r.core) :
    Reach honest m c r' := ⟨hs, hc ▸ h.micros⟩

theorem Reach.step (h : Reach honest m c r) (hs : r'.Sound honest)
    (hm : Micro honest m r.core r'.core) : Reach honest m c r' := ⟨hs, h.micros.tail hm⟩

theorem Reach.trans (h : Reach honest m c r) (h' : Reach honest m r.core r') :
    Reach honest m c r' := ⟨h'.sound, h.micros.trans h'.micros⟩

/-! ### Progress and messages -/

theorem core_matched_get {v : ℕ} {p : Progress} (h : r.progressTracker.get v = some p) :
    r.core.matched v = p.matched := by
  show ((r.progressTracker.get v).map Progress.matched).getD 0 = _
  rw [h]
  rfl

/-- The tracker with another progress for a followed peer. -/
theorem Sound.setProgress (h : r.Sound honest) {id : ℕ} {p q : Progress}
    (hq : r.progressTracker.get id = some q) (hp : p.Sound)
    (ha : honest → p.pendingRequestSnapshot ≤
      (LawfulStorage.view r.raftLog.store).hardState.commit) :
    ({ r with progressTracker := r.progressTracker.set id p } : Raft σ).Sound honest :=
  { h with
    tracker := h.tracker.set hq hp
    promotable := h.promotable
    asked := by
      intro hh j p' hj
      rw [ProgressTracker.get_set] at hj
      split at hj
      · cases hj
        exact ha hh
      · exact h.asked hh j p' hj }

theorem core_setProgress (id : ℕ) (p : Progress) :
    ({ r with progressTracker := r.progressTracker.set id p } : Raft σ).core =
      { r.core with matched := Function.update r.core.matched id p.matched } := by
  unfold core
  congr 1
  funext v
  show (((r.progressTracker.set id p).get v).map Progress.matched).getD 0 = _
  rw [ProgressTracker.get_set]
  by_cases hv : v = id
  · subst hv
    rw [if_pos rfl, Function.update_self]
    rfl
  · rw [if_neg hv, Function.update_of_ne hv]

/-- A new progress with the same match does not show. -/
theorem core_setProgress_same {id : ℕ} {p q : Progress} (hq : r.progressTracker.get id = some q)
    (hm : p.matched = q.matched) :
    ({ r with progressTracker := r.progressTracker.set id p } : Raft σ).core = r.core := by
  rw [core_setProgress, hm, ← core_matched_get hq, Function.update_eq_self]

/-- A new progress with the same match and the same requested snapshot. -/
theorem Reach.setProgress (h : Reach honest m c r) {id : ℕ} {p q : Progress}
    (hq : r.progressTracker.get id = some q) (hp : p.Sound) (hm : p.matched = q.matched)
    (ha : honest → p.pendingRequestSnapshot ≤
      (LawfulStorage.view r.raftLog.store).hardState.commit) :
    Reach honest m c { r with progressTracker := r.progressTracker.set id p } :=
  h.same (h.sound.setProgress hq hp ha) (core_setProgress_same hq hm)

theorem Sound.setMessages (h : r.Sound honest) (msgs : List Message) :
    ({ r with messages := msgs } : Raft σ).Sound honest := { h with }

omit [LawfulStorage σ] in
theorem wp_send {msg : Message} {Q : Unit → Raft σ → Prop} {E : Err → Raft σ → Prop} :
    (send msg).wp Q E r ↔ ∀ msg', r.stamp msg = some msg' →
      Q () { r with messages := r.messages ++ [msg'] } := by
  unfold send
  rw [Act.wp_bind, Act.wp_get, Act.wp_bind, Act.wp_orPanic]
  exact Iff.rfl

/-- Message types that are stamped with the current term. -/
def isStamped (t : MessageType) : Bool :=
  !isVoteMessage t && t != .propose && t != .readIndex

omit [LawfulStorage σ] in
/-- Queueing a message without sender and term. -/
theorem wp_send_stamped {msg : Message} {Q : Unit → Raft σ → Prop} {E : Err → Raft σ → Prop}
    (hs : msg.sender = invalidId) (ht : msg.term = 0) (hm : isStamped msg.msgType = true)
    (hQ : Q () { r with messages := r.messages ++ [{ msg with sender := r.id, term := r.term }] }) :
    (send msg).wp Q E r := by
  rw [wp_send]
  intro msg' hst
  have : r.stamp msg = some { msg with sender := r.id, term := r.term } := by
    unfold isStamped at hm
    unfold stamp
    simp only [Bool.and_eq_true, Bool.not_eq_true', bne_iff_ne, ne_eq] at hm
    obtain ⟨⟨hv, hp⟩, hr⟩ := hm
    rw [if_pos hs]
    simp [hv, ht, hp, hr]
  rw [this] at hst
  cases hst
  exact hQ

omit [LawfulStorage σ] in
/-- Queueing a vote message without sender. -/
theorem wp_send_vote {msg : Message} {Q : Unit → Raft σ → Prop} {E : Err → Raft σ → Prop}
    (hs : msg.sender = invalidId) (hm : isVoteMessage msg.msgType = true)
    (hQ : ∀ p, Q () { r with
      messages := r.messages ++ [{ msg with sender := r.id, priority := p }] }) :
    (send msg).wp Q E r := by
  rw [wp_send]
  intro msg' hst
  unfold stamp at hst
  rw [if_pos hs] at hst
  dsimp only at hst
  rw [if_pos hm] at hst
  split at hst
  · cases hst
  · split at hst
    · cases hst
      exact hQ _
    · cases hst
      exact hQ _

omit [LawfulStorage σ] in
/-- Queueing a message that already has an origin: type and entries stay. -/
theorem wp_send_any {msg : Message} {Q : Unit → Raft σ → Prop} {E : Err → Raft σ → Prop}
    (hm : isVoteMessage msg.msgType = false)
    (hQ : ∀ msg' : Message, msg'.msgType = msg.msgType → msg'.entries = msg.entries →
      msg'.term = 0 ∨ msg'.term = r.term → Q () { r with messages := r.messages ++ [msg'] }) :
    (send msg).wp Q E r := by
  rw [wp_send]
  intro msg' hst
  have hbase : (if msg.sender = invalidId then { msg with sender := r.id } else msg).msgType =
      msg.msgType ∧ (if msg.sender = invalidId then { msg with sender := r.id } else msg).entries =
      msg.entries := by
    split <;> exact ⟨rfl, rfl⟩
  unfold stamp at hst
  revert hbase hst
  generalize (if msg.sender = invalidId then { msg with sender := r.id } else msg) = b
  intro hst hbase
  dsimp only at hst
  rw [hbase.1, if_neg (by rw [hm]; exact Bool.false_ne_true)] at hst
  split at hst
  · cases hst
  · rename_i h0
    split at hst
    · cases hst
      exact hQ _ hbase.1 hbase.2 (Or.inl (not_not.mp h0))
    · cases hst
      exact hQ _ rfl hbase.2 (Or.inr rfl)

/-- Queueing a message the protocol allows. -/
theorem Reach.send (h : Reach honest m c r) {msg : Message} (hs : Sends honest m r.core msg) :
    Reach honest m c { r with messages := r.messages ++ [msg] } :=
  h.step (h.sound.setMessages _) (.send r.core msg hs)

end rules

end Raft

end Raftz
