import Raftz.Refine.Replication

/-! # Role changes and elections refine the protocol

Following, campaigning, counting votes, becoming a leader and appending to the
own log, up to `hup` and the handler of vote requests. -/

open Base

namespace Raftz.Raft

variable {σ : Type} [LawfulStorage σ] {honest : Prop} {m : Message} {c : Peer} {r : Raft σ}

/-! ### Following and campaigning -/

/-- The acknowledgements after a reset. -/
def clearedMatch (r : Raft σ) (t : ℕ) : ℕ → ℕ := (r.reset t).core.matched

theorem cleared_reset (r : Raft σ) (t : ℕ) : r.core.Cleared (r.clearedMatch t) := by
  intro v
  unfold clearedMatch
  show (((r.reset t).progressTracker.get v).map Progress.matched).getD 0 = 0 ∨
    (v = r.id ∧ (((r.reset t).progressTracker.get v).map Progress.matched).getD 0 =
      r.raftLog.persisted)
  rw [reset_get]
  split
  · rename_i hv
    cases r.progressTracker.get v with
    | none => exact Or.inl rfl
    | some p => exact Or.inr ⟨hv, rfl⟩
  · cases r.progressTracker.get v <;> exact Or.inl rfl

theorem core_reset (r : Raft σ) (t : ℕ) : (r.reset t).core = r.core.reset t (r.clearedMatch t) := by
  unfold clearedMatch
  by_cases ht : r.term = t
  · subst ht
    unfold reset Peer.reset
    simp only [ne_eq, not_true_eq_false, if_false]
    unfold core
    simp only [if_true]
    rfl
  · unfold reset Peer.reset
    simp only [ne_eq, ht, not_false_eq_true, if_true]
    unfold core
    simp only [ht, if_false]
    rfl

theorem reset_request (r : Raft σ) (t : ℕ) : (r.reset t).pendingRequestSnapshot = invalidIndex := by
  unfold reset
  rfl

/-- What a reset leaves as it was, and that tracker and reads stay sound. -/
theorem reset_sound (hwf : r.raftLog.WF) (htr : r.progressTracker.Sound) (t : ℕ) :
    (r.reset t).progressTracker.Sound ∧ (r.reset t).readOnly.Sound ∧
      (r.reset t).progressTracker.conf = r.progressTracker.conf ∧
      (r.reset t).raftLog = r.raftLog ∧ (r.reset t).id = r.id ∧
      (r.reset t).promotable = r.promotable ∧ (r.reset t).knobs = r.knobs ∧
      (∀ v p, (r.reset t).progressTracker.get v = some p → p.pendingRequestSnapshot = 0) := by
  have hconf : (r.reset t).progressTracker.conf = r.progressTracker.conf := by
    unfold reset
    by_cases ht : r.term ≠ t
    · rw [if_pos ht]
      rfl
    · rw [if_neg ht]
      rfl
  have hrest : (r.reset t).readOnly = ReadOnly.init r.readOnly.option ∧
      (r.reset t).raftLog = r.raftLog ∧ (r.reset t).id = r.id ∧
      (r.reset t).promotable = r.promotable ∧ (r.reset t).knobs = r.knobs := by
    unfold reset
    by_cases ht : r.term ≠ t
    · rw [if_pos ht]
      exact ⟨rfl, rfl, rfl, rfl, rfl⟩
    · rw [if_neg ht]
      exact ⟨rfl, rfl, rfl, rfl, rfl⟩
  have hlast : r.raftLog.persisted < r.raftLog.lastIndex + 1 := by
    have h1 := hwf.persisted_lt
    have h2 := hwf.last_eq
    rw [hwf.lastIndex_eq]
    omega
  have hget : ∀ v p, (r.reset t).progressTracker.get v = some p →
      p.Sound ∧ p.pendingRequestSnapshot = 0 := by
    intro v p hp
    rw [reset_get] at hp
    split at hp
    · obtain ⟨q, _, rfl⟩ := Option.map_eq_some_iff.mp hp
      have hq := Progress.sound_reset q r.raftLog.lastIndex
      exact ⟨⟨hq.next_pos, fun _ => hlast, hq.inflights, hq.idle⟩, rfl⟩
    · obtain ⟨q, _, rfl⟩ := Option.map_eq_some_iff.mp hp
      exact ⟨Progress.sound_reset q _, rfl⟩
  have hcontains : (r.reset t).progressTracker.contains = r.progressTracker.contains := by
    funext v
    rw [Bool.eq_iff_iff, ProgressTracker.contains_iff_get, ProgressTracker.contains_iff_get,
      reset_get]
    split <;> cases r.progressTracker.get v <;> simp
  refine ⟨⟨?_, ?_, fun v p hp => (hget v p hp).1⟩, ?_, hconf, hrest.2.1, hrest.2.2.1,
    hrest.2.2.2.1, hrest.2.2.2.2, fun v p hp => (hget v p hp).2⟩
  · rw [hconf, hcontains]
    exact htr.conf
  · rw [hconf]
    exact htr.plain
  · rw [hrest.1]
    exact ReadOnly.sound_init _

theorem wp_becomeFollower (h : Reach honest m c r) {t l : ℕ} (ht : Follows m r.core t)
    {Q : Unit → Raft σ → Prop} {E : Err → Raft σ → Prop}
    (hQ : ∀ r' : Raft σ, Reach honest m c r' → r'.core =
      { r.core.reset t (r.clearedMatch t) with role := .follower } → r'.leaderId = l →
      r'.promotable = r.promotable → r'.knobs = r.knobs →
      r'.pendingRequestSnapshot = r.pendingRequestSnapshot → Q () r') :
    (becomeFollower t l).wp Q E r := by
  unfold becomeFollower
  rw [Act.wp_modify]
  obtain ⟨htr, hro, hconf, hlog, hid, hprom, hknobs, hask⟩ := reset_sound h.sound.log h.sound.tracker t
  have hcore : ({ r.reset t with
      leaderId := l
      state := .follower
      pendingRequestSnapshot := r.pendingRequestSnapshot
      raftLog := { (r.reset t).raftLog with maxApplyUnpersistedLogLimit := 0 } } : Raft σ).core =
      { r.core.reset t (r.clearedMatch t) with role := .follower } := by
    rw [← core_reset]
    rfl
  refine hQ _ ?_ hcore rfl hprom hknobs rfl
  refine h.step ?_ (hcore ▸ .follow r.core t _ ht (cleared_reset r t))
  exact {
    id_ne := by
      show (r.reset t).id ≠ 0
      rw [hid]
      exact h.sound.id_ne
    log := by
      show ({ (r.reset t).raftLog with maxApplyUnpersistedLogLimit := 0 } : RaftLog σ).WF
      rw [hlog]
      exact h.sound.log.setLimit 0
    limit := rfl
    snapshot := by
      intro s hs
      exact h.sound.snapshot s (by rw [← hlog]; exact hs)
    requested := by
      intro hs
      have hs : (r.reset t).raftLog.unstable.snapshot ≠ none := hs
      rw [hlog] at hs
      exact h.sound.requested hs
    tracker := htr
    promotable := by
      show (r.reset t).promotable = (r.reset t).progressTracker.conf.voters.contains (r.reset t).id
      rw [hprom, hconf, hid]
      exact h.sound.promotable
    leader := fun hl => by cases hl
    candidate := by
      rintro (hl | hl) <;> cases hl
    reads := hro
    asked := fun _ v p hp => by
      rw [hask v p hp]
      exact Nat.zero_le _ }

theorem core_votes_reset (t : ProgressTracker) : (fun v => t.resetVotes.votes.lookup v) =
    fun _ => (none : Option Bool) := by
  funext v
  exact AList.lookup_empty v

theorem wp_becomePreCandidate (h : Reach honest m c r) (hv : r.core.voters.contains r.id = true)
    (hn : r.core.NoConf r.core.settled r.core.committed)
    {Q : Unit → Raft σ → Prop} {E : Err → Raft σ → Prop}
    (hQ : ∀ r' : Raft σ, Reach honest m c r' →
      r'.core = { r.core with role := .preCandidate, votes := fun _ => none } → Q () r') :
    becomePreCandidate.wp Q E r := by
  unfold becomePreCandidate
  rw [Act.wp_bind, Act.wp_get, Act.wp_bind, Act.wp_assert]
  intro hl
  rw [Act.wp_modify]
  have hcore : ({ r with
      state := .preCandidate
      progressTracker := r.progressTracker.resetVotes
      leaderId := invalidId } : Raft σ).core =
      { r.core with role := .preCandidate, votes := fun _ => none } := by
    rw [← core_votes_reset r.progressTracker]
    rfl
  refine hQ _ (h.step ?_ (hcore ▸ .preCampaign r.core (of_decide_eq_true hl) hv hn)) hcore
  exact { h.sound with
    tracker := ⟨h.sound.tracker.conf, h.sound.tracker.plain, h.sound.tracker.progress⟩
    promotable := h.sound.promotable
    leader := fun hl => by cases hl
    candidate := fun _ => rfl
    asked := h.sound.asked }

theorem wp_becomeCandidate (h : Reach honest m c r) (hv : r.core.role = .preCandidate ∨
      (r.core.voters.contains r.id = true ∧ r.core.NoConf r.core.settled r.core.committed))
    {Q : Unit → Raft σ → Prop} {E : Err → Raft σ → Prop}
    (hQ : ∀ r' : Raft σ, Reach honest m c r' → r'.core =
      { r.core.reset (r.term + 1) (r.clearedMatch (r.term + 1)) with
        vote := r.id, role := .candidate } → Q () r') :
    becomeCandidate.wp Q E r := by
  unfold becomeCandidate
  rw [Act.wp_bind, Act.wp_get, Act.wp_bind, Act.wp_assert]
  intro hl
  rw [Act.wp_modify]
  obtain ⟨htr, hro, hconf, hlog, hid, hprom, hknobs, hask⟩ := reset_sound h.sound.log h.sound.tracker (r.term + 1)
  have hcore : ({ r.reset (r.term + 1) with
      vote := (r.reset (r.term + 1)).id
      state := .candidate
      promotable := (r.reset (r.term + 1)).progressTracker.conf.voters.contains
        (r.reset (r.term + 1)).id } : Raft σ).core =
      { r.core.reset (r.term + 1) (r.clearedMatch (r.term + 1)) with
        vote := r.id, role := .candidate } := by
    rw [← core_reset, hid]
    rfl
  refine hQ _ (h.step ?_ (hcore ▸ .campaign r.core _ (of_decide_eq_true hl) hv
    (cleared_reset r _))) hcore
  exact {
    id_ne := by
      show (r.reset (r.term + 1)).id ≠ 0
      rw [hid]
      exact h.sound.id_ne
    log := by
      show (r.reset (r.term + 1)).raftLog.WF
      rw [hlog]
      exact h.sound.log
    limit := by
      show (r.reset (r.term + 1)).raftLog.maxApplyUnpersistedLogLimit = 0
      rw [hlog]
      exact h.sound.limit
    snapshot := by
      intro s hs
      exact h.sound.snapshot s (by rw [← hlog]; exact hs)
    requested := fun _ => reset_request r (r.term + 1)
    tracker := htr
    promotable := rfl
    leader := fun hl => by cases hl
    candidate := fun _ => by
      show (r.reset (r.term + 1)).leaderId = invalidId
      unfold reset
      rfl
    reads := hro
    asked := fun _ v p hp => by
      rw [hask v p hp]
      exact Nat.zero_le _ }

/-! ### The own log -/

/-- The node with another log over the same storage and snapshot. -/
theorem Sound.setLog (h : r.Sound honest) {l : RaftLog σ} (hwf : l.WF)
    (hstore : l.store = r.raftLog.store) (hsnap : l.unstable.snapshot = r.raftLog.unstable.snapshot)
    (hlimit : l.maxApplyUnpersistedLogLimit = r.raftLog.maxApplyUnpersistedLogLimit) :
    ({ r with raftLog := l } : Raft σ).Sound honest :=
  { h with
    log := hwf
    limit := hlimit.trans h.limit
    snapshot := fun s hs => h.snapshot s (hsnap ▸ hs)
    requested := fun hs => h.requested (hsnap ▸ hs)
    tracker := h.tracker
    promotable := h.promotable
    asked := fun hh id p hp => by
      show _ ≤ (LawfulStorage.view l.store).hardState.commit
      rw [hstore]
      exact h.asked hh id p hp }

theorem retag_eq_nil {t i : ℕ} {es : List Entry} : retag t i es = [] ↔ es = [] := by
  cases es <;> simp [retag]

theorem consecutive_retag (t i : ℕ) (es : List Entry) : Log.Consecutive i (retag t i es) := by
  induction es generalizing i with
  | nil => trivial
  | cons e es ih => exact ⟨rfl, ih (i + 1)⟩

theorem term_of_mem_retag {t i : ℕ} {es : List Entry} {e : Entry} (h : e ∈ retag t i es) :
    e.term = t := by
  induction es generalizing i with
  | nil => exact absurd h List.not_mem_nil
  | cons a es ih =>
      rcases List.mem_cons.mp h with rfl | h
      · rfl
      · exact ih h

/-- What appending own entries leaves. -/
structure Appended (r : Raft σ) (es : List Entry) (r' : Raft σ) : Prop where
  core : r'.core = { r.core with
    log := r.core.log.splice (r.core.log.last + 1) (retag r.term (r.core.log.last + 1) es) }
  tracker : r'.progressTracker = r.progressTracker
  leaderId : r'.leaderId = r.leaderId
  state : r'.state = r.state

theorem wp_appendEntry (h : r.Sound honest) (es : List Entry) :
    (appendEntry es).wp
      (fun b r' => r'.Sound honest ∧ ((b = false ∧ r' = r) ∨ (b = true ∧ es = [] ∧ r' = r) ∨
        (b = true ∧ es ≠ [] ∧ Appended r es r')))
      (fun _ r' => r'.Sound honest ∧ r'.core = r.core ∧ r'.progressTracker = r.progressTracker) r := by
  unfold appendEntry
  rw [Act.wp_ite]
  refine ⟨fun hnil => ⟨h, Or.inr (Or.inl ⟨rfl, hnil, rfl⟩)⟩, fun hne => ?_⟩
  rw [Act.wp_bind, Act.wp_get, Act.wp_ite]
  refine ⟨fun _ => ⟨h, rfl, rfl⟩, fun _ => ?_⟩
  split
  · exact ⟨h, Or.inl ⟨rfl, rfl⟩⟩
  · rename_i u hu
    unfold onLog
    rw [Act.wp_bind, Act.wp_modify, Act.wp_bind, Act.wp_catchErr, Act.wp_zoom]
    refine Act.wp_mono (h.log.wp_append _) ?_ ?_
    · rintro _ l' (⟨hnil, _⟩ | ⟨e, es', u', heq, hwf, _, _, _, _, hlog, hsnap, rfl⟩)
      · exact absurd (retag_eq_nil.mp hnil) hne
      · have hidx : e.index = r.raftLog.log.last + 1 := by
          have := consecutive_retag r.term (r.raftLog.lastIndex + 1) es
          rw [heq] at this
          rw [this.1, h.log.lastIndex_eq]
        have hpers : min r.raftLog.persisted (e.index - 1) = r.raftLog.persisted := by
          have h1 := h.log.persisted_lt
          have h2 := h.log.last_eq
          omega
        refine ⟨?_, Or.inr (Or.inr ⟨rfl, hne, ?_, rfl, rfl, rfl⟩)⟩
        · exact Sound.setLog (r := { r with uncommittedState := u }) { h with } hwf rfl hsnap rfl
        · unfold core
          congr 1
          · show RaftLog.log _ = _
            rw [hlog, hidx, h.log.lastIndex_eq]
          · show u'.snapshot.map _ = _
            rw [hsnap]
    · rintro e l' rfl
      rw [Act.wp_bind, Act.wp_modify, Act.wp_throw]
      exact ⟨{ h with }, rfl, rfl⟩

/-! ### Leading -/

/-- The own progress of a new leader is in replication, which does not show. -/
theorem replicateSelf_spec {t tracker : ProgressTracker} (id : ℕ) (ht : t.Sound)
    (heq : (match t.get id with
      | some p => t.set id p.becomeReplicate
      | none => t) = tracker) :
    tracker.Sound ∧ tracker.conf = t.conf ∧ tracker.votes = t.votes ∧
      (∀ v, ((tracker.get v).map Progress.matched).getD 0 =
        ((t.get v).map Progress.matched).getD 0) ∧
      ∀ n, (∀ v p, t.get v = some p → p.pendingRequestSnapshot ≤ n) →
        ∀ v p, tracker.get v = some p → p.pendingRequestSnapshot ≤ n := by
  subst heq
  split
  · rename_i p hp
    refine ⟨ht.set hp (Progress.sound_becomeReplicate p), rfl, rfl, ?_, ?_⟩
    · intro v
      rw [ProgressTracker.get_set]
      split
      · rename_i hv
        rw [hv, hp]
        rfl
      · rfl
    · intro n hn v q hq
      rw [ProgressTracker.get_set] at hq
      split at hq
      · cases hq
        exact hn id p hp
      · exact hn v q hq
  · exact ⟨ht, rfl, rfl, fun _ => rfl, fun _ hn => hn⟩

theorem wp_becomeLeader (h : Reach honest m c r) (hm : m.MayElect) (hr : r.state = .candidate)
    (hw : r.core.voters.Wins {v | r.core.votes v = some true}) :
    becomeLeader.wp (fun _ r' => Reach honest m c r' ∧ r'.term = r.term ∧ r'.state = .leader)
      (fun _ r' => Reach honest m c r' ∧ r'.term = r.term ∧ r'.state = .leader) r := by
  unfold becomeLeader
  rw [Act.wp_bind, Act.wp_get, Act.wp_bind, Act.wp_assert]
  intro _
  rw [Act.wp_bind, Act.wp_modify]
  obtain ⟨htr, hro, hconf, hlog, hid, hprom, hknobs, hask⟩ := reset_sound h.sound.log h.sound.tracker r.term
  have hcore := core_reset r r.term
  have hM := cleared_reset r r.term
  have hterm : (r.reset r.term).term = r.term := (congrArg Peer.term hcore :)
  have hreq := reset_request r r.term
  generalize r.clearedMatch r.term = M at hcore hM
  generalize r.reset r.term = r0 at *
  have key : ∀ (tracker : ProgressTracker) (u : UncommittedState), tracker.Sound →
      tracker.conf = r0.progressTracker.conf → tracker.votes = r0.progressTracker.votes →
      (∀ v, ((tracker.get v).map Progress.matched).getD 0 =
        ((r0.progressTracker.get v).map Progress.matched).getD 0) →
      (∀ v p, tracker.get v = some p → p.pendingRequestSnapshot ≤ 0) →
      Reach honest m c ({ r0 with
        leaderId := r0.id
        state := .leader
        uncommittedState := u
        progressTracker := tracker
        pendingConfIndex := r0.raftLog.lastIndex } : Raft σ) := by
    intro tracker u h1 h2 h3 h4 h5
    have hlead : ({ r0 with
        leaderId := r0.id
        state := .leader
        uncommittedState := u
        progressTracker := tracker
        pendingConfIndex := r0.raftLog.lastIndex } : Raft σ).core =
        { r.core.reset r.term M with role := .leader, pendingConf := r.core.log.last } := by
      rw [← hcore]
      unfold core
      congr 1
      · exact congrArg TrackerConfiguration.voters h2
      · funext v
        exact congrArg (AList.lookup v) h3
      · funext v
        exact h4 v
      · show r0.raftLog.lastIndex = r.raftLog.log.last
        rw [hlog, h.sound.log.lastIndex_eq]
    refine h.step ?_ (hlead ▸ .lead r.core M hm hr hw hM)
    exact {
      id_ne := by
        show r0.id ≠ 0
        rw [hid]
        exact h.sound.id_ne
      log := by
        show r0.raftLog.WF
        rw [hlog]
        exact h.sound.log
      limit := by
        show r0.raftLog.maxApplyUnpersistedLogLimit = 0
        rw [hlog]
        exact h.sound.limit
      snapshot := fun s hs => h.sound.snapshot s (by rw [← hlog]; exact hs)
      requested := fun _ => hreq
      tracker := h1
      promotable := by
        show r0.promotable = tracker.conf.voters.contains r0.id
        rw [hprom, h2, hconf, hid]
        exact h.sound.promotable
      leader := fun _ => rfl
      candidate := by
        rintro (hl | hl) <;> cases hl
      reads := hro
      asked := fun _ v p hp => (h5 v p hp).trans (Nat.zero_le _) }
  -- the empty entry of the term
  have hempty : ∀ r1 : Raft σ, Reach honest m c r1 → r1.state = .leader → r1.term = r.term →
      (appendEntry [{}] >>= fun appended => Act.assert appended).wp
        (fun _ r' => Reach honest m c r' ∧ r'.term = r.term ∧ r'.state = .leader)
        (fun _ r' => Reach honest m c r' ∧ r'.term = r.term ∧ r'.state = .leader) r1 := by
    intro r1 h1 hl1 ht1
    rw [Act.wp_bind]
    refine Act.wp_mono (wp_appendEntry h1.sound [{}]) ?_ ?_
    · rintro b r' ⟨hs', hcase⟩
      rw [Act.wp_assert]
      rintro rfl
      rcases hcase with ⟨hb, _⟩ | ⟨_, hnil, _⟩ | ⟨_, _, happ⟩
      · cases hb
      · cases hnil
      · refine ⟨h1.step hs' ?_, ?_, happ.state.trans hl1⟩
        · rw [happ.core]
          refine .extend _ _ _ hl1 (consecutive_retag _ _ _) (fun e he => term_of_mem_retag he)
            (Or.inl ⟨fun e he => ?_, le_rfl⟩)
          simp only [retag, List.mem_singleton] at he
          rw [he]
          rfl
        · exact ((congrArg Peer.term happ.core :)).trans ht1
    · rintro e r' ⟨hs', hcore', _⟩
      refine ⟨⟨hs', hcore' ▸ h1.micros⟩, ?_, ?_⟩
      · exact ((congrArg Peer.term hcore' :)).trans ht1
      · exact ((congrArg Peer.role hcore' :)).trans hl1
  obtain ⟨h1, h2, h3, h4, h5⟩ := replicateSelf_spec r0.id htr rfl
  exact hempty _ (key _ _ h1 h2 h3 h4 (h5 0 fun v p hp => (hask v p hp).le)) rfl hterm

/-! ### Counting votes and campaigning -/

/-- What a poll leaves. -/
structure Polled (honest : Prop) (m : Message) (c : Peer) (r : Raft σ) (v : ℕ) (b : Bool)
    (res : VoteResult) (r' : Raft σ) : Prop where
  reach : Reach honest m c r'
  term : r.term ≤ r'.term
  pending : res = .pending → r'.core = r.core.tally v b
  lost : res = .lost → r.core.voters.getVoteResult (r.core.tally v b).votes = .lost

theorem core_recordVote (v : ℕ) (b : Bool) :
    ({ r with progressTracker := r.progressTracker.recordVote v b } : Raft σ).core =
      r.core.tally v b := by
  unfold core Peer.tally
  congr 1
  funext w
  show (r.progressTracker.votes.insert v b).lookup w = _
  rw [lookup_insert_eq]
  by_cases hw : w = v
  · subst hw
    rw [if_pos rfl, Function.update_self]
  · rw [if_neg hw, Function.update_of_ne hw]

theorem wp_pollWith {elect : RaftM σ Unit} (h : Reach honest m c r) (hm : m.MayElect) {v : ℕ} {b : Bool}
    (hr : r.state = .candidate ∨ r.state = .preCandidate)
    (hv : (v = r.core.id ∧ b = true) ∨ (v = m.sender ∧ b = !m.reject ∧
      ((r.core.role = .candidate ∧ m.msgType = .requestVoteResponse ∧ r.core.Current m) ∨
        (r.core.role = .preCandidate ∧ m.msgType = .requestPreVoteResponse))))
    (helect : ∀ r' : Raft σ, Reach honest m c r' → r'.state = .preCandidate →
      elect.wp (fun _ r'' => Reach honest m c r'' ∧ r'.term ≤ r''.term)
        (fun _ r'' => Reach honest m c r'' ∧ r'.term ≤ r''.term) r') :
    (pollWith elect v b).wp (Polled honest m c r v b)
      (fun _ r' => Reach honest m c r' ∧ r.term ≤ r'.term) r := by
  unfold pollWith
  rw [Act.wp_bind, Act.wp_modify, Act.wp_bind, Act.wp_get]
  have hcore := core_recordVote (r := r) v b
  have hreach : Reach honest m c
      ({ r with progressTracker := r.progressTracker.recordVote v b } : Raft σ) := by
    refine h.step ?_ (hcore ▸ .tally r.core v b hr hv)
    exact { h.sound with
      tracker := ⟨h.sound.tracker.conf, h.sound.tracker.plain, h.sound.tracker.progress⟩
      promotable := h.sound.promotable
      asked := h.sound.asked }
  have hres : (r.progressTracker.recordVote v b).getVoteResult =
      r.core.voters.getVoteResult (r.core.tally v b).votes := by
    rw [← hcore]
    rfl
  split
  · exact ⟨hreach, le_rfl, fun _ => hcore, fun hl => by cases hl⟩
  · rename_i hlost
    rw [Act.wp_bind]
    refine wp_becomeFollower hreach (.same rfl fun hl => ?_) ?_
    · rcases hr with hr | hr
      · exact absurd (hr.symm.trans hl) (by decide)
      · exact absurd (hr.symm.trans hl) (by decide)
    · intro r' h' hc' _ _ _ _
      refine ⟨h', ?_, fun hp => (by cases hp), fun _ => hres ▸ hlost⟩
      exact (congrArg Peer.term hc' :).ge
  · rename_i hwon
    rw [Act.wp_ite]
    refine ⟨fun hpre => ?_, fun hpre => ?_⟩
    · rw [Act.wp_bind, Act.wp_ignore]
      refine Act.wp_mono (helect _ hreach hpre) ?_ ?_
      · exact fun _ r' h' => ⟨h'.1, h'.2, fun hp => (by cases hp), fun hl => by cases hl⟩
      · exact fun _ r' h' => ⟨h'.1, h'.2, fun hp => (by cases hp), fun hl => by cases hl⟩
    · have hcand : r.state = .candidate := hr.resolve_right hpre
      have hwins : r.core.voters.Wins {w | (r.core.tally v b).votes w = some true} :=
        JointConfiguration.wins_of_won (hres ▸ hwon)
      have hsend : ∀ r' : Raft σ, Reach honest m c r' → r'.state = .leader → r'.term = r.term →
          (Act.ignore broadcastAppend >>= fun _ => pure VoteResult.won).wp
            (Polled honest m c r v b) (fun _ r' => Reach honest m c r' ∧ r.term ≤ r'.term) r' := by
        intro r' h' hl' ht'
        rw [Act.wp_bind]
        refine Act.wp_mono (sendsOnly_broadcastAppend.ignore c r' h' hl') ?_ ?_
        · rintro _ r'' ⟨h'', hs⟩
          refine ⟨h'', ?_, fun hp => (by cases hp), fun hl => by cases hl⟩
          have : r''.term = r'.term := (congrArg Peer.term hs :)
          omega
        · rintro _ r'' ⟨h'', hs⟩
          have : r''.term = r'.term := (congrArg Peer.term hs :)
          exact ⟨h'', by omega⟩
      rw [Act.wp_bind, Act.wp_ignore]
      refine Act.wp_mono (wp_becomeLeader hreach hm hcand ?_) ?_ ?_
      · rw [hcore]
        exact hwins
      · exact fun _ r' h' => hsend r' h'.1 h'.2.2 h'.2.1
      · exact fun _ r' h' => hsend r' h'.1 h'.2.2 h'.2.1

/-- A vote request of the campaign that is run in the role of `r`. -/
theorem wp_requestVote (h : Reach honest m c r) {t : CampaignType} {msgType : MessageType}
    {term commit commitTerm : ℕ} (v : ℕ)
    (hrole : (r.state = .candidate ∧ msgType = .requestVote ∧ term = r.term) ∨
      (r.state = .preCandidate ∧ msgType = .requestPreVote ∧ term = r.term + 1))
    (hc : (commit, commitTerm) = (r.core.committed, r.core.log.term r.core.committed)) :
    (requestVote t msgType term commit commitTerm v).wp
      (fun _ r' => Reach honest m c r' ∧ Sent r.core r')
      (fun _ r' => Reach honest m c r' ∧ Sent r.core r') r := by
  unfold requestVote
  rw [Act.wp_bind, Act.wp_get, Act.wp_ite]
  refine ⟨fun _ => ⟨h, Sent.refl r⟩, fun hne => ?_⟩
  rw [h.sound.log.lastTerm_eq, h.sound.log.lastIndex_eq]
  cases hc
  rcases hrole with ⟨hr, rfl, rfl⟩ | ⟨hr, rfl, rfl⟩
  · refine wp_send_vote rfl rfl fun p => ⟨h.send ?_, sent_post _⟩
    exact .requestVote _ hr rfl rfl rfl hne rfl rfl (Or.inr ⟨rfl, rfl⟩)
  · refine wp_send_vote rfl rfl fun p => ⟨h.send ?_, sent_post _⟩
    exact .requestPreVote _ hr rfl rfl rfl hne rfl rfl (Or.inr ⟨rfl, rfl⟩)

theorem wp_campaignWith {poll : ℕ → Bool → RaftM σ VoteResult} (h : Reach honest m c r)
    {t : CampaignType}
    (hv : (t ≠ .preElection ∧ r.state = .preCandidate) ∨
      (r.core.voters.contains r.id = true ∧ r.core.NoConf r.core.settled r.core.committed))
    (hpoll : ∀ r' : Raft σ, Reach honest m c r' →
      (t = .preElection → r'.state = .preCandidate) → (t ≠ .preElection → r'.state = .candidate) →
      (poll r'.id true).wp (Polled honest m c r' r'.id true)
        (fun _ r'' => Reach honest m c r'' ∧ r'.term ≤ r''.term) r') :
    (campaignWith poll t).wp (fun _ r' => Reach honest m c r' ∧ r.term ≤ r'.term)
      (fun _ r' => Reach honest m c r' ∧ r.term ≤ r'.term) r := by
  have hrest : ∀ r1 : Raft σ, Reach honest m c r1 → r.term ≤ r1.term →
      (∀ v, r1.core.votes v = none) → (t = .preElection → r1.state = .preCandidate) →
      (t ≠ .preElection → r1.state = .candidate) →
      (do
        let r ← Act.get
        let voteMsg : MessageType := if t = .preElection then .requestPreVote else .requestVote
        let term := if t = .preElection then r.term + 1 else r.term
        let result ← poll r.id true
        if result = .won then return ()
        else do
          let info ← Act.query (fun r => r.raftLog.commitInfo)
          let r ← Act.get
          Act.each r.progressTracker.conf.voters.ids (requestVote t voteMsg term info.1 info.2) :
        RaftM σ Unit).wp
        (fun _ r' => Reach honest m c r' ∧ r.term ≤ r'.term)
        (fun _ r' => Reach honest m c r' ∧ r.term ≤ r'.term) r1 := by
    intro r1 h1 hle hvotes hpre hcand
    rw [Act.wp_bind, Act.wp_get]
    dsimp only
    rw [Act.wp_bind]
    refine Act.wp_mono (hpoll r1 h1 hpre hcand) ?_ fun _ _ h' => ⟨h'.1, hle.trans h'.2⟩
    intro res r2 h2
    rw [Act.wp_ite]
    refine ⟨fun _ => ⟨h2.reach, hle.trans h2.term⟩, fun hnw => ?_⟩
    have hcore2 : r2.core = r1.core.tally r1.id true := by
      cases res with
      | pending => exact h2.pending rfl
      | won => exact absurd rfl hnw
      | lost =>
          refine absurd (h2.lost rfl) (JointConfiguration.not_lost fun v => ?_)
          unfold Peer.tally
          dsimp only
          by_cases hv : v = r1.id
          · rw [hv, Function.update_self]
            exact fun hf => by cases hf
          · rw [Function.update_of_ne hv, hvotes]
            exact fun hf => by cases hf
    have hrole2 : r2.state = r1.state := (congrArg Peer.role hcore2 :)
    have hterm2 : r2.term = r1.term := (congrArg Peer.term hcore2 :)
    rw [Act.wp_bind, Act.wp_query]
    refine ⟨fun info hinfo => ?_, fun _ _ => ⟨h2.reach, hle.trans h2.term⟩⟩
    rw [h2.reach.sound.log.commitInfo_eq] at hinfo
    cases hinfo
    rw [Act.wp_bind, Act.wp_get]
    refine Act.wp_mono (Q := fun _ r' => Reach honest m c r' ∧ Sent r2.core r')
      (E := fun _ r' => Reach honest m c r' ∧ Sent r2.core r') (Act.wp_each _ ?_
      ⟨h2.reach, Sent.refl r2⟩) ?_ ?_
    · rintro v - r3 ⟨h3, hs3⟩
      have hrole3 : r3.state = r1.state := hs3.role.trans hrole2
      have hterm3 : r3.term = r1.term := ((congrArg Peer.term hs3 :)).trans hterm2
      refine Act.wp_mono (wp_requestVote h3 v ?_ ?_) (fun _ _ h4 => ⟨h4.1, hs3.trans h4.2⟩)
        fun _ _ h4 => ⟨h4.1, hs3.trans h4.2⟩
      · by_cases ht : t = .preElection
        · rw [if_pos ht, if_pos ht]
          exact Or.inr ⟨hrole3.trans (hpre ht), rfl, by rw [hterm3]⟩
        · rw [if_neg ht, if_neg ht]
          exact Or.inl ⟨hrole3.trans (hcand ht), rfl, by rw [hterm3]⟩
      · show _ = (r3.core.committed, r3.core.log.term r3.core.committed)
        rw [hs3.committed, hs3.log]
        rfl
    · rintro _ r3 ⟨h3, hs3⟩
      have hterm3 : r3.term = r2.term := (congrArg Peer.term hs3 :)
      exact ⟨h3, by omega⟩
    · rintro _ r3 ⟨h3, hs3⟩
      have hterm3 : r3.term = r2.term := (congrArg Peer.term hs3 :)
      exact ⟨h3, by omega⟩
  unfold campaignWith takeRole
  rw [Act.wp_bind, Act.wp_ite]
  refine ⟨fun ht => ?_, fun ht => ?_⟩
  · have hv := hv.resolve_left fun hf => hf.1 ht
    refine wp_becomePreCandidate h hv.1 hv.2 fun r1 h1 hc1 => ?_
    refine hrest r1 h1 (congrArg Peer.term hc1 :).ge (fun v => ?_) (fun _ => ?_)
      fun hne => absurd ht hne
    · rw [hc1]
    · exact (congrArg Peer.role hc1 :)
  · refine wp_becomeCandidate h ?_ fun r1 h1 hc1 => ?_
    · exact hv.imp_left And.right
    · have hterm1 : r1.term = r.term + 1 := (congrArg Peer.term hc1 :)
      refine hrest r1 h1 (by omega) (fun v => ?_) (fun he => absurd he ht) fun _ => ?_
      · rw [hc1]
        rfl
      · exact (congrArg Peer.role hc1 :)

theorem wp_campaignElection (h : Reach honest m c r) (hm : m.MayElect) {t : CampaignType} (ht : t ≠ .preElection)
    (hv : r.state = .preCandidate ∨
      (r.core.voters.contains r.id = true ∧ r.core.NoConf r.core.settled r.core.committed)) :
    (campaignElection t).wp (fun _ r' => Reach honest m c r' ∧ r.term ≤ r'.term)
      (fun _ r' => Reach honest m c r' ∧ r.term ≤ r'.term) r := by
  refine wp_campaignWith h (hv.imp_left fun hp => ⟨ht, hp⟩) fun r' h' _ hc => ?_
  refine wp_pollWith h' hm (Or.inl (hc ht)) (Or.inl ⟨rfl, rfl⟩) fun r'' h'' _ => ⟨h'', le_rfl⟩

theorem wp_poll (h : Reach honest m c r) (hm : m.MayElect) {v : ℕ} {b : Bool}
    (hr : r.state = .candidate ∨ r.state = .preCandidate)
    (hv : (v = r.core.id ∧ b = true) ∨ (v = m.sender ∧ b = !m.reject ∧
      ((r.core.role = .candidate ∧ m.msgType = .requestVoteResponse ∧ r.core.Current m) ∨
        (r.core.role = .preCandidate ∧ m.msgType = .requestPreVoteResponse)))) :
    (poll v b).wp (Polled honest m c r v b)
      (fun _ r' => Reach honest m c r' ∧ r.term ≤ r'.term) r :=
  wp_pollWith h hm hr hv fun _ h' hp => wp_campaignElection h' hm (by decide) (Or.inl hp)

theorem wp_campaign (h : Reach honest m c r) (hm : m.MayElect) (t : CampaignType)
    (hv : r.core.voters.contains r.id = true ∧ r.core.NoConf r.core.settled r.core.committed) :
    (campaign t).wp (fun _ r' => Reach honest m c r' ∧ r.term ≤ r'.term)
      (fun _ r' => Reach honest m c r' ∧ r.term ≤ r'.term) r := by
  refine wp_campaignWith h (Or.inr hv) fun r' h' hp hc => ?_
  refine wp_poll h' hm ?_ (Or.inl ⟨rfl, rfl⟩)
  by_cases ht : t = .preElection
  · exact Or.inr (hp ht)
  · exact Or.inl (hc ht)

/-- The scan for configuration changes only reads. -/
theorem wp_hasUnappliedConfChanges (h : r.raftLog.WF) (lo hi : ℕ) :
    (hasUnappliedConfChanges lo hi).wp
      (fun b r' => r' = r ∧ (b = false → r.raftLog.committed ≤ r.raftLog.applied ∨
        ∀ i e, lo ≤ i → i < hi → r.raftLog.log.entryAt i = some e → e.isConf = false))
      (fun _ _ => False) r := by
  unfold hasUnappliedConfChanges onLog
  rw [Act.wp_bind, Act.wp_get, Act.wp_ite]
  refine ⟨fun hle => ⟨rfl, fun _ => Or.inl hle⟩, fun _ => ?_⟩
  rw [Act.wp_catchErr, Act.wp_zoom]
  refine Act.wp_mono (h.wp_scan _ _) ?_ ?_
  · rintro b l' ⟨rfl, hb⟩
    exact ⟨rfl, fun hf => Or.inr (hb hf (by omega))⟩
  · rintro _ l' rfl
    exact ⟨rfl, fun hf => by cases hf⟩

/-- The range scanned before a campaign covers everything that is not settled. -/
theorem noConf_of_scan {low : ℕ}
    (hlow : low = match r.raftLog.unstable.maybeFirstIndex with
      | some i => i
      | none => r.raftLog.applied + 1)
    (hscan : r.raftLog.committed ≤ r.raftLog.applied ∨
      ∀ i e, low ≤ i → i < r.raftLog.committed + 1 → r.raftLog.log.entryAt i = some e →
        e.isConf = false) : r.core.NoConf r.core.settled r.core.committed := by
  intro i e h1 h2 he
  have h1 : max r.raftLog.applied
      (((r.raftLog.unstable.snapshot.map Snapshot.metadata).map SnapshotMetadata.index).getD 0) <
        i := h1
  have h2 : i ≤ r.raftLog.committed := h2
  rcases hscan with hle | hscan
  · omega
  · refine hscan i e ?_ (by omega) he
    rw [hlow]
    unfold Unstable.maybeFirstIndex
    cases hs : r.raftLog.unstable.snapshot with
    | none =>
        dsimp only [Option.map_none]
        omega
    | some s =>
        rw [hs] at h1
        simp only [Option.map_some, Option.getD_some] at h1 ⊢
        omega

theorem wp_hup (h : Reach honest m c r) (hm : m.MayElect) (hp : r.promotable = true) (transfer : Bool) :
    (hup transfer).wp (fun _ r' => Reach honest m c r' ∧ r.term ≤ r'.term)
      (fun _ r' => Reach honest m c r' ∧ r.term ≤ r'.term) r := by
  unfold hup
  rw [Act.wp_bind, Act.wp_get, Act.wp_ite]
  refine ⟨fun _ => ⟨h, le_rfl⟩, fun _ => ?_⟩
  dsimp only
  rw [Act.wp_bind]
  refine Act.wp_mono (wp_hasUnappliedConfChanges h.sound.log _ _) ?_ fun _ _ hf => hf.elim
  rintro b r' ⟨rfl, hscan⟩
  rw [Act.wp_ite]
  refine ⟨fun _ => ⟨h, le_rfl⟩, fun hb => ?_⟩
  have hn := noConf_of_scan rfl (hscan (by simpa using hb))
  have hcamp := fun t => wp_campaign h hm t ⟨h.sound.promotable ▸ hp, hn⟩
  rw [Act.wp_ite]
  refine ⟨fun _ => ?_, fun _ => ?_⟩
  · rw [Act.wp_ignore]
    exact hcamp _
  · rw [Act.wp_ite]
    refine ⟨fun _ => ?_, fun _ => ?_⟩
    · rw [Act.wp_ignore]
      exact hcamp _
    · rw [Act.wp_ignore]
      exact hcamp _

/-! ### Vote messages -/

theorem wp_maybeCommitByVote (h : Reach honest m c r) (hm : isVoteMessage m.msgType = true)
    (hterm : r.term < m.term → raisesTerm m = false) :
    (maybeCommitByVote m).wp (fun _ r' => Reach honest m c r' ∧ r.term ≤ r'.term)
      (fun _ r' => Reach honest m c r' ∧ r.term ≤ r'.term) r := by
  unfold maybeCommitByVote
  rw [Act.wp_bind, Act.wp_get, Act.wp_ite]
  refine ⟨fun _ => ⟨h, le_rfl⟩, fun h0 => ?_⟩
  rw [Act.wp_ite]
  refine ⟨fun _ => ⟨h, le_rfl⟩, fun hl => ?_⟩
  unfold onLog
  rw [Act.wp_bind, Act.wp_zoom]
  refine Act.wp_mono (h.sound.log.wp_maybeCommit _ _) ?_ ?_
  · rintro b l' (⟨rfl, rfl⟩ | ⟨rfl, hlt, hle, hat, rfl⟩)
    · rw [if_pos rfl]
      exact ⟨h, le_rfl⟩
    · rw [if_neg (by decide), Act.wp_bind, Act.wp_get]
      have h0 : m.commitTerm ≠ 0 := fun hf => h0 (Or.inr hf)
      have hl : r.state ≠ .leader := fun hf => hl (Or.inr hf)
      have hs' : ({ r with raftLog := { r.raftLog with committed := m.commit } } : Raft σ).Sound
          honest := { h.sound with log := h.sound.log.setCommitted hlt.le hle }
      have hcommit : (r.core.role = .follower ∨
          r.core.NoConf (max r.core.committed r.core.applied) m.commit) →
          Reach honest m c { r with raftLog := { r.raftLog with committed := m.commit } } :=
        fun hn => h.step hs' (.commit r.core _ hlt hle (.vote hm hl rfl hat h0 hterm hn))
      rw [Act.wp_ite]
      refine ⟨fun hrole => ⟨hcommit (Or.inl ?_), le_rfl⟩, fun hrole => ?_⟩
      · have hrole : r.state ≠ .candidate ∧ r.state ≠ .preCandidate := hrole
        show r.state = .follower
        cases hst : r.state <;> simp_all
      · have hrole : r.state = .candidate ∨ r.state = .preCandidate := by
          by_contra hf
          exact hrole (not_or.mp hf)
        rw [Act.wp_bind]
        refine Act.wp_mono (wp_hasUnappliedConfChanges hs'.log _ _) ?_ fun _ _ hf => hf.elim
        rintro b r' ⟨rfl, hscan⟩
        rw [Act.wp_ite]
        refine ⟨fun _ => ?_, fun hb => ⟨hcommit (Or.inr ?_), le_rfl⟩⟩
        · -- commit and step down are one step of the protocol
          have hfol := wp_becomeFollower (m := m) (t := r.term) (l := invalidId)
            hs'.reach (Follows.same rfl fun hf => absurd hf hl)
            (Q := fun _ r' => r'.Sound honest ∧ r'.core =
              { ({ r.core with committed := m.commit } : Peer).reset r.term
                (({ r with raftLog := { r.raftLog with committed := m.commit } } :
                  Raft σ).clearedMatch r.term) with role := .follower })
            (E := fun _ _ => False) fun r' h' hc' _ _ _ _ => ⟨h'.sound, hc'⟩
          refine Act.wp_mono hfol ?_ fun _ _ hf => hf.elim
          rintro _ r' ⟨hs'', hc''⟩
          refine ⟨h.step hs'' ?_, (congrArg Peer.term hc'' :).ge⟩
          rw [hc'']
          exact .commitDown r.core m.commit _ hlt hle hm hrole rfl hat h0 hterm
            (cleared_reset (r := { r with raftLog := { r.raftLog with committed := m.commit } }) _)
        · intro i e h1 h2 he
          have h1 : max r.raftLog.committed r.raftLog.applied < i := h1
          rcases hscan (by simpa using hb) with hle' | hscan
          · have : m.commit ≤ r.raftLog.applied := hle'
            omega
          · exact hscan i e (by omega) (by
              show i < m.commit + 1
              omega) he
  · rintro e l' rfl
    exact ⟨h, le_rfl⟩

theorem wp_handleVoteRequest (h : Reach honest m c r)
    (hm : m.msgType = .requestVote ∨ m.msgType = .requestPreVote)
    (hcur : m.msgType = .requestVote → r.core.Current m)
    (hterm : r.term < m.term → raisesTerm m = false) :
    (handleVoteRequest m).wp (fun _ r' => Reach honest m c r' ∧ r.term ≤ r'.term)
      (fun _ r' => Reach honest m c r' ∧ r.term ≤ r'.term) r := by
  have hresp : isVoteMessage (voteRespMsgType m.msgType) = true := by
    rcases hm with hm | hm <;> rw [hm] <;> rfl
  unfold handleVoteRequest
  rw [Act.wp_bind, Act.wp_get, Act.wp_bind, Act.wp_query]
  refine ⟨fun up hup => ?_, fun _ _ => ⟨h, le_rfl⟩⟩
  rw [h.sound.log.isUpToDate_eq] at hup
  cases hup
  rw [Act.wp_ite]
  refine ⟨fun hgrant => ?_, fun _ => ?_⟩
  · obtain ⟨hcan, hu, _⟩ := hgrant
    rw [Act.wp_bind]
    refine wp_send_vote rfl hresp fun p => ?_
    rw [Act.wp_ite]
    refine ⟨fun hv => ?_, fun hv => ⟨h.send ?_, le_rfl⟩⟩
    · rw [Act.wp_modify]
      refine ⟨h.step { h.sound with } ?_, le_rfl⟩
      refine .grant r.core _ hv (hcur hv) ?_ ?_ (by rw [hv]; rfl) rfl rfl rfl rfl rfl
      · rcases hcan with hcan | ⟨hcan, _⟩ | ⟨hcan, _⟩
        · exact Or.inl hcan
        · exact Or.inr hcan
        · exact absurd (hv.symm.trans hcan) (by decide)
      · have hu := of_decide_eq_true hu
        exact hu
    · have hv := hm.resolve_left hv
      exact .preVoteGrant _ hv (by rw [hv]; rfl) rfl rfl rfl rfl
  · rw [Act.wp_bind, Act.wp_query]
    refine ⟨fun info hinfo => ?_, fun _ _ => ⟨h, le_rfl⟩⟩
    rw [h.sound.log.commitInfo_eq] at hinfo
    cases hinfo
    rw [Act.wp_bind]
    refine wp_send_vote rfl hresp fun p => ?_
    refine wp_maybeCommitByVote (h.send (.voteReject _ ?_ rfl rfl rfl (Or.inr ⟨rfl, rfl⟩))) ?_ hterm
    · rcases hm with hm | hm
      · exact Or.inl (by rw [hm]; rfl)
      · exact Or.inr (by rw [hm]; rfl)
    · rcases hm with hm | hm <;> rw [hm] <;> rfl

end Raftz.Raft
