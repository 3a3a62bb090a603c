import Raftz.Driver
import Raftz.Standing

/-! # Candidacies

A node that asks before it campaigns becomes a candidate when the tally of its round wins.
`Bid` is what a candidacy rests on, and `Abides` says that no step is taken towards one:
every handler but those of an election abides. -/

open Base

namespace Raftz

namespace Raft

/-- What a candidacy rests on. -/
structure Bid where
  id : ℕ
  knobs : Knobs
  state : StateRole
  term : ℕ
  votes : AList (fun _ : ℕ => Bool)
  conf : TrackerConfiguration

/-- The candidacy of a node. -/
def bid {σ : Type} (r : Raft σ) : Bid where
  id := r.id
  knobs := r.knobs
  state := r.state
  term := r.term
  votes := r.progressTracker.votes
  conf := r.progressTracker.conf

/-- No step towards a candidacy has been taken. -/
structure Abides (b b' : Bid) : Prop where
  id : b'.id = b.id
  knobs : b'.knobs = b.knobs
  asking : b'.state = .preCandidate → b.state = .preCandidate ∧ b'.term = b.term ∧ b'.votes = b.votes
  standing : b'.state = .candidate → b.state = .candidate ∧ b'.term = b.term
  leading : b'.state = .leader → (b.state = .leader ∨ b.state = .candidate) ∧ b'.term = b.term

namespace Abides

theorem refl (b : Bid) : Abides b b where
  id := rfl
  knobs := rfl
  asking := fun h => ⟨h, rfl, rfl⟩
  standing := fun h => ⟨h, rfl⟩
  leading := fun h => ⟨Or.inl h, rfl⟩

theorem trans {b b1 b2 : Bid} (h : Abides b b1) (h' : Abides b1 b2) : Abides b b2 where
  id := h'.id.trans h.id
  knobs := h'.knobs.trans h.knobs
  asking := by
    intro hs
    obtain ⟨hs1, ht1, hv1⟩ := h'.asking hs
    obtain ⟨hs0, ht0, hv0⟩ := h.asking hs1
    exact ⟨hs0, ht1.trans ht0, hv1.trans hv0⟩
  standing := by
    intro hs
    obtain ⟨hs1, ht1⟩ := h'.standing hs
    obtain ⟨hs0, ht0⟩ := h.standing hs1
    exact ⟨hs0, ht1.trans ht0⟩
  leading := by
    intro hs
    obtain ⟨hs1, ht1⟩ := h'.leading hs
    rcases hs1 with hs1 | hs1
    · obtain ⟨hs0, ht0⟩ := h.leading hs1
      exact ⟨hs0, ht1.trans ht0⟩
    · obtain ⟨hs0, ht0⟩ := h.standing hs1
      exact ⟨Or.inr hs0, ht1.trans ht0⟩

theorem of_follower {b b' : Bid} (hid : b'.id = b.id) (hknobs : b'.knobs = b.knobs)
    (hs : b'.state = .follower) : Abides b b' where
  id := hid
  knobs := hknobs
  asking := fun h => absurd (hs.symm.trans h) StateRole.noConfusion
  standing := fun h => absurd (hs.symm.trans h) StateRole.noConfusion
  leading := fun h => absurd (hs.symm.trans h) StateRole.noConfusion

end Abides

variable {σ : Type}

/-- `x` takes no step towards a candidacy. -/
def Abiding {α : Type} (x : RaftM σ α) : Prop := Act.Within (fun r r' : Raft σ => Abides r.bid r'.bid) x

theorem keeps_bid_of_stands [Storage σ] {α : Type} {x : RaftM σ α} (hx : Stands x) : Act.Keeps bid x := by
  intro r
  have hsame : ∀ r' : Raft σ, r'.standing = r.standing → r'.bid = r.bid := fun r' h =>
    congrArg (fun s : Standing σ => Bid.mk s.id s.knobs s.state s.term s.votes s.conf) h
  exact Act.wp_mono (hx r) (fun _ => hsame) fun _ => hsame

namespace Abiding

theorem of_keeps {α : Type} {x : RaftM σ α} (hx : Act.Keeps bid x) : Abiding x := hx.within Abides.refl

theorem of_stands [Storage σ] {α : Type} {x : RaftM σ α} (hx : Stands x) : Abiding x :=
  of_keeps (keeps_bid_of_stands hx)

theorem bind {α β : Type} {x : RaftM σ α} {g : α → RaftM σ β} (hx : Abiding x)
    (hg : ∀ a, Abiding (g a)) : Abiding (x >>= g) :=
  Act.Within.bind (R := fun r r' : Raft σ => Abides r.bid r'.bid) (fun _ _ _ => Abides.trans) hx hg

theorem ite {α : Type} {c : Prop} [Decidable c] {x y : RaftM σ α} (hx : Abiding x) (hy : Abiding y) :
    Abiding (if c then x else y) :=
  Act.Within.ite (R := fun r r' : Raft σ => Abides r.bid r'.bid) hx hy

theorem ignore {α : Type} {x : RaftM σ α} (hx : Abiding x) : Abiding (Act.ignore x) :=
  Act.Within.ignore (R := fun r r' : Raft σ => Abides r.bid r'.bid) hx

theorem pure {α : Type} (a : α) : Abiding (Pure.pure a : RaftM σ α) := of_keeps (.pure a)

theorem after {α : Type} {x : RaftM σ α} (hx : Abiding x) {r r1 : Raft σ} (h : Abides r.bid r1.bid) :
    x.wp (fun _ r' => Abides r.bid r'.bid) (fun _ r' => Abides r.bid r'.bid) r1 :=
  Act.wp_mono (hx r1) (fun _ _ h' => h.trans h') fun _ _ h' => h.trans h'

end Abiding

variable [Storage σ]

/-! ### Role changes -/

theorem reset_bid (r : Raft σ) (t : ℕ) : (r.reset t).bid = { r.bid with term := t, votes := ∅ } := by
  unfold reset
  by_cases ht : r.term = t
  · simp only [ne_eq, ht, not_true_eq_false, if_false]
    rw [← ht]
    rfl
  · simp only [ne_eq, ht, not_false_eq_true, if_true]
    rfl

theorem abiding_becomeFollower (t l : ℕ) : Abiding (becomeFollower t l : RaftM σ Unit) := by
  intro r
  have hid : (r.reset t).id = r.id := congrArg Bid.id (reset_bid r t)
  have hknobs : (r.reset t).knobs = r.knobs := congrArg Bid.knobs (reset_bid r t)
  exact Abides.of_follower hid hknobs rfl

omit [Storage σ] in
theorem keeps_bid_onLog {α : Type} (x : Act Err (RaftLog σ) α) : Act.Keeps bid (onLog x : RaftM σ α) :=
  .zoom fun _ _ => rfl

theorem keeps_bid_appendEntry (es : List Entry) : Act.Keeps bid (appendEntry es : RaftM σ Bool) := by
  unfold appendEntry
  refine .ite (.pure _) (.bind .get fun r => .ite (.throw _) ?_)
  split
  · exact .pure _
  · exact .bind (.modify fun _ => rfl) fun _ => .bind (.catchErr (keeps_bid_onLog _) fun _ =>
      .bind (.modify fun _ => rfl) fun _ => .throw _) fun _ => .pure _

/-- A candidate that has won leads its term. -/
theorem wp_becomeLeader_abides {r : Raft σ} (h : r.state ≠ .preCandidate) :
    becomeLeader.wp (fun _ r' => Abides r.bid r'.bid) (fun _ r' => Abides r.bid r'.bid) r := by
  unfold becomeLeader
  rw [Act.wp_bind, Act.wp_get, Act.wp_bind, Act.wp_assert]
  intro hs
  have hs : r.state ≠ .follower := of_decide_eq_true hs
  rw [Act.wp_bind, Act.wp_modify]
  have hrest : Abiding (do let appended ← appendEntry [{}]; Act.assert appended : RaftM σ Unit) :=
    .of_keeps (.bind (keeps_bid_appendEntry _) fun _ => .assert _)
  refine hrest.after ?_
  have hid : (r.reset r.term).id = r.id := congrArg Bid.id (reset_bid r r.term)
  have hknobs : (r.reset r.term).knobs = r.knobs := congrArg Bid.knobs (reset_bid r r.term)
  have hterm : (r.reset r.term).term = r.term := congrArg Bid.term (reset_bid r r.term)
  refine ⟨hid, hknobs, StateRole.noConfusion, StateRole.noConfusion, fun _ => ⟨?_, hterm⟩⟩
  show r.state = .leader ∨ r.state = .candidate
  cases hrole : r.state with
  | follower => exact absurd hrole hs
  | candidate => exact Or.inr rfl
  | leader => exact Or.inl rfl
  | preCandidate => exact absurd hrole h

/-! ### Polls -/

/-- A vote that reaches a node that is not asking makes no candidate. -/
theorem wp_pollWith_abides {r : Raft σ} (elect : RaftM σ Unit) (h : r.state ≠ .preCandidate) (v : ℕ)
    (b : Bool) :
    (pollWith elect v b).wp (fun _ r' => Abides r.bid r'.bid) (fun _ r' => Abides r.bid r'.bid) r := by
  have h0 : Abides r.bid ({ r with progressTracker := r.progressTracker.recordVote v b } : Raft σ).bid :=
    ⟨rfl, rfl, fun hs => absurd hs h, fun hs => ⟨hs, rfl⟩, fun hs => ⟨Or.inl hs, rfl⟩⟩
  unfold pollWith
  rw [Act.wp_bind, Act.wp_modify, Act.wp_bind, Act.wp_get]
  split
  · exact h0
  · rw [Act.wp_bind]
    exact Act.wp_mono ((abiding_becomeFollower r.term invalidId).after h0) (fun _ _ h => h) fun _ _ h => h
  · rw [if_neg h, Act.wp_bind, Act.wp_ignore]
    have hsend : ∀ r1 : Raft σ, Abides r.bid r1.bid → (Act.ignore broadcastAppend >>= fun _ =>
        pure VoteResult.won : RaftM σ VoteResult).wp (fun _ r' => Abides r.bid r'.bid)
        (fun _ r' => Abides r.bid r'.bid) r1 := by
      intro r1 h1
      rw [Act.wp_bind]
      exact (Abiding.ignore (.of_stands stands_broadcastAppend)).after h1
    have hlead := wp_becomeLeader_abides (r := { r with
      progressTracker := r.progressTracker.recordVote v b }) h
    exact Act.wp_mono hlead (fun _ r1 h1 => hsend r1 (h0.trans h1)) fun _ r1 h1 => hsend r1 (h0.trans h1)

/-- A node that has become a candidate in the next term, perhaps the leader, or has given up. -/
structure Campaigned (b b' : Bid) : Prop where
  id : b'.id = b.id
  knobs : b'.knobs = b.knobs
  asking : b'.state ≠ .preCandidate
  term : b'.state = .candidate ∨ b'.state = .leader → b'.term = b.term + 1

theorem Campaigned.abide {b b1 b2 : Bid} (h : Campaigned b b1) (h' : Abides b1 b2) : Campaigned b b2 where
  id := h'.id.trans h.id
  knobs := h'.knobs.trans h.knobs
  asking := fun hs => h.asking (h'.asking hs).1
  term := by
    rintro (hs | hs)
    · obtain ⟨hs1, ht⟩ := h'.standing hs
      exact ht.trans (h.term (Or.inl hs1))
    · obtain ⟨hs1, ht⟩ := h'.leading hs
      exact ht.trans (h.term hs1.symm)

omit [Storage σ] in
theorem Campaigned.after {b : Bid} {α : Type} {x : RaftM σ α} (hx : Abiding x) {r1 : Raft σ}
    (h : Campaigned b r1.bid) :
    x.wp (fun _ r' => Campaigned b r'.bid) (fun _ r' => Campaigned b r'.bid) r1 :=
  Act.wp_mono (hx r1) (fun _ _ h' => h.abide h') fun _ _ h' => h.abide h'

theorem abiding_requests (t : CampaignType) (msgType : MessageType) (term : ℕ) :
    Abiding (do
      let info ← Act.query (fun r => r.raftLog.commitInfo)
      let r ← Act.get
      Act.each r.progressTracker.conf.voters.ids (requestVote t msgType term info.1 info.2) : RaftM σ Unit) :=
  .of_stands (.bind (.query _) fun _ => .bind .get fun _ => .each _ fun _ => stands_requestVote _ _ _ _ _ _)

/-- A real campaign. -/
theorem wp_campaignWith_campaigned {r : Raft σ} (elect : RaftM σ Unit) {t : CampaignType} (ht : t ≠ .preElection) :
    (campaignWith (pollWith elect) t).wp (fun _ r' => Campaigned r.bid r'.bid)
      (fun _ r' => Campaigned r.bid r'.bid) r := by
  unfold campaignWith takeRole becomeCandidate
  rw [if_neg ht, Act.wp_bind, Act.wp_bind, Act.wp_get, Act.wp_bind, Act.wp_assert]
  intro _
  rw [Act.wp_modify, Act.wp_bind, Act.wp_get]
  have hid : (r.reset (r.term + 1)).id = r.id := congrArg Bid.id (reset_bid r (r.term + 1))
  have hknobs : (r.reset (r.term + 1)).knobs = r.knobs := congrArg Bid.knobs (reset_bid r (r.term + 1))
  have hterm : (r.reset (r.term + 1)).term = r.term + 1 := congrArg Bid.term (reset_bid r (r.term + 1))
  have hpoll : ∀ r1 : Raft σ, r1.state = .candidate → Campaigned r.bid r1.bid →
      (do let result ← pollWith elect r1.id true
          if result = .won then return ()
          else do
            let info ← Act.query (fun r => r.raftLog.commitInfo)
            let r ← Act.get
            Act.each r.progressTracker.conf.voters.ids (requestVote t
              (if t = .preElection then .requestPreVote else .requestVote)
              (if t = .preElection then r1.term + 1 else r1.term) info.1 info.2) : RaftM σ Unit).wp
        (fun _ r' => Campaigned r.bid r'.bid) (fun _ r' => Campaigned r.bid r'.bid) r1 := by
    intro r1 hs1 h1
    rw [Act.wp_bind]
    refine Act.wp_mono (wp_pollWith_abides elect (by rw [hs1]; exact StateRole.noConfusion) _ _) ?_
      fun _ _ h2 => h1.abide h2
    intro res r2 h2
    exact (h1.abide h2).after (.ite (.pure ()) (abiding_requests _ _ _))
  refine hpoll _ rfl ⟨hid, hknobs, StateRole.noConfusion, fun _ => hterm⟩

/-- The tally `v` of a pre-candidate has been looked at. -/
structure Tallied (b : Bid) (v : AList (fun _ : ℕ => Bool)) (b' : Bid) : Prop where
  id : b'.id = b.id
  knobs : b'.knobs = b.knobs
  asking : b'.state = .preCandidate → b'.term = b.term ∧ b'.votes = v
  rises : b'.state = .candidate ∨ b'.state = .leader →
    b'.term = b.term + 1 ∧ b.conf.voters.getVoteResult (fun id => v.lookup id) = .won

theorem Tallied.abide {b b1 b2 : Bid} {v : AList (fun _ : ℕ => Bool)} (h : Tallied b v b1)
    (h' : Abides b1 b2) : Tallied b v b2 where
  id := h'.id.trans h.id
  knobs := h'.knobs.trans h.knobs
  asking := by
    intro hs
    obtain ⟨hs1, ht1, hv1⟩ := h'.asking hs
    obtain ⟨ht, hv⟩ := h.asking hs1
    exact ⟨ht1.trans ht, hv1.trans hv⟩
  rises := by
    rintro (hs | hs)
    · obtain ⟨hs1, ht1⟩ := h'.standing hs
      obtain ⟨ht, hwon⟩ := h.rises (Or.inl hs1)
      exact ⟨ht1.trans ht, hwon⟩
    · obtain ⟨hs1, ht1⟩ := h'.leading hs
      obtain ⟨ht, hwon⟩ := h.rises hs1.symm
      exact ⟨ht1.trans ht, hwon⟩

omit [Storage σ] in
theorem Tallied.after {b : Bid} {v : AList (fun _ : ℕ => Bool)} {α : Type} {x : RaftM σ α} (hx : Abiding x)
    {r1 : Raft σ} (h : Tallied b v r1.bid) :
    x.wp (fun _ r' => Tallied b v r'.bid) (fun _ r' => Tallied b v r'.bid) r1 :=
  Act.wp_mono (hx r1) (fun _ _ h' => h.abide h') fun _ _ h' => h.abide h'

/-- A vote that reaches a pre-candidate. -/
theorem wp_poll_asking {r : Raft σ} (h : r.state = .preCandidate) (sender : ℕ) (vote : Bool) :
    (poll sender vote).wp
      (fun _ r' => Tallied r.bid (r.progressTracker.votes.insert sender vote) r'.bid)
      (fun _ r' => Tallied r.bid (r.progressTracker.votes.insert sender vote) r'.bid) r := by
  unfold poll pollWith
  rw [Act.wp_bind, Act.wp_modify, Act.wp_bind, Act.wp_get]
  split
  · refine ⟨rfl, rfl, fun _ => ⟨rfl, rfl⟩, ?_⟩
    rintro (hs | hs)
    · exact absurd (h.symm.trans hs) StateRole.noConfusion
    · exact absurd (h.symm.trans hs) StateRole.noConfusion
  · rw [Act.wp_bind]
    have hlost : ∀ b' : Bid, b'.id = r.id → b'.knobs = r.knobs → b'.state = .follower →
        Tallied r.bid (r.progressTracker.votes.insert sender vote) b' := by
      intro b' hid hknobs hs
      refine ⟨hid, hknobs, fun hs' => absurd (hs.symm.trans hs') StateRole.noConfusion, ?_⟩
      rintro (hs' | hs')
      · exact absurd (hs.symm.trans hs') StateRole.noConfusion
      · exact absurd (hs.symm.trans hs') StateRole.noConfusion
    have hreset := reset_bid { r with progressTracker := r.progressTracker.recordVote sender vote } r.term
    exact hlost _ (congrArg Bid.id hreset) (congrArg Bid.knobs hreset) rfl
  · rename_i hwon
    rw [if_pos h, Act.wp_bind, Act.wp_ignore]
    have hpost : ∀ r' : Raft σ, Campaigned ({ r with
        progressTracker := r.progressTracker.recordVote sender vote } : Raft σ).bid r'.bid →
        Tallied r.bid (r.progressTracker.votes.insert sender vote) r'.bid := fun r' h' =>
      ⟨h'.id, h'.knobs, fun hs => absurd hs h'.asking, fun hs => ⟨h'.term hs, hwon⟩⟩
    have helect := wp_campaignWith_campaigned (r := { r with
      progressTracker := r.progressTracker.recordVote sender vote }) (pure () : RaftM σ Unit)
      (t := .election) CampaignType.noConfusion
    exact Act.wp_mono helect (fun _ r' h' => hpost r' h') fun _ r' h' => hpost r' h'

/-- The tally of a node that has just started to ask. -/
def ownVote (id : ℕ) : AList (fun _ : ℕ => Bool) := (∅ : AList (fun _ : ℕ => Bool)).insert id true

/-- A round of pre-votes. -/
theorem wp_campaign_asking (r : Raft σ) :
    (campaign .preElection).wp (fun _ r' => Tallied r.bid (ownVote r.id) r'.bid)
      (fun _ r' => Tallied r.bid (ownVote r.id) r'.bid) r := by
  unfold campaign campaignWith takeRole becomePreCandidate
  rw [if_pos rfl, Act.wp_bind, Act.wp_bind, Act.wp_get, Act.wp_bind, Act.wp_assert]
  intro _
  rw [Act.wp_modify, Act.wp_bind, Act.wp_get, Act.wp_bind]
  have hpoll := wp_poll_asking (r := { r with
    state := .preCandidate
    progressTracker := r.progressTracker.resetVotes
    leaderId := invalidId }) rfl r.id true
  have hpost : ∀ r' : Raft σ, Tallied ({ r with
      state := .preCandidate
      progressTracker := r.progressTracker.resetVotes
      leaderId := invalidId } : Raft σ).bid (ownVote r.id) r'.bid → Tallied r.bid (ownVote r.id) r'.bid :=
    fun r' h' => ⟨h'.id, h'.knobs, h'.asking, h'.rises⟩
  refine Act.wp_mono hpoll ?_ fun _ r' h' => hpost r' h'
  intro res r1 h1
  exact (hpost r1 h1).after (.ite (.pure ()) (abiding_requests _ _ _))

/-! ### Handlers -/

omit [Storage σ] in
theorem keeps_bid_send (m : Message) : Act.Keeps bid (send m : RaftM σ Unit) :=
  .bind .get fun _ => .bind (.orPanic _) fun _ => .modify fun _ => rfl

theorem abiding_handleAppendEntries (m : Message) : Abiding (handleAppendEntries m : RaftM σ Unit) := by
  unfold handleAppendEntries
  refine .of_keeps (.bind .get fun r => .ite (.bind .get fun _ => keeps_bid_send _) (.ite (keeps_bid_send _) ?_))
  refine .bind (keeps_bid_onLog _) fun result => .bind .get fun r' => .ite (keeps_bid_send _) ?_
  exact .bind (.query _) fun _ => keeps_bid_send _

theorem abiding_restoreSnapshot (snap : Snapshot) : Abiding (restoreSnapshot snap : RaftM σ Bool) := by
  intro r
  have hsame : Abides r.bid r.bid := .refl _
  unfold restoreSnapshot
  rw [Act.wp_bind, Act.wp_get]
  dsimp only
  rw [Act.wp_ite]
  refine ⟨fun _ => hsame, fun _ => ?_⟩
  rw [Act.wp_ite]
  refine ⟨fun _ => hsame, fun _ => ?_⟩
  rw [Act.wp_ite]
  refine ⟨fun _ => hsame, fun _ => ?_⟩
  rw [Act.wp_ite]
  refine ⟨fun _ => hsame, fun _ => ?_⟩
  rw [Act.wp_ite]
  refine ⟨fun _ => ?_, fun hf => ?_⟩
  · exact (Abiding.bind (abiding_becomeFollower _ _) fun _ => .pure _).after hsame
  · have hf := not_not.mp hf
    -- from here on the node is a follower and stays one
    have hfollows : ∀ {x : RaftM σ Bool}, Act.Keeps (fun r : Raft σ => (r.id, r.knobs, r.state)) x →
        x.wp (fun _ r' => Abides r.bid r'.bid) (fun _ r' => Abides r.bid r'.bid) r := by
      intro x hx
      have hpost : ∀ r' : Raft σ, (r'.id, r'.knobs, r'.state) = (r.id, r.knobs, r.state) →
          Abides r.bid r'.bid := by
        intro r' h'
        obtain ⟨hid, hknobs, hs⟩ : r'.id = r.id ∧ r'.knobs = r.knobs ∧ r'.state = r.state := by
          simpa only [Prod.mk.injEq] using h'
        exact .of_follower hid hknobs (hs.trans hf)
      exact Act.wp_mono (hx r) (fun _ => hpost) fun _ => hpost
    have hlog : ∀ {α : Type} (x : Act Err (RaftLog σ) α),
        Act.Keeps (fun r : Raft σ => (r.id, r.knobs, r.state)) (onLog x) := fun x => .zoom fun _ _ => rfl
    have hpost : ∀ cs, Act.Keeps (fun r : Raft σ => (r.id, r.knobs, r.state)) (postConfChange cs) := by
      intro cs r1
      have hsame : ∀ r' : Raft σ, r'.standing = r1.standing →
          (r'.id, r'.knobs, r'.state) = (r1.id, r1.knobs, r1.state) := fun r' h =>
        congrArg (fun s : Standing σ => (s.id, s.knobs, s.state)) h
      exact Act.wp_mono (stands_postConfChange cs r1) (fun _ => hsame) fun _ => hsame
    refine hfollows (.ite (.pure _) (.ite (.pure _) (.ite (.bind (.ignore (hlog _)) fun _ => .pure _) ?_)))
    split
    · exact .throw _
    · exact .pure _
    · refine .bind (.attempt (hlog _)) fun restored => ?_
      split
      · exact .throw _
      · exact .pure _
      · exact .bind (.modify fun _ => rfl) fun _ => .bind (hpost _) fun _ =>
          .bind (.modify fun _ => rfl) fun _ => .pure _

theorem abiding_handleSnapshot (m : Message) : Abiding (handleSnapshot m : RaftM σ Unit) := by
  unfold handleSnapshot
  split
  · exact .pure ()
  · exact .bind (abiding_restoreSnapshot _) fun _ => .of_keeps (.bind .get fun _ => keeps_bid_send _)

theorem abiding_maybeCommitByVote (m : Message) : Abiding (maybeCommitByVote m : RaftM σ Unit) := by
  unfold maybeCommitByVote
  refine .bind (.of_keeps .get) fun r => .ite (.pure ()) (.ite (.pure ()) ?_)
  refine .bind (.of_keeps (keeps_bid_onLog _)) fun _ => .ite (.pure ()) ?_
  refine .bind (.of_keeps .get) fun r' => .ite (.pure ()) ?_
  exact .bind (.of_stands (stands_hasUnappliedConfChanges _ _)) fun _ =>
    .ite (abiding_becomeFollower _ _) (.pure ())

theorem abiding_handleVoteRequest (m : Message) : Abiding (handleVoteRequest m : RaftM σ Unit) := by
  unfold handleVoteRequest
  refine .bind (.of_keeps .get) fun r => .bind (.of_keeps (.query _)) fun _ => .ite ?_ ?_
  · exact .of_keeps (.bind (keeps_bid_send _) fun _ => .ite (.modify fun _ => rfl) (.pure _))
  · exact .bind (.of_keeps (.query _)) fun _ => .bind (.of_keeps (keeps_bid_send _)) fun _ =>
      abiding_maybeCommitByVote m

theorem abiding_handlePropose (m : Message) : Abiding (handlePropose m : RaftM σ Unit) := by
  unfold handlePropose
  refine .bind (.of_keeps .get) fun r => .ite (.of_keeps .panic) (.ite (.of_keeps (.throw _))
    (.ite (.of_keeps (.throw _)) ?_))
  refine .bind (.of_keeps (.query _)) fun pos => .bind (.of_keeps (keeps_bid_appendEntry _)) fun _ =>
    .ite (.of_keeps (.throw _)) (.bind (.of_keeps (.modify fun s => ?_)) fun _ =>
      .of_stands stands_broadcastAppend)
  split <;> rfl

theorem abiding_stepLeader (m : Message) : Abiding (stepLeader m : RaftM σ Unit) := by
  intro r
  have hsame : Abides r.bid r.bid := .refl _
  unfold stepLeader
  rw [Act.wp_bind, Act.wp_get]
  split
  · exact (Abiding.of_stands stands_broadcastHeartbeat).after hsame
  · dsimp only
    rw [Act.wp_bind, Act.wp_modify]
    have hswept : Abides r.bid ({ r with
      progressTracker := (r.progressTracker.quorumRecentlyActive r.id).1 } : Raft σ).bid := .refl _
    have hrest : Abiding (if (r.progressTracker.quorumRecentlyActive r.id).2 then pure ()
        else becomeFollower r.term invalidId : RaftM σ Unit) := .ite (.pure ()) (abiding_becomeFollower _ _)
    exact hrest.after hswept
  · exact (abiding_handlePropose m).after hsame
  · rw [Act.wp_ite]
    exact ⟨fun _ => (Abiding.of_stands (stands_serveReadIndex m)).after hsame, fun _ => hsame⟩
  · exact (Abiding.of_stands (stands_handleAppendResponse m)).after hsame
  · exact (Abiding.of_stands (stands_handleHeartbeatResponse m)).after hsame
  · exact (Abiding.of_stands (stands_handleSnapshotStatus m)).after hsame
  · exact (Abiding.of_stands (stands_handleUnreachable m)).after hsame
  · exact (Abiding.of_stands (stands_handleTransferLeader m)).after hsame
  · exact hsame

/-- A follower takes a step towards a candidacy only when it is told to. -/
theorem abiding_stepFollower {m : Message} (hm : m.msgType ≠ .timeoutNow) :
    Abiding (stepFollower m : RaftM σ Unit) := by
  have hforward : Abiding (forward m : RaftM σ Unit) := .of_keeps (.bind .get fun _ => keeps_bid_send _)
  have hheard : Abiding (heardFromLeader m : RaftM σ Unit) := .of_keeps (.modify fun _ => rfl)
  unfold stepFollower
  refine .bind (.of_keeps .get) fun r => ?_
  split
  · exact .ite (.of_keeps (.throw _)) hforward
  · exact .bind hheard fun _ => abiding_handleAppendEntries m
  · exact .bind hheard fun _ => .of_stands (stands_handleHeartbeat m)
  · exact .bind hheard fun _ => abiding_handleSnapshot m
  · exact .ite (.pure ()) hforward
  · rename_i htold
    exact absurd htold hm
  · exact .ite (.pure ()) hforward
  · refine .ite (.pure ()) ?_
    split
    · exact .bind (.of_keeps (.modify fun _ => rfl)) fun _ => .of_keeps (.ignore (keeps_bid_onLog _))
    · exact .pure ()
  · exact .pure ()

/-! ### Messages -/

/-- What a call makes of a candidacy, when the node asks before it campaigns. -/
inductive Canvassed (x : RaftCall) (b b' : Bid) : Prop
  /-- Nothing happens. -/
  | abides (h : Abides b b')
  /-- A round is started; its tally holds the own vote. -/
  | asked (b1 : Bid) (hid : b1.id = b.id) (hknobs : b1.knobs = b.knobs) (hconf : b1.conf = b.conf)
      (h : Tallied b1 (ownVote b.id) b')
  /-- An answer is counted. -/
  | answered (m : Message) (hx : x = .step m) (hm : m.msgType = .requestPreVoteResponse)
      (ht : m.term = 0 ∨ b.term ≤ m.term) (hs : b.state = .preCandidate)
      (h : Tallied b (b.votes.insert m.sender (!m.reject)) b')
  /-- The leader has told the node to campaign. -/
  | told (m : Message) (hx : x = .step m) (hm : m.msgType = .timeoutNow) (hid : b'.id = b.id)
      (hknobs : b'.knobs = b.knobs) (hs : b'.state ≠ .preCandidate)

theorem Canvassed.id_knobs {x : RaftCall} {b b' : Bid} (h : Canvassed x b b') :
    b'.id = b.id ∧ b'.knobs = b.knobs := by
  cases h with
  | abides h => exact ⟨h.id, h.knobs⟩
  | asked b1 hid hknobs _ h => exact ⟨h.id.trans hid, h.knobs.trans hknobs⟩
  | answered _ _ _ _ _ h => exact ⟨h.id, h.knobs⟩
  | told _ _ _ hid hknobs => exact ⟨hid, hknobs⟩

/-- A time-out starts a round; a message of the leader starts a campaign. -/
def HupOutcome (transfer : Bool) (b b' : Bid) : Prop :=
  Abides b b' ∨ (transfer = false ∧ Tallied b (ownVote b.id) b') ∨ (transfer = true ∧ Campaigned b b')

theorem wp_hup_asks {r : Raft σ} (hpre : r.knobs.preVote = true) (transfer : Bool) :
    (hup transfer).wp (fun _ r' => HupOutcome transfer r.bid r'.bid)
      (fun _ r' => HupOutcome transfer r.bid r'.bid) r := by
  unfold hup
  rw [Act.wp_bind, Act.wp_get, Act.wp_ite]
  refine ⟨fun _ => Or.inl (.refl _), fun _ => ?_⟩
  have hscan : ∀ lo hi, Act.Keeps bid (hasUnappliedConfChanges lo hi : RaftM σ Bool) := fun lo hi =>
    keeps_bid_of_stands (stands_hasUnappliedConfChanges lo hi)
  rw [Act.wp_bind]
  refine Act.wp_mono (hscan _ _ r) ?_ fun _ r1 h1 => Or.inl (by rw [h1]; exact .refl _)
  intro pending r1 h1
  have hid : r1.id = r.id := congrArg Bid.id h1
  rw [Act.wp_ite]
  refine ⟨fun _ => Or.inl (by rw [h1]; exact .refl _), fun _ => ?_⟩
  rw [Act.wp_ite]
  refine ⟨fun ht => ?_, fun ht => ?_⟩
  · have hpost : ∀ r' : Raft σ, Campaigned r1.bid r'.bid → HupOutcome transfer r.bid r'.bid := by
      intro r' h'
      rw [h1] at h'
      exact Or.inr (Or.inr ⟨ht, h'⟩)
    rw [Act.wp_ignore]
    exact Act.wp_mono (wp_campaignWith_campaigned _ CampaignType.noConfusion) (fun _ => hpost) fun _ => hpost
  · have hpost : ∀ r' : Raft σ, Tallied r1.bid (ownVote r1.id) r'.bid → HupOutcome transfer r.bid r'.bid := by
      intro r' h'
      rw [h1, hid] at h'
      exact Or.inr (Or.inl ⟨Bool.eq_false_iff.mpr ht, h'⟩)
    rw [if_pos hpre, Act.wp_ignore]
    exact Act.wp_mono (wp_campaign_asking r1) (fun _ => hpost) fun _ => hpost

/-- A message for a candidate or pre-candidate. -/
theorem wp_stepCandidate_canvassed {r : Raft σ} {m : Message} (ht : m.term = 0 ∨ r.term ≤ m.term) :
    (stepCandidate m).wp (fun _ r' => Canvassed (.step m) r.bid r'.bid)
      (fun _ r' => Canvassed (.step m) r.bid r'.bid) r := by
  have habiding : ∀ {x : RaftM σ Unit}, Abiding x → x.wp (fun _ r' => Canvassed (.step m) r.bid r'.bid)
      (fun _ r' => Canvassed (.step m) r.bid r'.bid) r := fun hx =>
    Act.wp_mono (hx r) (fun _ _ h => .abides h) fun _ _ h => .abides h
  have hsame : Canvassed (.step m) r.bid r.bid := .abides (.refl _)
  -- a vote that is counted
  have hvote : ∀ hm : m.msgType = .requestPreVoteResponse ∨ r.state ≠ .preCandidate,
      (do let _ ← poll m.sender (!m.reject); maybeCommitByVote m : RaftM σ Unit).wp
        (fun _ r' => Canvassed (.step m) r.bid r'.bid) (fun _ r' => Canvassed (.step m) r.bid r'.bid) r := by
    intro hm
    rw [Act.wp_bind]
    by_cases hs : r.state = .preCandidate
    · have hm := hm.resolve_right fun h => h hs
      have hpost : ∀ r' : Raft σ, Tallied r.bid (r.progressTracker.votes.insert m.sender (!m.reject)) r'.bid →
          Canvassed (.step m) r.bid r'.bid := fun r' h => .answered m rfl hm ht hs h
      refine Act.wp_mono (wp_poll_asking hs _ _) (fun _ r1 h1 => ?_) fun _ => hpost
      exact Act.wp_mono (h1.after (abiding_maybeCommitByVote m)) (fun _ => hpost) fun _ => hpost
    · refine Act.wp_mono (wp_pollWith_abides _ hs _ _) (fun _ r1 h1 => ?_) fun _ _ h => .abides h
      exact Act.wp_mono ((abiding_maybeCommitByVote m).after h1) (fun _ _ h => .abides h) fun _ _ h => .abides h
  unfold stepCandidate
  split
  · exact hsame
  · exact habiding (.bind (abiding_becomeFollower _ _) fun _ => abiding_handleAppendEntries m)
  · exact habiding (.bind (abiding_becomeFollower _ _) fun _ => .of_stands (stands_handleHeartbeat m))
  · exact habiding (.bind (abiding_becomeFollower _ _) fun _ => abiding_handleSnapshot m)
  · rename_i hm
    rw [Act.wp_bind, Act.wp_get, Act.wp_ite]
    exact ⟨fun _ => hsame, fun _ => hvote (Or.inl hm)⟩
  · rename_i hm
    rw [Act.wp_bind, Act.wp_get, Act.wp_ite]
    refine ⟨fun _ => hsame, fun hcond => hvote (Or.inr fun hs => hcond (Or.inl ⟨hs, ?_⟩))⟩
    rw [hm]
    exact MessageType.noConfusion
  · exact hsame

/-- A local message, or one at the current term. -/
theorem wp_stepCurrent_canvassed {r : Raft σ} {m : Message} (hpre : r.knobs.preVote = true)
    (ht : m.term = 0 ∨ r.term ≤ m.term) :
    (stepCurrent m).wp (fun _ r' => Canvassed (.step m) r.bid r'.bid)
      (fun _ r' => Canvassed (.step m) r.bid r'.bid) r := by
  have habiding : ∀ {x : RaftM σ Unit}, Abiding x → x.wp (fun _ r' => Canvassed (.step m) r.bid r'.bid)
      (fun _ r' => Canvassed (.step m) r.bid r'.bid) r := fun hx =>
    Act.wp_mono (hx r) (fun _ _ h => .abides h) fun _ _ h => .abides h
  have hsame : Canvassed (.step m) r.bid r.bid := .abides (.refl _)
  unfold stepCurrent
  rw [Act.wp_bind, Act.wp_get]
  split
  · rw [Act.wp_ite]
    refine ⟨fun _ => ?_, fun _ => hsame⟩
    have hpost : ∀ r' : Raft σ, HupOutcome false r.bid r'.bid → Canvassed (.step m) r.bid r'.bid := by
      rintro r' (h | ⟨-, h⟩ | ⟨hf, -⟩)
      · exact .abides h
      · exact .asked r.bid rfl rfl rfl h
      · cases hf
    exact Act.wp_mono (wp_hup_asks hpre false) (fun _ => hpost) fun _ => hpost
  · exact habiding (abiding_handleVoteRequest m)
  · exact habiding (abiding_handleVoteRequest m)
  · split
    · exact wp_stepCandidate_canvassed ht
    · exact wp_stepCandidate_canvassed ht
    · rename_i hs
      by_cases hm : m.msgType = .timeoutNow
      · have hpost : ∀ r' : Raft σ, HupOutcome true r.bid r'.bid → Canvassed (.step m) r.bid r'.bid := by
          rintro r' (h | ⟨hf, -⟩ | ⟨-, h⟩)
          · exact .abides h
          · cases hf
          · exact .told m rfl hm h.id h.knobs h.asking
        unfold stepFollower
        rw [Act.wp_bind, Act.wp_get, hm]
        dsimp only
        rw [Act.wp_ite]
        exact ⟨fun _ => Act.wp_mono (wp_hup_asks hpre true) (fun _ => hpost) fun _ => hpost, fun _ => hsame⟩
      · exact habiding (abiding_stepFollower hm)
    · exact habiding (abiding_stepLeader m)

/-- Following a term first changes nothing about where a candidacy comes from. -/
theorem Canvassed.of_raised {m : Message} {b b1 b' : Bid} (hid : b1.id = b.id) (hknobs : b1.knobs = b.knobs)
    (hconf : b1.conf = b.conf) (hs : b1.state = .follower) (h : Canvassed (.step m) b1 b') :
    Canvassed (.step m) b b' := by
  cases h with
  | abides h => exact .abides ((Abides.of_follower hid hknobs hs).trans h)
  | asked b2 hid2 hknobs2 hconf2 h =>
      rw [hid] at h
      exact .asked b2 (hid2.trans hid) (hknobs2.trans hknobs) (hconf2.trans hconf) h
  | answered _ _ _ _ hs1 _ => exact absurd (hs.symm.trans hs1) StateRole.noConfusion
  | told m' hx hm hid' hknobs' hs' => exact .told m' hx hm (hid'.trans hid) (hknobs'.trans hknobs) hs'

theorem wp_step_canvassed {r : Raft σ} (hpre : r.knobs.preVote = true) (m : Message) :
    (step m).wp (fun _ r' => Canvassed (.step m) r.bid r'.bid)
      (fun _ r' => Canvassed (.step m) r.bid r'.bid) r := by
  have hsame : Canvassed (.step m) r.bid r.bid := .abides (.refl _)
  unfold step
  rw [Act.wp_bind, Act.wp_get, Act.wp_ite]
  refine ⟨fun h0 => wp_stepCurrent_canvassed hpre (Or.inl h0), fun _ => ?_⟩
  rw [Act.wp_ite]
  refine ⟨fun hlt => ?_, fun hge => ?_⟩
  · rw [Act.wp_ite]
    refine ⟨fun _ => hsame, fun _ => ?_⟩
    rw [Act.wp_ite]
    refine ⟨fun _ => ?_, fun _ => wp_stepCurrent_canvassed hpre (Or.inr hlt.le)⟩
    have hreset := reset_bid r m.term
    have hid : (r.reset m.term).id = r.id := congrArg Bid.id hreset
    have hknobs : (r.reset m.term).knobs = r.knobs := congrArg Bid.knobs hreset
    have hterm : (r.reset m.term).term = m.term := congrArg Bid.term hreset
    have hconf : (r.reset m.term).progressTracker.conf = r.progressTracker.conf := congrArg Bid.conf hreset
    have hcurrent : ∀ r1 : Raft σ, r1.id = r.id → r1.knobs = r.knobs → r1.term = m.term →
        r1.progressTracker.conf = r.progressTracker.conf → r1.state = .follower →
        (stepCurrent m).wp (fun _ r' => Canvassed (.step m) r.bid r'.bid)
          (fun _ r' => Canvassed (.step m) r.bid r'.bid) r1 := by
      intro r1 hid1 hknobs1 hterm1 hconf1 hs1
      have hpost : ∀ r' : Raft σ, Canvassed (.step m) r1.bid r'.bid → Canvassed (.step m) r.bid r'.bid :=
        fun r' h' => Canvassed.of_raised hid1 hknobs1 hconf1 hs1 h'
      exact Act.wp_mono (wp_stepCurrent_canvassed (by rw [hknobs1]; exact hpre) (Or.inr hterm1.le)) (fun _ => hpost)
        fun _ => hpost
    unfold becomeFollower
    rw [Act.wp_bind, Act.wp_modify]
    exact hcurrent _ hid hknobs hterm hconf rfl
  · rw [Act.wp_ite]
    refine ⟨fun _ => ?_, fun hge' => wp_stepCurrent_canvassed hpre (Or.inr (by omega))⟩
    have hlow : Abiding (stepLowerTerm m : RaftM σ Unit) := .of_stands (stands_stepLowerTerm m)
    exact Act.wp_mono (hlow r) (fun _ _ h => .abides h) fun _ _ h => .abides h

/-! ### Calls -/

/-- A message that is neither an answer nor an order makes of a candidacy what any call might. -/
theorem Canvassed.of_other {m : Message} {x : RaftCall} {b b' : Bid} (h : Canvassed (.step m) b b')
    (h1 : m.msgType ≠ .requestPreVoteResponse) (h2 : m.msgType ≠ .timeoutNow) : Canvassed x b b' := by
  cases h with
  | abides h => exact .abides h
  | asked b1 hid hknobs hconf h => exact .asked b1 hid hknobs hconf h
  | answered _ hx hm =>
      cases hx
      exact absurd hm h1
  | told _ hx hm =>
      cases hx
      exact absurd hm h2

/-- The messages a leader sends itself. -/
theorem wp_step_own {r : Raft σ} {m : Message} (h0 : m.term = 0) (hm : m.msgType = .beat ∨ m.msgType = .checkQuorum)
    (hs : r.state = .leader) :
    (step m).wp (fun _ r' => Abides r.bid r'.bid) (fun _ r' => Abides r.bid r'.bid) r := by
  unfold step
  rw [Act.wp_bind, Act.wp_get, if_pos h0]
  unfold stepCurrent
  rw [Act.wp_bind, Act.wp_get]
  rcases hm with hm | hm
  · rw [hm, hs]
    exact abiding_stepLeader m r
  · rw [hm, hs]
    exact abiding_stepLeader m r

theorem wp_tickCheckQuorum_abides {r : Raft σ} (hs : r.state = .leader) :
    tickCheckQuorum.wp (fun _ r' => Abides r.bid r'.bid) (fun _ r' => Abides r.bid r'.bid) r := by
  have hrest : Abiding (do
      Act.modify (fun r => if r.state = .leader then r.abortLeaderTransfer else r)
      pure r.knobs.checkQuorum : RaftM σ Bool) := by
    refine .of_keeps (.bind (.modify fun r' => ?_) fun _ => .pure _)
    split <;> rfl
  unfold tickCheckQuorum
  rw [Act.wp_bind, Act.wp_get, Act.wp_ite]
  refine ⟨fun _ => ?_, fun _ => .refl _⟩
  rw [Act.wp_bind, Act.wp_modify, Act.wp_bind, Act.wp_when]
  have h0 : Abides r.bid ({ r with electionElapsed := 0 } : Raft σ).bid := .refl _
  refine ⟨fun _ => ?_, fun _ => hrest.after h0⟩
  have hstep := wp_step_own (r := { r with electionElapsed := 0 })
    (m := { msgType := .checkQuorum, sender := r.id }) rfl (Or.inr rfl) hs
  exact Act.wp_mono hstep (fun _ r1 h1 => hrest.after (h0.trans h1)) fun _ _ h1 => h0.trans h1

theorem wp_tick_canvassed {r : Raft σ} (hpre : r.knobs.preVote = true) :
    tick.wp (fun _ r' => Canvassed .tick r.bid r'.bid) (fun _ r' => Canvassed .tick r.bid r'.bid) r := by
  unfold tick
  rw [Act.wp_bind, Act.wp_get, Act.wp_ite]
  refine ⟨fun hs => ?_, fun _ => ?_⟩
  · unfold tickHeartbeat
    rw [Act.wp_bind, Act.wp_modify, Act.wp_bind]
    have hcheck := wp_tickCheckQuorum_abides (r := { r with
      heartbeatElapsed := r.heartbeatElapsed + 1
      electionElapsed := r.electionElapsed + 1 }) hs
    refine Act.wp_mono hcheck (fun _ r1 h1 => ?_) fun _ _ h => .abides h
    have h1 : Abides r.bid r1.bid := h1
    rw [Act.wp_bind, Act.wp_get, Act.wp_ite]
    refine ⟨fun _ => .abides h1, fun hl => ?_⟩
    rw [Act.wp_ite]
    refine ⟨fun _ => ?_, fun _ => .abides h1⟩
    rw [Act.wp_bind, Act.wp_modify, Act.wp_bind]
    have hstep := wp_step_own (r := { r1 with heartbeatElapsed := 0 })
      (m := { msgType := .beat, sender := r1.id }) rfl (Or.inl rfl) (not_not.mp hl)
    exact Act.wp_mono hstep (fun _ _ h2 => .abides (h1.trans h2)) fun _ _ h2 => .abides (h1.trans h2)
  · unfold tickElection
    rw [Act.wp_bind, Act.wp_modify, Act.wp_bind, Act.wp_get, Act.wp_ite]
    refine ⟨fun _ => ?_, fun _ => .abides (.refl _)⟩
    rw [Act.wp_bind, Act.wp_modify, Act.wp_bind]
    have hstep := wp_step_canvassed (r := { r with
      heartbeatElapsed := r.heartbeatElapsed + 1
      electionElapsed := 0 }) hpre { msgType := .hup, sender := r.id }
    have hpost : ∀ r' : Raft σ, Canvassed (.step { msgType := .hup, sender := r.id }) r.bid r'.bid →
        Canvassed .tick r.bid r'.bid := fun r' h =>
      h.of_other MessageType.noConfusion MessageType.noConfusion
    exact Act.wp_mono hstep (fun _ r' h => hpost r' h) fun _ r' h => hpost r' h

theorem keeps_bid_maybeAutoLeave (i j : ℕ) : Act.Keeps bid (maybeAutoLeave i j : RaftM σ Unit) := by
  unfold maybeAutoLeave
  refine .bind .get fun r' => .ite ?_ (.pure _)
  split
  · exact .panic
  · exact .bind (.catchErr (keeps_bid_appendEntry _) fun _ => .panic) fun _ => .modify fun _ => rfl

theorem keeps_bid_commitApply (i : ℕ) : Act.Keeps bid (commitApply i : RaftM σ Unit) := by
  unfold commitApply
  exact .bind .get fun r => .bind (keeps_bid_onLog _) fun _ => keeps_bid_maybeAutoLeave _ _

theorem abiding_applyConfChange (cc : ConfChangeV2) : Abiding (applyConfChange cc : RaftM σ ConfState) := by
  intro r
  unfold applyConfChange
  rw [Act.wp_bind, Act.wp_query]
  refine ⟨fun res _ => ?_, fun _ _ => .refl _⟩
  rw [Act.wp_bind, Act.wp_modify]
  have hrest : Abiding (do
      postConfChange res.conf.toConfState
      pure res.conf.toConfState : RaftM σ ConfState) :=
    .bind (.of_stands (stands_postConfChange _)) fun _ => .pure _
  exact hrest.after ⟨rfl, rfl, fun h => ⟨h, rfl, rfl⟩, fun h => ⟨h, rfl⟩, fun h => ⟨Or.inl h, rfl⟩⟩

/-- What any call makes of a candidacy. -/
theorem wp_call_canvassed {r : Raft σ} (hpre : r.knobs.preVote = true) (x : RaftCall) :
    x.run.wp (fun _ r' => Canvassed x r.bid r'.bid) (fun _ r' => Canvassed x r.bid r'.bid) r := by
  have habiding : ∀ {α : Type} {y : RaftM σ α}, Abiding y → y.wp (fun _ r' => Canvassed x r.bid r'.bid)
      (fun _ r' => Canvassed x r.bid r'.bid) r := fun hy =>
    Act.wp_mono (hy r) (fun _ _ h => .abides h) fun _ _ h => .abides h
  cases x with
  | step m => exact wp_step_canvassed hpre m
  | tick =>
      show (tick >>= fun _ => pure ()).wp _ _ r
      rw [Act.wp_bind]
      exact wp_tick_canvassed hpre
  | ping => exact habiding (.of_stands stands_ping)
  | requestSnapshot => exact habiding (.of_stands stands_requestSnapshot)
  | setPriority p => exact habiding (.of_keeps (.modify fun _ => rfl))
  | applyConfChange cc => exact habiding (.bind (abiding_applyConfChange cc) fun _ => .pure ())
  | commitApply i => exact habiding (.of_keeps (keeps_bid_commitApply i))
  | onPersistEntries i t => exact habiding (.of_stands (stands_onPersistEntries i t))
  | onPersistSnapshot i => exact habiding (.of_stands (stands_onPersistSnapshot i))
  | restoreSnapshot snap => exact habiding (.bind (abiding_restoreSnapshot snap) fun _ => .pure ())

end Raft

end Raftz
