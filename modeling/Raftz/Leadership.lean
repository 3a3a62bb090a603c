import Raftz.DriverSound
import Raftz.Standing

/-! # Properties of leaders

The tenure of a node is what it has to account for as a leader: its log, what it has
applied, its configuration and the bounds it has set itself.  A property of the tenure of
leaders is kept by every call but an application and a change of configuration, when it
holds of a new leader and is kept by a proposal: `LeaderInv.call`.  The log must be well
formed at these points; it is so between calls, and no call that ends with a leader has
replaced it before. -/

open Base

namespace Raftz

/-- The log is well formed and committed up to `since`. -/
def RaftLog.Covers {σ : Type} [LawfulStorage σ] (l : RaftLog σ) (since : ℕ) : Prop :=
  l.WF ∧ since ≤ l.committed

/-- What a leader has to account for. -/
structure Tenure where
  state : StateRole
  log : Log
  applied : ℕ
  conf : TrackerConfiguration
  backlog : UncommittedState
  pendingConf : ℕ

namespace Raft

variable {σ : Type} [LawfulStorage σ]

/-- The tenure of a node. -/
def tenure (r : Raft σ) : Tenure where
  state := r.state
  log := r.raftLog.log
  applied := r.raftLog.applied
  conf := r.progressTracker.conf
  backlog := r.uncommittedState
  pendingConf := r.pendingConfIndex

theorem tenure_of_standing {r r' : Raft σ} (h : r'.standing = r.standing) : r'.tenure = r.tenure := by
  have hstore : r'.raftLog.store = r.raftLog.store := congrArg Standing.store h
  have hunstable : r'.raftLog.unstable = r.raftLog.unstable := congrArg Standing.unstable h
  have hlog : r'.raftLog.log = r.raftLog.log := by
    unfold RaftLog.log RaftLog.storeLog
    rw [hstore, hunstable]
  have hstate : r'.state = r.state := congrArg Standing.state h
  have happlied : r'.raftLog.applied = r.raftLog.applied := congrArg Standing.applied h
  have hconf : r'.progressTracker.conf = r.progressTracker.conf := congrArg Standing.conf h
  have hbacklog : r'.uncommittedState = r.uncommittedState := congrArg Standing.uncommittedState h
  have hpending : r'.pendingConfIndex = r.pendingConfIndex := congrArg Standing.pendingConfIndex h
  unfold tenure
  rw [hlog, hstate, happlied, hconf, hbacklog, hpending]

theorem keep_standing {I : Tenure → Prop} {r r' : Raft σ} (h : r'.standing = r.standing) (hi : I r.tenure) :
    I r'.tenure := by
  rw [tenure_of_standing h]
  exact hi

/-- The property holds of the tenure if the node is the leader. -/
def Led (I : Tenure → Prop) (r : Raft σ) : Prop := r.state = .leader → I r.tenure

theorem led_of_ne {I : Tenure → Prop} {r : Raft σ} (h : r.state ≠ .leader) : Led I r :=
  fun hl => absurd hl h

theorem led_stands {I : Tenure → Prop} {r : Raft σ} {α : Type} {x : RaftM σ α} (hx : Stands x) (h : Led I r) :
    x.wp (fun _ r' => Led I r' ∧ r'.state = r.state) (fun _ r' => Led I r' ∧ r'.state = r.state) r := by
  have hpost : ∀ r' : Raft σ, r'.standing = r.standing → Led I r' ∧ r'.state = r.state := by
    intro r' h'
    have hs : r'.state = r.state := congrArg Standing.state h'
    exact ⟨fun hl => keep_standing h' (h (hs.symm.trans hl)), hs⟩
  exact Act.wp_mono (hx r) (fun _ r' h' => hpost r' h') fun _ r' h' => hpost r' h'

/-! ### Role changes -/


/-- A reset keeps the log, the configuration and the accounts. -/
theorem reset_same (r : Raft σ) (t : ℕ) : (r.reset t).raftLog = r.raftLog ∧
    (r.reset t).progressTracker.conf = r.progressTracker.conf ∧
    (r.reset t).uncommittedState = r.uncommittedState := by
  unfold reset
  by_cases ht : r.term = t
  · simp only [ne_eq, ht, not_true_eq_false, if_false]
    exact ⟨rfl, rfl, rfl⟩
  · simp only [ne_eq, ht, not_false_eq_true, if_true]
    exact ⟨rfl, rfl, rfl⟩

theorem reset_raftLog (r : Raft σ) (t : ℕ) : (r.reset t).raftLog = r.raftLog := (reset_same r t).1

theorem wp_becomeFollower_follows {t l : ℕ} {r : Raft σ} {E : Err → Raft σ → Prop} :
    (becomeFollower t l).wp (fun _ r' => r'.state = .follower) E r := rfl

theorem wp_takeRole {t : CampaignType} {r : Raft σ} :
    (takeRole t).wp (fun _ r' => r'.state ≠ .leader ∧ r'.raftLog = r.raftLog) (fun _ _ => False) r := by
  unfold takeRole
  rw [Act.wp_ite]
  constructor
  · intro _
    unfold becomePreCandidate
    rw [Act.wp_bind, Act.wp_get, Act.wp_bind, Act.wp_assert]
    intro _
    exact ⟨StateRole.noConfusion, rfl⟩
  · intro _
    unfold becomeCandidate
    rw [Act.wp_bind, Act.wp_get, Act.wp_bind, Act.wp_assert]
    intro _
    exact ⟨StateRole.noConfusion, reset_raftLog r _⟩

/-! ### Handlers of a follower -/

theorem keeps_state_handleAppendEntries (m : Message) :
    Act.Keeps Raft.state (handleAppendEntries m : RaftM σ Unit) := by
  have hsend : ∀ msg, Act.Keeps Raft.state (send msg : RaftM σ Unit) := fun msg =>
    .bind .get fun _ => .bind (.orPanic _) fun _ => .modify fun _ => rfl
  unfold handleAppendEntries
  refine .bind .get fun r => .ite (.bind .get fun _ => hsend _) (.ite (hsend _) ?_)
  refine .bind (.zoom fun _ _ => rfl) fun result => .bind .get fun r' => .ite (hsend _) ?_
  exact .bind (.query _) fun _ => hsend _

/-- A node that installs a snapshot does not lead afterwards. -/
theorem wp_restoreSnapshot_led {I : Tenure → Prop} (snap : Snapshot) {r : Raft σ} (h : Led I r) :
    (restoreSnapshot snap).wp (fun _ r' => Led I r' ∧ (r.state = .follower → r'.state = .follower))
      (fun _ r' => Led I r' ∧ (r.state = .follower → r'.state = .follower)) r := by
  have hsame : Led I r ∧ (r.state = .follower → r.state = .follower) := ⟨h, fun hf => hf⟩
  unfold restoreSnapshot
  rw [Act.wp_bind, Act.wp_get]
  dsimp only
  rw [Act.wp_ite]
  refine ⟨fun _ => hsame, fun _ => ?_⟩
  rw [Act.wp_ite]
  refine ⟨fun _ => hsame, fun _ => ?_⟩
  rw [Act.wp_ite]
  refine ⟨fun _ => hsame, fun _ => ?_⟩
  rw [Act.wp_ite]
  refine ⟨fun _ => hsame, fun _ => ?_⟩
  rw [Act.wp_ite]
  refine ⟨fun hne => ?_, fun hf => ?_⟩
  · rw [Act.wp_bind]
    refine Act.wp_mono wp_becomeFollower_follows ?_ fun _ _ h => h
    exact fun _ r1 h1 => ⟨led_of_ne (by rw [h1]; exact StateRole.noConfusion), fun _ => h1⟩
  · have hf := not_not.mp hf
    -- from here on the node is a follower and stays one
    have hfollows : ∀ {r' : Raft σ}, r'.state = r.state →
        Led I r' ∧ (r.state = .follower → r'.state = .follower) := by
      intro r' heq
      refine ⟨led_of_ne ?_, fun _ => heq.trans hf⟩
      rw [heq, hf]
      exact StateRole.noConfusion
    have hlog : ∀ {α : Type} (x : Act Err (RaftLog σ) α), Act.Keeps Raft.state (onLog x : RaftM σ α) :=
      fun x => .zoom fun _ _ => rfl
    have hpost : ∀ cs, Act.Keeps Raft.state (postConfChange cs : RaftM σ Unit) := by
      intro cs r1
      exact Act.wp_mono (stands_postConfChange cs r1) (fun _ _ h => congrArg Standing.state h)
        fun _ _ h => congrArg Standing.state h
    rw [Act.wp_ite]
    refine ⟨fun _ => hsame, fun _ => ?_⟩
    rw [Act.wp_ite]
    refine ⟨fun _ => hsame, fun _ => ?_⟩
    rw [Act.wp_ite]
    refine ⟨fun _ => ?_, fun _ => ?_⟩
    · rw [Act.wp_bind, Act.wp_ignore]
      exact Act.wp_mono (hlog _ r) (fun _ _ h => hfollows h) fun _ _ h => hfollows h
    · split
      · exact hsame
      · exact hsame
      · rename_i tracker htracker
        rw [Act.wp_bind, Act.wp_attempt]
        refine Act.wp_mono (hlog _ r) ?_ ?_
        · intro _ r1 h1
          rw [Act.wp_bind, Act.wp_modify, Act.wp_bind]
          refine Act.wp_mono (hpost _ _) ?_ fun _ r2 h2 => hfollows (h2.trans h1)
          intro _ r2 h2
          rw [Act.wp_bind, Act.wp_modify]
          exact hfollows (h2.trans h1)
        · intro e r1 h1
          cases e <;> exact hfollows h1

theorem wp_handleSnapshot_follows {r : Raft σ} (m : Message) (hf : r.state = .follower) :
    (handleSnapshot m).wp (fun _ r' => r'.state = .follower) (fun _ r' => r'.state = .follower) r := by
  unfold handleSnapshot
  split
  · exact hf
  · have hled : Led (fun _ => True) r := fun _ => trivial
    rw [Act.wp_bind]
    refine Act.wp_mono (wp_restoreSnapshot_led _ hled) ?_ fun _ _ h => h.2 hf
    intro b r1 h1
    rw [Act.wp_bind, Act.wp_get]
    refine Act.wp_mono (stands_send _ r1) (fun _ r2 h2 => ?_) fun _ r2 h2 => ?_
    · exact (congrArg Standing.state h2).trans (h1.2 hf)
    · exact (congrArg Standing.state h2).trans (h1.2 hf)

theorem led_of_follower {I : Tenure → Prop} {r : Raft σ} (h : r.state = .follower) : Led I r :=
  led_of_ne (by rw [h]; exact StateRole.noConfusion)

theorem wp_led_of_follows {I : Tenure → Prop} {α : Type} {x : RaftM σ α} {r : Raft σ}
    (hx : x.wp (fun _ r' => r'.state = .follower) (fun _ r' => r'.state = .follower) r) :
    x.wp (fun _ => Led I) (fun _ => Led I) r :=
  Act.wp_mono hx (fun _ _ h => led_of_follower h) fun _ _ h => led_of_follower h

omit [LawfulStorage σ] in
theorem wp_follows_of_keeps {α : Type} {x : RaftM σ α} (hx : Act.Keeps Raft.state x) {r : Raft σ}
    (hf : r.state = .follower) :
    x.wp (fun _ r' => r'.state = .follower) (fun _ r' => r'.state = .follower) r :=
  Act.wp_mono (hx r) (fun _ _ h => h.trans hf) fun _ _ h => h.trans hf

omit [LawfulStorage σ] in
theorem keeps_state {α : Type} {x : RaftM σ α} (hx : Stands x) : Act.Keeps Raft.state x := fun r =>
  Act.wp_mono (hx r) (fun _ _ h => congrArg Standing.state h) fun _ _ h => congrArg Standing.state h

/-! ### The rule -/

/-- `I` is a property of the tenure of a leader that holds of a new leader and is kept by proposals, as
long as the node has committed up to `since`. -/
structure LeaderInv (σ : Type) [LawfulStorage σ] (since : ℕ) (I : Tenure → Prop) : Prop where
  elected : ∀ {r : Raft σ}, r.raftLog.Covers since →
    becomeLeader.wp (fun _ r' => I r'.tenure) (fun _ r' => I r'.tenure) r
  proposed : ∀ {r : Raft σ} (m : Message), r.raftLog.Covers since → I r.tenure →
    (handlePropose m).wp (fun _ r' => I r'.tenure) (fun _ r' => I r'.tenure) r

namespace LeaderInv

variable {since : ℕ} {I : Tenure → Prop} (hI : LeaderInv σ since I) {r : Raft σ}
include hI

/-! ### Elections -/

/-- A won election leads; any other result of a poll leaves no leader. -/
theorem pollWith {elect : RaftM σ Unit}
    (helect : ∀ r1 : Raft σ, r1.raftLog.Covers since → r1.state ≠ .leader →
      elect.wp (fun _ => Led I) (fun _ => Led I) r1)
    (hwf : r.raftLog.Covers since) (hs : r.state ≠ .leader) (v : ℕ) (b : Bool) :
    (Raft.pollWith elect v b).wp (fun res r' => Led I r' ∧ (res ≠ .won → r'.state ≠ .leader))
      (fun _ => Led I) r := by
  unfold Raft.pollWith
  rw [Act.wp_bind, Act.wp_modify, Act.wp_bind, Act.wp_get]
  split
  · exact ⟨led_of_ne hs, fun _ => hs⟩
  · rw [Act.wp_bind]
    refine Act.wp_mono wp_becomeFollower_follows ?_ fun _ _ h => h
    intro _ r1 h1
    have hne : r1.state ≠ .leader := by
      rw [h1]
      exact StateRole.noConfusion
    exact ⟨led_of_ne hne, fun _ => hne⟩
  · rw [Act.wp_ite]
    refine ⟨fun _ => ?_, fun _ => ?_⟩
    · rw [Act.wp_bind, Act.wp_ignore]
      refine Act.wp_mono (helect _ hwf hs) ?_ ?_
      · exact fun _ r1 h1 => ⟨h1, fun hres => absurd rfl hres⟩
      · exact fun _ r1 h1 => ⟨h1, fun hres => absurd rfl hres⟩
    · rw [Act.wp_bind, Act.wp_ignore]
      have hsend : ∀ r1 : Raft σ, I r1.tenure → ((Act.ignore broadcastAppend : RaftM σ Unit) >>= fun _ =>
          pure VoteResult.won).wp (fun res r' => Led I r' ∧ (res ≠ .won → r'.state ≠ .leader))
          (fun _ => Led I) r1 := by
        intro r1 h1
        rw [Act.wp_bind, Act.wp_ignore]
        refine Act.wp_mono (led_stands stands_broadcastAppend fun _ => h1) ?_ ?_
        · exact fun _ r2 h2 => ⟨h2.1, fun hres => absurd rfl hres⟩
        · exact fun _ r2 h2 => ⟨h2.1, fun hres => absurd rfl hres⟩
      exact Act.wp_mono (hI.elected hwf) (fun _ r1 h1 => hsend r1 h1) fun _ r1 h1 => hsend r1 h1

omit hI in
theorem led_campaignWith {poll : ℕ → Bool → RaftM σ VoteResult}
    (hpoll : ∀ (r1 : Raft σ) (v : ℕ) (b : Bool), r1.raftLog.Covers since → r1.state ≠ .leader →
      (poll v b).wp (fun res r' => Led I r' ∧ (res ≠ .won → r'.state ≠ .leader)) (fun _ => Led I) r1)
    (hwf : r.raftLog.Covers since) (t : CampaignType) :
    (Raft.campaignWith poll t).wp (fun _ => Led I) (fun _ => Led I) r := by
  unfold Raft.campaignWith
  rw [Act.wp_bind]
  refine Act.wp_mono wp_takeRole ?_ fun _ _ h => h.elim
  rintro _ r1 ⟨hs1, hlog1⟩
  rw [Act.wp_bind, Act.wp_get]
  dsimp only
  rw [Act.wp_bind]
  refine Act.wp_mono (hpoll r1 r1.id true (by rw [hlog1]; exact hwf) hs1) ?_ fun _ _ h => h
  rintro res r2 ⟨hled, hlost⟩
  rw [Act.wp_ite]
  refine ⟨fun _ => hled, fun hres => ?_⟩
  have hs2 := hlost hres
  rw [Act.wp_bind, Act.wp_query]
  refine ⟨fun info _ => ?_, fun _ _ => hled⟩
  rw [Act.wp_bind, Act.wp_get]
  have hloop := led_stands (.each r2.progressTracker.conf.voters.ids (stands_requestVote t
    (if t = .preElection then .requestPreVote else .requestVote)
    (if t = .preElection then r1.term + 1 else r1.term) info.1 info.2)) (led_of_ne (I := I) hs2)
  exact Act.wp_mono hloop (fun _ _ h => h.1) fun _ _ h => h.1

theorem poll (hwf : r.raftLog.Covers since) (hs : r.state ≠ .leader) (v : ℕ) (b : Bool) :
    (Raft.poll v b).wp (fun res r' => Led I r' ∧ (res ≠ .won → r'.state ≠ .leader)) (fun _ => Led I)
      r := by
  refine hI.pollWith (fun r1 hwf1 _ => ?_) hwf hs v b
  refine led_campaignWith (fun r2 v b hwf2 hs2 => ?_) hwf1 _
  exact hI.pollWith (fun r3 _ hs3 => (Act.wp_pure ()).mpr (led_of_ne hs3)) hwf2 hs2 v b

theorem campaign (hwf : r.raftLog.Covers since) (t : CampaignType) :
    (Raft.campaign t).wp (fun _ => Led I) (fun _ => Led I) r :=
  led_campaignWith (fun _ v b hwf1 hs1 => hI.poll hwf1 hs1 v b) hwf t

theorem hup (hwf : r.raftLog.Covers since) (h : Led I r) (transfer : Bool) :
    (Raft.hup transfer).wp (fun _ => Led I) (fun _ => Led I) r := by
  unfold Raft.hup
  rw [Act.wp_bind, Act.wp_get, Act.wp_ite]
  refine ⟨fun _ => h, fun _ => ?_⟩
  rw [Act.wp_bind]
  refine Act.wp_mono (wp_hasUnappliedConfChanges hwf.1 _ _) ?_ fun _ _ h => h.elim
  rintro pending r1 ⟨rfl, -⟩
  have hcampaign : ∀ t, (Act.ignore (Raft.campaign t) : RaftM σ Unit).wp (fun _ => Led I) (fun _ => Led I) r1 := by
    intro t
    rw [Act.wp_ignore]
    exact hI.campaign hwf t
  rw [Act.wp_ite]
  refine ⟨fun _ => h, fun _ => ?_⟩
  rw [Act.wp_ite]
  refine ⟨fun _ => hcampaign _, fun _ => ?_⟩
  rw [Act.wp_ite]
  exact ⟨fun _ => hcampaign _, fun _ => hcampaign _⟩

/-! ### Messages -/

omit hI in
theorem led_maybeCommitByVote (h : Led I r) (m : Message) :
    (Raft.maybeCommitByVote m).wp (fun _ => Led I) (fun _ => Led I) r := by
  unfold Raft.maybeCommitByVote
  rw [Act.wp_bind, Act.wp_get, Act.wp_ite]
  refine ⟨fun _ => h, fun _ => ?_⟩
  rw [Act.wp_ite]
  refine ⟨fun _ => h, fun hcond => ?_⟩
  have hs : r.state ≠ .leader := fun hl => hcond (Or.inr hl)
  rw [Act.wp_bind]
  refine Act.wp_mono (led_stands (stands_onLog (RaftLog.keeps_maybeCommit m.commit m.commitTerm)) h) ?_
    fun _ _ h => h.1
  rintro advanced r1 ⟨hled1, hs1⟩
  rw [Act.wp_ite]
  refine ⟨fun _ => hled1, fun _ => ?_⟩
  rw [Act.wp_bind, Act.wp_get, Act.wp_ite]
  refine ⟨fun _ => hled1, fun _ => ?_⟩
  rw [Act.wp_bind]
  refine Act.wp_mono (led_stands (stands_hasUnappliedConfChanges _ _) hled1) ?_ fun _ _ h => h.1
  rintro pending r2 ⟨hled2, -⟩
  rw [Act.wp_ite]
  exact ⟨fun _ => wp_led_of_follows wp_becomeFollower_follows, fun _ => hled2⟩

omit hI in
theorem led_handleVoteRequest (h : Led I r) (m : Message) :
    (Raft.handleVoteRequest m).wp (fun _ => Led I) (fun _ => Led I) r := by
  unfold Raft.handleVoteRequest
  rw [Act.wp_bind, Act.wp_get]
  dsimp only
  rw [Act.wp_bind, Act.wp_query]
  refine ⟨fun upToDate _ => ?_, fun _ _ => h⟩
  rw [Act.wp_ite]
  refine ⟨fun _ => ?_, fun _ => ?_⟩
  · rw [Act.wp_bind]
    refine Act.wp_mono (led_stands (stands_send _) h) ?_ fun _ _ h => h.1
    rintro _ r1 ⟨hled1, -⟩
    rw [Act.wp_ite]
    exact ⟨fun _ => fun hl => keep_standing (r := r1) rfl (hled1 hl), fun _ => hled1⟩
  · rw [Act.wp_bind, Act.wp_query]
    refine ⟨fun info _ => ?_, fun _ _ => h⟩
    rw [Act.wp_bind]
    refine Act.wp_mono (led_stands (stands_send _) h) ?_ fun _ _ h => h.1
    exact fun _ r1 h1 => led_maybeCommitByVote h1.1 m

theorem stepCandidate (hwf : r.raftLog.Covers since) (hs : r.state ≠ .leader) (m : Message) :
    (Raft.stepCandidate m).wp (fun _ => Led I) (fun _ => Led I) r := by
  have hled : Led I r := led_of_ne hs
  have hfollow : ∀ {x : RaftM σ Unit}, (∀ r1 : Raft σ, r1.state = .follower →
      x.wp (fun _ r' => r'.state = .follower) (fun _ r' => r'.state = .follower) r1) →
      (do Raft.becomeFollower m.term m.sender; x : RaftM σ Unit).wp (fun _ => Led I) (fun _ => Led I) r := by
    intro x hx
    rw [Act.wp_bind]
    exact Act.wp_mono wp_becomeFollower_follows (fun _ r1 h1 => wp_led_of_follows (hx r1 h1)) fun _ _ h => h
  unfold Raft.stepCandidate
  split
  · exact hled
  · exact hfollow fun r1 h1 => wp_follows_of_keeps (keeps_state_handleAppendEntries m) h1
  · exact hfollow fun r1 h1 => wp_follows_of_keeps (keeps_state (stands_handleHeartbeat m)) h1
  · exact hfollow fun r1 h1 => wp_handleSnapshot_follows m h1
  all_goals first
    | exact hled
    | rw [Act.wp_bind, Act.wp_get, Act.wp_ite]
      refine ⟨fun _ => hled, fun _ => ?_⟩
      rw [Act.wp_bind]
      refine Act.wp_mono (hI.poll hwf hs _ _) ?_ fun _ _ h => h
      exact fun _ r1 h1 => led_maybeCommitByVote h1.1 m

theorem stepFollower (hwf : r.raftLog.Covers since) (hf : r.state = .follower) (m : Message) :
    (Raft.stepFollower m).wp (fun _ => Led I) (fun _ => Led I) r := by
  have hled : Led I r := led_of_follower hf
  have hstands : ∀ {x : RaftM σ Unit}, Stands x → x.wp (fun _ => Led I) (fun _ => Led I) r := by
    intro x hx
    exact wp_led_of_follows (wp_follows_of_keeps (keeps_state hx) hf)
  have hheard : ∀ {x : RaftM σ Unit}, (∀ r1 : Raft σ, r1.state = .follower →
      x.wp (fun _ r' => r'.state = .follower) (fun _ r' => r'.state = .follower) r1) →
      (do heardFromLeader m; x : RaftM σ Unit).wp (fun _ => Led I) (fun _ => Led I) r := by
    intro x hx
    rw [Act.wp_bind]
    exact wp_led_of_follows (hx _ hf)
  have hforward : (forward m : RaftM σ Unit).wp (fun _ => Led I) (fun _ => Led I) r :=
    hstands (.bind .get fun _ => stands_send _)
  unfold Raft.stepFollower
  rw [Act.wp_bind, Act.wp_get]
  split
  · rw [Act.wp_ite]
    exact ⟨fun _ => hled, fun _ => hforward⟩
  · exact hheard fun r1 h1 => wp_follows_of_keeps (keeps_state_handleAppendEntries m) h1
  · exact hheard fun r1 h1 => wp_follows_of_keeps (keeps_state (stands_handleHeartbeat m)) h1
  · exact hheard fun r1 h1 => wp_handleSnapshot_follows m h1
  · rw [Act.wp_ite]
    exact ⟨fun _ => hled, fun _ => hforward⟩
  · rw [Act.wp_ite]
    exact ⟨fun _ => hI.hup hwf hled true, fun _ => hled⟩
  · rw [Act.wp_ite]
    exact ⟨fun _ => hled, fun _ => hforward⟩
  · rw [Act.wp_ite]
    refine ⟨fun _ => hled, fun _ => ?_⟩
    split
    · exact hstands (.bind (.modify fun _ => rfl) fun _ =>
        .ignore (stands_onLog (RaftLog.keeps_maybeCommit _ _)))
    · exact hled
  · exact hled

theorem stepLeader (hwf : r.raftLog.Covers since) (h : I r.tenure) (m : Message) :
    (Raft.stepLeader m).wp (fun _ => Led I) (fun _ => Led I) r := by
  have hled : Led I r := fun _ => h
  have hstands : ∀ {x : RaftM σ Unit}, Stands x → x.wp (fun _ => Led I) (fun _ => Led I) r := by
    intro x hx
    exact Act.wp_mono (led_stands hx hled) (fun _ _ h => h.1) fun _ _ h => h.1
  unfold Raft.stepLeader
  rw [Act.wp_bind, Act.wp_get]
  split
  · exact hstands stands_broadcastHeartbeat
  · dsimp only
    rw [Act.wp_bind, Act.wp_modify, Act.wp_ite]
    refine ⟨fun _ => ?_, fun _ => wp_led_of_follows wp_becomeFollower_follows⟩
    exact fun _ => keep_standing (r := r) rfl h
  · exact Act.wp_mono (hI.proposed m hwf h) (fun _ _ h _ => h) fun _ _ h _ => h
  · rw [Act.wp_ite]
    exact ⟨fun _ => hstands (stands_serveReadIndex m), fun _ => hstands (.modify fun _ => rfl)⟩
  · exact hstands (stands_handleAppendResponse m)
  · exact hstands (stands_handleHeartbeatResponse m)
  · exact hstands (stands_handleSnapshotStatus m)
  · exact hstands (stands_handleUnreachable m)
  · exact hstands (stands_handleTransferLeader m)
  · exact hled

theorem stepCurrent (hwf : r.raftLog.Covers since) (h : Led I r) (m : Message) :
    (Raft.stepCurrent m).wp (fun _ => Led I) (fun _ => Led I) r := by
  unfold Raft.stepCurrent
  rw [Act.wp_bind, Act.wp_get]
  split
  · rw [Act.wp_ite]
    exact ⟨fun _ => hI.hup hwf h false, fun _ => h⟩
  · exact led_handleVoteRequest h m
  · exact led_handleVoteRequest h m
  · split
    · rename_i hs
      exact hI.stepCandidate hwf (by rw [hs]; exact StateRole.noConfusion) m
    · rename_i hs
      exact hI.stepCandidate hwf (by rw [hs]; exact StateRole.noConfusion) m
    · rename_i hs
      exact hI.stepFollower hwf hs m
    · rename_i hs
      exact hI.stepLeader hwf (h hs) m

theorem step (hwf : r.raftLog.Covers since) (h : Led I r) (m : Message) :
    (Raft.step m).wp (fun _ => Led I) (fun _ => Led I) r := by
  unfold Raft.step
  rw [Act.wp_bind, Act.wp_get, Act.wp_ite]
  refine ⟨fun _ => hI.stepCurrent hwf h m, fun _ => ?_⟩
  rw [Act.wp_ite]
  refine ⟨fun _ => ?_, fun _ => ?_⟩
  · rw [Act.wp_ite]
    refine ⟨fun _ => h, fun _ => ?_⟩
    rw [Act.wp_ite]
    refine ⟨fun _ => ?_, fun _ => hI.stepCurrent hwf h m⟩
    unfold Raft.becomeFollower
    rw [Act.wp_bind, Act.wp_modify]
    refine hI.stepCurrent ?_ (led_of_follower rfl) m
    show RaftLog.Covers { (r.reset m.term).raftLog with maxApplyUnpersistedLogLimit := 0 } since
    rw [reset_raftLog]
    exact ⟨{ hwf.1 with }, hwf.2⟩
  · rw [Act.wp_ite]
    refine ⟨fun _ => ?_, fun _ => hI.stepCurrent hwf h m⟩
    exact Act.wp_mono (led_stands (stands_stepLowerTerm m) h) (fun _ _ h => h.1) fun _ _ h => h.1

/-! ### Calls -/

theorem tickElection (hwf : r.raftLog.Covers since) (h : Led I r) :
    (Raft.tickElection).wp (fun _ => Led I) (fun _ => Led I) r := by
  have hled : ∀ n k, Led I ({ r with heartbeatElapsed := n, electionElapsed := k } : Raft σ) :=
    fun _ _ hl => keep_standing (r := r) rfl (h hl)
  unfold Raft.tickElection
  rw [Act.wp_bind, Act.wp_modify, Act.wp_bind, Act.wp_get, Act.wp_ite]
  refine ⟨fun _ => ?_, fun _ => hled _ _⟩
  rw [Act.wp_bind, Act.wp_modify, Act.wp_bind]
  refine Act.wp_mono (hI.step ?_ ?_ _) (fun _ _ h => h) fun _ _ h => h
  · exact hwf
  · exact hled _ _

theorem tickCheckQuorum (hwf : r.raftLog.Covers since) (h : Led I r) :
    (Raft.tickCheckQuorum).wp (fun _ => Led I) (fun _ => Led I) r := by
  have hled : Led I ({ r with electionElapsed := 0 } : Raft σ) := fun hl => keep_standing (r := r) rfl (h hl)
  have hrest : ∀ r' : Raft σ, Led I r' →
      (Act.modify (fun r => if r.state = .leader then r.abortLeaderTransfer else r) >>= fun _ =>
        pure r.knobs.checkQuorum : RaftM σ Bool).wp (fun _ => Led I) (fun _ => Led I) r' := by
    intro r' h'
    rw [Act.wp_bind, Act.wp_modify, Act.wp_pure]
    split
    · exact fun hl => keep_standing (r := r') rfl (h' hl)
    · exact h'
  unfold Raft.tickCheckQuorum
  rw [Act.wp_bind, Act.wp_get, Act.wp_ite]
  refine ⟨fun _ => ?_, fun _ => h⟩
  rw [Act.wp_bind, Act.wp_modify, Act.wp_bind, Act.wp_when]
  refine ⟨fun _ => ?_, fun _ => hrest _ hled⟩
  refine Act.wp_mono (hI.step ?_ ?_ _) (fun _ => hrest) fun _ _ h => h
  · exact hwf
  · exact hled

theorem tick {honest : Prop} (hs : r.Sound honest) (hsince : since ≤ r.raftLog.committed) (h : Led I r) :
    (Raft.tick).wp (fun _ => Led I) (fun _ => Led I) r := by
  unfold Raft.tick
  rw [Act.wp_bind, Act.wp_get, Act.wp_ite]
  refine ⟨fun _ => ?_, fun _ => hI.tickElection ⟨hs.log, hsince⟩ h⟩
  have hled : Led I ({ r with
      heartbeatElapsed := r.heartbeatElapsed + 1
      electionElapsed := r.electionElapsed + 1 } : Raft σ) := fun hl => keep_standing (r := r) rfl (h hl)
  have hticked : Ticked honest r.core ({ r with
      heartbeatElapsed := r.heartbeatElapsed + 1
      electionElapsed := r.electionElapsed + 1 } : Raft σ) := ⟨{ hs with }, .refl⟩
  unfold Raft.tickHeartbeat
  rw [Act.wp_bind, Act.wp_modify, Act.wp_bind]
  refine Act.wp_mono (Act.wp_and (wp_tickCheckQuorum hticked) (hI.tickCheckQuorum ⟨hs.log, hsince⟩ hled)) ?_
    fun _ _ h => h.2
  rintro b r1 ⟨hs1, hled1⟩
  rw [Act.wp_bind, Act.wp_get, Act.wp_ite]
  refine ⟨fun _ => hled1, fun _ => ?_⟩
  rw [Act.wp_ite]
  refine ⟨fun _ => ?_, fun _ => hled1⟩
  rw [Act.wp_bind, Act.wp_modify, Act.wp_bind]
  refine Act.wp_mono (hI.step ?_ ?_ _) (fun _ _ h => h) fun _ _ h => h
  · exact ⟨hs1.sound.log, hsince.trans hs1.acts.moved.committed⟩
  · exact fun hl => keep_standing (r := r1) rfl (hled1 hl)

/-- Every call keeps the property, except perhaps those that apply something. -/
theorem call {x : RaftCall} (hs : r.Sound False) (hsince : since ≤ r.raftLog.committed) (h : Led I r)
    (happ : ∀ i, x ≠ .commitApply i) (hconf : ∀ cc, x ≠ .applyConfChange cc) : x.run.wp (fun _ => Led I) (fun _ => Led I) r := by
  have hstands : ∀ {y : RaftM σ Unit}, Stands y → y.wp (fun _ => Led I) (fun _ => Led I) r := by
    intro y hy
    exact Act.wp_mono (led_stands hy h) (fun _ _ h => h.1) fun _ _ h => h.1
  cases x with
  | step m => exact hI.step ⟨hs.log, hsince⟩ h m
  | tick => exact wp_void (hI.tick hs hsince h)
  | ping => exact hstands stands_ping
  | requestSnapshot => exact hstands stands_requestSnapshot
  | setPriority p => exact hstands (.modify fun _ => rfl)
  | applyConfChange cc => exact absurd rfl (hconf cc)
  | commitApply i => exact absurd rfl (happ i)
  | onPersistEntries i t => exact hstands (stands_onPersistEntries i t)
  | onPersistSnapshot i => exact hstands (stands_onPersistSnapshot i)
  | restoreSnapshot snap =>
      exact wp_void (Act.wp_mono (wp_restoreSnapshot_led snap h) (fun _ _ h => h.1) fun _ _ h => h.1)

end LeaderInv

end Raft

/-! ### What changes the tenure -/

namespace Tenure

variable (t : Tenure)

/-- Own entries of a term are appended. -/
def append (term : ℕ) (es : List Entry) (u : UncommittedState) : Tenure :=
  { t with
    log := t.log.splice (t.log.last + 1) (Raft.retag term (t.log.last + 1) es)
    backlog := u }

/-- The node becomes leader, and has not appended anything yet. -/
def lead : Tenure :=
  { t with
    state := .leader
    backlog := { t.backlog with
      uncommittedSize := 0
      uncommittedEntries := 0
      lastLogTailIndex := t.log.last }
    pendingConf := t.log.last }

/-- Does applying up to `i` make a leader propose to leave the joint configuration? -/
def Leaves (i : ℕ) : Prop :=
  t.conf.autoLeave = true ∧ t.applied ≤ t.pendingConf ∧ t.pendingConf ≤ i

/-- The mark for pending changes after a proposal whose change is at position `pos`. -/
def marked : Option ℕ → ℕ
  | some i => t.log.last + i + 1
  | none => t.pendingConf

/-- The log is contiguous and reaches up to everything that has been handed out or applied. -/
structure Fits (since : ℕ) : Prop where
  contiguous : t.log.Contiguous
  since_le : since ≤ t.log.last
  applied_le : t.applied ≤ t.log.last

end Tenure

/-- Properties of tenures that leaders have and keep by what they do to their own log. -/
structure TenureInv (I : ℕ → Tenure → Prop) : Prop where
  elected : ∀ {since : ℕ} {t : Tenure}, t.Fits since → I since t.lead
  proposed : ∀ {since term : ℕ} {t : Tenure} {es : List Entry} {pos : Option ℕ} {u : UncommittedState},
    t.Fits since → I since t →
      Raft.confChangePosition (decide (t.applied < t.pendingConf)) 0 none es = .ok pos →
      t.backlog.maybeIncreaseUncommittedSize es = some u →
        I since { t.append term es u with pendingConf := t.marked pos }
  applied : ∀ {since i : ℕ} {t : Tenure}, t.Fits since → I since t → t.applied ≤ i → i ≤ t.log.last →
    ¬t.Leaves i → I since { t with applied := i }
  refused : ∀ {since i : ℕ} {t : Tenure}, t.Fits since → I since t → t.applied ≤ i → i ≤ t.log.last →
    t.Leaves i → I since { t with applied := i, pendingConf := t.log.last }
  left : ∀ {since i term : ℕ} {t : Tenure} {e : Entry} {u : UncommittedState}, t.Fits since → I since t →
    t.applied ≤ i → i ≤ t.log.last → t.Leaves i → t.backlog.maybeIncreaseUncommittedSize [e] = some u →
      I since { t.append term [e] u with applied := i, pendingConf := t.log.last + 1 }

namespace UncommittedState

/-- Only the counters change. -/
theorem maybeIncrease_same {u u' : UncommittedState} {es : List Entry}
    (h : u.maybeIncreaseUncommittedSize es = some u') :
    { u' with
      uncommittedSize := u.uncommittedSize
      uncommittedEntries := u.uncommittedEntries } = u := by
  unfold maybeIncreaseUncommittedSize at h
  split at h
  · cases h
    rfl
  · dsimp only at h
    split at h
    · cases h
    · split at h
      · cases h
      · split at h
        · cases h
        · cases h
          rfl

end UncommittedState

namespace Raft

variable {σ : Type} [LawfulStorage σ] {r : Raft σ}

theorem fits_of_covers {since : ℕ} (h : r.raftLog.Covers since) : r.tenure.Fits since where
  contiguous := h.1.contiguous
  since_le := h.2.trans h.1.committed_le
  applied_le := h.1.applied_le.trans h.1.committed_le

theorem wp_appendEntry_tenure (h : r.raftLog.WF) (es : List Entry) :
    (appendEntry es).wp
      (fun b r' => r'.raftLog.WF ∧ ((es = [] ∧ r' = r) ∨ (b = false ∧ r' = r) ∨
        (b = true ∧ ∃ u, r.uncommittedState.maybeIncreaseUncommittedSize es = some u ∧
          r'.tenure = r.tenure.append r.term es u)))
      (fun _ r' => r'.tenure = r.tenure) r := by
  unfold appendEntry
  rw [Act.wp_ite]
  refine ⟨fun hnil => ⟨h, Or.inl ⟨hnil, rfl⟩⟩, fun hne => ?_⟩
  rw [Act.wp_bind, Act.wp_get, Act.wp_ite]
  refine ⟨fun _ => rfl, fun _ => ?_⟩
  split
  · exact ⟨h, Or.inr (Or.inl ⟨rfl, rfl⟩)⟩
  · rename_i u hu
    unfold onLog
    rw [Act.wp_bind, Act.wp_modify, Act.wp_bind, Act.wp_catchErr, Act.wp_zoom]
    refine Act.wp_mono (h.wp_append _) ?_ ?_
    · rintro _ l' (⟨hnil, _⟩ | ⟨e, es', u', heq, hwf, _, _, _, _, hlog, hsnap, rfl⟩)
      · exact absurd (retag_eq_nil.mp hnil) hne
      · have hidx : e.index = r.raftLog.log.last + 1 := by
          have := consecutive_retag r.term (r.raftLog.lastIndex + 1) es
          rw [heq] at this
          rw [this.1, h.lastIndex_eq]
        refine ⟨hwf, Or.inr (Or.inr ⟨rfl, u, hu, ?_⟩)⟩
        rw [hidx, h.lastIndex_eq] at hlog
        unfold tenure Tenure.append
        dsimp only
        rw [hidx, hlog]
    · rintro e l' rfl
      rw [Act.wp_bind, Act.wp_modify, Act.wp_throw]
      unfold tenure
      dsimp only
      rw [UncommittedState.maybeIncrease_same hu]

end Raft

namespace TenureInv

open Raft

variable {σ : Type} [LawfulStorage σ] {I : ℕ → Tenure → Prop} (hI : TenureInv I) {since : ℕ} {r : Raft σ}
include hI

theorem becomeLeader (h : r.raftLog.Covers since) :
    (Raft.becomeLeader).wp (fun _ r' => I since r'.tenure) (fun _ r' => I since r'.tenure) r := by
  unfold Raft.becomeLeader
  rw [Act.wp_bind, Act.wp_get, Act.wp_bind, Act.wp_assert]
  intro _
  rw [Act.wp_bind, Act.wp_modify, Act.wp_bind]
  obtain ⟨hlog, hconf, hbacklog⟩ := reset_same r r.term
  -- the first entry of the new leader is a normal one
  have hfirst : ∀ r1 : Raft σ, r1.raftLog.Covers since → r1.tenure = r.tenure.lead →
      (appendEntry [{}] : RaftM σ Bool).wp
        (fun appended r2 => (Act.assert appended : RaftM σ Unit).wp (fun _ r' => I since r'.tenure)
          (fun _ r' => I since r'.tenure) r2)
        (fun _ r' => I since r'.tenure) r1 := by
    intro r1 h1 ht1
    have hi1 : I since r1.tenure := by
      rw [ht1]
      exact hI.elected (fits_of_covers h)
    refine Act.wp_mono (wp_appendEntry_tenure h1.1 [{}]) ?_ fun _ r2 h2 => by rw [h2]; exact hi1
    rintro appended r2 ⟨-, hcase⟩
    rw [Act.wp_assert]
    rintro rfl
    rcases hcase with ⟨hnil, -⟩ | ⟨hf, -⟩ | ⟨-, u, hu, ht2⟩
    · cases hnil
    · cases hf
    · rw [ht2]
      have hnormal : Raft.confChangePosition (decide (r1.tenure.applied < r1.tenure.pendingConf)) 0 none
          [({} : Entry)] = .ok none := rfl
      exact hI.proposed (fits_of_covers h1) hi1 hnormal hu
  refine hfirst _ ?_ ?_
  · show RaftLog.Covers (r.reset r.term).raftLog since
    rw [hlog]
    exact h
  · unfold tenure Tenure.lead
    dsimp only
    rw [hlog, hbacklog, h.1.lastIndex_eq]
    congr 1
    split
    · exact hconf
    · exact hconf

theorem handlePropose (m : Message) (h : r.raftLog.Covers since) (hi : I since r.tenure) :
    (Raft.handlePropose m).wp (fun _ r' => I since r'.tenure) (fun _ r' => I since r'.tenure) r := by
  unfold Raft.handlePropose
  rw [Act.wp_bind, Act.wp_get, Act.wp_ite]
  refine ⟨fun _ => trivial, fun hne => ?_⟩
  rw [Act.wp_ite]
  refine ⟨fun _ => hi, fun _ => ?_⟩
  rw [Act.wp_ite]
  refine ⟨fun _ => hi, fun _ => ?_⟩
  rw [Act.wp_bind, Act.wp_query]
  refine ⟨fun pos hpos => ?_, fun _ _ => hi⟩
  rw [Act.wp_bind]
  refine Act.wp_mono (wp_appendEntry_tenure h.1 m.entries) ?_ fun _ r1 h1 => by rw [h1]; exact hi
  rintro appended r1 ⟨-, hcase⟩
  rw [Act.wp_ite]
  rcases hcase with ⟨hnil, -⟩ | ⟨rfl, rfl⟩ | ⟨rfl, u, hu, htenure⟩
  · exact absurd hnil hne
  · exact ⟨fun _ => hi, fun hf => absurd rfl hf⟩
  · refine ⟨fun hf => (by cases hf), fun _ => ?_⟩
    have hnew := @TenureInv.proposed I hI since r.term r.tenure m.entries pos u (fits_of_covers h) hi hpos hu
    rw [Act.wp_bind, Act.wp_modify]
    have hsend : ∀ r2 : Raft σ, I since r2.tenure → (broadcastAppend : RaftM σ Unit).wp
        (fun _ r' => I since r'.tenure) (fun _ r' => I since r'.tenure) r2 := by
      intro r2 h2
      exact Act.wp_mono (stands_broadcastAppend r2) (fun _ _ h' => keep_standing h' h2)
        fun _ _ h' => keep_standing h' h2
    refine hsend _ ?_
    cases pos with
    | none =>
        dsimp only
        rw [htenure]
        exact hnew
    | some i =>
        dsimp only
        have heq : ({ r1 with pendingConfIndex := r.raftLog.lastIndex + i + 1 } : Raft σ).tenure =
            { r1.tenure with pendingConf := r.raftLog.lastIndex + i + 1 } := rfl
        rw [heq, htenure, h.1.lastIndex_eq]
        exact hnew

theorem leaderInv (since : ℕ) : LeaderInv σ since (I since) where
  elected := hI.becomeLeader
  proposed := fun m h hi => hI.handlePropose m h hi

theorem commitApply (i : ℕ) (h : r.raftLog.Covers since) (hled : Led (I since) r) :
    (Raft.commitApply i).wp (fun _ => Led (I since)) (fun _ => Led (I since)) r := by
  by_cases hl : r.state = .leader
  · have hi := hled hl
    have hfits := fits_of_covers h
    unfold Raft.commitApply onLog
    rw [Act.wp_bind, Act.wp_get, Act.wp_bind, Act.wp_zoom]
    refine Act.wp_mono (RaftLog.wp_appliedTo i) ?_ fun _ l' heq => by rw [heq]; exact hled
    -- where the application stands afterwards
    have hdone : ∀ (k : ℕ) (r1 : Raft σ), r1.raftLog.WF → r.raftLog.applied ≤ k → k ≤ r.raftLog.log.last →
        r1.tenure = { r.tenure with applied := k } → (i ≤ k) → (k = r.raftLog.applied ∨ k = i) →
        (maybeAutoLeave r.raftLog.applied i).wp (fun _ => Led (I since)) (fun _ => Led (I since)) r1 := by
      intro k r1 hwf1 hk hkl ht1 hik hor
      have hconf : r1.progressTracker.conf = r.progressTracker.conf := congrArg Tenure.conf ht1
      have hpending : r1.pendingConfIndex = r.pendingConfIndex := congrArg Tenure.pendingConf ht1
      have hstate : r1.state = r.state := congrArg Tenure.state ht1
      have hlog : r1.raftLog.log = r.raftLog.log := congrArg Tenure.log ht1
      have hbacklog : r1.uncommittedState = r.uncommittedState := congrArg Tenure.backlog ht1
      unfold maybeAutoLeave
      rw [Act.wp_bind, Act.wp_get, hconf, hpending, hstate, Act.wp_ite]
      refine ⟨fun hcond => ?_, fun hcond => fun _ => ?_⟩
      · have hleaves : r.tenure.Leaves k := ⟨hcond.1, hcond.2.1, hcond.2.2.1.trans hik⟩
        split
        · trivial
        · rw [Act.wp_bind, Act.wp_catchErr]
          refine Act.wp_mono (wp_appendEntry_tenure hwf1 _) ?_ fun _ _ _ => trivial
          rintro appended r2 ⟨hwf2, hcase⟩
          rw [Act.wp_modify]
          intro _
          have hmark : ({ r2 with pendingConfIndex := r2.raftLog.lastIndex } : Raft σ).tenure =
              { r2.tenure with pendingConf := r2.raftLog.log.last } := by
            rw [← hwf2.lastIndex_eq]
            rfl
          rw [hmark]
          rcases hcase with ⟨hnil, -⟩ | ⟨-, rfl⟩ | ⟨-, u, hu, ht2⟩
          · cases hnil
          · rw [ht1, hlog]
            exact hI.refused (t := r.tenure) hfits hi hk hkl hleaves
          · have hlast : r2.raftLog.log.last = r.raftLog.log.last + 1 := by
              have hlog2 : r2.raftLog.log = r1.raftLog.log.splice (r1.raftLog.log.last + 1)
                  (retag r1.term (r1.raftLog.log.last + 1) _) := congrArg Tenure.log ht2
              rw [hlog2, Log.last_splice (Nat.lt_succ_of_le Log.base_le_last) le_rfl, hlog]
              rfl
            rw [hbacklog] at hu
            rw [ht2, ht1, hlast]
            exact hI.left (t := r.tenure) hfits hi hk hkl hleaves hu
      · rcases hor with rfl | rfl
        · rw [ht1]
          exact hi
        · rw [ht1]
          refine hI.applied hfits hi hk hkl fun hleaves => hcond ?_
          exact ⟨hleaves.1, hleaves.2.1, hleaves.2.2, hl⟩
    rintro _ l' (⟨rfl, rfl⟩ | ⟨h1, h2, rfl⟩)
    · exact hdone r.raftLog.applied _ h.1 le_rfl hfits.applied_le rfl (Nat.zero_le _) (Or.inl rfl)
    · exact hdone i _ (h.1.setApplied h1) h2 (h1.trans h.1.committed_le) rfl le_rfl (Or.inr rfl)
  · have hkeep : Act.Keeps Raft.state (onLog (RaftLog.appliedTo i) : RaftM σ Unit) := .zoom fun _ _ => rfl
    unfold Raft.commitApply
    rw [Act.wp_bind, Act.wp_get, Act.wp_bind]
    refine Act.wp_mono (hkeep r) ?_ fun _ r1 h1 => led_of_ne (by rw [h1]; exact hl)
    intro _ r1 h1
    unfold maybeAutoLeave
    rw [Act.wp_bind, Act.wp_get, Act.wp_ite]
    refine ⟨fun hcond => ?_, fun _ => led_of_ne (by rw [h1]; exact hl)⟩
    exact absurd (h1.symm.trans hcond.2.2.2) hl

end TenureInv

end Raftz
