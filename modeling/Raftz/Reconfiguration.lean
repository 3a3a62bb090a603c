import Raftz.Standing

/-! # Quorums across a configuration change

`applyConfChange` installs the configuration that the changer computed, and
nothing it does afterwards (a leader commits, sends and releases reads) touches
it again.  So the overlap of the old and the new quorums that the changer
guarantees holds between the states before and after the call. -/

open Base

namespace Raftz

/-- A set of nodes wins a configuration when some tally in which exactly its members said yes is
won. -/
def JointConfiguration.IsQuorum (c : JointConfiguration) (Q : Set ℕ) : Prop :=
  ∃ check : ℕ → Option Bool, (∀ v, check v = some true ↔ v ∈ Q) ∧ c.getVoteResult check = .won

theorem JointConfiguration.IsQuorum.wins {c : JointConfiguration} {Q : Set ℕ} (h : c.IsQuorum Q) :
    c.Wins Q := by
  obtain ⟨check, hQ, hwon⟩ := h
  have hset : {v | check v = some true} = Q := Set.ext hQ
  rw [← hset]
  exact wins_of_won hwon

namespace Raft

variable {σ : Type}

/-- The configuration of a node. -/
def conf (r : Raft σ) : TrackerConfiguration := r.progressTracker.conf

variable [Storage σ]

theorem keepsConf_postConfChange (cs : ConfState) :
    Act.Keeps conf (postConfChange cs : RaftM σ Unit) := fun r =>
  Act.wp_mono (stands_postConfChange cs r) (fun _ _ h => congrArg Standing.conf h)
    fun _ _ h => congrArg Standing.conf h

/-- A successful call leaves the configuration that the changer computed. -/
theorem conf_applyConfChange {cc : ConfChangeV2} {cs : ConfState} {r r' : Raft σ}
    (h : applyConfChange cc r = .ok cs r') :
    ∃ res, changeConf r.progressTracker cc = .ok res ∧ r'.conf = res.conf ∧
      cs = res.conf.toConfState := by
  have hwp : (applyConfChange cc).wp (fun cs r' => ∃ res, changeConf r.progressTracker cc = .ok res ∧
      r'.conf = res.conf ∧ cs = res.conf.toConfState) (fun _ _ => True) r := by
    unfold applyConfChange
    rw [Act.wp_bind, Act.wp_query]
    refine ⟨fun res hres => ?_, fun _ _ => trivial⟩
    rw [Act.wp_bind, Act.wp_modify, Act.wp_bind]
    refine Act.wp_mono (keepsConf_postConfChange _ _) ?_ fun _ _ _ => trivial
    intro _ r1 h1
    rw [Act.wp_pure]
    exact ⟨res, hres, h1, rfl⟩
  exact Act.wp_ok hwp h

/-- Every quorum of the configuration before a successful change and every quorum of the
configuration after it have a common member. -/
theorem applyConfChange_quorums_meet {cc : ConfChangeV2} {cs : ConfState} {r r' : Raft σ}
    (hne : r.conf.voters.incoming.isEmpty = false) (h : applyConfChange cc r = .ok cs r')
    {Q Q' : Set ℕ} (hQ : r.conf.voters.IsQuorum Q) (hQ' : r'.conf.voters.IsQuorum Q') :
    ∃ v, v ∈ Q ∧ v ∈ Q' := by
  obtain ⟨res, hres, hconf, _⟩ := conf_applyConfChange h
  rw [hconf] at hQ'
  exact changeConf_wins_meet hres hne hQ.wins hQ'.wins

/-- Adding a voter to three: the old quorum `{1, 2}` meets the new quorum `{2, 3, 4}`. -/
theorem applyConfChange_quorums_meet_addNode : ∃ (r r' : Raft MemoryStorage) (cs : ConfState),
    Raft.init { id := 1 } [] { raftState := { confState := { voters := [1, 2, 3] } } } = .ok r () ∧
      applyConfChange { changes := [⟨.addNode, 4⟩] } r = .ok cs r' ∧
      ∃ v, v ∈ ({1, 2} : Set ℕ) ∧ v ∈ ({2, 3, 4} : Set ℕ) := by
  have h : ∃ (r r' : Raft MemoryStorage) (cs : ConfState),
      Raft.init { id := 1 } [] { raftState := { confState := { voters := [1, 2, 3] } } } = .ok r () ∧
        applyConfChange { changes := [⟨.addNode, 4⟩] } r = .ok cs r' ∧
        r.conf.voters.incoming.isEmpty = false ∧ r.conf.voters.IsQuorum {1, 2} ∧
        r'.conf.voters.IsQuorum {2, 3, 4} := by
    refine ⟨_, _, _, rfl, rfl, rfl, ?_, ?_⟩
    · exact ⟨fun v => if v = 1 ∨ v = 2 then some true else none, fun v => by simp; tauto, rfl⟩
    · exact ⟨fun v => if v = 2 ∨ v = 3 ∨ v = 4 then some true else none, fun v => by simp; tauto, rfl⟩
  obtain ⟨r, r', cs, hinit, happly, hne, hQ, hQ'⟩ := h
  exact ⟨r, r', cs, hinit, happly, applyConfChange_quorums_meet hne happly hQ hQ'⟩

end Raft

end Raftz
