import Mathlib.Data.List.GetD
import Mathlib.Data.List.Sort
import Raftz.Base.Collections
import Raftz.Types

/-! # Quorum configurations

`MajorityConfig`, `JointConfiguration` and `TrackerConfiguration` of
`majority_conf.zig`, `joint_conf.zig` and `tracker_conf.zig`: the two quorum
computations (tallying votes and the index a quorum has acknowledged) and the
export of a configuration.

The tally of a configuration is a monotone predicate of the set of voters that
said yes; `Wins` names it, and the results below say that two winning sets of
one configuration meet, and what an acknowledged index says about a winning
set. -/

open Base

namespace Raftz

/-- Quorum size for `total` voters. -/
def majority (total : ℕ) : ℕ := total / 2 + 1

/-- Outcome of a vote tally. -/
inductive VoteResult
  | pending
  | lost
  | won
  deriving DecidableEq, Repr

/-- A voter's acknowledged index and the group it belongs to. -/
structure Index where
  index : ℕ
  groupId : ℕ
  deriving DecidableEq, Repr, Inhabited

/-- The index a quorum has acknowledged. -/
structure CommittedIndexResult where
  index : ℕ
  useGroupCommit : Bool
  deriving DecidableEq, Repr

/-- A set of voters. -/
structure MajorityConfig where
  voters : IdSet := ∅
  deriving DecidableEq, Repr, Inhabited

namespace MajorityConfig

/-- No voter. -/
def isEmpty (c : MajorityConfig) : Bool := c.voters.isEmpty
/-- Add a voter. -/
def add (c : MajorityConfig) (id : ℕ) : MajorityConfig := ⟨c.voters.add id⟩
/-- Remove a voter. -/
def remove (c : MajorityConfig) (id : ℕ) : MajorityConfig := ⟨c.voters.remove id⟩
/-- Is `id` a voter? -/
def contains (c : MajorityConfig) (id : ℕ) : Bool := decide (id ∈ c.voters)
/-- Number of voters. -/
def count (c : MajorityConfig) : ℕ := c.voters.count

/-- The group scan of `committedIndex`: the first index of a second group, or whether all
voters of the scanned part belong to one group. -/
def scanGroups (quorumIndex : ℕ) : ℕ → Bool → List Index → Sum CommittedIndexResult Bool
  | _, single, [] => .inr single
  | checked, single, m :: ms =>
      if m.groupId = 0 then scanGroups quorumIndex checked false ms
      else if checked = 0 then scanGroups quorumIndex m.groupId single ms
      else if checked = m.groupId then scanGroups quorumIndex checked single ms
      else .inl ⟨min m.index quorumIndex, true⟩

/-- The acknowledged indexes of the voters, largest first. -/
def sortedMatched (c : MajorityConfig) (acked : ℕ → Option Index) : List Index :=
  (c.voters.ids.map (fun id => (acked id).getD ⟨0, 0⟩)).insertionSort
    (fun a b => b.index ≤ a.index)

/-- Sort the acknowledged indexes and pick the majority-th. -/
def committedIndex (c : MajorityConfig) (useGroupCommit : Bool) (acked : ℕ → Option Index) :
    CommittedIndexResult :=
  if c.isEmpty then ⟨maxU64, false⟩
  else
    let matched := c.sortedMatched acked
    let quorum := majority matched.length
    let quorumIndex := matched.getD (quorum - 1) default
    if useGroupCommit = false then ⟨quorumIndex.index, false⟩
    else
      match scanGroups quorumIndex.index quorumIndex.groupId true matched with
      | .inl r => r
      | .inr true => ⟨quorumIndex.index, false⟩
      | .inr false => ⟨(matched.getD (matched.length - 1) default).index, false⟩

/-- Tally votes; `check` answers yes, no or nothing for each voter. -/
def getVoteResult (c : MajorityConfig) (check : ℕ → Option Bool) : VoteResult :=
  if c.isEmpty then .won
  else
    let yes := c.voters.ids.countP (fun id => check id == some true)
    let missing := c.voters.ids.countP (fun id => check id == none)
    let q := majority c.count
    if q ≤ yes then .won
    else if q ≤ yes + missing then .pending
    else .lost

end MajorityConfig

/-- A pair of majorities: the new configuration and the one being left. -/
structure JointConfiguration where
  incoming : MajorityConfig := {}
  outgoing : MajorityConfig := {}
  deriving DecidableEq, Repr, Inhabited

namespace JointConfiguration

/-- The smaller of the two majorities' indexes. -/
def committedIndex (c : JointConfiguration) (useGroupCommit : Bool) (acked : ℕ → Option Index) :
    CommittedIndexResult :=
  let i := c.incoming.committedIndex useGroupCommit acked
  let o := c.outgoing.committedIndex useGroupCommit acked
  ⟨min i.index o.index, i.useGroupCommit && o.useGroupCommit⟩

/-- Won when both sides win, lost when one side loses. -/
def getVoteResult (c : JointConfiguration) (check : ℕ → Option Bool) : VoteResult :=
  match c.incoming.getVoteResult check, c.outgoing.getVoteResult check with
  | .won, .won => .won
  | .lost, _ => .lost
  | _, .lost => .lost
  | _, _ => .pending

/-- Is `id` a voter of one of the sides? -/
def contains (c : JointConfiguration) (id : ℕ) : Bool :=
  c.incoming.contains id || c.outgoing.contains id

/-- One voter and not joint. -/
def isSingleton (c : JointConfiguration) : Bool := c.outgoing.isEmpty && c.incoming.count == 1

/-- The voters of both sides, sorted, each once. -/
def ids (c : JointConfiguration) : List ℕ :=
  (c.incoming.voters.addAll c.outgoing.voters.ids).ids.insertionSort (· ≤ ·)

end JointConfiguration

/-- A joint configuration with learners. -/
structure TrackerConfiguration where
  voters : JointConfiguration := {}
  learners : IdSet := ∅
  learnersNext : IdSet := ∅
  autoLeave : Bool := false
  deriving DecidableEq, Repr, Inhabited

namespace TrackerConfiguration

/-- The members of a set, sorted. -/
def collectSorted (s : IdSet) : List ℕ := s.ids.insertionSort (· ≤ ·)

/-- Export the configuration. -/
def toConfState (c : TrackerConfiguration) : ConfState where
  voters := collectSorted c.voters.incoming.voters
  learners := collectSorted c.learners
  votersOutgoing := collectSorted c.voters.outgoing.voters
  learnersNext := collectSorted c.learnersNext
  autoLeave := c.autoLeave

end TrackerConfiguration

/-! ### Winning sets -/

namespace MajorityConfig

variable {c : MajorityConfig} {Q R : Set ℕ}

/-- A set of nodes that wins the tally: it holds a majority of the voters, if there are any. -/
def Wins (c : MajorityConfig) (Q : Set ℕ) : Prop :=
  c.isEmpty = true ∨
    ∃ A : Finset ℕ, A ⊆ c.voters.toFinset ∧ majority c.count ≤ A.card ∧ ∀ v ∈ A, v ∈ Q

theorem Wins.mono (h : c.Wins Q) (hQR : ∀ v ∈ c.voters, v ∈ Q → v ∈ R) : c.Wins R := by
  rcases h with h | ⟨A, hA, hc, hQ⟩
  · exact Or.inl h
  · exact Or.inr ⟨A, hA, hc, fun v hv => hQR v (by simpa using hA hv) (hQ v hv)⟩

theorem wins_of_won {check : ℕ → Option Bool} (h : c.getVoteResult check = .won) :
    c.Wins {v | check v = some true} := by
  unfold getVoteResult at h
  split at h
  · rename_i he
    exact Or.inl he
  · dsimp only at h
    split at h
    · rename_i hq
      refine Or.inr ⟨_, Finset.filter_subset (fun v => (check v == some true) = true) _, ?_, ?_⟩
      · rw [← IdSet.countP_ids]
        exact hq
      · intro v hv
        simpa using (Finset.mem_filter.mp hv).2
    · split at h <;> cases h

theorem won_of_wins {check : ℕ → Option Bool} (h : c.Wins Q)
    (hQ : ∀ v ∈ c.voters, v ∈ Q → check v = some true) : c.getVoteResult check = .won := by
  unfold getVoteResult
  rcases h with h | ⟨A, hA, hc, hAQ⟩
  · rw [if_pos h]
  · split
    · rfl
    · dsimp only
      rw [if_pos]
      refine hc.trans ?_
      rw [IdSet.countP_ids]
      refine Finset.card_le_card fun v hv => ?_
      rw [Finset.mem_filter]
      exact ⟨hA hv, by simp [hQ v (by simpa using hA hv) (hAQ v hv)]⟩

theorem count_pos (hne : c.isEmpty = false) : 0 < c.count := by
  unfold isEmpty IdSet.isEmpty at hne
  exact List.length_pos_iff.mpr fun h => by simp [h] at hne

/-- Without a rejection a tally is not lost. -/
theorem not_lost {check : ℕ → Option Bool} (h : ∀ v, check v ≠ some false) :
    c.getVoteResult check ≠ .lost := by
  unfold getVoteResult
  split
  · exact fun hl => by cases hl
  · have hsum : c.voters.ids.countP (fun id => check id == some true) +
        c.voters.ids.countP (fun id => check id == none) = c.count := by
      have hlen := List.length_eq_countP_add_countP (fun id => check id == some true)
        (l := c.voters.ids)
      have hno : c.voters.ids.countP (fun id => check id == none) =
          c.voters.ids.countP (fun id => decide (¬ (check id == some true) = true)) := by
        refine List.countP_congr fun id _ => ?_
        cases hc : check id with
        | none => simp
        | some b =>
            cases b with
            | true => simp
            | false => exact absurd hc (h id)
      rw [hno]
      exact hlen.symm
    have hpos : 0 < c.count := count_pos (by simpa using ‹¬ c.isEmpty = true›)
    have hmaj : majority c.count ≤ c.count := by
      unfold majority
      omega
    dsimp only
    split
    · exact fun hl => by cases hl
    · rw [if_pos (by omega)]
      exact fun hl => by cases hl

theorem wins_meet (hne : c.isEmpty = false) (hQ : c.Wins Q) (hR : c.Wins R) :
    ∃ v ∈ c.voters, v ∈ Q ∧ v ∈ R := by
  rcases hQ with h | ⟨A, hA, hcA, hAQ⟩
  · rw [hne] at h
    cases h
  rcases hR with h | ⟨B, hB, hcB, hBR⟩
  · rw [hne] at h
    cases h
  unfold majority count at hcA hcB
  rw [← IdSet.card_toFinset] at hcA hcB
  obtain ⟨v, hvA, hvB⟩ := majorities_meet hA hB hcA hcB
  exact ⟨v, by simpa using hA hvA, hAQ v hvA, hBR v hvB⟩

/-! ### Acknowledged indexes -/

variable {acked : ℕ → Option Index}

theorem sortedMatched_perm (c : MajorityConfig) (acked : ℕ → Option Index) :
    (c.sortedMatched acked).Perm (c.voters.ids.map (fun id => (acked id).getD ⟨0, 0⟩)) :=
  List.perm_insertionSort _ _

theorem sortedMatched_pairwise (c : MajorityConfig) (acked : ℕ → Option Index) :
    (c.sortedMatched acked).Pairwise (fun a b => b.index ≤ a.index) := by
  have : Std.Total (fun a b : Index => b.index ≤ a.index) := ⟨fun a b => le_total b.index a.index⟩
  have : IsTrans Index (fun a b : Index => b.index ≤ a.index) :=
    ⟨fun _ _ _ h1 h2 => le_trans h2 h1⟩
  exact List.pairwise_insertionSort _ _

theorem length_sortedMatched (c : MajorityConfig) (acked : ℕ → Option Index) :
    (c.sortedMatched acked).length = c.count := by
  rw [(sortedMatched_perm c acked).length_eq, List.length_map]
  rfl

/-- The majority-th largest acknowledged index. -/
def quorumIndex (c : MajorityConfig) (acked : ℕ → Option Index) : ℕ :=
  ((c.sortedMatched acked).getD (majority c.count - 1) default).index

/-- A majority has acknowledged the quorum index. -/
theorem wins_quorumIndex (c : MajorityConfig) (acked : ℕ → Option Index) :
    c.Wins {v | c.quorumIndex acked ≤ ((acked v).getD ⟨0, 0⟩).index} := by
  cases he : c.isEmpty with
  | true => exact Or.inl he
  | false =>
      have hpos := count_pos he
      have hlen := length_sortedMatched c acked
      have hq : majority c.count - 1 < (c.sortedMatched acked).length := by
        unfold majority
        omega
      have hget : (c.sortedMatched acked)[majority c.count - 1].index = c.quorumIndex acked := by
        unfold quorumIndex
        rw [List.getD_eq_getElem _ _ hq]
      have hcount := (le_getElem_iff_lt_countP (sortedMatched_pairwise c acked) hq).mp hget.ge
      rw [(sortedMatched_perm c acked).countP_eq, List.countP_map, IdSet.countP_ids] at hcount
      refine Or.inr ⟨_, Finset.filter_subset _ _, Nat.le_of_pred_lt hcount, fun v hv => ?_⟩
      simpa using (Finset.mem_filter.mp hv).2

theorem getD_last_le (hne : c.isEmpty = false) :
    ((c.sortedMatched acked).getD ((c.sortedMatched acked).length - 1) default).index ≤
      c.quorumIndex acked := by
  have hpos := count_pos hne
  have hlen := length_sortedMatched c acked
  unfold quorumIndex
  have hq : majority c.count - 1 ≤ (c.sortedMatched acked).length - 1 := by
    unfold majority
    omega
  rw [List.getD_eq_getElem _ _ (by omega), List.getD_eq_getElem _ _ (by omega)]
  rcases Nat.lt_or_ge (majority c.count - 1) ((c.sortedMatched acked).length - 1) with h | h
  · exact List.pairwise_iff_getElem.mp (sortedMatched_pairwise c acked) _ _ _ _ h
  · have : majority c.count - 1 = (c.sortedMatched acked).length - 1 := by omega
    simp only [this, le_refl]

theorem scanGroups_le {q checked : ℕ} {single : Bool} {l : List Index} {r : CommittedIndexResult}
    (h : scanGroups q checked single l = .inl r) : r.index ≤ q := by
  induction l generalizing checked single with
  | nil => cases h
  | cons m ms ih =>
      unfold scanGroups at h
      split at h
      · exact ih h
      · split at h
        · exact ih h
        · split at h
          · exact ih h
          · cases h
            exact min_le_right _ _

/-- Group commit never returns more than the quorum index. -/
theorem committedIndex_le (hne : c.isEmpty = false) (g : Bool) :
    (c.committedIndex g acked).index ≤ c.quorumIndex acked := by
  unfold committedIndex
  rw [if_neg (by simp [hne])]
  dsimp only
  rw [length_sortedMatched]
  split
  · exact le_rfl
  · split
    · rename_i r hr
      exact scanGroups_le hr
    · exact le_rfl
    · rw [← length_sortedMatched c acked]
      exact getD_last_le hne

/-- A majority has acknowledged at least the committed index. -/
theorem wins_committedIndex (g : Bool) {i : ℕ} (hi : i ≤ (c.committedIndex g acked).index) :
    c.Wins {v | i ≤ ((acked v).getD ⟨0, 0⟩).index} := by
  cases he : c.isEmpty with
  | true => exact Or.inl he
  | false =>
      refine (wins_quorumIndex c acked).mono fun v _ hv => ?_
      exact hi.trans ((committedIndex_le he g).trans hv)

end MajorityConfig

namespace JointConfiguration

variable {c : JointConfiguration} {Q R : Set ℕ}

/-- A set of nodes that wins the tally of both sides. -/
def Wins (c : JointConfiguration) (Q : Set ℕ) : Prop := c.incoming.Wins Q ∧ c.outgoing.Wins Q

/-- There is somebody to win against: without a voter, every tally is won. -/
def HasVoter (c : JointConfiguration) : Prop := ∃ v, c.contains v = true

theorem contains_iff {v : ℕ} :
    c.contains v = true ↔ v ∈ c.incoming.voters ∨ v ∈ c.outgoing.voters := by
  unfold contains MajorityConfig.contains
  simp

theorem Wins.mono (h : c.Wins Q) (hQR : ∀ v, c.contains v = true → v ∈ Q → v ∈ R) : c.Wins R :=
  ⟨h.1.mono fun v hv => hQR v (contains_iff.mpr (Or.inl hv)),
    h.2.mono fun v hv => hQR v (contains_iff.mpr (Or.inr hv))⟩

theorem won_iff {check : ℕ → Option Bool} :
    c.getVoteResult check = .won ↔
      c.incoming.getVoteResult check = .won ∧ c.outgoing.getVoteResult check = .won := by
  unfold getVoteResult
  cases c.incoming.getVoteResult check <;> cases c.outgoing.getVoteResult check <;> simp

theorem wins_of_won {check : ℕ → Option Bool} (h : c.getVoteResult check = .won) :
    c.Wins {v | check v = some true} :=
  ⟨MajorityConfig.wins_of_won (won_iff.mp h).1, MajorityConfig.wins_of_won (won_iff.mp h).2⟩

theorem won_of_wins {check : ℕ → Option Bool} (h : c.Wins Q)
    (hQ : ∀ v, c.contains v = true → v ∈ Q → check v = some true) : c.getVoteResult check = .won :=
  won_iff.mpr ⟨MajorityConfig.won_of_wins h.1 fun v hv => hQ v (contains_iff.mpr (Or.inl hv)),
    MajorityConfig.won_of_wins h.2 fun v hv => hQ v (contains_iff.mpr (Or.inr hv))⟩

/-- Two winning sets of one configuration have a common voter. -/
theorem not_lost {check : ℕ → Option Bool} (h : ∀ v, check v ≠ some false) :
    c.getVoteResult check ≠ .lost := by
  have h1 := @MajorityConfig.not_lost c.incoming check h
  have h2 := @MajorityConfig.not_lost c.outgoing check h
  unfold getVoteResult
  cases hi : c.incoming.getVoteResult check <;> cases ho : c.outgoing.getVoteResult check <;>
    simp_all

theorem wins_meet (hne : c.HasVoter) (hQ : c.Wins Q) (hR : c.Wins R) :
    ∃ v, c.contains v = true ∧ v ∈ Q ∧ v ∈ R := by
  obtain ⟨w, hw⟩ := hne
  rcases contains_iff.mp hw with hw | hw
  · have he : c.incoming.isEmpty = false :=
      Bool.eq_false_iff.mpr fun h => IdSet.isEmpty_iff.mp h w hw
    obtain ⟨v, hv, hvQ, hvR⟩ := MajorityConfig.wins_meet he hQ.1 hR.1
    exact ⟨v, contains_iff.mpr (Or.inl hv), hvQ, hvR⟩
  · have he : c.outgoing.isEmpty = false :=
      Bool.eq_false_iff.mpr fun h => IdSet.isEmpty_iff.mp h w hw
    obtain ⟨v, hv, hvQ, hvR⟩ := MajorityConfig.wins_meet he hQ.2 hR.2
    exact ⟨v, contains_iff.mpr (Or.inr hv), hvQ, hvR⟩

/-- A winning set has acknowledged at least the committed index. -/
theorem wins_committedIndex {acked : ℕ → Option Index} (g : Bool) {i : ℕ}
    (hi : i ≤ (c.committedIndex g acked).index) :
    c.Wins {v | i ≤ ((acked v).getD ⟨0, 0⟩).index} :=
  ⟨MajorityConfig.wins_committedIndex g (hi.trans (min_le_left _ _)),
    MajorityConfig.wins_committedIndex g (hi.trans (min_le_right _ _))⟩

end JointConfiguration

end Raftz
