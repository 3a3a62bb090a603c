import Mathlib.Data.Finset.Sort
import Raftz.TrackerSound

/-! # Configurations as sets

What a configuration means: four sets of nodes and a flag.  `ConfSets.change`
says what a configuration change does to them; `changeConf` refines it on every
sound tracker (`changeConf_sets`), so neither the order in which a set is
visited nor the progress of the peers matters.  Restoring an exported
configuration gives back its sets (`restore_sets`). -/

open Base

namespace Raftz

/-- The members of a configuration, without the order they are visited in. -/
@[ext]
structure ConfSets where
  incoming : Finset ℕ := ∅
  outgoing : Finset ℕ := ∅
  learners : Finset ℕ := ∅
  learnersNext : Finset ℕ := ∅
  autoLeave : Bool := false
  deriving DecidableEq

namespace ConfSets

/-- Apply one change; changes of node 0 are skipped. -/
def applyChange (s : ConfSets) (cc : ConfChangeSingle) : ConfSets :=
  if cc.nodeId = 0 then s
  else match cc.changeType with
    | .addNode => { s with
        incoming := insert cc.nodeId s.incoming
        learners := s.learners.erase cc.nodeId
        learnersNext := s.learnersNext.erase cc.nodeId }
    | .removeNode => { s with
        incoming := s.incoming.erase cc.nodeId
        learners := s.learners.erase cc.nodeId
        learnersNext := s.learnersNext.erase cc.nodeId }
    | .addLearnerNode =>
        if cc.nodeId ∈ s.learners then s
        else if cc.nodeId ∈ s.outgoing then { s with
          incoming := s.incoming.erase cc.nodeId
          learnersNext := insert cc.nodeId s.learnersNext }
        else { s with
          incoming := s.incoming.erase cc.nodeId
          learners := insert cc.nodeId s.learners
          learnersNext := s.learnersNext.erase cc.nodeId }
    | .updateNode => s

/-- Apply the changes in order; at least one incoming voter must remain. -/
def applyChanges (s : ConfSets) (ccs : List ConfChangeSingle) : Except Err ConfSets :=
  if (ccs.foldl applyChange s).incoming = ∅ then .error .removedAllVoters
  else .ok (ccs.foldl applyChange s)

/-- Make the voters outgoing and apply the changes. -/
def enterJoint (s : ConfSets) (autoLeave : Bool) (ccs : List ConfChangeSingle) :
    Except Err ConfSets := do
  ensure (s.outgoing = ∅) .configAlreadyJoint
  ensure (s.incoming ≠ ∅) .zeroVoterConfigJoint
  let q ← applyChanges { s with outgoing := s.incoming } ccs
  return { q with autoLeave := autoLeave }

/-- Drop the outgoing half; the staged learners become learners. -/
def leaveJoint (s : ConfSets) : Except Err ConfSets := do
  ensure (s.outgoing ≠ ∅) .leaveNonJointConfig
  return { s with
    outgoing := ∅
    learners := s.learners ∪ s.learnersNext
    learnersNext := ∅
    autoLeave := false }

/-- Apply changes that touch at most one voter. -/
def simple (s : ConfSets) (ccs : List ConfChangeSingle) : Except Err ConfSets := do
  ensure (s.outgoing = ∅) .cannotApplySimpleInJointConfig
  let q ← applyChanges s ccs
  ensure ((symmDiff q.incoming s.incoming).card ≤ 1) .multipleVotersChangedWithoutJoint
  return q

/-- What a configuration change does. -/
def change (s : ConfSets) (cc : ConfChangeV2) : Except Err ConfSets :=
  if Raftz.leaveJoint cc then s.leaveJoint
  else match Raftz.enterJoint cc with
    | some autoLeave => s.enterJoint autoLeave cc.changes
    | none => s.simple cc.changes

/-- The exported configuration. -/
def toConfState (s : ConfSets) : ConfState where
  voters := s.incoming.sort (· ≤ ·)
  learners := s.learners.sort (· ≤ ·)
  votersOutgoing := s.outgoing.sort (· ≤ ·)
  learnersNext := s.learnersNext.sort (· ≤ ·)
  autoLeave := s.autoLeave

end ConfSets

/-- The sets that an exported configuration lists. -/
def ConfState.sets (cs : ConfState) : ConfSets where
  incoming := cs.voters.toFinset
  outgoing := cs.votersOutgoing.toFinset
  learners := cs.learners.toFinset
  learnersNext := cs.learnersNext.toFinset
  autoLeave := cs.autoLeave

/-- An export lists the sets it is made from. -/
@[simp] theorem ConfSets.sets_toConfState (s : ConfSets) : s.toConfState.sets = s := by
  unfold ConfSets.toConfState ConfState.sets
  simp only [Finset.sort_toFinset]

namespace TrackerConfiguration

/-- The sets of a configuration. -/
def sets (c : TrackerConfiguration) : ConfSets where
  incoming := c.voters.incoming.voters.toFinset
  outgoing := c.voters.outgoing.voters.toFinset
  learners := c.learners.toFinset
  learnersNext := c.learnersNext.toFinset
  autoLeave := c.autoLeave

theorem collectSorted_eq (s : IdSet) : collectSorted s = s.toFinset.sort (· ≤ ·) := by
  refine List.Perm.eq_of_pairwise (fun _ _ _ _ => le_antisymm) ?_ (Finset.pairwise_sort _ _) ?_
  · exact List.pairwise_insertionSort _ _
  · rw [List.perm_ext_iff_of_nodup]
    · intro a
      unfold collectSorted
      rw [List.mem_insertionSort, Finset.mem_sort, IdSet.mem_toFinset, IdSet.mem_def]
    · exact (List.perm_insertionSort _ _).nodup_iff.mpr s.nodup
    · exact Finset.sort_nodup _ _

/-- The export depends on the sets only. -/
theorem toConfState_eq (c : TrackerConfiguration) : c.toConfState = c.sets.toConfState := by
  unfold toConfState ConfSets.toConfState sets
  simp only [collectSorted_eq]

theorem joint_eq_false_iff (c : TrackerConfiguration) : joint c = false ↔ c.sets.outgoing = ∅ := by
  unfold joint sets MajorityConfig.isEmpty
  rw [Bool.not_eq_false', IdSet.toFinset_eq_empty_iff]

theorem isEmpty_incoming_iff (c : TrackerConfiguration) :
    c.voters.incoming.isEmpty = true ↔ c.sets.incoming = ∅ := by
  unfold sets MajorityConfig.isEmpty
  rw [IdSet.toFinset_eq_empty_iff]

end TrackerConfiguration

/-! ### Changes act on the sets -/

namespace ConfChanger

variable {p q : CheckAndCopyResult} {t : ProgressTracker}

theorem makeVoter_sets (h : CopySound p) {id : ℕ} (h0 : id ≠ 0) :
    (makeVoter p id).cfg.sets = p.cfg.sets.applyChange ⟨.addNode, id⟩ := by
  obtain ⟨h1, h2, h3, h4, h5⟩ := h
  unfold ConfSets.applyChange makeVoter initProgress
  dsimp only
  rw [if_neg h0]
  split
  · ext a <;>
      simp only [if_true, TrackerConfiguration.sets, MajorityConfig.add, IdSet.mem_toFinset,
        IdSet.mem_add, Finset.mem_insert, Finset.mem_erase] <;> grind
  · ext a <;>
      simp only [TrackerConfiguration.sets, MajorityConfig.add, IdSet.mem_toFinset, IdSet.mem_add,
        IdSet.mem_remove, Finset.mem_insert, Finset.mem_erase]

theorem remove_sets (h : CopySound p) {id : ℕ} (h0 : id ≠ 0) :
    (remove p id).cfg.sets = p.cfg.sets.applyChange ⟨.removeNode, id⟩ := by
  obtain ⟨h1, h2, h3, h4, h5⟩ := h
  unfold ConfSets.applyChange remove
  dsimp only
  rw [if_neg h0]
  split
  · ext a <;>
      simp only [TrackerConfiguration.sets, IdSet.mem_toFinset, Finset.mem_erase] <;> grind
  · split <;> ext a <;>
      simp only [TrackerConfiguration.sets, MajorityConfig.remove, IdSet.mem_toFinset,
        IdSet.mem_remove, Finset.mem_erase]

theorem makeLearner_sets (h : CopySound p) {id : ℕ} (h0 : id ≠ 0) :
    (makeLearner p id).cfg.sets = p.cfg.sets.applyChange ⟨.addLearnerNode, id⟩ := by
  obtain ⟨h1, h2, h3, h4, h5⟩ := h
  have hmem : id ∈ p.cfg.sets.learners ↔ id ∈ p.cfg.learners := IdSet.mem_toFinset
  have hout : id ∈ p.cfg.sets.outgoing ↔ id ∈ p.cfg.voters.outgoing.voters := IdSet.mem_toFinset
  unfold ConfSets.applyChange makeLearner initProgress
  dsimp only
  rw [if_neg h0]
  simp only [hmem, hout, contains_voters]
  split
  · rename_i hnew
    have hl : id ∉ p.cfg.learners := fun hl => by grind
    have ho : id ∉ p.cfg.voters.outgoing.voters := fun ho => by grind
    rw [if_neg hl, if_neg ho]
    ext a <;>
      simp only [Bool.true_eq_false, if_false, TrackerConfiguration.sets, IdSet.mem_toFinset,
        IdSet.mem_add, Finset.mem_insert, Finset.mem_erase] <;> grind
  · split
    · rfl
    · split <;> ext a <;>
        simp only [TrackerConfiguration.sets, MajorityConfig.remove, IdSet.mem_toFinset,
          IdSet.mem_add, IdSet.mem_remove, Finset.mem_insert, Finset.mem_erase] <;> grind

theorem applyChange_sets (h : CopySound p) (cc : ConfChangeSingle) :
    (applyChange p cc).cfg.sets = p.cfg.sets.applyChange cc := by
  obtain ⟨kind, id⟩ := cc
  by_cases h0 : id = 0
  · subst h0
    rfl
  · unfold applyChange
    rw [if_neg h0]
    cases kind with
    | addNode => exact makeVoter_sets h h0
    | removeNode => exact remove_sets h h0
    | addLearnerNode => exact makeLearner_sets h h0
    | updateNode =>
        unfold ConfSets.applyChange
        rw [if_neg h0]

theorem applyChange_autoLeave (p : CheckAndCopyResult) (cc : ConfChangeSingle) :
    (applyChange p cc).cfg.autoLeave = p.cfg.autoLeave := by
  unfold applyChange
  split
  · rfl
  · cases cc.changeType with
    | addNode =>
        dsimp only
        unfold makeVoter initProgress
        split <;> rfl
    | removeNode =>
        dsimp only
        unfold remove
        split
        · rfl
        · dsimp only
          split <;> rfl
    | addLearnerNode =>
        dsimp only
        unfold makeLearner initProgress
        split
        · rfl
        · split
          · rfl
          · split <;> rfl
    | updateNode => rfl

theorem applyChanges_autoLeave {ccs : List ConfChangeSingle} (h : applyChanges p ccs = .ok q) :
    q.cfg.autoLeave = p.cfg.autoLeave := by
  have hfold : ∀ (l : List ConfChangeSingle) (p : CheckAndCopyResult),
      (l.foldl applyChange p).cfg.autoLeave = p.cfg.autoLeave := by
    intro l
    induction l with
    | nil => exact fun _ => rfl
    | cons cc l ih => exact fun p => (ih _).trans (applyChange_autoLeave p cc)
  unfold applyChanges at h
  dsimp only at h
  split at h
  · cases h
  · cases h
    exact hfold ccs p

theorem foldl_sets (ccs : List ConfChangeSingle) (h : CopySound p) :
    (ccs.foldl applyChange p).cfg.sets = ccs.foldl ConfSets.applyChange p.cfg.sets := by
  induction ccs generalizing p with
  | nil => rfl
  | cons cc ccs ih => rw [List.foldl_cons, List.foldl_cons, ih (h.applyChange cc), applyChange_sets h]

theorem applyChanges_sets (h : CopySound p) (ccs : List ConfChangeSingle) :
    (applyChanges p ccs).map (fun q => q.cfg.sets) = p.cfg.sets.applyChanges ccs := by
  unfold applyChanges ConfSets.applyChanges
  dsimp only
  rw [← foldl_sets ccs h]
  by_cases he : (ccs.foldl applyChange p).cfg.voters.incoming.isEmpty = true
  · rw [if_pos he, if_pos ((TrackerConfiguration.isEmpty_incoming_iff _).mp he)]
    rfl
  · rw [if_neg he, if_neg fun hs => he ((TrackerConfiguration.isEmpty_incoming_iff _).mpr hs)]
    rfl

/-- A sound working copy passes the check. -/
theorem checkInvariants_ok {c : TrackerConfiguration} {prs : IncrChangeMap}
    (h : c.Sound prs.contains) (hp : c.Plain) : checkInvariants c prs = .ok () := by
  obtain ⟨h1, h2, h3, h4, h5⟩ := h
  unfold checkInvariants
  rw [if_neg, if_neg, if_neg, if_neg, if_neg]
  · exact fun hj => absurd (hp hj.1).2 (by simp [hj.2])
  · exact fun hj => hj.2 (hp hj.1).1
  · rw [Bool.not_eq_false, List.all_eq_true]
    intro id hid
    obtain ⟨hk, ho, -, -⟩ := h4 id hid
    rw [hk, (contains_voters _ _).mpr ho]
    rfl
  · rw [Bool.not_eq_false, List.all_eq_true]
    intro id hid
    obtain ⟨hk, hi, ho⟩ := h3 id hid
    simp only [hk, Bool.true_and, Bool.and_eq_true, Bool.not_eq_true', ← Bool.not_eq_true,
      contains_voters]
    exact ⟨ho, hi⟩
  · rw [Bool.not_eq_false, List.all_eq_true]
    intro id hid
    unfold JointConfiguration.ids at hid
    rw [List.mem_insertionSort, ← IdSet.mem_def, IdSet.mem_addAll] at hid
    rcases hid with hid | hid
    · exact h1 id hid
    · exact h2 id hid

/-- On sorted lists the walk counts exactly the members of one of them. -/
theorem card_symmDiff_insert {S T S' T' : Finset ℕ} {a : ℕ} (ha : a ∉ symmDiff S' T')
    (h : symmDiff S T = insert a (symmDiff S' T')) :
    (symmDiff S T).card = (symmDiff S' T').card + 1 := by
  rw [h, Finset.card_insert_of_notMem ha]

theorem diffCount_eq {k l : List ℕ} (hk : k.Pairwise (· < ·)) (hl : l.Pairwise (· < ·)) :
    diffCount k l = (symmDiff k.toFinset l.toFinset).card := by
  induction k generalizing l with
  | nil =>
      unfold diffCount
      rw [List.toFinset_nil, ← Finset.bot_eq_empty, bot_symmDiff]
      exact (List.toFinset_card_of_nodup (hl.imp fun h => h.ne)).symm
  | cons a k ihk =>
      have hka := List.pairwise_cons.mp hk
      unfold diffCount
      induction l with
      | nil =>
          unfold diffRow
          rw [List.toFinset_nil, ← Finset.bot_eq_empty, symmDiff_bot]
          exact (List.toFinset_card_of_nodup (hk.imp fun h => h.ne)).symm
      | cons b l ihl =>
          have hlb := List.pairwise_cons.mp hl
          have hak : a ∉ k := fun hm => lt_irrefl a (hka.1 a hm)
          have hbl : b ∉ l := fun hm => lt_irrefl b (hlb.1 b hm)
          unfold diffRow
          split
          · -- `a` is in the left list only
            rename_i hab
            have hal : a ∉ l := fun hm => absurd (hlb.1 a hm) (by omega)
            rw [ihk hka.2 hl]
            refine (card_symmDiff_insert (a := a) ?_ ?_).symm
            · simp only [Finset.mem_symmDiff, List.mem_toFinset, List.mem_cons]
              grind
            · ext x
              simp only [Finset.mem_symmDiff, List.mem_toFinset, List.mem_cons, Finset.mem_insert]
              grind
          · split
            · -- `b` is in the right list only
              rename_i hab
              have hbk : b ∉ k := fun hm => absurd (hka.1 b hm) (by omega)
              rw [ihl hlb.2]
              refine (card_symmDiff_insert (a := b) ?_ ?_).symm
              · simp only [Finset.mem_symmDiff, List.mem_toFinset, List.mem_cons]
                grind
              · ext x
                simp only [Finset.mem_symmDiff, List.mem_toFinset, List.mem_cons, Finset.mem_insert]
                grind
            · have hab : a = b := by omega
              subst hab
              rw [ihk hka.2 hlb.2]
              congr 1
              ext x
              simp only [Finset.mem_symmDiff, List.mem_toFinset, List.mem_cons]
              grind

theorem diffCount_collectSorted (c d : TrackerConfiguration) :
    diffCount (TrackerConfiguration.collectSorted c.voters.incoming.voters)
      (TrackerConfiguration.collectSorted d.voters.incoming.voters) =
      (symmDiff c.sets.incoming d.sets.incoming).card := by
  have hsorted : ∀ s : IdSet, (TrackerConfiguration.collectSorted s).Pairwise (· < ·) := by
    intro s
    rw [TrackerConfiguration.collectSorted_eq]
    exact (Finset.sortedLT_sort _).pairwise
  rw [diffCount_eq (hsorted _) (hsorted _), toFinset_collectSorted, toFinset_collectSorted]
  rfl

theorem checkAndCopy_sound (h : t.Fits) :
    checkAndCopy t = .ok ⟨t.conf, { base := t.progress }⟩ := by
  unfold checkAndCopy
  exact bind_eq_ok.mpr ⟨(), checkInvariants_ok h.conf h.plain, rfl⟩

theorem map_eq_ok {ε α β : Type} {x : Except ε α} {f : α → β} {b : β} :
    x.map f = .ok b ↔ ∃ a, x = .ok a ∧ f a = b := by
  cases x <;> simp [Except.map]

theorem simple_sets (h : t.Fits) (ccs : List ConfChangeSingle) :
    (simple t ccs).map (fun r => r.conf.sets) = t.conf.sets.simple ccs := by
  have hcopy : CopySound ⟨t.conf, { base := t.progress }⟩ := h.conf
  unfold simple ConfSets.simple
  by_cases hj : joint t.conf = false
  swap
  · rw [ensure_of_not hj, ensure_of_not fun he => hj ((TrackerConfiguration.joint_eq_false_iff _).mpr he)]
    rfl
  have hout := (TrackerConfiguration.joint_eq_false_iff _).mp hj
  rw [ensure_of hj, ensure_of hout, checkAndCopy_sound h]
  dsimp only [bind, Except.bind]
  have hsets := applyChanges_sets hcopy ccs
  cases hq : applyChanges ⟨t.conf, { base := t.progress }⟩ ccs with
  | error e =>
      rw [hq] at hsets
      rw [← hsets]
      rfl
  | ok q =>
      rw [hq] at hsets
      rw [← hsets]
      dsimp only [Except.map]
      rw [diffCount_collectSorted]
      by_cases hd : (symmDiff q.cfg.sets.incoming t.conf.sets.incoming).card ≤ 1
      · rw [ensure_of hd]
        -- nothing is staged outside a joint configuration
        have hq' := hcopy.applyChanges hq
        have hqout : q.cfg.voters.outgoing = t.conf.voters.outgoing := (applyChanges_ok hq).1
        have hplain : q.cfg.Plain := by
          intro _
          refine ⟨?_, ?_⟩
          · rw [IdSet.count, List.length_eq_zero_iff, List.eq_nil_iff_forall_not_mem]
            intro id hid
            obtain ⟨-, ho, -, -⟩ := hq'.learnersNext id hid
            rw [hqout] at ho
            have hmem : id ∈ t.conf.sets.outgoing := IdSet.mem_toFinset.mpr ho
            rw [hout] at hmem
            exact absurd hmem (Finset.notMem_empty id)
          · rw [applyChanges_autoLeave hq]
            exact (h.plain hj).2
        dsimp only
        rw [checkInvariants_ok hq' hplain]
        rfl
      · rw [ensure_of_not hd]

theorem enterJoint_sets (h : t.Fits) (autoLeave : Bool) (ccs : List ConfChangeSingle) :
    (enterJoint t autoLeave ccs).map (fun r => r.conf.sets) =
      t.conf.sets.enterJoint autoLeave ccs := by
  unfold enterJoint ConfSets.enterJoint
  by_cases hj : joint t.conf = false
  swap
  · rw [ensure_of_not hj, ensure_of_not fun he => hj ((TrackerConfiguration.joint_eq_false_iff _).mpr he)]
    rfl
  have hout := (TrackerConfiguration.joint_eq_false_iff _).mp hj
  rw [ensure_of hj, ensure_of hout, checkAndCopy_sound h]
  dsimp only [bind, Except.bind]
  by_cases hne : t.conf.voters.incoming.isEmpty = false
  swap
  · rw [ensure_of_not hne, ensure_of_not]
    · rfl
    · rw [not_not, ← TrackerConfiguration.isEmpty_incoming_iff]
      simpa using hne
  have hin : t.conf.sets.incoming ≠ ∅ := by
    rw [Ne, ← TrackerConfiguration.isEmpty_incoming_iff, hne]
    simp
  rw [ensure_of hne, ensure_of hin]
  dsimp only
  have hcopy := copySound_enter h hj
  have hcopied : ({ t.conf with voters := { t.conf.voters with
      outgoing := ⟨t.conf.voters.outgoing.voters.addAll t.conf.voters.incoming.voters.ids⟩ } } :
      TrackerConfiguration).sets = { t.conf.sets with outgoing := t.conf.sets.incoming } := by
    have hnone : ∀ a, a ∉ t.conf.voters.outgoing.voters := by
      intro a ha
      have hmem : a ∈ t.conf.sets.outgoing := IdSet.mem_toFinset.mpr ha
      rw [hout] at hmem
      exact absurd hmem (Finset.notMem_empty a)
    ext a
    · rfl
    · simp only [TrackerConfiguration.sets, IdSet.mem_toFinset, IdSet.mem_addAll, hnone, false_or,
        ← IdSet.mem_def]
    · rfl
    · rfl
    · rfl
  have hsets := applyChanges_sets hcopy ccs
  rw [hcopied] at hsets
  cases hq : applyChanges ⟨{ t.conf with voters := { t.conf.voters with
      outgoing := ⟨t.conf.voters.outgoing.voters.addAll t.conf.voters.incoming.voters.ids⟩ } },
      { base := t.progress }⟩ ccs with
  | error e =>
      rw [hq] at hsets
      rw [← hsets]
      rfl
  | ok q =>
      rw [hq] at hsets
      rw [← hsets]
      dsimp only [Except.map]
      have hq' := hcopy.applyChanges hq
      have hqsets : q.cfg.sets.outgoing = t.conf.sets.incoming := by
        have hqout := (applyChanges_ok hq).1
        have hcopied := congrArg ConfSets.outgoing hcopied
        refine Eq.trans ?_ hcopied
        show q.cfg.voters.outgoing.voters.toFinset = _
        rw [hqout]
        rfl
      have hplain : ({ q.cfg with autoLeave := autoLeave } : TrackerConfiguration).Plain := by
        intro hj'
        have hnone := (TrackerConfiguration.joint_eq_false_iff _).mp hj'
        exact absurd (hqsets.symm.trans hnone) hin
      have hsound : ({ q.cfg with autoLeave := autoLeave } : TrackerConfiguration).Sound
          q.prs.contains := ⟨hq'.1, hq'.2, hq'.3, hq'.4, hq'.5⟩
      rw [checkInvariants_ok hsound hplain]
      rfl

theorem leaveJoint_sets (h : t.Fits) :
    (leaveJoint t).map (fun r => r.conf.sets) = t.conf.sets.leaveJoint := by
  unfold ConfSets.leaveJoint
  by_cases hj : joint t.conf = true
  swap
  · have hj' : joint t.conf = false := by simpa using hj
    unfold leaveJoint
    rw [ensure_of_not hj, ensure_of_not]
    · rfl
    · rw [not_not]
      exact (TrackerConfiguration.joint_eq_false_iff _).mp hj'
  have hout : t.conf.sets.outgoing ≠ ∅ := by
    rw [Ne, ← TrackerConfiguration.joint_eq_false_iff, hj]
    simp
  rw [ensure_of hout]
  obtain ⟨h1, h2, h3, h4, h5⟩ := h.conf
  have hsets : ({ t.conf with
      learners := t.conf.learners.addAll t.conf.learnersNext.ids
      learnersNext := ∅
      voters := { t.conf.voters with outgoing := {} }
      autoLeave := false } : TrackerConfiguration).sets = { t.conf.sets with
        outgoing := ∅
        learners := t.conf.sets.learners ∪ t.conf.sets.learnersNext
        learnersNext := ∅
        autoLeave := false } := by
    ext a
    · rfl
    · rfl
    · simp only [TrackerConfiguration.sets, IdSet.mem_toFinset, IdSet.mem_addAll, Finset.mem_union,
        ← IdSet.mem_def]
    · rfl
    · rfl
  unfold leaveJoint
  rw [ensure_of hj, checkAndCopy_sound h]
  dsimp only [bind, Except.bind]
  rw [checkInvariants_ok]
  · exact congrArg Except.ok hsets
  · have hnone : ∀ id, id ∉ ({} : MajorityConfig).voters := IdSet.not_mem_empty
    have hcon : ∀ id, IncrChangeMap.contains { base := t.progress } id = t.contains id :=
      fun id => rfl
    unfold leavers
    constructor <;>
      simp only [IdSet.mem_addAll, foldl_remove_contains, hcon, List.mem_filter, ← IdSet.mem_def,
        Bool.and_eq_true, decide_eq_true_iff, Bool.not_eq_true', ← Bool.not_eq_true,
        contains_voters, IdSet.not_mem_empty] <;> grind
  · exact fun _ => ⟨rfl, rfl⟩

/-- **A configuration change acts on the sets.**  What it leads to, and whether it is refused,
depends on nothing else. -/
theorem changeConf_sets (h : t.Fits) (cc : ConfChangeV2) :
    (changeConf t cc).map (fun r => r.conf.sets) = t.conf.sets.change cc := by
  unfold changeConf ConfSets.change
  split
  · exact leaveJoint_sets h
  · cases Raftz.enterJoint cc with
    | some autoLeave => exact enterJoint_sets h autoLeave cc.changes
    | none => exact simple_sets h cc.changes

end ConfChanger

/-! ### Restoring an exported configuration -/

namespace ConfSets

/-- All members. -/
def members (s : ConfSets) : Finset ℕ := s.incoming ∪ s.outgoing ∪ s.learners ∪ s.learnersNext

/-- The configurations that a tracker can have: there is a voter, node 0 is no member, a learner is
no voter, a staged learner leaves the voters, and nothing is staged outside a joint
configuration. -/
structure Valid (s : ConfSets) : Prop where
  voter : s.incoming ≠ ∅
  nonzero : 0 ∉ s.incoming ∪ s.outgoing ∪ s.learners ∪ s.learnersNext
  learners : ∀ id ∈ s.learners, id ∉ s.incoming ∧ id ∉ s.outgoing
  staged : ∀ id ∈ s.learnersNext, id ∈ s.outgoing ∧ id ∉ s.incoming ∧ id ∉ s.learners
  plain : s.outgoing = ∅ → s.autoLeave = false

/-- The part of `Valid` that single changes keep. -/
structure Apart (s : ConfSets) : Prop where
  nonzero : 0 ∉ s.members
  learners : ∀ id ∈ s.learners, id ∉ s.incoming ∧ id ∉ s.outgoing
  staged : ∀ id ∈ s.learnersNext, id ∈ s.outgoing ∧ id ∉ s.incoming ∧ id ∉ s.learners

theorem Valid.apart {s : ConfSets} (h : s.Valid) : s.Apart := ⟨h.nonzero, h.learners, h.staged⟩

theorem foldl_addNode (l : List ℕ) (h0 : 0 ∉ l) (s : ConfSets) :
    (l.map (fun id => (⟨.addNode, id⟩ : ConfChangeSingle))).foldl applyChange s = { s with
      incoming := s.incoming ∪ l.toFinset
      learners := s.learners \ l.toFinset
      learnersNext := s.learnersNext \ l.toFinset } := by
  induction l generalizing s with
  | nil => simp
  | cons id l ih =>
      have hid : id ≠ 0 := fun h => h0 (h ▸ List.mem_cons_self)
      rw [List.map_cons, List.foldl_cons, ih fun h => h0 (List.mem_cons_of_mem _ h)]
      unfold applyChange
      dsimp only
      rw [if_neg hid]
      ext a <;>
        simp only [List.toFinset_cons, Finset.mem_union, Finset.mem_insert, Finset.mem_sdiff,
          Finset.mem_erase, List.mem_toFinset] <;> grind

theorem foldl_removeNode (l : List ℕ) (h0 : 0 ∉ l) (s : ConfSets) :
    (l.map (fun id => (⟨.removeNode, id⟩ : ConfChangeSingle))).foldl applyChange s = { s with
      incoming := s.incoming \ l.toFinset
      learners := s.learners \ l.toFinset
      learnersNext := s.learnersNext \ l.toFinset } := by
  induction l generalizing s with
  | nil => simp
  | cons id l ih =>
      have hid : id ≠ 0 := fun h => h0 (h ▸ List.mem_cons_self)
      rw [List.map_cons, List.foldl_cons, ih fun h => h0 (List.mem_cons_of_mem _ h)]
      unfold applyChange
      dsimp only
      rw [if_neg hid]
      ext a <;>
        simp only [List.toFinset_cons, Finset.mem_insert, Finset.mem_sdiff, Finset.mem_erase,
          List.mem_toFinset] <;> grind

/-- Learners that were no members. -/
theorem foldl_addLearner (l : List ℕ) (h0 : 0 ∉ l) (s : ConfSets)
    (hl : ∀ id ∈ l, id ∉ s.incoming ∧ id ∉ s.outgoing ∧ id ∉ s.learnersNext) :
    (l.map (fun id => (⟨.addLearnerNode, id⟩ : ConfChangeSingle))).foldl applyChange s = { s with
      learners := s.learners ∪ l.toFinset } := by
  induction l generalizing s with
  | nil => simp
  | cons id l ih =>
      have hid : id ≠ 0 := fun h => h0 (h ▸ List.mem_cons_self)
      obtain ⟨hi, ho, hn⟩ := hl id List.mem_cons_self
      have hstep : s.applyChange ⟨.addLearnerNode, id⟩ = { s with learners := insert id s.learners } := by
        unfold applyChange
        dsimp only
        rw [if_neg hid, if_neg ho, Finset.erase_eq_of_notMem hi, Finset.erase_eq_of_notMem hn]
        split
        · rename_i hmem
          rw [Finset.insert_eq_of_mem hmem]
        · rfl
      rw [List.map_cons, List.foldl_cons, hstep, ih (fun h => h0 (List.mem_cons_of_mem _ h))
        { s with learners := insert id s.learners } fun id' h' => hl id' (List.mem_cons_of_mem _ h')]
      ext a
      all_goals simp only [List.toFinset_cons, Finset.mem_union, Finset.mem_insert]
      grind

/-- Learners that are still outgoing voters. -/
theorem foldl_stage (l : List ℕ) (h0 : 0 ∉ l) (s : ConfSets)
    (hl : ∀ id ∈ l, id ∉ s.incoming ∧ id ∈ s.outgoing ∧ id ∉ s.learners) :
    (l.map (fun id => (⟨.addLearnerNode, id⟩ : ConfChangeSingle))).foldl applyChange s = { s with
      learnersNext := s.learnersNext ∪ l.toFinset } := by
  induction l generalizing s with
  | nil => simp
  | cons id l ih =>
      have hid : id ≠ 0 := fun h => h0 (h ▸ List.mem_cons_self)
      obtain ⟨hi, ho, hn⟩ := hl id List.mem_cons_self
      have hstep : s.applyChange ⟨.addLearnerNode, id⟩ = { s with
          learnersNext := insert id s.learnersNext } := by
        unfold applyChange
        dsimp only
        rw [if_neg hid, if_neg hn, if_pos ho, Finset.erase_eq_of_notMem hi]
      rw [List.map_cons, List.foldl_cons, hstep, ih (fun h => h0 (List.mem_cons_of_mem _ h))
        { s with learnersNext := insert id s.learnersNext }
        fun id' h' => hl id' (List.mem_cons_of_mem _ h')]
      ext a
      all_goals simp only [List.toFinset_cons, Finset.mem_union, Finset.mem_insert]
      grind

/-- The changes of a configuration listed as `cs`, applied to its outgoing half, lead to it. -/
theorem foldl_incomingChanges {cs : ConfState} (h : cs.sets.Apart) (b : Bool) :
    (ConfRestore.incomingChanges cs).foldl applyChange
      { incoming := cs.sets.outgoing, outgoing := cs.sets.outgoing, autoLeave := b } =
      { cs.sets with autoLeave := b } := by
  have h0 := h.nonzero
  unfold members at h0
  simp only [Finset.mem_union, not_or, ConfState.sets, List.mem_toFinset] at h0
  obtain ⟨⟨⟨hz1, hz2⟩, hz3⟩, hz4⟩ := h0
  have hlearners := h.learners
  have hstaged := h.staged
  simp only [ConfState.sets, List.mem_toFinset] at hlearners hstaged
  unfold ConfRestore.incomingChanges
  rw [List.foldl_append, List.foldl_append, List.foldl_append, foldl_removeNode _ hz2, foldl_addNode _ hz1,
    foldl_addLearner cs.learners hz3, foldl_stage cs.learnersNext hz4]
  · ext a <;>
      simp only [ConfState.sets, Finset.mem_union, Finset.mem_sdiff, Finset.notMem_empty,
        List.mem_toFinset] <;>
      grind
  · intro id hid
    obtain ⟨ho, hi, hl⟩ := hstaged id hid
    simp only [ConfState.sets, Finset.mem_union, Finset.mem_sdiff, Finset.notMem_empty, List.mem_toFinset]
    grind
  · intro id hid
    obtain ⟨hi, ho⟩ := hlearners id hid
    simp only [ConfState.sets, Finset.mem_union, Finset.mem_sdiff, Finset.notMem_empty, List.mem_toFinset]
    grind

end ConfSets

namespace ConfRestore

variable {t : ProgressTracker}

/-- Applying changes one at a time succeeds while there is a voter. -/
theorem applySingly_sets (ccs : List ConfChangeSingle) {p : CheckAndCopyResult}
    (h : ConfChanger.CopySound p)
    (hne : ∀ k < ccs.length, ((ccs.take (k + 1)).foldl ConfSets.applyChange p.cfg.sets).incoming ≠ ∅) :
    ∃ q, applySingly p ccs = .ok q ∧ q.cfg.sets = ccs.foldl ConfSets.applyChange p.cfg.sets := by
  induction ccs generalizing p with
  | nil => exact ⟨p, rfl, rfl⟩
  | cons cc ccs ih =>
      have h1 := h.applyChange cc
      have hsets := ConfChanger.applyChange_sets h cc
      have hfirst : (ConfChanger.applyChange p cc).cfg.sets.incoming ≠ ∅ := by
        rw [hsets]
        exact hne 0 (Nat.succ_pos _)
      have hok : ConfChanger.applyChanges p [cc] = .ok (ConfChanger.applyChange p cc) := by
        unfold ConfChanger.applyChanges
        exact if_neg fun he => hfirst ((TrackerConfiguration.isEmpty_incoming_iff _).mp he)
      obtain ⟨q, hq, hqs⟩ := ih h1 fun k hk => by
        rw [hsets]
        exact hne (k + 1) (Nat.succ_lt_succ hk)
      refine ⟨q, bind_eq_ok.mpr ⟨_, hok, hq⟩, ?_⟩
      rw [hqs, hsets, List.foldl_cons]

/-- Replaying voters one at a time as simple changes. -/
theorem simpleSingly_sets {n : ℕ} (l : List ℕ) (h0 : 0 ∉ l) (h : t.Fits)
    (hout : t.conf.sets.outgoing = ∅) :
    ∃ u, simpleSingly n t (l.map (fun id => ⟨.addNode, id⟩)) = .ok u ∧ u.Fits ∧
      u.conf.sets = { t.conf.sets with
        incoming := t.conf.sets.incoming ∪ l.toFinset
        learners := t.conf.sets.learners \ l.toFinset
        learnersNext := t.conf.sets.learnersNext \ l.toFinset } := by
  induction l generalizing t with
  | nil =>
      refine ⟨t, rfl, h, ?_⟩
      simp
  | cons id l ih =>
      have hid : id ≠ 0 := fun h => h0 (h ▸ List.mem_cons_self)
      have hsingle := ConfSets.foldl_addNode [id] (by simpa using hid.symm) t.conf.sets
      have hsimple : t.conf.sets.simple [⟨.addNode, id⟩] = .ok { t.conf.sets with
          incoming := t.conf.sets.incoming ∪ [id].toFinset
          learners := t.conf.sets.learners \ [id].toFinset
          learnersNext := t.conf.sets.learnersNext \ [id].toFinset } := by
        unfold ConfSets.simple ConfSets.applyChanges
        rw [ensure_of hout, show ([⟨.addNode, id⟩] : List ConfChangeSingle).foldl
          ConfSets.applyChange t.conf.sets = _ from hsingle, if_neg]
        · refine bind_eq_ok.mpr ⟨(), rfl, bind_eq_ok.mpr ⟨_, rfl, bind_eq_ok.mpr ⟨(), ?_, rfl⟩⟩⟩
          refine ensure_of ((Finset.card_le_card ?_).trans (Finset.card_singleton id).le)
          intro a
          simp only [Finset.mem_symmDiff, Finset.mem_union, List.toFinset_cons, List.toFinset_nil,
            insert_empty_eq, Finset.mem_singleton]
          tauto
        · exact Finset.nonempty_iff_ne_empty.mp ⟨id, by simp⟩
      have hsets := ConfChanger.simple_sets h [⟨.addNode, id⟩]
      rw [hsimple, ConfChanger.map_eq_ok] at hsets
      obtain ⟨r, hr, hrs⟩ := hsets
      obtain ⟨h1, h2⟩ := ConfChanger.simple_sound h hr
      have hrs : (t.applyConf r.conf r.changes n).conf.sets = _ := hrs
      obtain ⟨u, hu, hus, huc⟩ := ih (fun h => h0 (List.mem_cons_of_mem _ h))
        (ProgressTracker.fits_applyConf h1 h2 n) (by rw [hrs]; exact hout)
      refine ⟨u, bind_eq_ok.mpr ⟨r, hr, hu⟩, hus, ?_⟩
      rw [huc, hrs]
      ext a <;>
        simp only [List.toFinset_cons, List.toFinset_nil, insert_empty_eq, Finset.mem_union,
          Finset.mem_insert, Finset.mem_sdiff, Finset.mem_singleton, List.mem_toFinset] <;> grind

/-- A voter stays while nodes are added and others become learners. -/
theorem mem_incoming_foldl {v : ℕ} (ccs : List ConfChangeSingle) {s : ConfSets}
    (hv : v ∈ s.incoming) (h : ∀ cc ∈ ccs, cc.changeType = .addNode ∨
      (cc.changeType = .addLearnerNode ∧ cc.nodeId ≠ v)) :
    v ∈ (ccs.foldl ConfSets.applyChange s).incoming := by
  induction ccs generalizing s with
  | nil => exact hv
  | cons cc ccs ih =>
      refine ih ?_ fun cc' h' => h cc' (List.mem_cons_of_mem _ h')
      unfold ConfSets.applyChange
      split
      · exact hv
      · rcases h cc List.mem_cons_self with hcc | ⟨hcc, hne⟩
        · rw [hcc]
          exact Finset.mem_insert_of_mem hv
        · rw [hcc]
          dsimp only
          split
          · exact hv
          · split
            · exact Finset.mem_erase.mpr ⟨hne.symm, hv⟩
            · exact Finset.mem_erase.mpr ⟨hne.symm, hv⟩

theorem plain_of_sets {c : TrackerConfiguration} (h : c.sets.Valid) : c.Plain := by
  intro hj
  have hout := (TrackerConfiguration.joint_eq_false_iff c).mp hj
  refine ⟨?_, h.plain hout⟩
  rw [← IdSet.card_toFinset, Finset.card_eq_zero, Finset.eq_empty_iff_forall_notMem]
  intro id hid
  have := (h.staged id hid).1
  rw [hout] at this
  exact Finset.notMem_empty id this

/-- A simple configuration is restored in one go. -/
theorem restoreEmpty_simple {cs : ConfState} (h : cs.sets.Valid) (hout : cs.votersOutgoing = [])
    (ht : t.Fits) (hempty : t.conf.sets = {}) (n : ℕ) :
    ∃ u, restoreEmpty t n cs = .ok u ∧ u.conf.sets = cs.sets := by
  have hcopy : ConfChanger.CopySound ⟨t.conf, { base := t.progress }⟩ := ht.conf
  have hnone : cs.sets.outgoing = ∅ := by
    unfold ConfState.sets
    rw [hout]
    rfl
  have hfold := ConfSets.foldl_incomingChanges h.apart false
  have hs : ({ cs.sets with autoLeave := false } : ConfSets) = cs.sets := by
    ext a
    · rfl
    · rfl
    · rfl
    · rfl
    · exact (h.plain hnone).symm
  rw [hs, hnone] at hfold
  -- the first voter is there from the first change on
  have hvoters : cs.voters ≠ [] := fun hnil => h.voter (congrArg List.toFinset hnil)
  obtain ⟨v, vs, hvs⟩ := List.exists_cons_of_ne_nil hvoters
  have hv : v ∈ cs.sets.incoming := by
    refine List.mem_toFinset.mpr ?_
    rw [hvs]
    exact List.mem_cons_self
  have hv0 : v ≠ 0 := by
    rintro rfl
    exact h.nonzero (by simp [hv])
  obtain ⟨rest, hchanges, hrest⟩ : ∃ rest, incomingChanges cs = ⟨.addNode, v⟩ :: rest ∧
      ∀ cc ∈ rest, cc.changeType = .addNode ∨ (cc.changeType = .addLearnerNode ∧ cc.nodeId ≠ v) := by
    unfold incomingChanges
    rw [hout, hvs]
    refine ⟨_, rfl, fun cc hcc => ?_⟩
    simp only [List.append_eq, List.mem_append, List.mem_map] at hcc
    rcases hcc with (⟨id, -, rfl⟩ | ⟨id, hid, rfl⟩) | ⟨id, hid, rfl⟩
    · exact Or.inl rfl
    · have hid : id ∈ cs.sets.learners := List.mem_toFinset.mpr hid
      exact Or.inr ⟨rfl, fun he => (h.learners id hid).1 ((show id = v from he) ▸ hv)⟩
    · have hid : id ∈ cs.sets.learnersNext := List.mem_toFinset.mpr hid
      exact Or.inr ⟨rfl, fun he => (h.staged id hid).2.1 ((show id = v from he) ▸ hv)⟩
  obtain ⟨q, hq, hqs⟩ := applySingly_sets (incomingChanges cs) hcopy fun k hk => by
    rw [hchanges, List.take_succ_cons, List.foldl_cons]
    refine Finset.nonempty_iff_ne_empty.mp ⟨v, mem_incoming_foldl _ ?_ fun cc hcc =>
      hrest cc (List.mem_of_mem_take hcc)⟩
    unfold ConfSets.applyChange
    rw [if_neg hv0]
    exact Finset.mem_insert_self _ _
  rw [hempty, hfold] at hqs
  obtain ⟨hqsound, -⟩ := applySingly_sound _ hcopy hq
  refine ⟨t.applyConf q.cfg q.prs.changes n, ?_, hqs⟩
  unfold restoreEmpty outgoingChanges
  rw [hout]
  refine bind_eq_ok.mpr ⟨_, ?_, bind_eq_ok.mpr ⟨q, hq, bind_eq_ok.mpr ⟨(), ?_, rfl⟩⟩⟩
  · rw [ConfChanger.checkAndCopy_sound ht]
    rfl
  · exact ConfChanger.checkInvariants_ok hqsound (plain_of_sets (hqs ▸ h))

/-- The outgoing half of a joint configuration is replayed first. -/
theorem replay_outgoing {cs : ConfState} (h0 : 0 ∉ cs.votersOutgoing) (ht : t.Fits)
    (hempty : t.conf.sets = {}) (n : ℕ) :
    ∃ u, simpleSingly n t (outgoingChanges cs) = .ok u ∧ u.Fits ∧
      u.conf.sets = { incoming := cs.sets.outgoing } := by
  obtain ⟨u, hu, hfits, hsets⟩ := simpleSingly_sets cs.votersOutgoing h0 ht (by rw [hempty]) (n := n)
  refine ⟨u, hu, hfits, ?_⟩
  rw [hsets, hempty]
  ext a <;> simp [ConfState.sets]

/-- A joint configuration is restored from its outgoing half. -/
theorem restoreEmpty_joint {cs : ConfState} (h : cs.sets.Valid) (hout : cs.votersOutgoing ≠ [])
    (ht : t.Fits) (hempty : t.conf.sets = {}) (n : ℕ) :
    ∃ u, restoreEmpty t n cs = .ok u ∧ u.conf.sets = cs.sets := by
  have h0 : 0 ∉ cs.votersOutgoing := by
    intro hmem
    have hmem : 0 ∈ cs.sets.outgoing := List.mem_toFinset.mpr hmem
    exact h.nonzero (by simp [hmem])
  have hne : cs.sets.outgoing ≠ ∅ := fun hnone => hout (List.toFinset_eq_empty_iff _ |>.mp hnone)
  obtain ⟨t1, ht1, hfits, hc1⟩ := replay_outgoing h0 ht hempty n
  have henter : t1.conf.sets.enterJoint cs.autoLeave (incomingChanges cs) = .ok cs.sets := by
    unfold ConfSets.enterJoint ConfSets.applyChanges
    rw [hc1]
    refine bind_eq_ok.mpr ⟨(), ensure_of rfl, bind_eq_ok.mpr ⟨(), ensure_of hne,
      bind_eq_ok.mpr ⟨{ cs.sets with autoLeave := false }, ?_, rfl⟩⟩⟩
    rw [ConfSets.foldl_incomingChanges h.apart false, if_neg h.voter]
  have hsets := ConfChanger.enterJoint_sets hfits cs.autoLeave (incomingChanges cs)
  rw [henter, ConfChanger.map_eq_ok] at hsets
  obtain ⟨r, hr, hrs⟩ := hsets
  refine ⟨t1.applyConf r.conf r.changes n, ?_, hrs⟩
  unfold restoreEmpty
  rw [if_neg]
  · exact bind_eq_ok.mpr ⟨t1, ht1, bind_eq_ok.mpr ⟨r, hr, rfl⟩⟩
  · unfold outgoingChanges
    simpa using hout

/-- Restoring the list of a configuration leads to it, in whatever order its members are listed. -/
theorem restore_list {cs : ConfState} (h : cs.sets.Valid) (t : ProgressTracker) (n : ℕ) :
    ∃ u, restore t n cs = .ok u ∧ u.conf.sets = cs.sets := by
  have ht : ({ ProgressTracker.init t.maxInflight with groupCommit := t.groupCommit } :
      ProgressTracker).Sound := (ProgressTracker.sound_init t.maxInflight).of_eq rfl rfl
  by_cases hout : cs.votersOutgoing = []
  · exact restoreEmpty_simple h hout ht.fits rfl n
  · exact restoreEmpty_joint h hout ht.fits rfl n

/-- Restoring an exported configuration gives it back. -/
theorem restore_sets {s : ConfSets} (h : s.Valid) (t : ProgressTracker) {n : ℕ} (hn : 0 < n) :
    ∃ u, restore t n s.toConfState = .ok u ∧ u.Sound ∧ u.conf.sets = s := by
  obtain ⟨u, hu, hs⟩ := restore_list (show s.toConfState.sets.Valid by rwa [ConfSets.sets_toConfState]) t n
  rw [ConfSets.sets_toConfState] at hs
  exact ⟨u, hu, restore_sound hn hu, hs⟩

end ConfRestore

namespace ConfSets

/-! ### Changes lead from one configuration to another -/

variable {s s' : ConfSets}

theorem applyChange_outgoing (s : ConfSets) (cc : ConfChangeSingle) :
    (s.applyChange cc).outgoing = s.outgoing ∧ (s.applyChange cc).autoLeave = s.autoLeave := by
  unfold applyChange
  split
  · exact ⟨rfl, rfl⟩
  · split
    · exact ⟨rfl, rfl⟩
    · exact ⟨rfl, rfl⟩
    · split
      · exact ⟨rfl, rfl⟩
      · split <;> exact ⟨rfl, rfl⟩
    · exact ⟨rfl, rfl⟩

theorem applyChange_members (s : ConfSets) (cc : ConfChangeSingle) :
    (s.applyChange cc).members ⊆ insert cc.nodeId s.members := by
  intro id
  unfold applyChange members
  simp only [Finset.mem_insert, Finset.mem_union]
  split
  · exact Or.inr
  · split
    · simp only [Finset.mem_insert, Finset.mem_erase]
      tauto
    · simp only [Finset.mem_erase]
      tauto
    · split
      · exact Or.inr
      · split
        · simp only [Finset.mem_insert, Finset.mem_erase]
          tauto
        · simp only [Finset.mem_insert, Finset.mem_erase]
          tauto
    · exact Or.inr

theorem Apart.applyChange (h : s.Apart) (cc : ConfChangeSingle) : (s.applyChange cc).Apart := by
  have hmem := applyChange_members s cc
  obtain ⟨h0, hl, hn⟩ := h
  by_cases hz : cc.nodeId = 0
  · unfold ConfSets.applyChange
    rw [if_pos hz]
    exact ⟨h0, hl, hn⟩
  · refine ⟨?_, ?_, ?_⟩
    · intro hin
      rcases Finset.mem_insert.mp (hmem hin) with h1 | h1
      · exact hz h1.symm
      · exact h0 h1
    · unfold ConfSets.applyChange
      rw [if_neg hz]
      grind
    · unfold ConfSets.applyChange
      rw [if_neg hz]
      grind

theorem Apart.foldl (h : s.Apart) (ccs : List ConfChangeSingle) :
    (ccs.foldl ConfSets.applyChange s).Apart ∧
      (ccs.foldl ConfSets.applyChange s).outgoing = s.outgoing ∧
      (ccs.foldl ConfSets.applyChange s).autoLeave = s.autoLeave ∧
      (ccs.foldl ConfSets.applyChange s).members ⊆ s.members ∪ (ccs.map ConfChangeSingle.nodeId).toFinset := by
  induction ccs generalizing s with
  | nil => exact ⟨h, rfl, rfl, by simp⟩
  | cons cc ccs ih =>
      obtain ⟨h1, h2, h3, h4⟩ := ih (h.applyChange cc)
      obtain ⟨ho, ha⟩ := applyChange_outgoing s cc
      refine ⟨h1, h2.trans ho, h3.trans ha, fun id hid => ?_⟩
      have hmem := applyChange_members s cc
      rcases Finset.mem_union.mp (h4 hid) with h5 | h5
      · rcases Finset.mem_insert.mp (hmem h5) with h6 | h6
        · simp [h6]
        · simp [h6]
      · simp only [List.map_cons, List.toFinset_cons, Finset.mem_union, Finset.mem_insert]
        exact Or.inr (Or.inr h5)

/-- What a change can lead to. -/
theorem Valid.change (h : s.Valid) {cc : ConfChangeV2} (hs : s.change cc = .ok s') :
    s'.Valid ∧ s'.members ⊆ s.members ∪ (cc.changes.map ConfChangeSingle.nodeId).toFinset := by
  unfold ConfSets.change at hs
  split at hs
  · -- the staged learners become learners
    unfold leaveJoint at hs
    obtain ⟨_, _, hs⟩ := bind_eq_ok.mp hs
    cases hs
    obtain ⟨hv, h0, hl, hn, -⟩ := h
    refine ⟨⟨hv, ?_, ?_, ?_, fun _ => rfl⟩, ?_⟩
    · simp only [Finset.mem_union, not_or, Finset.notMem_empty] at h0 ⊢
      tauto
    · intro id hid
      refine ⟨?_, Finset.notMem_empty id⟩
      rcases Finset.mem_union.mp hid with h1 | h1
      · exact (hl id h1).1
      · exact (hn id h1).2.1
    · intro id hid
      exact absurd hid (Finset.notMem_empty id)
    · intro id hid
      unfold members at hid ⊢
      simp only [Finset.mem_union, Finset.notMem_empty] at hid ⊢
      tauto
  · split at hs
    · rename_i autoLeave _
      unfold enterJoint at hs
      obtain ⟨_, hout, hs⟩ := bind_eq_ok.mp hs
      obtain ⟨_, hne, hs⟩ := bind_eq_ok.mp hs
      obtain ⟨q, hq, hs⟩ := bind_eq_ok.mp hs
      cases hs
      have hout := ensure_eq_ok.mp hout
      have hne := ensure_eq_ok.mp hne
      have hstart : ({ s with outgoing := s.incoming } : ConfSets).Apart := by
        refine ⟨?_, fun id hid => ⟨(h.learners id hid).1, (h.learners id hid).1⟩, fun id hid => ?_⟩
        · have h0 := h.nonzero
          unfold members
          simp only [Finset.mem_union, not_or] at h0 ⊢
          tauto
        · have hin := (h.staged id hid).1
          rw [hout] at hin
          exact absurd hin (Finset.notMem_empty id)
      unfold applyChanges at hq
      split at hq
      · cases hq
      · rename_i hinc
        cases hq
        obtain ⟨hd, ho, -, hm⟩ := hstart.foldl cc.changes
        refine ⟨⟨hinc, hd.nonzero, hd.learners, hd.staged, fun he => absurd (ho.symm.trans he) hne⟩, ?_⟩
        refine Finset.Subset.trans hm (Finset.union_subset_union_left ?_)
        intro id hid
        unfold members at hid ⊢
        simp only [Finset.mem_union] at hid ⊢
        tauto
    · unfold simple at hs
      obtain ⟨_, hout, hs⟩ := bind_eq_ok.mp hs
      obtain ⟨q, hq, hs⟩ := bind_eq_ok.mp hs
      obtain ⟨_, _, hs⟩ := bind_eq_ok.mp hs
      cases hs
      have hout := ensure_eq_ok.mp hout
      unfold applyChanges at hq
      split at hq
      · cases hq
      · rename_i hinc
        cases hq
        obtain ⟨hd, ho, ha, hm⟩ := h.apart.foldl cc.changes
        exact ⟨⟨hinc, hd.nonzero, hd.learners, hd.staged, fun _ => ha.trans (h.plain hout)⟩, hm⟩

end ConfSets

end Raftz
