import Raftz.TrackerInvariant

/-! # Restoring a configuration inverts exporting it

`restore` replays the members of an exported configuration into an empty tracker:
the outgoing voters one at a time, then one change into the joint configuration.
Every configuration that passes its check is given back, with a fresh progress for
each member.  Of the lists a follower accepts in a snapshot, `restore` either
reproduces the sets or fails and leaves the tracker alone
(`restoreInPlace_inverse`). -/

open Base

namespace Raftz

/-- Two exports that list the same members, possibly in another order. -/
structure ConfState.Reorders (cs cs' : ConfState) : Prop where
  voters : cs.voters.Perm cs'.voters
  learners : cs.learners.Perm cs'.learners
  votersOutgoing : cs.votersOutgoing.Perm cs'.votersOutgoing
  learnersNext : cs.learnersNext.Perm cs'.learnersNext
  autoLeave : cs.autoLeave = cs'.autoLeave

/-- The progress of a peer that has just been added. -/
def freshProgress (nextIdx maxInflight : ℕ) : Progress :=
  { Progress.init nextIdx maxInflight with recentActive := true }

namespace ConfRestore

/-- `restore` on the tracker it replaces: the rebuilt one is installed last. -/
def restoreInPlace (nextIdx : ℕ) (cs : ConfState) : Act Err ProgressTracker Unit := do
  let rebuilt ← Act.query (fun t => restore t nextIdx cs)
  Act.modify (fun _ => rebuilt)

variable {t u : ProgressTracker} {nextIdx : ℕ} {cs : ConfState}

theorem restoreInPlace_ok (h : restore t nextIdx cs = .ok u) : restoreInPlace nextIdx cs t = .ok () u :=
  Act.bind_run (Act.query_run h)

theorem restoreInPlace_err {e : Err} (h : restore t nextIdx cs = .error e) :
    restoreInPlace nextIdx cs t = .err e t :=
  Act.bind_run_err (Act.query_run_err h)

/-! ### Fresh progress -/

/-- A restored tracker follows the members of its configuration, each with a fresh progress. -/
theorem restore_get (h : restore t nextIdx cs = .ok u) (id : ℕ) :
    u.get id = if id ∈ u.conf.sets.members then some (freshProgress nextIdx t.maxInflight) else none := by
  have hkeys := (ProgressTracker.consistent_iff_fits.mpr (restore_fits h)).keys id
  have hmember : id ∈ u.conf.sets.members ↔ id ∈ u.progress := by
    rw [hkeys]
    simp only [ConfSets.members, TrackerConfiguration.sets, Finset.mem_union, IdSet.mem_toFinset, or_assoc]
  have hfresh := (restore_forall (P := fun _ p => p = freshProgress nextIdx t.maxInflight)
    (fun _ => rfl) h).1 id
  cases hget : u.get id with
  | some p =>
      have hid : id ∈ u.progress := AList.lookup_isSome.mp (Option.isSome_iff_exists.mpr ⟨p, hget⟩)
      rw [if_pos (hmember.mpr hid), hfresh p hget]
  | none =>
      have hid : id ∉ u.progress := AList.lookup_eq_none.mp hget
      rw [if_neg fun hm => hid (hmember.mp hm)]

/-! ### Lists that are accepted -/

/-- What the check of a received configuration says about the sets it lists. -/
theorem apart_of_valid (h : Raft.validConfState cs = true) :
    cs.sets.Apart ∧ (cs.sets.outgoing = ∅ → cs.sets.autoLeave = false) ∧ cs.voters.Nodup ∧
      cs.learners.Nodup ∧ cs.votersOutgoing.Nodup ∧ cs.learnersNext.Nodup := by
  unfold Raft.validConfState at h
  simp only [Bool.and_eq_true, List.all_eq_true, decide_eq_true_eq, Bool.not_eq_true',
    List.mem_append] at h
  obtain ⟨⟨⟨⟨⟨⟨⟨hzero, hv⟩, hl⟩, ho⟩, hn⟩, hroles⟩, hauto⟩, hnext⟩ := h
  have hmem : ∀ id, id ∈ cs.sets.members ↔
      ((id ∈ cs.voters ∨ id ∈ cs.learners) ∨ id ∈ cs.votersOutgoing) ∨ id ∈ cs.learnersNext := by
    intro id
    simp only [ConfSets.members, ConfState.sets, Finset.mem_union, List.mem_toFinset]
    tauto
  refine ⟨⟨?_, ?_, ?_⟩, ?_, hv, hl, ho, hn⟩
  · intro h0
    exact hzero 0 ((hmem 0).mp h0) rfl
  · -- a learner has no other role
    intro id hid
    have hid : id ∈ cs.learners := List.mem_toFinset.mp hid
    have hrole := hroles id (Or.inl (Or.inl (Or.inr hid)))
    unfold Raft.memberRoles at hrole
    rw [if_pos hid] at hrole
    simp only [ConfState.sets, List.mem_toFinset]
    constructor <;> intro hother <;> rw [if_pos hother] at hrole <;> revert hrole <;>
      split <;> split <;> decide
  · -- a staged learner is an outgoing voter and nothing else
    intro id hid
    have hid : id ∈ cs.learnersNext := List.mem_toFinset.mp hid
    have hrole := hroles id (Or.inr hid)
    unfold Raft.memberRoles at hrole
    rw [if_pos hid, if_pos (hnext id hid)] at hrole
    simp only [ConfState.sets, List.mem_toFinset]
    refine ⟨hnext id hid, ?_, ?_⟩ <;> intro hother <;> rw [if_pos hother] at hrole <;> revert hrole <;>
      split <;> decide
  · intro hout
    have hnil : cs.votersOutgoing = [] := List.toFinset_eq_empty_iff _ |>.mp hout
    rw [hnil] at hauto
    show cs.autoLeave = false
    simpa using hauto

/-- Lists without repetition are the export of their sets up to order. -/
theorem reorders_of_sets {c : TrackerConfiguration} (hs : c.sets = cs.sets) (hv : cs.voters.Nodup)
    (hl : cs.learners.Nodup) (ho : cs.votersOutgoing.Nodup) (hn : cs.learnersNext.Nodup) :
    c.toConfState.Reorders cs := by
  have hperm : ∀ {l : List ℕ}, l.Nodup → (l.toFinset.sort (· ≤ ·)).Perm l := by
    intro l hnodup
    rw [List.perm_ext_iff_of_nodup (Finset.sort_nodup _ _) hnodup]
    intro id
    rw [Finset.mem_sort, List.mem_toFinset]
  rw [TrackerConfiguration.toConfState_eq, hs]
  exact ⟨hperm hv, hperm hl, hperm ho, hperm hn, rfl⟩

/-! ### Lists without a voter -/

/-- Without a voter only the empty configuration is restored. -/
theorem restore_no_voter (h : cs.sets.Apart) (hplain : cs.sets.outgoing = ∅ → cs.sets.autoLeave = false)
    (hv : cs.voters = []) (hu : restore t nextIdx cs = .ok u) : u.conf.sets = cs.sets := by
  have ht : ({ ProgressTracker.init t.maxInflight with groupCommit := t.groupCommit } :
      ProgressTracker).Sound := (ProgressTracker.sound_init t.maxInflight).of_eq rfl rfl
  have hnone : cs.sets.incoming = ∅ := by
    unfold ConfState.sets
    rw [hv]
    rfl
  unfold restore restoreEmpty at hu
  by_cases hout : cs.votersOutgoing = []
  · have hempty : cs.sets.outgoing = ∅ := congrArg List.toFinset hout
    have hnext : cs.learnersNext = [] := by
      rw [List.eq_nil_iff_forall_not_mem]
      intro id hid
      have := (h.staged id (List.mem_toFinset.mpr hid)).1
      rw [hempty] at this
      exact Finset.notMem_empty id this
    unfold outgoingChanges incomingChanges at hu
    rw [hout, hv, hnext] at hu
    obtain ⟨p, hp, hu⟩ := bind_eq_ok.mp hu
    rw [ConfChanger.checkAndCopy_sound ht.fits] at hp
    cases hp
    obtain ⟨q, hq, hu⟩ := bind_eq_ok.mp hu
    obtain ⟨_, _, hu⟩ := bind_eq_ok.mp hu
    cases hu
    cases hlearners : cs.learners with
    | nil =>
        rw [hlearners] at hq
        cases hq
        ext a
        · rw [hnone]
          rfl
        · rw [hempty]
          rfl
        · show a ∈ (∅ : Finset ℕ) ↔ a ∈ cs.learners.toFinset
          rw [hlearners]
          rfl
        · show a ∈ (∅ : Finset ℕ) ↔ a ∈ cs.learnersNext.toFinset
          rw [hnext]
          rfl
        · exact (hplain hempty).symm
    | cons id l =>
        -- a first learner leaves no voter
        rw [hlearners] at hq
        obtain ⟨q', hq', -⟩ := bind_eq_ok.mp hq
        have hsets := ConfChanger.applyChanges_sets (p := ⟨_, { base := _ }⟩)
          (show ConfChanger.CopySound _ from ht.conf) [⟨.addLearnerNode, id⟩]
        rw [show ConfChanger.applyChanges _ [⟨.addLearnerNode, id⟩] = .ok q' from hq'] at hsets
        have hrefused : ConfSets.applyChanges {} [⟨.addLearnerNode, id⟩] = .error .removedAllVoters := by
          refine if_pos ?_
          show (ConfSets.applyChange {} ⟨.addLearnerNode, id⟩).incoming = ∅
          unfold ConfSets.applyChange
          split
          · rfl
          · rfl
        cases hsets.trans hrefused
  · have h0 : 0 ∉ cs.votersOutgoing := by
      intro hmem
      have hmem : 0 ∈ cs.sets.outgoing := List.mem_toFinset.mpr hmem
      exact h.nonzero (by simp [ConfSets.members, hmem])
    rw [if_neg (by simpa [outgoingChanges] using hout)] at hu
    obtain ⟨t1, ht1, hu⟩ := bind_eq_ok.mp hu
    obtain ⟨r, hr, -⟩ := bind_eq_ok.mp hu
    obtain ⟨t1', ht1', hfits, hc1⟩ := replay_outgoing h0 ht.fits rfl nextIdx
    cases ht1.symm.trans ht1'
    have hsets := ConfChanger.enterJoint_sets hfits cs.autoLeave (incomingChanges cs)
    rw [hr, hc1] at hsets
    -- the change into the joint configuration removes every voter
    unfold ConfSets.enterJoint ConfSets.applyChanges at hsets
    obtain ⟨_, _, hsets⟩ := bind_eq_ok.mp hsets.symm
    obtain ⟨_, _, hsets⟩ := bind_eq_ok.mp hsets
    obtain ⟨_, hsets, _⟩ := bind_eq_ok.mp hsets
    rw [ConfSets.foldl_incomingChanges h false, if_pos hnone] at hsets
    cases hsets

/-- A configuration that passes its check, has a voter and no member 0, and whose staged learners are
no incoming voters, is restored from its export, with one fresh progress for each member.  A list that
a follower accepts is reproduced up to order, or the tracker is left as it was. -/
theorem restoreInPlace_inverse :
    (∀ (c : TrackerConfiguration) (prs : IncrChangeMap), checkInvariants c prs = .ok () →
      c.voters.incoming.isEmpty = false → 0 ∉ c.sets.members →
      (∀ id ∈ c.learnersNext, id ∉ c.voters.incoming.voters) →
        ∀ (t : ProgressTracker) (nextIdx : ℕ), ∃ u, restoreInPlace nextIdx c.toConfState t = .ok () u ∧
          u.conf.toConfState = c.toConfState ∧
          ∀ id, u.get id =
            if id ∈ c.sets.members then some (freshProgress nextIdx t.maxInflight) else none) ∧
      ∀ cs : ConfState, Raft.validConfState cs = true → ∀ (t : ProgressTracker) (nextIdx : ℕ),
        (∃ u, restoreInPlace nextIdx cs t = .ok () u ∧ u.conf.toConfState.Reorders cs) ∨
          ∃ e, restoreInPlace nextIdx cs t = .err e t := by
  refine ⟨fun c prs hc hne h0 hapart t nextIdx => ?_, fun cs hcs t nextIdx => ?_⟩
  · obtain ⟨hl, hn⟩ := checkInvariants_learners hc
    have hmem : ∀ (s : IdSet) (id : ℕ), id ∈ s.toFinset ↔ id ∈ s := fun _ _ => IdSet.mem_toFinset
    have hvalid : c.sets.Valid := by
      refine ⟨?_, h0, fun id hid => ?_, fun id hid => ?_, fun hout => ?_⟩
      · rw [Ne, ← TrackerConfiguration.isEmpty_incoming_iff, hne]
        exact Bool.false_ne_true
      · obtain ⟨ho, hi⟩ := hl id ((hmem _ _).mp hid)
        exact ⟨fun h => hi ((hmem _ _).mp h), fun h => ho ((hmem _ _).mp h)⟩
      · have hid := (hmem _ _).mp hid
        exact ⟨(hmem _ _).mpr (hn id hid), fun h => hapart id hid ((hmem _ _).mp h),
          fun h => (hl id ((hmem _ _).mp h)).1 (hn id hid)⟩
      · exact (checkInvariants_plain hc ((TrackerConfiguration.joint_eq_false_iff c).mpr hout)).2
    obtain ⟨u, hu, hs⟩ := restore_list (show c.sets.toConfState.sets.Valid by
      rwa [ConfSets.sets_toConfState]) t nextIdx
    rw [ConfSets.sets_toConfState] at hs
    rw [← TrackerConfiguration.toConfState_eq] at hu
    refine ⟨u, restoreInPlace_ok hu, ?_, fun id => ?_⟩
    · rw [TrackerConfiguration.toConfState_eq, hs, ← TrackerConfiguration.toConfState_eq]
    · rw [restore_get hu id, hs]
  · obtain ⟨hapart, hplain, hv, hl, ho, hn⟩ := apart_of_valid hcs
    cases hu : restore t nextIdx cs with
    | error e => exact Or.inr ⟨e, restoreInPlace_err hu⟩
    | ok u =>
        refine Or.inl ⟨u, restoreInPlace_ok hu, reorders_of_sets ?_ hv hl ho hn⟩
        by_cases hvoters : cs.voters = []
        · exact restore_no_voter hapart hplain hvoters hu
        · have hvalid : cs.sets.Valid :=
            ⟨fun he => hvoters (List.toFinset_eq_empty_iff _ |>.mp he), hapart.nonzero, hapart.learners,
              hapart.staged, hplain⟩
          obtain ⟨u', hu', hs⟩ := restore_list hvalid t nextIdx
          cases hu.symm.trans hu'
          exact hs

/-- A joint configuration in which an outgoing voter is to become a learner. -/
def demoting : TrackerConfiguration where
  voters := ⟨⟨[2, 1], by decide⟩, ⟨[3, 1], by decide⟩⟩
  learnersNext := ⟨[3], by decide⟩

theorem restoreInPlace_demoting :
    ∃ u, restoreInPlace 7 demoting.toConfState (ProgressTracker.init 8) = .ok () u ∧
      u.conf.toConfState = demoting.toConfState := by
  obtain ⟨u, hu, hs, -⟩ := restoreInPlace_inverse.1 demoting ⟨∅, [⟨1, .add⟩, ⟨2, .add⟩, ⟨3, .add⟩]⟩
    (by decide) (by decide) (by decide) (by decide) (ProgressTracker.init 8) 7
  exact ⟨u, hu, hs⟩

end ConfRestore

end Raftz
