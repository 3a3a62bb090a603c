import Raftz.ConfSets
import Raftz.Raft.Step

/-! # The configuration invariant

`checkInvariants` says what a configuration must satisfy relative to the peers that
are followed.  Together with two facts it does not check (no staged learner is an
incoming voter, nobody outside the configuration is followed) it is kept by every
call of the changer whose result is installed (`install_consistent`): the changer
edits a layered view of the progress map, and replaying its edits on the map itself
follows exactly the members of the new configuration. -/

open Base

namespace Raftz

/-- The configuration passes its check, and exactly its members are followed. -/
structure ProgressTracker.Consistent (t : ProgressTracker) : Prop where
  checked : checkInvariants t.conf { base := t.progress } = .ok ()
  apart : ∀ id ∈ t.conf.learnersNext, id ∉ t.conf.voters.incoming.voters
  keys : ∀ id, id ∈ t.progress ↔ id ∈ t.conf.voters.incoming.voters ∨
    id ∈ t.conf.voters.outgoing.voters ∨ id ∈ t.conf.learners ∨ id ∈ t.conf.learnersNext

/-! ### What the check says -/

theorem checkInvariants_learners {c : TrackerConfiguration} {prs : IncrChangeMap}
    (h : checkInvariants c prs = .ok ()) :
    (∀ id ∈ c.learners, id ∉ c.voters.outgoing.voters ∧ id ∉ c.voters.incoming.voters) ∧
      ∀ id ∈ c.learnersNext, id ∈ c.voters.outgoing.voters := by
  unfold checkInvariants at h
  split at h
  · cases h
  · split at h
    · cases h
    · split at h
      · cases h
      · rename_i hl hn
        rw [Bool.not_eq_false, List.all_eq_true] at hl hn
        refine ⟨fun id hid => ?_, fun id hid => ?_⟩
        · have := hl id hid
          simp only [Bool.and_eq_true, Bool.not_eq_true', ← Bool.not_eq_true,
            ConfChanger.contains_voters] at this
          exact ⟨this.1.2, this.2⟩
        · have := hn id hid
          simp only [Bool.and_eq_true, ConfChanger.contains_voters] at this
          exact this.2

theorem ProgressTracker.consistent_iff_fits {t : ProgressTracker} : t.Consistent ↔ t.Fits := by
  constructor
  · rintro ⟨hchecked, hapart, hkeys⟩
    obtain ⟨hl, hn⟩ := checkInvariants_learners hchecked
    have hcontains : ∀ id, t.contains id = true ↔ id ∈ t.progress := fun id => decide_eq_true_iff
    refine ⟨⟨?_, ?_, ?_, ?_, ?_⟩, checkInvariants_plain hchecked⟩
    · exact fun id hid => (hcontains id).mpr ((hkeys id).mpr (Or.inl hid))
    · exact fun id hid => (hcontains id).mpr ((hkeys id).mpr (Or.inr (Or.inl hid)))
    · intro id hid
      exact ⟨(hcontains id).mpr ((hkeys id).mpr (Or.inr (Or.inr (Or.inl hid)))), (hl id hid).2, (hl id hid).1⟩
    · intro id hid
      exact ⟨(hcontains id).mpr ((hkeys id).mpr (Or.inr (Or.inr (Or.inr hid)))), hn id hid, hapart id hid,
        fun hlearner => (hl id hlearner).1 (hn id hid)⟩
    · exact fun id hid => (hkeys id).mp ((hcontains id).mp hid)
  · rintro ⟨hconf, hplain⟩
    refine ⟨ConfChanger.checkInvariants_ok hconf hplain, fun id hid => (hconf.learnersNext id hid).2.2.1, ?_⟩
    intro id
    refine ⟨fun hid => hconf.known id (decide_eq_true hid), ?_⟩
    rintro (hid | hid | hid | hid)
    · exact of_decide_eq_true (hconf.incoming id hid)
    · exact of_decide_eq_true (hconf.outgoing id hid)
    · exact of_decide_eq_true (hconf.learners id hid).1
    · exact of_decide_eq_true (hconf.learnersNext id hid).1

/-! ### Edits of the progress map -/

/-- A peer followed from the start whose progress is not removed is not edited. -/
def IncrChangeMap.Paired (m : IncrChangeMap) : Prop :=
  ∀ id ∈ m.base, ⟨id, .remove⟩ ∉ m.changes → ∀ k, ⟨id, k⟩ ∉ m.changes

namespace ConfChanger

variable {p q : CheckAndCopyResult} {t : ProgressTracker}

theorem paired_remove {m : IncrChangeMap} (h : m.Paired) (id : ℕ) : (m.appendChange id .remove).Paired := by
  intro j hj hremove k hk
  have hne : j ≠ id := by
    rintro rfl
    exact hremove (List.mem_append_right _ (List.mem_singleton.mpr rfl))
  rcases List.mem_append.mp hk with hk | hk
  · exact h j hj (fun hr => hremove (List.mem_append_left _ hr)) k hk
  · exact hne (congrArg MapChangeEntry.id (List.mem_singleton.mp hk))

/-- A peer is added only when it is not followed: either it never was or it was removed. -/
theorem paired_add {m : IncrChangeMap} (h : m.Paired) {id : ℕ} (hid : m.contains id = false) :
    (m.appendChange id .add).Paired := by
  intro j hj hremove k hk
  have hold : ∀ k, (⟨j, k⟩ : MapChangeEntry) ∉ m.changes :=
    h j hj fun hr => hremove (List.mem_append_left _ hr)
  rcases List.mem_append.mp hk with hk | hk
  · exact hold k hk
  · have hji : j = id := congrArg MapChangeEntry.id (List.mem_singleton.mp hk)
    subst hji
    have hnone : m.changes.reverse.find? (fun c => c.id == j) = none := by
      refine List.find?_eq_none.mpr fun c hc hcj => ?_
      have hcj : c.id = j := by simpa using hcj
      exact hold c.kind (hcj ▸ List.mem_reverse.mp hc)
    unfold IncrChangeMap.contains at hid
    rw [hnone] at hid
    exact of_decide_eq_false hid hj

theorem paired_applyChange (h : p.prs.Paired) (cc : ConfChangeSingle) : (applyChange p cc).prs.Paired := by
  unfold applyChange
  split
  · exact h
  · cases cc.changeType with
    | addNode =>
        dsimp only
        unfold makeVoter
        split
        · rename_i hid
          exact paired_add h hid
        · exact h
    | removeNode =>
        dsimp only
        unfold remove
        split
        · exact h
        · dsimp only
          split
          · exact h
          · exact paired_remove h _
    | addLearnerNode =>
        dsimp only
        unfold makeLearner
        split
        · rename_i hid
          exact paired_add h hid
        · split
          · exact h
          · split <;> exact h
    | updateNode => exact h

theorem paired_applyChanges (h : p.prs.Paired) {ccs : List ConfChangeSingle}
    (hq : applyChanges p ccs = .ok q) : q.prs.Paired := by
  have hfold : ∀ (l : List ConfChangeSingle) (p : CheckAndCopyResult), p.prs.Paired →
      (l.foldl applyChange p).prs.Paired := by
    intro l
    induction l with
    | nil => exact fun _ hp => hp
    | cons cc l ih => exact fun p hp => ih _ (paired_applyChange hp cc)
  unfold applyChanges at hq
  dsimp only at hq
  split at hq
  · cases hq
  · cases hq
    exact hfold ccs p h

theorem paired_leavers (l : List ℕ) {m : IncrChangeMap} (h : m.Paired) :
    (l.foldl (fun prs id => prs.appendChange id .remove) m).Paired := by
  induction l generalizing m with
  | nil => exact h
  | cons a l ih => exact ih (paired_remove h a)

end ConfChanger

/-- Peers that are not edited keep their progress. -/
theorem ProgressTracker.lookup_foldl_applyChange {maxInflight nextIdx id : ℕ}
    (changes : List MapChangeEntry) {m : ProgressMap} (h : ∀ k, ⟨id, k⟩ ∉ changes) :
    (changes.foldl (applyChange maxInflight nextIdx) m).lookup id = m.lookup id := by
  induction changes generalizing m with
  | nil => rfl
  | cons c changes ih =>
      have hne : id ≠ c.id := fun he => h c.kind (he ▸ List.mem_cons_self)
      rw [List.foldl_cons, ih fun k hk => h k (List.mem_cons_of_mem _ hk)]
      unfold applyChange
      cases c.kind with
      | add => exact AList.lookup_insert_ne hne
      | remove => exact AList.lookup_erase_ne hne

/-! ### Members in order -/

namespace ProgressTracker

theorem mem_dedupSorted (l : List ℕ) (a : ℕ) : a ∈ dedupSorted l ↔ a ∈ l := by
  fun_induction dedupSorted l with
  | case1 => rfl
  | case2 b => rfl
  | case3 b l ih => rw [ih, List.mem_cons (b := b) (l := b :: l), or_iff_right_of_imp fun h => h ▸ List.mem_cons_self]
  | case4 b b' l hne ih => rw [List.mem_cons, List.mem_cons, ih]

theorem dedupSorted_pairwise {l : List ℕ} (h : l.Pairwise (· ≤ ·)) : (dedupSorted l).Pairwise (· < ·) := by
  fun_induction dedupSorted l with
  | case1 => exact List.Pairwise.nil
  | case2 b => exact List.pairwise_singleton _ _
  | case3 b l ih => exact ih (List.pairwise_cons.mp h).2
  | case4 b b' l hne ih =>
      obtain ⟨hb, htail⟩ := List.pairwise_cons.mp h
      refine List.pairwise_cons.mpr ⟨fun x hx => ?_, ih htail⟩
      rw [mem_dedupSorted] at hx
      have hbb' : b < b' := lt_of_le_of_ne (hb b' List.mem_cons_self) hne
      rcases List.mem_cons.mp hx with rfl | hx
      · exact hbb'
      · exact hbb'.trans_le ((List.pairwise_cons.mp htail).1 x hx)

/-- The peer ids are the members in increasing order, each once. -/
theorem peerIdsOf_eq (c : TrackerConfiguration) : peerIdsOf c = c.sets.members.sort (· ≤ ·) := by
  have hsorted : (peerIdsOf c).Pairwise (· < ·) := dedupSorted_pairwise (List.pairwise_insertionSort _ _)
  refine List.Perm.eq_of_pairwise (fun _ _ _ _ => le_antisymm) (hsorted.imp le_of_lt)
    (Finset.pairwise_sort _ _) ?_
  rw [List.perm_ext_iff_of_nodup (hsorted.imp fun h => h.ne) (Finset.sort_nodup _ _)]
  intro id
  unfold peerIdsOf
  rw [mem_dedupSorted, List.mem_insertionSort, Finset.mem_sort]
  simp only [ConfSets.members, TrackerConfiguration.sets, Finset.mem_union, IdSet.mem_toFinset,
    List.mem_append, IdSet.mem_def]

end ProgressTracker

/-! ### Calls of the changer -/

/-- A call of the changer. -/
inductive ChangerCall
  | simple (ccs : List ConfChangeSingle)
  | enterJoint (autoLeave : Bool) (ccs : List ConfChangeSingle)
  | leaveJoint

namespace ChangerCall

/-- What the changer returns. -/
def run (t : ProgressTracker) : ChangerCall → Except Err ConfChangeResult
  | simple ccs => ConfChanger.simple t ccs
  | enterJoint autoLeave ccs => ConfChanger.enterJoint t autoLeave ccs
  | leaveJoint => ConfChanger.leaveJoint t

/-- Call the changer and install its result. -/
def install (call : ChangerCall) (nextIdx : ℕ) : Act Err ProgressTracker Unit := do
  let r ← Act.query (fun t => call.run t)
  Act.modify (fun t => t.applyConf r.conf r.changes nextIdx)

variable {t : ProgressTracker} {r : ConfChangeResult}

/-- Before its first edit a view is paired, and it keeps the map it is based on. -/
theorem paired_result {p q : CheckAndCopyResult} {ccs : List ConfChangeSingle}
    (hp : p.prs = { base := t.progress }) (hq : ConfChanger.applyChanges p ccs = .ok q) :
    IncrChangeMap.Paired ⟨t.progress, q.prs.changes⟩ := by
  have hbase : q.prs.base = t.progress := by
    rw [ConfChanger.applyChanges_base hq, hp]
  have hstart : p.prs.Paired := by
    rw [hp]
    exact fun _ _ _ _ => List.not_mem_nil
  have hpaired := ConfChanger.paired_applyChanges hstart hq
  rw [← hbase]
  exact hpaired

theorem run_paired {call : ChangerCall} (h : call.run t = .ok r) :
    IncrChangeMap.Paired ⟨t.progress, r.changes⟩ := by
  cases call with
  | simple ccs =>
      unfold run ConfChanger.simple at h
      obtain ⟨_, _, h⟩ := bind_eq_ok.mp h
      obtain ⟨p, hp, h⟩ := bind_eq_ok.mp h
      obtain ⟨q, hq, h⟩ := bind_eq_ok.mp h
      obtain ⟨_, _, h⟩ := bind_eq_ok.mp h
      obtain ⟨_, _, h⟩ := bind_eq_ok.mp h
      cases h
      cases ConfChanger.checkAndCopy_ok hp
      exact paired_result rfl hq
  | enterJoint autoLeave ccs =>
      unfold run ConfChanger.enterJoint at h
      obtain ⟨_, _, h⟩ := bind_eq_ok.mp h
      obtain ⟨p, hp, h⟩ := bind_eq_ok.mp h
      obtain ⟨_, _, h⟩ := bind_eq_ok.mp h
      obtain ⟨q, hq, h⟩ := bind_eq_ok.mp h
      obtain ⟨_, _, h⟩ := bind_eq_ok.mp h
      cases h
      cases ConfChanger.checkAndCopy_ok hp
      exact paired_result (q := q) rfl hq
  | leaveJoint =>
      unfold run ConfChanger.leaveJoint at h
      obtain ⟨_, _, h⟩ := bind_eq_ok.mp h
      obtain ⟨p, hp, h⟩ := bind_eq_ok.mp h
      obtain ⟨_, _, h⟩ := bind_eq_ok.mp h
      cases h
      cases ConfChanger.checkAndCopy_ok hp
      have hpaired := ConfChanger.paired_leavers
        (ConfChanger.leavers { t.conf with
          learners := t.conf.learners.addAll t.conf.learnersNext.ids, learnersNext := ∅ })
        (show IncrChangeMap.Paired { base := t.progress } from fun _ _ _ _ => List.not_mem_nil)
      have hbase := ConfChanger.foldl_remove_base
        (ConfChanger.leavers { t.conf with
          learners := t.conf.learners.addAll t.conf.learnersNext.ids, learnersNext := ∅ })
        { base := t.progress }
      intro id hid
      exact hpaired id (hbase ▸ hid)

theorem run_sound {call : ChangerCall} (ht : t.Fits) (h : call.run t = .ok r) :
    ConfChanger.ResultSound t r := by
  cases call with
  | simple ccs => exact ConfChanger.simple_sound ht h
  | enterJoint autoLeave ccs => exact ConfChanger.enterJoint_sound ht h
  | leaveJoint => exact ConfChanger.leaveJoint_sound ht h

/-- A consistent tracker stays consistent through every call of the changer whose result is installed;
the peer ids are the members in order, and a peer whose progress was not removed keeps it.  A call
that fails leaves the tracker as it was, and so does the change of a node that makes the call. -/
theorem install_consistent (t : ProgressTracker) (h : t.Consistent) (call : ChangerCall) (nextIdx : ℕ) :
    (∀ r, call.run t = .ok r → ∃ t', call.install nextIdx t = .ok () t' ∧ t'.conf = r.conf ∧
      t'.Consistent ∧ t'.peerIds = t'.conf.sets.members.sort (· ≤ ·) ∧
      ∀ id p, t.get id = some p → ⟨id, .remove⟩ ∉ r.changes → t'.get id = some p) ∧
    (∀ e, call.run t = .error e → call.install nextIdx t = .err e t) ∧
    ∀ {σ : Type} [Storage σ] (node : Raft σ) (cc : ConfChangeV2) (e : Err),
      changeConf node.progressTracker cc = .error e → Raft.applyConfChange cc node = .err e node := by
  refine ⟨fun r hr => ?_, fun e he => ?_, fun node cc e he => ?_⟩
  · refine ⟨t.applyConf r.conf r.changes nextIdx, ?_, rfl, ?_, ProgressTracker.peerIdsOf_eq r.conf, ?_⟩
    · exact Act.bind_run (Act.query_run hr)
    · obtain ⟨hconf, hplain⟩ := run_sound (ProgressTracker.consistent_iff_fits.mp h) hr
      exact ProgressTracker.consistent_iff_fits.mpr (ProgressTracker.fits_applyConf hconf hplain nextIdx)
    · intro id p hp hkept
      have hid : id ∈ t.progress := AList.lookup_isSome.mp (Option.isSome_iff_exists.mpr ⟨p, hp⟩)
      rw [← hp]
      exact ProgressTracker.lookup_foldl_applyChange _ (run_paired hr id hid hkept)
  · exact Act.bind_run_err (Act.query_run_err he)
  · exact Act.bind_run_err (Act.query_run_err he)

theorem install_consistent_first :
    ∃ t', (ChangerCall.simple [⟨.addNode, 1⟩, ⟨.addLearnerNode, 2⟩]).install 5 (ProgressTracker.init 8) =
      .ok () t' ∧ t'.Consistent ∧ t'.peerIds = t'.conf.sets.members.sort (· ≤ ·) := by
  obtain ⟨t', hrun, -, hconsistent, hids, -⟩ := (install_consistent (ProgressTracker.init 8)
    (ProgressTracker.consistent_iff_fits.mpr (ProgressTracker.sound_init 8).fits)
    (.simple [⟨.addNode, 1⟩, ⟨.addLearnerNode, 2⟩]) 5).1
    ⟨{ voters := { incoming := ⟨⟨[1], by decide⟩⟩ }, learners := ⟨[2], by decide⟩ },
      [⟨1, .add⟩, ⟨2, .add⟩]⟩ rfl
  exact ⟨t', hrun, hconsistent, hids⟩

end ChangerCall

end Raftz
