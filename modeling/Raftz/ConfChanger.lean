import Raftz.Base.Act
import Raftz.Tracker

/-! # Membership changes

`ConfChanger` of `conf_changer.zig` (simple changes and entering and leaving a
joint configuration) and `restore` of `conf_restore.zig`.  The changer works on
a copy of the tracker's configuration together with an incremental view of its
progress map and returns the new configuration with the list of edits; the
caller installs both with `ProgressTracker.applyConf`. -/

open Base

namespace Raftz

/-- Is a joint configuration active? -/
def joint (cfg : TrackerConfiguration) : Bool := !cfg.voters.outgoing.isEmpty

/-- A progress map with a sequence of edits on top. -/
structure IncrChangeMap where
  base : ProgressMap
  changes : List MapChangeEntry := []

namespace IncrChangeMap

/-- The latest edit of `id` decides; without one, the base does. -/
def contains (m : IncrChangeMap) (id : ℕ) : Bool :=
  match m.changes.reverse.find? (fun c => c.id == id) with
  | some c => c.kind == .add
  | none => decide (id ∈ m.base)

/-- Record an edit. -/
def appendChange (m : IncrChangeMap) (id : ℕ) (kind : MapChangeKind) : IncrChangeMap :=
  { m with changes := m.changes ++ [⟨id, kind⟩] }

end IncrChangeMap

/-- The first rule that a configuration violates. -/
def checkInvariants (cfg : TrackerConfiguration) (prs : IncrChangeMap) : Except Err Unit :=
  if cfg.voters.ids.all prs.contains = false then .error .confChangeError
  else if cfg.learners.ids.all (fun id => prs.contains id && !cfg.voters.outgoing.contains id &&
      !cfg.voters.incoming.contains id) = false then .error .confChangeError
  else if cfg.learnersNext.ids.all (fun id => prs.contains id && cfg.voters.outgoing.contains id) =
      false then .error .confChangeError
  else if joint cfg = false ∧ cfg.learnersNext.count ≠ 0 then .error .learnersNextMustBeEmpty
  else if joint cfg = false ∧ cfg.autoLeave = true then .error .autoLeaveMustBeFalse
  else .ok ()

/-- The working copy of a change: configuration and edits. -/
structure CheckAndCopyResult where
  cfg : TrackerConfiguration
  prs : IncrChangeMap

/-- A new configuration with the edits of the progress map it needs. -/
structure ConfChangeResult where
  conf : TrackerConfiguration
  changes : List MapChangeEntry

namespace ConfChanger

/-- Copy the tracker's configuration after checking it. -/
def checkAndCopy (t : ProgressTracker) : Except Err CheckAndCopyResult := do
  let prs : IncrChangeMap := { base := t.progress }
  checkInvariants t.conf prs
  return ⟨t.conf, prs⟩

/-- The result of a finished working copy. -/
def finalize (p : CheckAndCopyResult) : ConfChangeResult := ⟨p.cfg, p.prs.changes⟩

/-- Start following a new peer. -/
def initProgress (p : CheckAndCopyResult) (id : ℕ) (isLearner : Bool) : CheckAndCopyResult :=
  let cfg := if isLearner = false then
      { p.cfg with voters := { p.cfg.voters with incoming := p.cfg.voters.incoming.add id } }
    else { p.cfg with learners := p.cfg.learners.add id }
  ⟨cfg, p.prs.appendChange id .add⟩

/-- Make `id` a voter of the incoming configuration. -/
def makeVoter (p : CheckAndCopyResult) (id : ℕ) : CheckAndCopyResult :=
  if p.prs.contains id = false then initProgress p id false
  else { p with cfg := { p.cfg with
    voters := { p.cfg.voters with incoming := p.cfg.voters.incoming.add id }
    learners := p.cfg.learners.remove id
    learnersNext := p.cfg.learnersNext.remove id } }

/-- Make `id` a learner, at once or when the joint configuration is left. -/
def makeLearner (p : CheckAndCopyResult) (id : ℕ) : CheckAndCopyResult :=
  if p.prs.contains id = false then initProgress p id true
  else if id ∈ p.cfg.learners then p
  else if p.cfg.voters.outgoing.contains id then
    { p with cfg := { p.cfg with
      voters := { p.cfg.voters with incoming := p.cfg.voters.incoming.remove id }
      learners := p.cfg.learners.remove id
      learnersNext := (p.cfg.learnersNext.remove id).add id } }
  else
    { p with cfg := { p.cfg with
      voters := { p.cfg.voters with incoming := p.cfg.voters.incoming.remove id }
      learners := (p.cfg.learners.remove id).add id
      learnersNext := p.cfg.learnersNext.remove id } }

/-- Remove `id`; its progress stays while it is an outgoing voter. -/
def remove (p : CheckAndCopyResult) (id : ℕ) : CheckAndCopyResult :=
  if p.prs.contains id = false then p
  else
    let cfg := { p.cfg with
      voters := { p.cfg.voters with incoming := p.cfg.voters.incoming.remove id }
      learners := p.cfg.learners.remove id
      learnersNext := p.cfg.learnersNext.remove id }
    if cfg.voters.outgoing.contains id then ⟨cfg, p.prs⟩
    else ⟨cfg, p.prs.appendChange id .remove⟩

/-- Apply one change; changes of node 0 are skipped. -/
def applyChange (p : CheckAndCopyResult) (cc : ConfChangeSingle) : CheckAndCopyResult :=
  if cc.nodeId = 0 then p
  else match cc.changeType with
    | .addNode => makeVoter p cc.nodeId
    | .removeNode => remove p cc.nodeId
    | .addLearnerNode => makeLearner p cc.nodeId
    | .updateNode => p

/-- Apply the changes in order; at least one incoming voter must remain. -/
def applyChanges (p : CheckAndCopyResult) (ccs : List ConfChangeSingle) :
    Except Err CheckAndCopyResult :=
  let q := ccs.foldl applyChange p
  if q.cfg.voters.incoming.isEmpty then .error .removedAllVoters else .ok q

/-- Turn a simple configuration into a joint one. -/
def enterJoint (t : ProgressTracker) (autoLeave : Bool) (ccs : List ConfChangeSingle) :
    Except Err ConfChangeResult := do
  ensure (joint t.conf = false) .configAlreadyJoint
  let p ← checkAndCopy t
  ensure (p.cfg.voters.incoming.isEmpty = false) .zeroVoterConfigJoint
  let outgoing : MajorityConfig :=
    ⟨p.cfg.voters.outgoing.voters.addAll p.cfg.voters.incoming.voters.ids⟩
  let q ← applyChanges
    { p with cfg := { p.cfg with voters := { p.cfg.voters with outgoing := outgoing } } } ccs
  let q := { q with cfg := { q.cfg with autoLeave := autoLeave } }
  checkInvariants q.cfg q.prs
  return finalize q

/-- The outgoing voters that nothing keeps after leaving the joint configuration. -/
def leavers (cfg : TrackerConfiguration) : List ℕ :=
  cfg.voters.outgoing.voters.ids.filter
    (fun id => !cfg.voters.incoming.contains id && !decide (id ∈ cfg.learners))

/-- Turn a joint configuration into its incoming half. -/
def leaveJoint (t : ProgressTracker) : Except Err ConfChangeResult := do
  ensure (joint t.conf = true) .leaveNonJointConfig
  let p ← checkAndCopy t
  let cfg := { p.cfg with
    learners := p.cfg.learners.addAll p.cfg.learnersNext.ids
    learnersNext := ∅ }
  let prs := (leavers cfg).foldl (fun prs id => prs.appendChange id .remove) p.prs
  let cfg := { cfg with voters := { cfg.voters with outgoing := {} }, autoLeave := false }
  checkInvariants cfg prs
  return finalize ⟨cfg, prs⟩

/-- One row of the two-pointer walk of `simple`: `a :: k` on the left, `rest` continues with `k`. -/
def diffRow (a : ℕ) (k : List ℕ) (rest : List ℕ → ℕ) : List ℕ → ℕ
  | [] => k.length + 1
  | b :: l =>
      if a < b then rest (b :: l) + 1
      else if b < a then diffRow a k rest l + 1
      else rest l

/-- The number of members of exactly one of two sorted lists, by the two-pointer walk. -/
def diffCount : List ℕ → List ℕ → ℕ
  | [] => List.length
  | a :: k => diffRow a k (diffCount k)

/-- Apply changes that touch at most one voter of a simple configuration. -/
def simple (t : ProgressTracker) (ccs : List ConfChangeSingle) : Except Err ConfChangeResult := do
  ensure (joint t.conf = false) .cannotApplySimpleInJointConfig
  let p ← checkAndCopy t
  let q ← applyChanges p ccs
  ensure (diffCount (TrackerConfiguration.collectSorted q.cfg.voters.incoming.voters)
    (TrackerConfiguration.collectSorted t.conf.voters.incoming.voters) ≤ 1)
    .multipleVotersChangedWithoutJoint
  checkInvariants q.cfg q.prs
  return finalize q

end ConfChanger

/-! ### Restoring a configuration -/

namespace ConfRestore

/-- The changes that reproduce the outgoing half of an exported configuration. -/
def outgoingChanges (cs : ConfState) : List ConfChangeSingle :=
  cs.votersOutgoing.map (fun id => ⟨.addNode, id⟩)

/-- The changes that turn the outgoing half into the exported configuration. -/
def incomingChanges (cs : ConfState) : List ConfChangeSingle :=
  cs.votersOutgoing.map (fun id => ⟨.removeNode, id⟩) ++
    cs.voters.map (fun id => ⟨.addNode, id⟩) ++
    cs.learners.map (fun id => ⟨.addLearnerNode, id⟩) ++
    cs.learnersNext.map (fun id => ⟨.addLearnerNode, id⟩)

/-- Apply changes one at a time, each with its own check for a remaining voter. -/
def applySingly (p : CheckAndCopyResult) : List ConfChangeSingle → Except Err CheckAndCopyResult
  | [] => .ok p
  | cc :: ccs => do
      let q ← ConfChanger.applyChanges p [cc]
      applySingly q ccs

/-- Replay changes one at a time as simple changes. -/
def simpleSingly (nextIdx : ℕ) (t : ProgressTracker) :
    List ConfChangeSingle → Except Err ProgressTracker
  | [] => .ok t
  | cc :: ccs => do
      let r ← ConfChanger.simple t [cc]
      simpleSingly nextIdx (t.applyConf r.conf r.changes nextIdx) ccs

/-- Fill an empty tracker from an exported configuration. -/
def restoreEmpty (t : ProgressTracker) (nextIdx : ℕ) (cs : ConfState) :
    Except Err ProgressTracker := do
  if (outgoingChanges cs).isEmpty then
    let p ← (ConfChanger.checkAndCopy t).mapError (fun _ => .outOfMemory)
    let q ← applySingly p (incomingChanges cs)
    checkInvariants q.cfg q.prs
    return t.applyConf q.cfg q.prs.changes nextIdx
  else
    let t ← simpleSingly nextIdx t (outgoingChanges cs)
    let r ← ConfChanger.enterJoint t cs.autoLeave (incomingChanges cs)
    return t.applyConf r.conf r.changes nextIdx

/-- Rebuild a tracker so that its configuration is the exported one. -/
def restore (t : ProgressTracker) (nextIdx : ℕ) (cs : ConfState) : Except Err ProgressTracker :=
  restoreEmpty { ProgressTracker.init t.maxInflight with groupCommit := t.groupCommit } nextIdx cs

end ConfRestore

/-! ### The kind of a change -/

/-- Does the change leave a joint configuration? -/
def leaveJoint (cc : ConfChangeV2) : Bool := cc.transition == .auto && cc.changes.isEmpty

/-- Does the change enter a joint configuration, and is it then left automatically? -/
def enterJoint (cc : ConfChangeV2) : Option Bool :=
  if cc.transition ≠ .auto ∨ 1 < cc.changes.length then
    match cc.transition with
    | .auto => some true
    | .implicit => some true
    | .explicit => some false
  else none

/-- The configuration a change leads to, with the edits of the progress map: the part of
`Raft.applyConfChange` before the tracker is updated. -/
def changeConf (t : ProgressTracker) (cc : ConfChangeV2) : Except Err ConfChangeResult :=
  if leaveJoint cc then ConfChanger.leaveJoint t
  else match enterJoint cc with
    | some autoLeave => ConfChanger.enterJoint t autoLeave cc.changes
    | none => ConfChanger.simple t cc.changes

/-! ### Overlap of successive quorums -/

namespace ConfChanger

theorem symmDiff_card_le_insert {α : Type} [DecidableEq α] {S T S' T' : Finset α} {a : α} {n : ℕ}
    (hsub : symmDiff S T ⊆ insert a (symmDiff S' T')) (h : (symmDiff S' T').card ≤ n) :
    (symmDiff S T).card ≤ n + 1 :=
  (Finset.card_le_card hsub).trans ((Finset.card_insert_le _ _).trans (by omega))

/-- The walk counts at least the members of exactly one of the lists. -/
theorem symmDiff_card_le_diffCount (k l : List ℕ) :
    (symmDiff k.toFinset l.toFinset).card ≤ diffCount k l := by
  induction k generalizing l with
  | nil =>
      unfold diffCount
      rw [List.toFinset_nil, ← Finset.bot_eq_empty, bot_symmDiff]
      exact l.toFinset_card_le
  | cons a k ihk =>
      unfold diffCount
      induction l with
      | nil =>
          unfold diffRow
          rw [List.toFinset_nil, ← Finset.bot_eq_empty, symmDiff_bot]
          exact (a :: k).toFinset_card_le
      | cons b l ihl =>
          unfold diffRow
          split
          · refine symmDiff_card_le_insert (a := a) ?_ (ihk (b :: l))
            intro x
            simp only [Finset.mem_symmDiff, List.mem_toFinset, List.mem_cons, Finset.mem_insert]
            tauto
          · split
            · refine symmDiff_card_le_insert (a := b) ?_ ihl
              intro x
              simp only [Finset.mem_symmDiff, List.mem_toFinset, List.mem_cons, Finset.mem_insert]
              tauto
            · have hab : a = b := by omega
              subst hab
              refine le_trans (Finset.card_le_card ?_) (ihk l)
              intro x
              simp only [Finset.mem_symmDiff, List.mem_toFinset, List.mem_cons]
              tauto

theorem toFinset_collectSorted (s : IdSet) :
    (TrackerConfiguration.collectSorted s).toFinset = s.toFinset := by
  ext a
  unfold TrackerConfiguration.collectSorted
  rw [List.mem_toFinset, List.mem_insertionSort, IdSet.mem_toFinset, IdSet.mem_def]

/-- Majorities of two voter sets that differ in at most one member meet. -/
theorem wins_meet_of_symmDiff {c d : MajorityConfig} {Q R : Set ℕ} (hc : c.isEmpty = false)
    (hd : d.isEmpty = false) (hQ : c.Wins Q) (hR : d.Wins R)
    (h : (symmDiff c.voters.toFinset d.voters.toFinset).card ≤ 1) : ∃ v, v ∈ Q ∧ v ∈ R := by
  rcases hQ with hQ | ⟨A, hA, hcA, hAQ⟩
  · rw [hc] at hQ
    cases hQ
  rcases hR with hR | ⟨B, hB, hcB, hBR⟩
  · rw [hd] at hR
    cases hR
  unfold majority MajorityConfig.count at hcA hcB
  rw [← IdSet.card_toFinset] at hcA hcB
  obtain ⟨v, hvA, hvB⟩ := majorities_meet_of_symmDiff hA hB hcA hcB h
  exact ⟨v, hAQ v hvA, hBR v hvB⟩

/-! ### What the steps of a change keep -/

theorem makeVoter_outgoing (p : CheckAndCopyResult) (id : ℕ) :
    (makeVoter p id).cfg.voters.outgoing = p.cfg.voters.outgoing := by
  unfold makeVoter initProgress
  split <;> rfl

theorem remove_outgoing (p : CheckAndCopyResult) (id : ℕ) :
    (remove p id).cfg.voters.outgoing = p.cfg.voters.outgoing := by
  unfold remove
  dsimp only
  split
  · rfl
  · split <;> rfl

theorem makeLearner_outgoing (p : CheckAndCopyResult) (id : ℕ) :
    (makeLearner p id).cfg.voters.outgoing = p.cfg.voters.outgoing := by
  unfold makeLearner initProgress
  split
  · rfl
  · split
    · rfl
    · split <;> rfl

theorem applyChange_outgoing (p : CheckAndCopyResult) (cc : ConfChangeSingle) :
    (applyChange p cc).cfg.voters.outgoing = p.cfg.voters.outgoing := by
  unfold applyChange
  split
  · rfl
  · cases cc.changeType with
    | addNode => exact makeVoter_outgoing p cc.nodeId
    | removeNode => exact remove_outgoing p cc.nodeId
    | addLearnerNode => exact makeLearner_outgoing p cc.nodeId
    | updateNode => rfl

theorem foldl_applyChange_outgoing (ccs : List ConfChangeSingle) (p : CheckAndCopyResult) :
    (ccs.foldl applyChange p).cfg.voters.outgoing = p.cfg.voters.outgoing := by
  induction ccs generalizing p with
  | nil => rfl
  | cons cc ccs ih => rw [List.foldl_cons, ih, applyChange_outgoing]

theorem applyChanges_ok {p q : CheckAndCopyResult} {ccs : List ConfChangeSingle}
    (h : applyChanges p ccs = .ok q) :
    q.cfg.voters.outgoing = p.cfg.voters.outgoing ∧ q.cfg.voters.incoming.isEmpty = false := by
  unfold applyChanges at h
  dsimp only at h
  split at h
  · cases h
  · rename_i hne
    cases h
    exact ⟨foldl_applyChange_outgoing ccs p, by simpa using hne⟩

theorem checkAndCopy_ok {t : ProgressTracker} {p : CheckAndCopyResult}
    (h : checkAndCopy t = .ok p) : p = ⟨t.conf, { base := t.progress }⟩ := by
  unfold checkAndCopy at h
  obtain ⟨_, _, h⟩ := bind_eq_ok.mp h
  cases h
  rfl

theorem simple_wins_meet {t : ProgressTracker} {ccs : List ConfChangeSingle} {r : ConfChangeResult}
    (h : simple t ccs = .ok r) (hne : t.conf.voters.incoming.isEmpty = false) {Q R : Set ℕ}
    (hQ : t.conf.voters.Wins Q) (hR : r.conf.voters.Wins R) : ∃ v, v ∈ Q ∧ v ∈ R := by
  unfold simple at h
  obtain ⟨_, _, h⟩ := bind_eq_ok.mp h
  obtain ⟨p, hp, h⟩ := bind_eq_ok.mp h
  obtain ⟨q, hq, h⟩ := bind_eq_ok.mp h
  obtain ⟨_, hdiff, h⟩ := bind_eq_ok.mp h
  have hdiff := ensure_eq_ok.mp hdiff
  obtain ⟨_, _, h⟩ := bind_eq_ok.mp h
  cases h
  refine wins_meet_of_symmDiff hne (applyChanges_ok hq).2 hQ.1 hR.1 ?_
  have hcount := symmDiff_card_le_diffCount
    (TrackerConfiguration.collectSorted q.cfg.voters.incoming.voters)
    (TrackerConfiguration.collectSorted t.conf.voters.incoming.voters)
  rw [toFinset_collectSorted, toFinset_collectSorted] at hcount
  rw [symmDiff_comm]
  exact hcount.trans hdiff

theorem enterJoint_wins_meet {t : ProgressTracker} {autoLeave : Bool}
    {ccs : List ConfChangeSingle} {r : ConfChangeResult}
    (h : enterJoint t autoLeave ccs = .ok r) {Q R : Set ℕ}
    (hQ : t.conf.voters.Wins Q) (hR : r.conf.voters.Wins R) : ∃ v, v ∈ Q ∧ v ∈ R := by
  unfold enterJoint at h
  obtain ⟨_, hj, h⟩ := bind_eq_ok.mp h
  have hj := ensure_eq_ok.mp hj
  obtain ⟨p, hp, h⟩ := bind_eq_ok.mp h
  have hp := checkAndCopy_ok hp
  subst hp
  obtain ⟨_, hne, h⟩ := bind_eq_ok.mp h
  have hne := ensure_eq_ok.mp hne
  obtain ⟨q, hq, h⟩ := bind_eq_ok.mp h
  obtain ⟨_, _, h⟩ := bind_eq_ok.mp h
  cases h
  -- the outgoing half of the result is the old incoming half
  have hout : q.cfg.voters.outgoing.voters.toFinset = t.conf.voters.incoming.voters.toFinset := by
    rw [(applyChanges_ok hq).1]
    ext v
    simp only [IdSet.mem_toFinset, IdSet.mem_addAll]
    have hempty : t.conf.voters.outgoing.isEmpty = true := by simpa [joint] using hj
    have : v ∉ t.conf.voters.outgoing.voters := IdSet.isEmpty_iff.mp hempty v
    exact ⟨fun h => h.resolve_left this, Or.inr⟩
  refine wins_meet_of_symmDiff hne (d := q.cfg.voters.outgoing) ?_ hQ.1 hR.2 ?_
  · rw [Bool.eq_false_iff]
    intro he
    rw [MajorityConfig.isEmpty, ← IdSet.toFinset_eq_empty_iff, hout,
      IdSet.toFinset_eq_empty_iff] at he
    rw [MajorityConfig.isEmpty, he] at hne
    cases hne
  · rw [hout, symmDiff_self]
    exact Nat.zero_le 1

theorem leaveJoint_wins_meet {t : ProgressTracker} {r : ConfChangeResult}
    (h : leaveJoint t = .ok r) (hne : t.conf.voters.incoming.isEmpty = false) {Q R : Set ℕ}
    (hQ : t.conf.voters.Wins Q) (hR : r.conf.voters.Wins R) : ∃ v, v ∈ Q ∧ v ∈ R := by
  unfold leaveJoint at h
  obtain ⟨_, _, h⟩ := bind_eq_ok.mp h
  obtain ⟨p, hp, h⟩ := bind_eq_ok.mp h
  have hp := checkAndCopy_ok hp
  subst hp
  obtain ⟨_, _, h⟩ := bind_eq_ok.mp h
  cases h
  obtain ⟨v, _, hv⟩ := MajorityConfig.wins_meet hne hQ.1 hR.1
  exact ⟨v, hv⟩

end ConfChanger

/-- A winning set of a configuration and one of the configuration a change leads to meet. -/
theorem changeConf_wins_meet {t : ProgressTracker} {cc : ConfChangeV2} {r : ConfChangeResult}
    (h : changeConf t cc = .ok r) (hne : t.conf.voters.incoming.isEmpty = false) {Q R : Set ℕ}
    (hQ : t.conf.voters.Wins Q) (hR : r.conf.voters.Wins R) : ∃ v, v ∈ Q ∧ v ∈ R := by
  unfold changeConf at h
  split at h
  · exact ConfChanger.leaveJoint_wins_meet h hne hQ hR
  · split at h
    · exact ConfChanger.enterJoint_wins_meet h hQ hR
    · exact ConfChanger.simple_wins_meet h hne hQ hR

end Raftz
