import Raftz.LeaderRuns

/-! # Leaving a joint configuration

A leader whose configuration is to be left automatically proposes to do so when it applies
the entry at its pending configuration index.  `Tenure.LeavePending` says that this point is
never passed: no unapplied change lies beyond the index, and while the configuration is to be
left the applied index does not exceed it. -/

open Base

namespace Raftz

namespace Tenure

/-- The mark for pending changes is not behind. -/
structure LeavePending (t : Tenure) : Prop where
  changes : ∀ e ∈ t.log.entries, t.applied < e.index → e.isConf = true → e.index ≤ t.pendingConf
  leave : t.conf.autoLeave = true → t.applied ≤ t.pendingConf

variable {since : ℕ} {t : Tenure}

theorem index_le_last (hc : t.log.Contiguous) {e : Entry} (he : e ∈ t.log.entries) :
    e.index ≤ t.log.last := by
  have hlt := (hc.mem_bounds he).2
  unfold Log.last
  omega

/-- A mark at the last entry is not behind. -/
theorem leavePending_last (hc : t.log.Contiguous) (ha : t.applied ≤ t.log.last)
    (hp : t.log.last ≤ t.pendingConf) : t.LeavePending where
  changes := fun _ he _ _ => (index_le_last hc he).trans hp
  leave := fun _ => ha.trans hp

theorem mem_append {term : ℕ} {es : List Entry} (u : UncommittedState) {e : Entry}
    (h : e ∈ (t.append term es u).log.entries) :
    e ∈ t.log.entries ∨ e ∈ Raft.retag term (t.log.last + 1) es := by
  have h : e ∈ t.log.entries.take (t.log.last + 1 - t.log.base - 1) ++
      Raft.retag term (t.log.last + 1) es := h
  exact (List.mem_append.mp h).imp_left fun h => List.mem_of_mem_take h

theorem contiguous_append (hc : t.log.Contiguous) (term : ℕ) (es : List Entry) (u : UncommittedState) :
    (t.append term es u).log.Contiguous :=
  hc.splice (Nat.lt_succ_of_le Log.base_le_last) le_rfl (Raft.consecutive_retag _ _ _)

theorem last_append (term : ℕ) (es : List Entry) (u : UncommittedState) :
    (t.append term es u).log.last = t.log.last + (Raft.retag term (t.log.last + 1) es).length :=
  Log.last_splice (Nat.lt_succ_of_le Log.base_le_last) le_rfl

/-- A proposal of a change moves the mark to the change; it is refused while a change is pending. -/
theorem LeavePending.propose (h : t.LeavePending) (hf : t.Fits since) {term : ℕ} {es : List Entry}
    {pos : Option ℕ} (u : UncommittedState)
    (hpos : Raft.confChangePosition (decide (t.applied < t.pendingConf)) 0 none es = .ok pos) :
    LeavePending { t.append term es u with pendingConf := t.marked pos } := by
  rcases Raft.proposed_change term t.log.last hpos with ⟨hno, rfl⟩ | ⟨i, rfl, hpend, e, -, -, heq, honly⟩
  · refine ⟨fun e he hlt hconf => ?_, h.leave⟩
    rcases mem_append u he with he | he
    · exact h.changes e he hlt hconf
    · rw [hno e he] at hconf
      cases hconf
  · have hpend := of_decide_eq_false hpend
    refine ⟨fun e' he' hlt hconf => ?_, fun _ => ?_⟩
    · rcases mem_append u he' with he' | he'
      · have hle := h.changes e' he' hlt hconf
        have hlt : t.applied < e'.index := hlt
        omega
      · rw [honly e' he' hconf]
        exact heq.ge
    · have hle := hf.applied_le
      show t.applied ≤ t.log.last + i + 1
      omega

/-- The mark is kept ahead by everything that a leader does to its log. -/
theorem leavePending_inv : TenureInv fun _ t => t.LeavePending where
  elected := fun hf => leavePending_last hf.contiguous hf.applied_le le_rfl
  proposed := fun hf h hpos _ => h.propose hf _ hpos
  applied := by
    intro since i t hf h hle hlast hstay
    refine ⟨fun e he hlt hconf => h.changes e he (hle.trans_lt hlt) hconf, fun hauto => ?_⟩
    by_contra hpass
    exact hstay ⟨hauto, h.leave hauto, (not_le.mp hpass).le⟩
  refused := fun hf _ _ hlast _ => leavePending_last hf.contiguous hlast le_rfl
  left := by
    intro since i term t e u hf _ _ hlast _ _
    have hlen : (t.append term [e] u).log.last = t.log.last + 1 := last_append term [e] u
    refine leavePending_last (contiguous_append hf.contiguous term [e] u) ?_ hlen.le
    exact (hlast.trans (Nat.le_succ _)).trans_eq hlen.symm

end Tenure

namespace Raft

variable {σ : Type} [LawfulStorage σ] {r : Raft σ}

/-- The attempt of a leader to leave its joint configuration. -/
def tryLeaveJoint (data : Bytes) : RaftM σ Unit := do
  let _ ← Act.catchErr (appendEntry [{ entryType := .confChangeV2, data := data }]) (fun _ => Act.panic)
  Act.modify (fun r => { r with pendingConfIndex := r.raftLog.lastIndex })

/-- The data of the entry is the empty change. -/
def leaveData : Bytes := ((encodeConfChangeV2 {}).toOption).getD []

omit [LawfulStorage σ] in
theorem appliedTo_ok {l : RaftLog σ} {j : ℕ} (hle : l.applied ≤ j) (hc : j ≤ l.committed) :
    RaftLog.appliedTo j l = .ok () { l with applied := j } := by
  unfold RaftLog.appliedTo
  by_cases h0 : j = 0
  · have happlied : l.applied = j := by omega
    rw [if_pos h0, ← happlied]
    rfl
  · have hassert : decide (j ≤ l.committed ∧ l.applied ≤ j) = true := decide_eq_true ⟨hc, hle⟩
    rw [if_neg h0]
    show Act.andThen (Act.assert (decide (j ≤ l.committed ∧ l.applied ≤ j))) _ l = _
    rw [hassert]
    rfl

/-- Applying the entry at the mark makes the attempt. -/
theorem commitApply_tryLeaveJoint {j : ℕ} (hl : r.state = .leader)
    (hauto : r.progressTracker.conf.autoLeave = true) (hmark : r.raftLog.applied ≤ r.pendingConfIndex)
    (hj : r.pendingConfIndex ≤ j) (hc : j ≤ r.raftLog.committed) :
    commitApply j r =
      tryLeaveJoint leaveData { r with raftLog := { r.raftLog with applied := j } } := by
  have happlied : (onLog (RaftLog.appliedTo j) : RaftM σ Unit) r =
      .ok () { r with raftLog := { r.raftLog with applied := j } } := by
    unfold onLog Act.zoom
    rw [appliedTo_ok (hmark.trans hj) hc]
  have hleave : maybeAutoLeave r.raftLog.applied j
      { r with raftLog := { r.raftLog with applied := j } } =
      tryLeaveJoint leaveData { r with raftLog := { r.raftLog with applied := j } } := by
    have hcond : r.progressTracker.conf.autoLeave = true ∧ r.raftLog.applied ≤ r.pendingConfIndex ∧
        r.pendingConfIndex ≤ j ∧ r.state = .leader := ⟨hauto, hmark, hj, hl⟩
    show (if r.progressTracker.conf.autoLeave = true ∧ r.raftLog.applied ≤ r.pendingConfIndex ∧
        r.pendingConfIndex ≤ j ∧ r.state = .leader then _ else _ : RaftM σ Unit) _ = _
    rw [if_pos hcond]
    rfl
  show Act.andThen (onLog (RaftLog.appliedTo j)) (fun _ => maybeAutoLeave r.raftLog.applied j) r = _
  unfold Act.andThen
  rw [happlied]
  exact hleave

end Raft

namespace Driver

variable {σ : Type} [LawfulStorage σ]

/-- A change of the configuration has not been reported as applied yet. -/
def ChangePending (d : Driver σ) : Prop :=
  ∃ e ∈ d.raw.raft.raftLog.log.entries, d.raw.raft.raftLog.applied < e.index ∧ e.isConf = true

instance (d : Driver σ) : Decidable d.ChangePending :=
  inferInstanceAs (Decidable (∃ e ∈ d.raw.raft.raftLog.log.entries,
    d.raw.raft.raftLog.applied < e.index ∧ e.isConf = true))

/-- The mark is kept ahead along every run in which changes are applied before they are reported. -/
theorem leavePending_run : RunInv σ (fun _ t => t.LeavePending) fun d _ => d.ChangePending where
  inv := fun since => Tenure.leavePending_inv.leaderInv since
  applied := fun i hcov hled => Tenure.leavePending_inv.commitApply i hcov hled
  reconfigured := by
    rintro d cc res - ⟨e, he, hlt, hconf⟩ - h
    exact ⟨h.changes, fun _ => hlt.le.trans (h.changes e he hlt hconf)⟩
  handed := fun h _ _ _ => ⟨h.changes, h.leave⟩
  compacted := fun h _ _ _ _ => ⟨fun e he => h.changes e (List.mem_of_mem_drop he), h.leave⟩

/-- In every run, a leader whose configuration is to be left automatically has not applied beyond its
mark, and the call that applies up to the mark tries to append the entry that leaves. -/
theorem autoLeave_pending {SameData : σ → σ → Prop} (hsame : Faithful SameData) {config : Config}
    {prng : List ℕ} {store : σ} (hv : LawfulStorage.Valid store)
    (happ : config.applied ≤ max (LawfulStorage.view store).log.base
      (Raft.loadedState config (LawfulStorage.view store)).commit)
    {d d' : Driver σ} (hstart : Starts config prng store d)
    (hrun : DutifulSteps SameData (fun d _ => d.ChangePending) d d')
    (hl : d'.raw.raft.state = .leader) (hauto : d'.raw.raft.progressTracker.conf.autoLeave = true) :
    d'.raw.raft.raftLog.applied ≤ d'.raw.raft.pendingConfIndex ∧
      ∀ j, d'.raw.raft.pendingConfIndex ≤ j → j ≤ d'.raw.raft.raftLog.committed →
        Raft.commitApply j d'.raw.raft = Raft.tryLeaveJoint Raft.leaveData
          { d'.raw.raft with raftLog := { d'.raw.raft.raftLog with applied := j } } := by
  obtain ⟨hs, hten⟩ := leavePending_run.run hsame hv happ hstart hrun
  have hmark : d'.raw.raft.raftLog.applied ≤ d'.raw.raft.pendingConfIndex := (hten hl).leave hauto
  exact ⟨hmark, fun j hj hc => Raft.commitApply_tryLeaveJoint hl hauto hmark hj hc⟩

/-- Two voters are added, through a joint configuration that is left automatically. -/
def addTwo : ConfChangeV2 := { changes := [⟨.addNode, 2⟩, ⟨.addNode, 3⟩] }

/-- A leader that has just entered the joint configuration and has not reported it as applied. -/
theorem autoLeave_pending_joint : ∃ d d' : Driver MemoryStorage,
    Starts { id := 1 } [] { raftState := { confState := { voters := [1] } } } d ∧
    DutifulSteps Eq (fun d _ => d.ChangePending) d d' ∧
    d'.raw.raft.progressTracker.conf.autoLeave = true ∧
    d'.raw.raft.raftLog.applied ≤ d'.raw.raft.pendingConfIndex ∧
    Raft.commitApply 2 d'.raw.raft = Raft.tryLeaveJoint Raft.leaveData
      { d'.raw.raft with raftLog := { d'.raw.raft.raftLog with applied := 2 } } := by
  have hrun : (playDutifully (fun d _ => decide d.ChangePending) { id := 1 } []
      ({ raftState := { confState := { voters := [1] } } } : MemoryStorage)
      [.call (.step { msgType := .hup }),
        .call (.step {
          msgType := .propose
          entries := [{
            entryType := .confChangeV2
            data := (encodeConfChangeV2 addTwo).toOption.getD [] }] }),
        .ready, .advanceAppend, .call (.applyConfChange addTwo)]).map (fun d =>
      (d.raw.raft.state, d.raw.raft.progressTracker.conf.autoLeave, d.raw.raft.pendingConfIndex,
        d.raw.raft.raftLog.committed)) = some (.leader, true, 2, 2) := by
    decide +kernel
  obtain ⟨d', hd, heq⟩ := Option.map_eq_some_iff.mp hrun
  simp only [Prod.mk.injEq] at heq
  obtain ⟨hl, hauto, hmark, hcommitted⟩ := heq
  have hmay : ∀ (d : Driver MemoryStorage) (_ : ConfChangeV2), decide d.ChangePending = true →
      d.ChangePending := fun _ _ h => of_decide_eq_true h
  obtain ⟨d, hstart, hsteps⟩ := playDutifully_run Eq hmay hd
  obtain ⟨hle, hleave⟩ := autoLeave_pending faithful_eq (show Log.Consecutive 1 [] from trivial)
    (Nat.zero_le _) hstart hsteps hl hauto
  exact ⟨d, d', hstart, hsteps, hauto, hle, hleave 2 hmark.le hcommitted.ge⟩

end Driver

end Raftz
