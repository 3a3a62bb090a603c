import Raftz.Refine.Handlers

/-! # `step` refines the protocol

The handlers of a leader, the dispatch of `step`, and the theorem that
processing any message, on any sound node, is a sequence of protocol steps. -/

open Base

namespace Raftz.Raft

variable {σ : Type} [LawfulStorage σ] {honest : Prop} {m : Message} {c : Peer} {r : Raft σ}

/-! ### Acknowledged and rejected appends -/

theorem becomeProbe_asked (p : Progress) :
    p.becomeProbe.pendingRequestSnapshot = p.pendingRequestSnapshot := by
  unfold Progress.becomeProbe
  split <;> rfl

theorem ackProgress_spec {p : Progress} (h : p.Sound) (i : ℕ) : (ackProgress p i).Sound ∧
    (ackProgress p i).matched = p.matched ∧
    (ackProgress p i).pendingRequestSnapshot = p.pendingRequestSnapshot := by
  unfold ackProgress
  split
  · exact ⟨Progress.sound_becomeReplicate p, rfl, rfl⟩
  · dsimp only
    split
    · exact ⟨Progress.sound_becomeProbe _, Progress.becomeProbe_matched _, becomeProbe_asked _⟩
    · exact ⟨h.freeTo i, rfl, rfl⟩
  · split
    · exact ⟨Progress.sound_becomeProbe p, p.becomeProbe_matched, becomeProbe_asked p⟩
    · exact ⟨h, rfl, rfl⟩

theorem updateCommitted_asked (p : Progress) (i : ℕ) :
    (p.updateCommitted i).pendingRequestSnapshot = p.pendingRequestSnapshot := by
  unfold Progress.updateCommitted
  split <;> rfl

theorem maybeUpdate_asked (p : Progress) (i : ℕ) :
    (p.maybeUpdate i).1.pendingRequestSnapshot = p.pendingRequestSnapshot := by
  unfold Progress.maybeUpdate
  dsimp only
  split <;> split <;> rfl

theorem maybeDecTo_asked (p : Progress) (i hint snap : ℕ) :
    (p.maybeDecTo i hint snap).1.pendingRequestSnapshot = p.pendingRequestSnapshot ∨
      (p.maybeDecTo i hint snap).1.pendingRequestSnapshot = snap := by
  unfold Progress.maybeDecTo
  split
  · split
    · exact Or.inl rfl
    · split
      · exact Or.inl rfl
      · exact Or.inr rfl
  · split
    · exact Or.inl rfl
    · split
      · exact Or.inl rfl
      · split
        · exact Or.inr rfl
        · exact Or.inl rfl

theorem sendsOnly_transferIfCaughtUp (v : ℕ) :
    SendsOnly honest m (transferIfCaughtUp v : RaftM σ Unit) := by
  refine SendsOnly.of_get fun c r h hl => ?_
  split
  · rw [Act.wp_ite]
    refine ⟨fun _ => ?_, fun _ => ⟨h, Sent.refl r⟩⟩
    exact wp_send_stamped rfl rfl rfl ⟨h.send (.timeoutNow _ hl rfl rfl rfl), sent_post _⟩
  · exact ⟨h, Sent.refl r⟩

theorem wp_handleAppendReject (h : Reach honest m c r) (hl : r.state = .leader) {p q : Progress}
    (hq : r.progressTracker.get m.sender = some q) (hp : p.Sound) (hm : p.matched = q.matched)
    (ha : p.pendingRequestSnapshot = q.pendingRequestSnapshot)
    (hask : honest → m.requestSnapshot ≤ r.core.store.hardState.commit) (i : ℕ) :
    Reaches honest m c r (handleAppendReject m p i) := by
  have hdec := hp.maybeDecTo m.index i m.requestSnapshot
  have hmatch := p.maybeDecTo_matched m.index i m.requestSnapshot
  have hsnap : honest → (p.maybeDecTo m.index i m.requestSnapshot).1.pendingRequestSnapshot ≤
      (LawfulStorage.view r.raftLog.store).hardState.commit := by
    intro hh
    rcases maybeDecTo_asked p m.index i m.requestSnapshot with h' | h'
    · rw [h', ha]
      exact h.sound.asked hh _ q hq
    · rw [h']
      exact hask hh
  unfold Reaches handleAppendReject setProgress
  dsimp only
  rw [Act.wp_ite]
  refine ⟨fun _ => ?_, fun hno => ?_⟩
  · rw [Act.wp_bind, Act.wp_modify]
    refine (SendsOnly.leads (sendsOnly_sendAppend _) (h.setProgress hq ?_ ?_ ?_) hl).reaches
    · split
      · exact Progress.sound_becomeProbe _
      · rename_i hst
        exact hdec.2 hst
    · split
      · rw [Progress.becomeProbe_matched, hmatch, hm]
      · rw [hmatch, hm]
    · intro hh
      split
      · rw [becomeProbe_asked]
        exact hsnap hh
      · exact hsnap hh
  · rw [Act.wp_modify]
    exact h.setProgress hq (hdec.1 (by simpa using hno)) (hmatch.trans hm) hsnap

/-- An acknowledgement raises the match of the peer. -/
theorem reach_ack (h : Reach honest m c r) (hl : r.state = .leader)
    (hm : m.msgType = .appendResponse) (hrej : m.reject = false) (hcur : r.core.Current m)
    {p q : Progress} (hq : r.progressTracker.get m.sender = some q) (hp : p.Sound)
    (hmatch : p.matched = max q.matched m.index)
    (ha : p.pendingRequestSnapshot = q.pendingRequestSnapshot) :
    Reach honest m c { r with progressTracker := r.progressTracker.set m.sender p } := by
  refine h.step (h.sound.setProgress hq hp fun hh => ?_) ?_
  · rw [ha]
    exact h.sound.asked hh _ q hq
  · rw [core_setProgress, hmatch, ← core_matched_get hq]
    exact .ack r.core hm hrej hl hcur

/-- What is done with an acknowledgement before the peer is sent more. -/
def acknowledge (m : Message) (p : Progress) : RaftM σ Unit := do
  setProgress m.sender (ackProgress (p.maybeUpdate m.index).1 m.index)
  let committed ← maybeCommit
  sendAfterAck m.sender committed p.isPaused

theorem handleAppendAck_eq (m : Message) (p : Progress) :
    (handleAppendAck m p : RaftM σ Unit) =
      if (p.maybeUpdate m.index).2 = false then setProgress m.sender (p.maybeUpdate m.index).1
      else acknowledge m p >>= fun _ => sendAppendAggressively m.sender >>= fun _ => transferIfCaughtUp m.sender := by
  unfold handleAppendAck acknowledge
  dsimp only
  rw [Act.bind_assoc]
  congr 2
  funext _
  rw [Act.bind_assoc]

theorem leads_acknowledge (h : Reach honest m c r) (hl : r.state = .leader)
    (hm : m.msgType = .appendResponse) (hrej : m.reject = false) (hcur : r.core.Current m)
    {p q : Progress} (hq : r.progressTracker.get m.sender = some q) (hp : p.Sound)
    (hmatch : p.matched = q.matched) (ha : p.pendingRequestSnapshot = q.pendingRequestSnapshot) :
    (acknowledge m p).wp (fun _ r' => Reach honest m c r' ∧ r'.state = .leader)
      (fun _ r' => Reach honest m c r') r := by
  have hup := hp.maybeUpdate m.index
  have hupm : (p.maybeUpdate m.index).1.matched = max q.matched m.index := by
    rw [Progress.maybeUpdate_matched, hmatch]
  have hupa := (maybeUpdate_asked p m.index).trans ha
  obtain ⟨h1, h2, h3⟩ := ackProgress_spec hup m.index
  have hack := reach_ack h hl hm hrej hcur hq h1 (h2.trans hupm) (h3.trans hupa)
  have hcommit : Leads honest m c
      ({ r with
        progressTracker := r.progressTracker.set m.sender
          (ackProgress (p.maybeUpdate m.index).1 m.index) } : Raft σ) maybeCommit :=
    wp_maybeCommit hack hl
  unfold acknowledge setProgress
  rw [Act.wp_bind, Act.wp_modify]
  have hleads := hcommit.wp_bind hl fun b r1 hr1 hl1 _ => by
    have hafter : SendsOnly honest m (sendAfterAck m.sender b p.isPaused : RaftM σ Unit) := by
      refine SendsOnly.of_get fun c r h hl => ?_
      split
      · exact (sendsOnly_broadcastAppend.when _) c r h hl
      · exact ((sendsOnly_sendAppend _).when _) c r h hl
    exact hafter.leads hr1 hl1
  exact Act.wp_mono hleads (fun _ _ h => ⟨h.1, h.2.role.trans hl⟩) fun _ _ h => h.1

theorem wp_handleAppendAck (h : Reach honest m c r) (hl : r.state = .leader)
    (hm : m.msgType = .appendResponse) (hrej : m.reject = false) (hcur : r.core.Current m)
    {p q : Progress} (hq : r.progressTracker.get m.sender = some q) (hp : p.Sound)
    (hmatch : p.matched = q.matched) (ha : p.pendingRequestSnapshot = q.pendingRequestSnapshot) :
    Reaches honest m c r (handleAppendAck m p) := by
  have hup := hp.maybeUpdate m.index
  have hupm : (p.maybeUpdate m.index).1.matched = max q.matched m.index := by
    rw [Progress.maybeUpdate_matched, hmatch]
  unfold Reaches
  rw [handleAppendAck_eq, Act.wp_ite]
  refine ⟨fun _ => ?_, fun _ => ?_⟩
  · unfold setProgress
    rw [Act.wp_modify]
    exact reach_ack h hl hm hrej hcur hq hup hupm ((maybeUpdate_asked p m.index).trans ha)
  · rw [Act.wp_bind]
    refine Act.wp_mono (leads_acknowledge h hl hm hrej hcur hq hp hmatch ha) ?_ fun _ _ h => h
    rintro _ r1 ⟨hr1, hl1⟩
    exact ((sendsOnly_sendAppendAggressively _).wp_bind fun _ =>
      sendsOnly_transferIfCaughtUp _).leads hr1 hl1 |>.reaches

theorem wp_handleAppendResponse (h : Reach honest m c r) (hl : r.state = .leader)
    (hm : m.msgType = .appendResponse) (hcur : r.core.Current m)
    (hask : honest → m.requestSnapshot ≤ r.core.store.hardState.commit) :
    Reaches honest m c r (handleAppendResponse m) := by
  unfold Reaches handleAppendResponse
  rw [Act.wp_bind, Act.wp_query]
  refine ⟨fun i _ => ?_, fun _ _ => h⟩
  rw [Act.wp_bind, Act.wp_get]
  split
  · exact h
  · rename_i q hq
    have hactive : ({ q with recentActive := true } : Progress).Sound :=
      (h.sound.tracker.progress _ q hq).of_eq rfl rfl rfl rfl
    have hp := hactive.updateCommitted m.commit
    have hmatch : (({ q with recentActive := true } : Progress).updateCommitted m.commit).matched =
        q.matched := Progress.updateCommitted_matched _ _
    have ha := updateCommitted_asked { q with recentActive := true } m.commit
    dsimp only
    rw [Act.wp_ite]
    refine ⟨fun _ => wp_handleAppendReject h hl hq hp hmatch ha hask i, fun hrej => ?_⟩
    exact wp_handleAppendAck h hl hm (by simpa using hrej) hcur hq hp hmatch ha

/-! ### The other handlers of a leader -/

theorem wp_handleHeartbeatResponse (h : Reach honest m c r) (hl : r.state = .leader)
    (hm : m.msgType = .heartbeatResponse) (hcur : r.core.Current m) :
    Reaches honest m c r (handleHeartbeatResponse m) := by
  unfold Reaches handleHeartbeatResponse
  rw [Act.wp_bind, Act.wp_get]
  split
  · exact h
  · rename_i q hq
    dsimp only
    have hp : ∀ p : Progress, p = (if ({ (q.updateCommitted m.commit) with
          recentActive := true, paused := false } : Progress).state = .replicate ∧
          ({ (q.updateCommitted m.commit) with
            recentActive := true, paused := false } : Progress).inflights.full = true then
          { ({ (q.updateCommitted m.commit) with
              recentActive := true, paused := false } : Progress) with
            inflights := ({ (q.updateCommitted m.commit) with
              recentActive := true, paused := false } : Progress).inflights.freeFirstOne }
          else { (q.updateCommitted m.commit) with recentActive := true, paused := false }) →
        p.Sound ∧ p.matched = q.matched ∧ p.pendingRequestSnapshot = q.pendingRequestSnapshot := by
      have hbase : ({ (q.updateCommitted m.commit) with
          recentActive := true, paused := false } : Progress).Sound :=
        ((h.sound.tracker.progress _ q hq).updateCommitted m.commit).of_eq rfl rfl rfl rfl
      have h2 := q.updateCommitted_matched m.commit
      have h3 := updateCommitted_asked q m.commit
      rintro p rfl
      split
      · exact ⟨hbase.freeFirstOne, h2, h3⟩
      · exact ⟨hbase, h2, h3⟩
    obtain ⟨h1, h2, h3⟩ := hp _ rfl
    unfold setProgress
    rw [Act.wp_bind, Act.wp_modify]
    have hset := h.setProgress hq h1 h2 (fun hh => by
      rw [h3]
      exact h.sound.asked hh _ q hq)
    refine Leads.reaches (Leads.wp_bind
      (SendsOnly.leads (SendsOnly.when _ (sendsOnly_sendAppend _)) hset hl) hl ?_)
    intro _ r1 hr1 hl1 hserv
    unfold Leads
    rw [Act.wp_when]
    refine ⟨fun _ => leads_ackRead hr1 hl1 (Or.inr ⟨rfl, rfl, hm, ?_⟩), fun _ => ⟨hr1, Served.refl _⟩⟩
    have ht : r1.core.term = r.core.term := (congrArg Peer.term hserv :)
    unfold Peer.Current
    rw [ht]
    exact hcur

theorem wp_handleSnapshotStatus (h : Reach honest m c r) :
    Reaches honest m c r (handleSnapshotStatus m) := by
  unfold Reaches handleSnapshotStatus setProgress
  rw [Act.wp_bind, Act.wp_get]
  split
  · exact h
  · rename_i q hq
    rw [Act.wp_ite]
    refine ⟨fun _ => h, fun _ => ?_⟩
    dsimp only
    rw [Act.wp_modify]
    refine h.setProgress hq ?_ ?_ fun _ => Nat.zero_le _
    · split
      · exact (Progress.sound_becomeProbe _).of_eq rfl rfl rfl rfl
      · exact (Progress.sound_becomeProbe _).of_eq rfl rfl rfl rfl
    · split
      · exact Progress.becomeProbe_matched _
      · exact Progress.becomeProbe_matched _

theorem wp_handleUnreachable (h : Reach honest m c r) :
    Reaches honest m c r (handleUnreachable m) := by
  unfold Reaches handleUnreachable setProgress
  rw [Act.wp_bind, Act.wp_get]
  split
  · exact h
  · rename_i q hq
    rw [Act.wp_ite]
    refine ⟨fun _ => ?_, fun _ => h⟩
    rw [Act.wp_modify]
    refine h.setProgress hq (Progress.sound_becomeProbe q) q.becomeProbe_matched fun hh => ?_
    rw [becomeProbe_asked]
    exact h.sound.asked hh _ q hq

theorem wp_handleTransferLeader (h : Reach honest m c r) (hl : r.state = .leader) :
    Reaches honest m c r (handleTransferLeader m) := by
  unfold Reaches handleTransferLeader
  rw [Act.wp_bind, Act.wp_get]
  split
  · exact h
  · rw [Act.wp_ite]
    refine ⟨fun _ => h, fun _ => ?_⟩
    rw [Act.wp_ite]
    refine ⟨fun _ => h, fun _ => ?_⟩
    rw [Act.wp_bind, Act.wp_modify, Act.wp_ite]
    refine ⟨fun _ => h.same { h.sound with } rfl, fun _ => ?_⟩
    rw [Act.wp_bind, Act.wp_modify]
    have h' : Reach honest m c ({ r.abortLeaderTransfer with
        electionElapsed := 0, leadTransferee := some m.sender } : Raft σ) :=
      h.same { h.sound with } rfl
    rw [Act.wp_ite]
    refine ⟨fun _ => ?_, fun _ => ((sendsOnly_sendAppend _).leads h' hl).reaches⟩
    exact wp_send_stamped rfl rfl rfl (h'.send (.timeoutNow _ hl rfl rfl rfl))

/-! ### Proposals -/

/-- Where the only configuration change of a proposal is. -/
theorem confChangePosition_ok {pending : Bool} {k : ℕ} {found pos : Option ℕ} {es : List Entry}
    (h : confChangePosition pending k found es = .ok pos) :
    (pos = found ∧ ∀ e ∈ es, e.isConf = false) ∨
      (found = none ∧ pending = false ∧ ∃ pre e post, es = pre ++ e :: post ∧ e.isConf = true ∧
        pos = some (k + pre.length) ∧ ∀ e' ∈ pre ++ post, e'.isConf = false) := by
  induction es generalizing k found with
  | nil =>
      cases h
      exact Or.inl ⟨rfl, fun _ he => absurd he List.not_mem_nil⟩
  | cons e es ih =>
      unfold confChangePosition at h
      split at h
      · rename_i hconf
        split at h
        · cases h
        · rename_i hpend
          split at h
          · cases h
          · rename_i hfound
            split at h
            · cases h
            · rcases ih h with ⟨rfl, hrest⟩ | ⟨hf, _⟩
              · refine Or.inr ⟨not_not.mp hfound, by simpa using hpend, [], e, es, rfl, hconf, rfl, ?_⟩
                exact hrest
              · cases hf
      · rename_i hconf
        have hconf : e.isConf = false := by simpa using hconf
        rcases ih h with ⟨rfl, hrest⟩ | ⟨hf, hp, pre, e', post, rfl, he', rfl, hrest⟩
        · exact Or.inl ⟨rfl, List.forall_mem_cons.mpr ⟨hconf, hrest⟩⟩
        · refine Or.inr ⟨hf, hp, e :: pre, e', post, rfl, he', ?_, ?_⟩
          · rw [List.length_cons]
            congr 1
            omega
          · exact List.forall_mem_cons.mpr ⟨hconf, hrest⟩

theorem isConf_of_mem_retag {t i : ℕ} {es : List Entry} {e : Entry} (h : e ∈ retag t i es) :
    ∃ e' ∈ es, e.isConf = e'.isConf := by
  induction es generalizing i with
  | nil => exact absurd h List.not_mem_nil
  | cons a es ih =>
      rcases List.mem_cons.mp h with rfl | h
      · exact ⟨a, List.mem_cons_self, rfl⟩
      · obtain ⟨e', he', hc⟩ := ih h
        exact ⟨e', List.mem_cons_of_mem a he', hc⟩

theorem retag_append (t i : ℕ) (es fs : List Entry) :
    retag t i (es ++ fs) = retag t i es ++ retag t (i + es.length) fs := by
  induction es generalizing i with
  | nil => rfl
  | cons e es ih =>
      show _ :: retag t (i + 1) (es ++ fs) = _ :: (retag t (i + 1) es ++ _)
      have hlen : i + 1 + es.length = i + (e :: es).length := by
        rw [List.length_cons]
        omega
      rw [ih, hlen]

/-- At most one of the proposed entries changes the configuration, and only when no change is pending. -/
theorem proposed_change {pending : Bool} {pos : Option ℕ} {es : List Entry} (t last : ℕ)
    (h : confChangePosition pending 0 none es = .ok pos) :
    ((∀ e ∈ retag t (last + 1) es, e.isConf = false) ∧ pos = none) ∨
      (∃ i, pos = some i ∧ pending = false ∧
        ∃ e ∈ retag t (last + 1) es, e.isConf = true ∧ last + i + 1 = e.index ∧
          ∀ e' ∈ retag t (last + 1) es, e'.isConf = true → e' = e) := by
  rcases confChangePosition_ok h with ⟨rfl, hno⟩ | ⟨_, hpend, pre, e, post, rfl, he, rfl, hrest⟩
  · refine Or.inl ⟨fun e he => ?_, rfl⟩
    obtain ⟨e', he', hc⟩ := isConf_of_mem_retag he
    rw [hc]
    exact hno e' he'
  · refine Or.inr ⟨_, rfl, hpend, { e with
      term := t, index := last + 1 + pre.length }, ?_, he, ?_, ?_⟩
    · rw [retag_append]
      exact List.mem_append_right _ List.mem_cons_self
    · dsimp only
      omega
    · intro e' he' hc
      rw [retag_append] at he'
      rcases List.mem_append.mp he' with he' | he'
      · obtain ⟨a, ha, hac⟩ := isConf_of_mem_retag he'
        rw [hc, hrest a (List.mem_append_left _ ha)] at hac
        cases hac
      · rcases List.mem_cons.mp he' with rfl | he'
        · rfl
        · obtain ⟨a, ha, hac⟩ := isConf_of_mem_retag he'
          rw [hc, hrest a (List.mem_append_right _ ha)] at hac
          cases hac

theorem wp_handlePropose (h : Reach honest m c r) (hl : r.state = .leader) :
    Reaches honest m c r (handlePropose m) := by
  unfold Reaches handlePropose
  rw [Act.wp_bind, Act.wp_get, Act.wp_ite]
  refine ⟨fun _ => trivial, fun hne => ?_⟩
  rw [Act.wp_ite]
  refine ⟨fun _ => h, fun _ => ?_⟩
  rw [Act.wp_ite]
  refine ⟨fun _ => h, fun _ => ?_⟩
  rw [Act.wp_bind, Act.wp_query]
  refine ⟨fun pos hpos => ?_, fun _ _ => h⟩
  rw [Act.wp_bind]
  refine Act.wp_mono (wp_appendEntry h.sound m.entries) ?_ ?_
  · rintro b r1 ⟨hs1, hcase⟩
    rw [Act.wp_ite]
    rcases hcase with ⟨rfl, rfl⟩ | ⟨rfl, hnil, _⟩ | ⟨rfl, _, happ⟩
    · exact ⟨fun _ => h, fun hf => absurd rfl hf⟩
    · exact absurd hnil hne
    · refine ⟨fun hf => (by cases hf), fun _ => ?_⟩
      rw [Act.wp_bind, Act.wp_modify]
      have hguard := proposed_change r.term r.core.log.last hpos
      have hlead : r1.state = .leader := happ.state.trans hl
      rcases hguard with ⟨hno, rfl⟩ | ⟨i, rfl, hpend, hex⟩
      · refine (sendsOnly_broadcastAppend.leads (h.step hs1 ?_) hlead).reaches
        rw [happ.core]
        exact .extend r.core _ r.core.pendingConf hl (consecutive_retag _ _ _)
          (fun e he => term_of_mem_retag he) (Or.inl ⟨hno, le_rfl⟩)
      · have hpc : r.core.pendingConf ≤ r.core.applied := by
          unfold hasPendingConf at hpend
          exact not_lt.mp (of_decide_eq_false hpend)
        refine (sendsOnly_broadcastAppend.leads (r := { r1 with
          pendingConfIndex := r.raftLog.lastIndex + i + 1 }) (h.step { hs1 with } ?_) hlead).reaches
        have hcore : ({ r1 with pendingConfIndex := r.raftLog.lastIndex + i + 1 } : Raft σ).core =
            { r1.core with pendingConf := r.raftLog.lastIndex + i + 1 } := rfl
        rw [hcore, happ.core, h.sound.log.lastIndex_eq]
        refine .extend r.core _ _ hl (consecutive_retag _ _ _)
          (fun e he => term_of_mem_retag he) (Or.inr ⟨hpc, ?_⟩)
        obtain ⟨e, he, h1, h2, h3⟩ := hex
        exact ⟨e, he, h1, h2, h3⟩
  · rintro _ r1 ⟨hs1, hcore1, _⟩
    exact h.same hs1 hcore1

/-! ### Dispatch -/

/-- A message that may be processed in the current term. -/
def Due (m : Message) (r : Raft σ) : Prop :=
  r.core.Current m ∨ (r.term < m.term ∧ raisesTerm m = false)

theorem Due.current (h : Due m r) (hm : raisesTerm m = true) : r.core.Current m :=
  h.resolve_right fun hf => absurd (hm.symm.trans hf.2) (by decide)

theorem Due.term_lt (h : Due m r) (hlt : r.term < m.term) : raisesTerm m = false := by
  rcases h with h | h
  · rcases h with h | h
    · exact absurd h (by show ¬ m.term = r.term; omega)
    · omega
  · exact h.2

/-- A candidate follows the leader of its term. -/
theorem Due.follows (h : Due m r) (hr : r.state ≠ .leader)
    (hm : m.msgType = .append ∨ m.msgType = .heartbeat ∨ m.msgType = .snapshot) :
    Follows m r.core m.term := by
  have hraise : raisesTerm m = true := by
    unfold raisesTerm
    rcases hm with hm | hm | hm <;> rw [hm] <;> rfl
  rcases h.current hraise with hc | hc
  · exact .same hc fun hl => absurd hl hr
  · exact .unstamped hc hm

theorem wp_stepCandidate (h : Reach honest m c r) (hdue : Due m r)
    (hr : r.state = .candidate ∨ r.state = .preCandidate) :
    Reaches honest m c r (stepCandidate m) := by
  have hnl : r.state ≠ .leader := by
    rcases hr with hr | hr <;> rw [hr] <;> decide
  have hfollow : ∀ {Q : RaftM σ Unit},
      m.msgType = .append ∨ m.msgType = .heartbeat ∨ m.msgType = .snapshot →
      (∀ r' : Raft σ, Reach honest m c r' → r'.state = .follower → r'.core.Current m →
        Reaches honest m c r' Q) →
      Reaches honest m c r (becomeFollower m.term m.sender >>= fun _ => Q) := by
    intro Q hm hQ
    unfold Reaches
    rw [Act.wp_bind]
    refine wp_becomeFollower h (hdue.follows hnl hm) fun r' h' hc' _ _ _ _ => hQ r' h' ?_ (Or.inl ?_)
    · exact (congrArg Peer.role hc' :)
    · rw [hc']
      rfl
  unfold stepCandidate
  cases hm : m.msgType with
  | append =>
      exact hfollow (Or.inl hm) fun r' h' hf hcur => wp_handleAppendEntries h' hm hf hcur
  | heartbeat =>
      exact hfollow (Or.inr (Or.inl hm)) fun r' h' hf hcur => wp_handleHeartbeat h' hm hf hcur
  | snapshot =>
      exact hfollow (Or.inr (Or.inr hm)) fun r' h' hf hcur => wp_handleSnapshot h' hm hf hcur
  | requestPreVoteResponse | requestVoteResponse =>
      unfold Reaches
      dsimp only
      rw [Act.wp_bind, Act.wp_get, Act.wp_ite]
      refine ⟨fun _ => h, fun hrole => ?_⟩
      rw [Act.wp_bind]
      refine Act.wp_mono (wp_poll h (by simp [Message.MayElect, hm]) hr (Or.inr ⟨rfl, rfl, ?_⟩)) ?_ fun _ _ h' => h'.1
      · rcases hr with hr | hr
        · have hkind : m.msgType = .requestVoteResponse := by
            by_contra hf
            exact hrole (Or.inr ⟨hr, fun he => hf (hm.trans he)⟩)
          refine Or.inl ⟨hr, hkind, hdue.current ?_⟩
          unfold raisesTerm
          rw [hkind]
          rfl
        · refine Or.inr ⟨hr, ?_⟩
          by_contra hf
          exact hrole (Or.inl ⟨hr, fun he => hf (hm.trans he)⟩)
      · intro res r' hpoll
        refine Act.wp_mono (wp_maybeCommitByVote hpoll.reach (by rw [hm]; rfl) fun hlt => ?_)
          (fun _ _ h' => h'.1) fun _ _ h' => h'.1
        have := hpoll.term
        exact hdue.term_lt (by omega)
  | _ => exact h

theorem wp_forward (h : Reach honest m c r)
    (hm : m.msgType = .propose ∨ m.msgType = .readIndex ∨ m.msgType = .transferLeader) :
    Reaches honest m c r (forward m) := by
  unfold Reaches forward
  rw [Act.wp_bind, Act.wp_get]
  refine wp_send_any ?_ fun msg' ht he htm => h.send (.forward _ hm ht he htm)
  rcases hm with hm | hm | hm <;> rw [hm] <;> rfl

/-- A follower takes note of its leader. -/
theorem reach_heard (h : Reach honest m c r) (hf : r.state = .follower) (l : ℕ) :
    Reach honest m c ({ r with electionElapsed := 0, leaderId := l } : Raft σ) := by
  refine h.same { h.sound with leader := fun hl => ?_, candidate := fun hl => ?_ } rfl
  · exact absurd (hf.symm.trans hl) (by decide)
  · rcases hl with hl | hl
    · exact absurd (hf.symm.trans hl) (by decide)
    · exact absurd (hf.symm.trans hl) (by decide)

theorem wp_stepFollower (h : Reach honest m c r) (hdue : Due m r) (hf : r.state = .follower) :
    Reaches honest m c r (stepFollower m) := by
  have hcur : m.msgType ≠ .requestPreVote → m.msgType ≠ .requestPreVoteResponse →
      r.core.Current m := by
    intro h1 h2
    refine hdue.current ?_
    unfold raisesTerm
    rw [beq_false_of_ne h1, beq_false_of_ne h2]
    rfl
  unfold Reaches stepFollower
  rw [Act.wp_bind, Act.wp_get]
  cases hm : m.msgType with
  | propose =>
      dsimp only
      rw [Act.wp_ite]
      exact ⟨fun _ => h, fun _ => wp_forward h (Or.inl hm)⟩
  | append =>
      unfold heardFromLeader
      dsimp only
      rw [Act.wp_bind, Act.wp_modify]
      exact wp_handleAppendEntries (reach_heard h hf _) hm hf (hcur (by simp [hm]) (by simp [hm]))
  | heartbeat =>
      unfold heardFromLeader
      dsimp only
      rw [Act.wp_bind, Act.wp_modify]
      exact wp_handleHeartbeat (reach_heard h hf _) hm hf (hcur (by simp [hm]) (by simp [hm]))
  | snapshot =>
      unfold heardFromLeader
      dsimp only
      rw [Act.wp_bind, Act.wp_modify]
      exact wp_handleSnapshot (reach_heard h hf _) hm hf (hcur (by simp [hm]) (by simp [hm]))
  | transferLeader =>
      dsimp only
      rw [Act.wp_ite]
      exact ⟨fun _ => h, fun _ => wp_forward h (Or.inr (Or.inr hm))⟩
  | timeoutNow =>
      dsimp only
      rw [Act.wp_ite]
      refine ⟨fun hp => ?_, fun _ => h⟩
      exact Act.wp_mono (wp_hup h (Or.inr (Or.inl hm)) hp true) (fun _ _ h' => h'.1) fun _ _ h' => h'.1
  | readIndex =>
      dsimp only
      rw [Act.wp_ite]
      exact ⟨fun _ => h, fun _ => wp_forward h (Or.inr (Or.inl hm))⟩
  | readIndexResp =>
      dsimp only
      rw [Act.wp_ite]
      refine ⟨fun _ => h, fun _ => ?_⟩
      split
      · rename_i e he
        have hcur := hcur (by simp [hm]) (by simp [hm])
        unfold onLog
        rw [Act.wp_bind, Act.wp_modify, Act.wp_ignore, Act.wp_zoom]
        have hdel : Reach honest m c
            ({ r with readStates := r.readStates ++ [⟨m.index, e.data⟩] } : Raft σ) :=
          h.step { h.sound with } (.deliver r.core e hm hf hcur he)
        refine Act.wp_mono (h.sound.log.wp_maybeCommit _ _) ?_ ?_
        · rintro b l' (⟨_, rfl⟩ | ⟨_, hlt, hle, hat, rfl⟩)
          · exact hdel
          · refine hdel.step { hdel.sound with log := h.sound.log.setCommitted hlt.le hle } ?_
            exact .commit _ _ hlt hle (.readIndexResp hm hf hcur rfl hat)
        · rintro _ l' rfl
          exact hdel
      · exact h
  | _ => exact h

theorem getVoteResult_active {t : ProgressTracker} (ht : t.Sound) {id : ℕ}
    (h : (t.quorumRecentlyActive id).2 = false) : ¬ t.conf.voters.Wins {id} := by
  intro hw
  have hwon : t.conf.voters.getVoteResult
      (fun v => some (decide (v ∈ t.activePeers id))) = .won := by
    refine JointConfiguration.won_of_wins hw fun v hv hmem => ?_
    have hid : v = id := hmem
    subst hid
    have hknown : t.contains v = true := by
      rcases JointConfiguration.contains_iff.mp hv with hv | hv
      · exact ht.conf.incoming v hv
      · exact ht.conf.outgoing v hv
    have hact : v ∈ t.activePeers v := by
      unfold ProgressTracker.activePeers
      rw [IdSet.mem_addAll]
      right
      have hmem := of_decide_eq_true hknown
      rw [AList.mem_keys, AList.keys, List.keys, List.mem_map] at hmem
      obtain ⟨e, he, hev⟩ := hmem
      rw [List.mem_map]
      exact ⟨e, List.mem_filter.mpr ⟨he, by simp [hev]⟩, hev⟩
    rw [decide_eq_true hact]
  unfold ProgressTracker.quorumRecentlyActive ProgressTracker.hasQuorum at h
  rw [hwon] at h
  cases h

/-- The sweep of the activity flags does not show. -/
theorem reach_swept (h : Reach honest m c r) : Reach honest m c
    ({ r with progressTracker := (r.progressTracker.quorumRecentlyActive r.id).1 } : Raft σ) := by
  have hget : ∀ v, (r.progressTracker.quorumRecentlyActive r.id).1.get v =
      (r.progressTracker.get v).map fun p => { p with recentActive := v == r.id } := fun v =>
    lookup_mapVals _ _ v
  refine h.same ?_ ?_
  · exact { h.sound with
      tracker := h.sound.tracker.mapVals (f := fun v p => { p with recentActive := v == r.id })
        rfl rfl fun id p hp => (h.sound.tracker.progress id p hp).of_eq rfl rfl rfl rfl
      promotable := h.sound.promotable
      asked := by
        intro hh v p hp
        have hp : (r.progressTracker.quorumRecentlyActive r.id).1.get v = some p := hp
        rw [hget] at hp
        obtain ⟨q, hq, rfl⟩ := Option.map_eq_some_iff.mp hp
        exact h.sound.asked hh v q hq }
  · unfold core
    congr 1
    funext v
    show (((r.progressTracker.quorumRecentlyActive r.id).1.get v).map Progress.matched).getD 0 = _
    rw [hget]
    cases r.progressTracker.get v <;> rfl

theorem wp_stepLeader (h : Reach honest m c r) (hdue : Due m r) (hl : r.state = .leader)
    (hask : honest → m.msgType = .appendResponse →
      m.requestSnapshot ≤ r.core.store.hardState.commit) :
    Reaches honest m c r (stepLeader m) := by
  have hcur : m.msgType ≠ .requestPreVote → m.msgType ≠ .requestPreVoteResponse →
      r.core.Current m := by
    intro h1 h2
    refine hdue.current ?_
    unfold raisesTerm
    rw [beq_false_of_ne h1, beq_false_of_ne h2]
    rfl
  unfold Reaches stepLeader
  rw [Act.wp_bind, Act.wp_get]
  cases hm : m.msgType with
  | beat => exact (sendsOnly_broadcastHeartbeat.leads h hl).reaches
  | checkQuorum =>
      dsimp only
      rw [Act.wp_bind, Act.wp_modify, Act.wp_ite]
      refine ⟨fun _ => reach_swept h, fun hq => ?_⟩
      have hno : ¬ r.progressTracker.conf.voters.Wins {r.id} :=
        getVoteResult_active h.sound.tracker (by simpa using hq)
      exact wp_becomeFollower (reach_swept h) (.same rfl fun _ => hno) fun r' h' _ _ _ _ _ => h'
  | propose => exact wp_handlePropose h hl
  | readIndex =>
      dsimp only
      rw [Act.wp_ite]
      refine ⟨fun hin => ?_, fun _ => ?_⟩
      · have hin := inTerm_of_commitToCurrentTerm h.sound.log hin
        have hmic0 : Micros honest m c { r.core with postponed := r.pendingReadIndexMessages } :=
          h.micros
        refine Act.wp_mono (wp_serveReadIndex h.sound hl hin (Or.inl rfl) hmic0) ?_ ?_
        · rintro _ r' ⟨hs', hmic, _, _, hpost⟩
          rw [← hpost] at hmic
          exact ⟨hs', hmic⟩
        · rintro _ r' ⟨hs', hmic, _, _, hpost⟩
          rw [← hpost] at hmic
          exact ⟨hs', hmic⟩
      · exact h.step { h.sound with } (.postpone r.core hm hl)
  | appendResponse =>
      exact wp_handleAppendResponse h hl hm (hcur (by simp [hm]) (by simp [hm]))
        fun hh => hask hh hm
  | heartbeatResponse =>
      exact wp_handleHeartbeatResponse h hl hm (hcur (by simp [hm]) (by simp [hm]))
  | snapStatus => exact wp_handleSnapshotStatus h
  | unreachablePeer => exact wp_handleUnreachable h
  | transferLeader => exact wp_handleTransferLeader h hl
  | _ => exact h

/-- What the role makes of a message. -/
theorem wp_stepRole (h : Reach honest m c r) (hdue : Due m r)
    (hask : honest → m.msgType = .appendResponse → r.state = .leader →
      m.requestSnapshot ≤ r.core.store.hardState.commit) :
    Reaches honest m c r (match r.state with
      | .preCandidate | .candidate => stepCandidate m
      | .follower => stepFollower m
      | .leader => stepLeader m) := by
  cases hst : r.state with
  | preCandidate => exact wp_stepCandidate h hdue (Or.inr hst)
  | candidate => exact wp_stepCandidate h hdue (Or.inl hst)
  | follower => exact wp_stepFollower h hdue hst
  | leader => exact wp_stepLeader h hdue hst fun hh hm => hask hh hm hst

theorem wp_stepCurrent (h : Reach honest m c r) (hdue : Due m r)
    (hask : honest → m.msgType = .appendResponse → r.state = .leader →
      m.requestSnapshot ≤ r.core.store.hardState.commit) :
    Reaches honest m c r (stepCurrent m) := by
  have hvote : m.msgType = .requestVote ∨ m.msgType = .requestPreVote →
      Reaches honest m c r (handleVoteRequest m) := by
    intro hm
    refine Act.wp_mono (wp_handleVoteRequest h hm (fun hv => hdue.current ?_) hdue.term_lt)
      (fun _ _ h' => h'.1) fun _ _ h' => h'.1
    unfold raisesTerm
    rw [hv]
    rfl
  unfold Reaches stepCurrent
  rw [Act.wp_bind, Act.wp_get]
  cases hm : m.msgType with
  | hup =>
      dsimp only
      rw [Act.wp_ite]
      refine ⟨fun hp => ?_, fun _ => h⟩
      exact Act.wp_mono (wp_hup h (Or.inl hm) hp false) (fun _ _ h' => h'.1) fun _ _ h' => h'.1
  | requestVote => exact hvote (Or.inl hm)
  | requestPreVote => exact hvote (Or.inr hm)
  | _ => exact wp_stepRole h hdue hask

theorem wp_stepLowerTerm (h : Reach honest m c r) (h0 : m.term ≠ 0) (hlt : m.term < r.term) :
    Reaches honest m c r (stepLowerTerm m) := by
  unfold Reaches stepLowerTerm
  rw [Act.wp_bind, Act.wp_get, Act.wp_ite]
  refine ⟨fun hold => ?_, fun _ => ?_⟩
  · refine wp_send_stamped rfl rfl rfl (h.send ?_)
    exact .appendResponse _ rfl rfl rfl (Or.inr (Or.inl ⟨rfl, hold.2.symm, h0, hlt⟩))
  · rw [Act.wp_ite]
    refine ⟨fun _ => ?_, fun _ => h⟩
    refine wp_send_vote rfl rfl fun p => h.send ?_
    exact .voteReject _ (Or.inr rfl) rfl rfl rfl (Or.inl ⟨rfl, rfl⟩)

/-- Processing any message is a sequence of protocol steps on it. -/
theorem wp_step (h : Reach honest m c r)
    (hask : honest → m.msgType = .appendResponse → r.state = .leader →
      m.requestSnapshot ≤ r.core.store.hardState.commit) :
    Reaches honest m c r (step m) := by
  unfold Reaches step
  rw [Act.wp_bind, Act.wp_get, Act.wp_ite]
  refine ⟨fun h0 => wp_stepCurrent h (Or.inl (Or.inr h0)) hask, fun h0 => ?_⟩
  rw [Act.wp_ite]
  refine ⟨fun hlt => ?_, fun hge => ?_⟩
  · rw [Act.wp_ite]
    refine ⟨fun _ => h, fun _ => ?_⟩
    rw [Act.wp_ite]
    refine ⟨fun hraise => ?_, fun hraise => wp_stepCurrent h (Or.inr ⟨hlt, by simpa using hraise⟩) hask⟩
    rw [Act.wp_bind]
    refine wp_becomeFollower h (.higher hlt rfl hraise) fun r' h' hc' _ _ _ _ => ?_
    refine wp_stepCurrent h' (Or.inl (Or.inl ?_)) fun _ _ hl => ?_
    · rw [hc']
      rfl
    · have hf : r'.state = .follower := (congrArg Peer.role hc' :)
      exact absurd (hf.symm.trans hl) (by decide)
  · rw [Act.wp_ite]
    refine ⟨fun hlow => wp_stepLowerTerm h h0 hlow, fun hge' => wp_stepCurrent h (Or.inl (Or.inl ?_)) hask⟩
    show m.term = r.term
    omega

end Raftz.Raft
