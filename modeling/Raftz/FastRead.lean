import Raftz.Driver
import Raftz.Protocol.Peer
import Raftz.Reconfiguration

/-! # Reads without a heartbeat round

A leader serves a read at once when its configuration has a single voter.  The
test looks only at the number of voters: a leader that has been removed or
demoted keeps its role, and once the configuration has shrunk to one other node
it answers reads that no quorum confirms. -/

open Base

namespace Raftz

namespace JointConfiguration

variable {c : JointConfiguration}

theorem isSingleton_iff : c.isSingleton = true ↔ c.outgoing.isEmpty = true ∧ c.incoming.count = 1 := by
  unfold isSingleton
  rw [Bool.and_eq_true, beq_iff_eq]

/-- A set of nodes is a quorum when it wins. -/
theorem isQuorum_of_wins {Q : Set ℕ} [DecidablePred (· ∈ Q)] (h : c.Wins Q) : c.IsQuorum Q := by
  refine ⟨fun v => if v ∈ Q then some true else none, fun v => ?_, ?_⟩
  · by_cases hv : v ∈ Q <;> simp [hv]
  · exact won_of_wins h fun v _ hv => if_pos hv

/-- The only voter of a configuration is a quorum of it, and no other node is. -/
theorem isQuorum_singleton_iff (h : c.isSingleton = true) (id : ℕ) :
    c.IsQuorum {id} ↔ c.contains id = true := by
  obtain ⟨hout, hcount⟩ := isSingleton_iff.mp h
  have hmaj : majority c.incoming.count = 1 := by
    rw [hcount]
    rfl
  constructor
  · intro hq
    rcases hq.wins.1 with he | ⟨A, hA, hcard, hAQ⟩
    · -- one voter is not an empty side
      have hzero : c.incoming.voters.toFinset.card = 0 := by
        rw [IdSet.toFinset_eq_empty_iff.mpr he, Finset.card_empty]
      rw [IdSet.card_toFinset] at hzero
      have hcount : c.incoming.voters.count = 1 := hcount
      omega
    · obtain ⟨v, hv⟩ := Finset.card_pos.mp (by omega : 0 < A.card)
      have hvid : v = id := hAQ v hv
      subst hvid
      exact contains_iff.mpr (Or.inl (IdSet.mem_toFinset.mp (hA hv)))
  · intro hc
    have hin : id ∈ c.incoming.voters := by
      rcases contains_iff.mp hc with hin | hin
      · exact hin
      · exact absurd hin (IdSet.isEmpty_iff.mp hout id)
    refine isQuorum_of_wins ⟨Or.inr ⟨{id}, ?_, ?_, ?_⟩, Or.inl hout⟩
    · exact Finset.singleton_subset_iff.mpr (IdSet.mem_toFinset.mpr hin)
    · rw [hmaj, Finset.card_singleton]
    · intro v hv
      exact Finset.mem_singleton.mp hv

end JointConfiguration

namespace Raft

variable {σ : Type} {r : Raft σ}

/-- A read has been answered: a read state was delivered or a response was queued. -/
def Answered (r r' : Raft σ) : Prop :=
  r.readStates.length < r'.readStates.length ∨
    ∃ msg ∈ r'.messages.drop r.messages.length, msg.msgType = .readIndexResp

/-- Only heartbeats have been queued. -/
def OnlyHeartbeats (r r' : Raft σ) : Prop :=
  r'.readStates = r.readStates ∧
    ∃ l, r'.messages = r.messages ++ l ∧ ∀ msg ∈ l, msg.msgType = .heartbeat

theorem OnlyHeartbeats.not_answered {r' : Raft σ} (h : OnlyHeartbeats r r') : ¬ Answered r r' := by
  obtain ⟨hrs, l, hl, htype⟩ := h
  rintro (hlt | ⟨msg, hmem, hmsg⟩)
  · rw [hrs] at hlt
    exact lt_irrefl _ hlt
  · rw [hl, List.drop_left] at hmem
    rw [htype msg hmem] at hmsg
    cases hmsg

theorem stamp_heartbeat {m m' : Message} (hm : m.msgType = .heartbeat) (h : r.stamp m = some m') :
    m'.msgType = .heartbeat := by
  unfold stamp at h
  split at h <;> simp_all [isVoteMessage] <;> rw [← h.2]

theorem wp_broadcastHeartbeat_only (ctx : Option Bytes) :
    (broadcastHeartbeatWithCtx ctx).wp (fun _ r' => OnlyHeartbeats r r')
      (fun _ r' => OnlyHeartbeats r r') r := by
  unfold broadcastHeartbeatWithCtx
  rw [Act.wp_bind, Act.wp_get]
  refine Act.wp_each _ ?_ ⟨rfl, [], by simp, by simp⟩
  intro id _ r1 h1
  rw [Act.wp_ite]
  refine ⟨fun _ => h1, fun _ => ?_⟩
  rw [Act.wp_bind, Act.wp_get]
  split
  · exact h1
  · unfold sendHeartbeat send
    rw [Act.wp_bind, Act.wp_get, Act.wp_bind, Act.wp_get, Act.wp_bind, Act.wp_orPanic]
    intro m' hm'
    rw [Act.wp_modify]
    obtain ⟨hrs, l, hl, htype⟩ := h1
    refine ⟨hrs, l ++ [m'], ?_, ?_⟩
    · show r1.messages ++ [m'] = _
      rw [hl, List.append_assoc]
    · intro msg hmem
      rcases List.mem_append.mp hmem with hmem | hmem
      · exact htype msg hmem
      · rw [List.mem_singleton.mp hmem]
        exact stamp_heartbeat rfl hm'

/-- With several voters and safe reads, nothing is answered at once. -/
theorem serveReadIndex_not_answered {m : Message} {r' : Raft σ}
    (hs : r.conf.voters.isSingleton = false) (hsafe : r.readOnly.option = .safe)
    (h : Outcome.Leaves (serveReadIndex m r) r') : ¬ Answered r r' := by
  have hwp : (serveReadIndex m).wp (fun _ r' => OnlyHeartbeats r r')
      (fun _ r' => OnlyHeartbeats r r') r := by
    unfold serveReadIndex
    rw [Act.wp_bind, Act.wp_get, Act.wp_ite]
    refine ⟨fun hsing => ?_, fun _ => ?_⟩
    · have hsing : r.conf.voters.isSingleton = true := hsing
      rw [hs] at hsing
      cases hsing
    · rw [hsafe]
      dsimp only
      split
      · exact ⟨rfl, [], by simp, by simp⟩
      · rw [Act.wp_bind, Act.wp_modify]
        exact wp_broadcastHeartbeat_only _
  rcases h with ⟨a, h⟩ | ⟨e, h⟩
  · exact (Act.wp_ok hwp h).not_answered
  · exact (Act.wp_err hwp h).not_answered

theorem answerRead_local {m : Message} (index : ℕ) (h : m.sender = invalidId ∨ m.sender = r.id) :
    answerRead m index r = .ok () { r with readStates := r.readStates ++ [⟨index, readCtx m⟩] } := by
  have hrun : handleReadyReadIndex m index r =
      .ok none { r with readStates := r.readStates ++ [⟨index, readCtx m⟩] } := by
    unfold handleReadyReadIndex
    rw [Act.bind_run (show Act.get r = .ok r r from rfl), if_pos h]
    rfl
  unfold answerRead
  rw [Act.bind_run hrun]
  rfl

theorem answerRead_remote {m : Message} (index : ℕ)
    (h : ¬ (m.sender = invalidId ∨ m.sender = r.id)) :
    ∃ msg, answerRead m index r = .ok () { r with messages := r.messages ++ [msg] } ∧
      msg.msgType = .readIndexResp := by
  have hrun : handleReadyReadIndex m index r = .ok (some {
      msgType := .readIndexResp, dest := m.sender, index := index, entries := m.entries }) r := by
    unfold handleReadyReadIndex
    rw [Act.bind_run (show Act.get r = .ok r r from rfl), if_neg h]
    rfl
  refine ⟨{
    msgType := .readIndexResp
    dest := m.sender
    index := index
    entries := m.entries
    sender := r.id
    term := r.term }, ?_, rfl⟩
  unfold answerRead
  rw [Act.bind_run hrun]
  rfl

/-- With one voter, every read is answered at once. -/
theorem serveReadIndex_answered (m : Message) (hs : r.conf.voters.isSingleton = true) :
    ∃ r', serveReadIndex m r = .ok () r' ∧ Answered r r' := by
  have hs : r.progressTracker.isSingleton = true := hs
  have hrun : serveReadIndex m r = answerRead m r.raftLog.committed r := by
    unfold serveReadIndex
    rw [Act.bind_run (show Act.get r = .ok r r from rfl), if_pos hs]
  rw [hrun]
  by_cases hlocal : m.sender = invalidId ∨ m.sender = r.id
  · refine ⟨_, answerRead_local _ hlocal, Or.inl ?_⟩
    simp
  · obtain ⟨msg, hmsg, htype⟩ := answerRead_remote r.raftLog.committed hlocal
    refine ⟨_, hmsg, Or.inr ⟨msg, ?_, htype⟩⟩
    rw [List.drop_left]
    exact List.mem_singleton_self msg

/-- Safe reads that are served at once are served by a node that is a quorum of its configuration,
unless the only voter is another node. -/
theorem serveReadIndex_quorum_iff (r : Raft σ) (m : Message) (hsafe : r.readOnly.option = .safe) :
    (∀ r', Outcome.Leaves (serveReadIndex m r) r' → Answered r r' → r.conf.voters.IsQuorum {r.id}) ↔
      (r.conf.voters.isSingleton = true → r.conf.voters.contains r.id = true) := by
  constructor
  · intro h hs
    obtain ⟨r', hrun, hans⟩ := serveReadIndex_answered m hs
    exact (JointConfiguration.isQuorum_singleton_iff hs r.id).mp (h r' (Or.inl ⟨_, hrun⟩) hans)
  · intro h r' hleaves hans
    cases hs : r.conf.voters.isSingleton with
    | true => exact (JointConfiguration.isQuorum_singleton_iff hs r.id).mpr (h hs)
    | false => exact absurd hans (serveReadIndex_not_answered hs hsafe hleaves)

/-- A node alone in its configuration is a quorum. -/
theorem serveReadIndex_quorum_alone : ∃ r : Raft MemoryStorage,
    Raft.init { id := 1 } [] { raftState := { confState := { voters := [1] } } } = .ok r () ∧
      ∀ r', Outcome.Leaves (serveReadIndex {} r) r' → Answered r r' →
        r.conf.voters.IsQuorum {r.id} := by
  have h : ∃ r : Raft MemoryStorage,
      Raft.init { id := 1 } [] { raftState := { confState := { voters := [1] } } } = .ok r () ∧
        r.readOnly.option = .safe ∧ r.conf.voters.contains r.id = true := ⟨_, rfl, rfl, rfl⟩
  obtain ⟨r, hinit, hsafe, hc⟩ := h
  exact ⟨r, hinit, (serveReadIndex_quorum_iff r {} hsafe).mpr fun _ => hc⟩

/-- The change that removes node 1. -/
def leaveOne : ConfChangeV2 := { changes := [⟨.removeNode, 1⟩] }

/-- Node 1 of two is elected, commits its own removal with the vote of node 2, and applies it. -/
def removedLeader : Option (List (Event × Driver MemoryStorage) × Driver MemoryStorage) :=
  Driver.playFrom { id := 1 } [] { raftState := { confState := { voters := [1, 2] } } } [
    .call (.step { msgType := .hup }),
    .call (.step { msgType := .requestVoteResponse, sender := 2, dest := 1, term := 1 }),
    .call (.step {
      msgType := .propose
      sender := 1
      entries := [{
        entryType := .confChangeV2
        data := (encodeConfChangeV2 leaveOne).toOption.getD [] }] }),
    .ready, .advanceAppend,
    .call (.step { msgType := .appendResponse, sender := 2, dest := 1, term := 1, index := 2 }),
    .ready, .advanceAppend, .call (.applyConfChange leaveOne), .advanceApply]

/-- A removed leader answers reads at once although it is no quorum. -/
theorem serveReadIndex_removedLeader : ∃ (d0 d : Driver MemoryStorage) (r' : Raft MemoryStorage),
    Driver.Starts { id := 1 } [] { raftState := { confState := { voters := [1, 2] } } } d0 ∧
      Driver.Steps Eq d0 d ∧ d.raw.raft.state = .leader ∧ d.raw.raft.readOnly.option = .safe ∧
      serveReadIndex { msgType := .readIndex, entries := [{ data := [7] }] } d.raw.raft = .ok () r' ∧
      Answered d.raw.raft r' ∧ ¬ d.raw.raft.conf.voters.IsQuorum {d.raw.raft.id} := by
  have hrun : removedLeader.map (fun p => (p.2.raw.raft.state, p.2.raw.raft.readOnly.option,
      p.2.raw.raft.conf.voters.isSingleton, p.2.raw.raft.conf.voters.contains p.2.raw.raft.id)) =
      some (.leader, .safe, true, false) := by decide +kernel
  obtain ⟨⟨trace, d⟩, hd, heq⟩ := Option.map_eq_some_iff.mp hrun
  simp only [Prod.mk.injEq] at heq
  obtain ⟨hl, hsafe, hsing, hc⟩ := heq
  obtain ⟨d0, hstart, hsteps⟩ := Driver.playFrom_run Eq hd
  obtain ⟨r', hserve, hans⟩ := serveReadIndex_answered
    { msgType := .readIndex, entries := [{ data := [7] }] } hsing
  refine ⟨d0, d, r', hstart, hsteps.steps, hl, hsafe, hserve, hans, fun hq => ?_⟩
  rw [JointConfiguration.isQuorum_singleton_iff hsing, hc] at hq
  cases hq

end Raft

end Raftz
