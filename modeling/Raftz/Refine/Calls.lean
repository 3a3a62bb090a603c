import Raftz.Driver
import Raftz.Refine.Operations

/-! # Calls refine the protocol

Every public operation of a node, whether it returns or fails, is a sequence of
protocol steps on the messages it handles; a configuration change replaces the
voters first.  No promise about snapshot requests is needed here. -/

open Base

namespace Raftz

/-- The messages that a call processes. -/
def RaftCall.Handles : RaftCall → Message → Prop
  | .step m, m' => m' = m
  | .restoreSnapshot snap, m' => m'.msgType = .snapshot ∧ m'.term = 0 ∧ m'.snapshot = some snap
  | .onPersistEntries _ _, m' => m'.IsReport
  | .onPersistSnapshot _, m' => m'.IsReport
  | _, m' => m'.IsLocal

/-- A message that stands for a call without one. -/
def idleMessage : Message := { msgType := .beat, sender := 1 }

theorem idleMessage_isLocal : idleMessage.IsLocal := ⟨rfl, Nat.one_ne_zero, Or.inr (Or.inl rfl)⟩

/-- The message that stands for a report of durability. -/
def reportMessage : Message := { msgType := .beat }

theorem reportMessage_isReport : reportMessage.IsReport := ⟨rfl, rfl⟩

namespace Raft

variable {σ : Type} [LawfulStorage σ]

/-- What a call leaves: a sound node, reached by protocol steps from the old one, or from the old one
with a changed configuration installed. -/
structure Called (x : RaftCall) (r r' : Raft σ) : Prop where
  sound : r'.Sound False
  acts : ∃ c, Acts False x.Handles c r'.core ∧ (c = r.core ∨
    ∃ cc res, x = .applyConfChange cc ∧ changeConf r.progressTracker cc = .ok res ∧
      c = (r.installed res).core)

theorem Called.of_reach {x : RaftCall} {m : Message} {r r' : Raft σ} (hm : x.Handles m)
    (h : Reach False m r.core r') : Called x r r' :=
  ⟨h.sound, r.core, Acts.of_micros hm h.micros, Or.inl rfl⟩

theorem Called.of_reaches {α : Type} {x : RaftCall} {m : Message} {y : RaftM σ α} {r : Raft σ}
    (hm : x.Handles m) (h : Reaches False m r.core r y) :
    y.wp (fun _ r' => Called x r r') (fun _ r' => Called x r r') r :=
  Act.wp_mono h (fun _ _ => .of_reach hm) fun _ _ => .of_reach hm

omit [LawfulStorage σ] in
theorem wp_void {α : Type} {y : RaftM σ α} {Q : Raft σ → Prop} {r : Raft σ}
    (h : y.wp (fun _ => Q) (fun _ => Q) r) : (y >>= fun _ => pure ()).wp (fun _ => Q) (fun _ => Q) r := by
  rw [Act.wp_bind]
  exact Act.wp_mono h (fun _ _ h' => h') fun _ _ h' => h'

/-- One specification for all calls. -/
theorem wp_call {r : Raft σ} (h : r.Sound False) {x : RaftCall} (hf : x.Fits r) :
    x.run.wp (fun _ r' => Called x r r') (fun _ r' => Called x r r') r := by
  cases x with
  | step m => exact Called.of_reaches rfl (wp_step h.reach fun hf => hf.elim)
  | tick =>
      refine wp_void (Act.wp_mono (wp_tick h) ?_ ?_)
      · intro _ r' h'
        exact ⟨h'.sound, r.core, h'.acts, Or.inl rfl⟩
      · intro _ r' h'
        exact ⟨h'.sound, r.core, h'.acts, Or.inl rfl⟩
  | ping => exact Called.of_reaches idleMessage_isLocal (wp_ping h.reach)
  | requestSnapshot => exact Called.of_reaches idleMessage_isLocal (wp_requestSnapshot h.reach)
  | setPriority p =>
      have hreach : Reach False idleMessage r.core ({ r with priority := p } : Raft σ) :=
        h.reach.same { h with } rfl
      exact Called.of_reach idleMessage_isLocal hreach
  | applyConfChange cc =>
      have hlast : 0 < r.raftLog.lastIndex := by
        rw [h.log.lastIndex_eq]
        exact lt_of_lt_of_le hf h.log.committed_le
      have hdone : ∀ r', Reconfigured False idleMessage r cc r' → Called (.applyConfChange cc) r r' := by
        rintro r' ⟨res, hres, hreach, _⟩
        exact ⟨hreach.sound, _, Acts.of_micros idleMessage_isLocal hreach.micros,
          Or.inr ⟨cc, res, rfl, hres, rfl⟩⟩
      refine wp_void (Act.wp_mono (wp_applyConfChange h hlast cc) (fun _ => hdone) ?_)
      rintro _ r' (rfl | h')
      · exact .of_reach idleMessage_isLocal h.reach
      · exact hdone r' h'
  | commitApply applied => exact Called.of_reaches idleMessage_isLocal (wp_commitApply h.reach applied)
  | onPersistEntries index term =>
      exact Called.of_reaches reportMessage_isReport
        (wp_onPersistEntries h.reach reportMessage_isReport index term)
  | onPersistSnapshot index =>
      exact Called.of_reaches reportMessage_isReport
        (wp_onPersistSnapshot h.reach reportMessage_isReport index)
  | restoreSnapshot snap =>
      obtain ⟨m, hm⟩ : ∃ m : Message, m.msgType = .snapshot ∧ m.term = 0 ∧ m.snapshot = some snap :=
        ⟨{ msgType := .snapshot, snapshot := some snap }, rfl, rfl, rfl⟩
      refine wp_void (Act.wp_mono (wp_restoreSnapshot h.reach hm.1 hm.2.2 (Or.inr hm.2.1)
        (Or.inr hm.2.1)) ?_ ?_)
      · intro _ r' h'
        exact .of_reach hm h'.1
      · intro _ r' h'
        exact .of_reach hm h'

/-- A call that returns or fails keeps the node sound. -/
theorem called_of_leaves {r r' : Raft σ} (h : r.Sound False) {x : RaftCall} (hf : x.Fits r)
    (hl : Outcome.Leaves (x.run r) r') : Called x r r' := hl.of_wp (wp_call h hf)

theorem Called.moved {x : RaftCall} {r r' : Raft σ} (h : Called x r r') : Moved r.core r'.core := by
  obtain ⟨c, hacts, rfl | ⟨cc, res, _, _, rfl⟩⟩ := h.acts
  · exact hacts.moved
  · have hinst : Moved r.core (r.installed res).core := ⟨rfl, rfl, le_rfl, Or.inl ⟨rfl, rfl, rfl⟩⟩
    exact hinst.trans hacts.moved

end Raft

end Raftz
