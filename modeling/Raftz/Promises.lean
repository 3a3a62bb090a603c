import Raftz.DriverSound

/-! # What is promised before it is durable

A granted vote and an acknowledged append are promises: they may leave a node
only after the state behind them is durable.  A batch withholds all of its
messages or none, depending on the role at the time it is handed out.  So the
promises are withheld unless the node became leader, or made them as a leader,
since the last batch. -/

open Base

namespace Raftz

/-- A granted vote or an acknowledged append. -/
def Message.IsPromise (m : Message) : Prop :=
  (m.msgType = .requestVoteResponse ∨ m.msgType = .appendResponse) ∧ m.reject = false

instance (m : Message) : Decidable m.IsPromise :=
  inferInstanceAs (Decidable ((_ ∨ _) ∧ _))

/-- Messages on which a node may make a promise. -/
def Message.AsksPromise (m : Message) : Prop :=
  m.msgType = .requestVote ∨ m.msgType = .append ∨ m.msgType = .heartbeat ∨ m.msgType = .snapshot

theorem Message.MayElect.not_asksPromise {m : Message} (h : m.MayElect) : ¬ m.AsksPromise := by
  unfold AsksPromise
  rcases h with h | h | h | h <;> rw [h] <;> simp

theorem Message.IsLocal.not_asksPromise {m : Message} (h : m.IsLocal) : ¬ m.AsksPromise := by
  unfold AsksPromise
  obtain ⟨-, -, h | h | h⟩ := h <;> rw [h] <;> simp

namespace Peer

/-- A message that makes a leader promise something: a vote request from the node it voted for, or
a message of an earlier leader. -/
def Lured (c : Peer) (m : Message) : Prop :=
  (m.msgType = .requestVote ∧ c.Current m ∧ (c.vote = m.sender ∨ c.vote = 0)) ∨ m.Outdated c

/-- Everything promised later was promised before. -/
def NoNewPromise (c c' : Peer) : Prop := ∀ msg ∈ c'.out, msg.IsPromise → msg ∈ c.out

theorem NoNewPromise.of_out {c c' : Peer} (h : c'.out = c.out) : c.NoNewPromise c' :=
  fun _ hmsg _ => h ▸ hmsg

theorem NoNewPromise.post {c c' : Peer} {msg : Message} (h : c'.out = c.out ++ [msg])
    (hp : ¬ msg.IsPromise) : c.NoNewPromise c' := by
  intro x hx hxp
  rw [h] at hx
  rcases List.mem_append.mp hx with hx | hx
  · exact hx
  · rw [List.mem_singleton.mp hx] at hxp
    exact absurd hxp hp

theorem NoNewPromise.trans {c c' c'' : Peer} (h : c.NoNewPromise c') (h' : c'.NoNewPromise c'') :
    c.NoNewPromise c'' := fun msg hmsg hp => h msg (h' msg hmsg hp) hp

end Peer

/-- Only an answer to an append, a snapshot or an outdated message acknowledges something. -/
theorem Sends.not_isPromise {honest : Prop} {m msg : Message} {c : Peer} (h : Sends honest m c msg)
    (hm : ¬ (c.role = .follower ∧ m.AsksPromise) ∧ ¬ m.Outdated c) : ¬ msg.IsPromise := by
  rintro ⟨hkind, hrej⟩
  cases h with
  | appendResponse ht hs htm hi =>
      rcases hi with hi | ⟨-, hout⟩ | ⟨-, hr, hi⟩
      · rw [hrej] at hi
        cases hi
      · exact hm.2 hout
      · refine hm.1 ⟨hr, ?_⟩
        rcases hi with ⟨h | h, -⟩ | ⟨h, -⟩
        · exact Or.inr (Or.inl h)
        · exact Or.inr (Or.inr (Or.inr h))
        · exact Or.inr (Or.inl h)
  | voteReject ht hs htm hrej' hc =>
      rw [hrej] at hrej'
      cases hrej'
  | forward hfwd ht he htm =>
      rw [ht] at hkind
      rcases hfwd with h | h | h <;> rw [h] at hkind <;> simp at hkind
  | append hr ht => rw [ht] at hkind; simp at hkind
  | snapshot s hr ht => rw [ht] at hkind; simp at hkind
  | heartbeat hr ht => rw [ht] at hkind; simp at hkind
  | heartbeatResponse hr hm' hcur ht => rw [ht] at hkind; simp at hkind
  | requestVote hr ht => rw [ht] at hkind; simp at hkind
  | requestPreVote hr ht => rw [ht] at hkind; simp at hkind
  | preVoteGrant hm' ht => rw [ht] at hkind; simp at hkind
  | timeoutNow hr ht => rw [ht] at hkind; simp at hkind

/-- A step that answers nobody promises nothing, and neither does a leader that is not lured. -/
theorem Micro.noNewPromise {honest : Prop} {m : Message} {c c' : Peer} (h : Micro honest m c c')
    (hm : ¬ m.AsksPromise ∨ (c.role = .leader ∧ ¬ c.Lured m)) : c.NoNewPromise c' := by
  cases h with
  | grant msg hreq hcur hv =>
      rcases hm with hm | ⟨-, hm⟩
      · exact absurd (Or.inl hreq) hm
      · exact absurd (Or.inl ⟨hreq, hcur, hv⟩) hm
  | send msg hs =>
      refine .post rfl (hs.not_isPromise ?_)
      rcases hm with hm | ⟨hr, hm⟩
      · refine ⟨fun hf => hm hf.2, fun hout => hm ?_⟩
        rcases hout.1 with h | h
        · exact Or.inr (Or.inl h)
        · exact Or.inr (Or.inr (Or.inl h))
      · refine ⟨fun hf => ?_, fun hout => hm (Or.inr hout)⟩
        rw [hr] at hf
        cases hf.1
  | batch k msg es hk ht =>
      intro x hx hp
      obtain ⟨j, hj, rfl⟩ := List.getElem_of_mem hx
      rw [List.length_set] at hj
      rw [List.getElem_set] at hp ⊢
      split at hp
      · obtain ⟨hkind, -⟩ := hp
        rw [ht] at hkind
        simp at hkind
      · rename_i hne
        rw [if_neg hne]
        exact List.getElem_mem hj
  | answerRemote req i msg ha ht =>
      refine .post rfl ?_
      rintro ⟨hkind, -⟩
      rw [ht] at hkind
      simp at hkind
  | _ => exact .of_out rfl

/-- Steps that answer nobody promise nothing. -/
theorem Acts.noNewPromise {honest : Prop} {ok : Message → Prop} {c c' : Peer}
    (h : Acts honest ok c c') (hok : ∀ m, ok m → ¬ m.AsksPromise) : c.NoNewPromise c' := by
  induction h with
  | refl => exact .of_out rfl
  | tail _ hstep ih =>
      obtain ⟨m, hm, hstep⟩ := hstep
      exact ih.trans (hstep.noNewPromise (Or.inl (hok m hm)))

/-- Without an election, a leader was a leader before. -/
theorem Micro.led {honest : Prop} {m : Message} {c c' : Peer} (h : Micro honest m c c')
    (hm : ¬ m.MayElect) (hr : c'.role = .leader) : c.role = .leader := by
  cases h with
  | follow t M ht hM => cases hr
  | preCampaign => cases hr
  | campaign => cases hr
  | lead M hm' => exact absurd hm' hm
  | commitDown => cases hr
  | _ => exact hr

/-- A leader that is not lured and stays a leader keeps its term and its vote. -/
theorem Micro.same_term {honest : Prop} {m : Message} {c c' : Peer} (h : Micro honest m c c')
    (hm : ¬ m.MayElect) (hl : ¬ c.Lured m) (hr : c'.role = .leader) :
    c'.term = c.term ∧ c'.vote = c.vote := by
  cases h with
  | follow t M ht hM => cases hr
  | campaign => cases hr
  | lead M hm' => exact absurd hm' hm
  | commitDown => cases hr
  | grant msg hreq hcur hv => exact absurd (Or.inl ⟨hreq, hcur, hv⟩) hl
  | _ => exact ⟨rfl, rfl⟩

/-- What lures a node depends on its term and its vote. -/
theorem Peer.Lured.of_same {c c' : Peer} {m : Message} (h : c'.Lured m) (ht : c'.term = c.term)
    (hv : c'.vote = c.vote) : c.Lured m := by
  unfold Peer.Lured Peer.Current Message.Outdated at h ⊢
  rwa [ht, hv] at h

/-- A leader that is not lured by a message and stays a leader promises nothing on it. -/
theorem Micros.led {honest : Prop} {m : Message} {c c' : Peer} (h : Micros honest m c c')
    (hm : ¬ m.MayElect) (hl : c.role = .leader → ¬ c.Lured m) (hr : c'.role = .leader) :
    c.role = .leader ∧ c'.term = c.term ∧ c'.vote = c.vote ∧ c.NoNewPromise c' := by
  induction h with
  | refl => exact ⟨hr, rfl, rfl, .of_out rfl⟩
  | tail _ hstep ih =>
      have hr1 := hstep.led hm hr
      obtain ⟨hr0, ht, hv, hnew⟩ := ih hr1
      have hl1 := fun hlured => hl hr0 (Peer.Lured.of_same hlured ht hv)
      obtain ⟨ht', hv'⟩ := hstep.same_term hm hl1 hr
      exact ⟨hr0, ht'.trans ht, hv'.trans hv, hnew.trans (hstep.noNewPromise (Or.inr ⟨hr1, hl1⟩))⟩

namespace Raft

variable {σ : Type}

/-- The message lures the node, and the node is set up to answer earlier leaders. -/
def Lured (r : Raft σ) (m : Message) : Prop :=
  (m.msgType = .requestVote ∧ (m.term = r.term ∨ m.term = 0) ∧ (r.vote = m.sender ∨ r.vote = 0)) ∨
    ((r.knobs.checkQuorum = true ∨ r.knobs.preVote = true) ∧
      (m.msgType = .append ∨ m.msgType = .heartbeat) ∧ m.term ≠ 0 ∧ m.term < r.term)

/-- A leader that is not lured has promised nothing: the state the batches rely on. -/
def Withheld (r : Raft σ) : Prop := r.state = .leader → ∀ msg ∈ r.messages, ¬ msg.IsPromise

/-- A message of an earlier leader is ignored by a node that is not set up to answer it. -/
theorem step_outdated [Storage σ] {r : Raft σ} {m : Message}
    (hm : m.msgType = .append ∨ m.msgType = .heartbeat) (h0 : m.term ≠ 0) (hlt : m.term < r.term)
    (hc : r.knobs.checkQuorum = false) (hp : r.knobs.preVote = false) : step m r = .ok () r := by
  unfold step
  rw [Act.bind_run (Act.get_run _), if_neg h0, if_neg (by omega), if_pos hlt]
  unfold stepLowerTerm
  rw [Act.bind_run (Act.get_run _), hc, hp, if_neg (by simp)]
  rcases hm with hm | hm <;> rw [hm] <;> rfl

variable [LawfulStorage σ] {r r' : Raft σ}

/-- One message: the promises stay withheld unless the node is elected over them or lured. -/
theorem Withheld.step (h : r.Withheld) (hs : r.Sound False) {m : Message}
    (hl : Outcome.Leaves (Raft.step m r) r')
    (hq : r.state ≠ .leader → r'.state = .leader → ∀ msg ∈ r.messages, ¬ msg.IsPromise)
    (hlured : r.state = .leader → ¬ r.Lured m) : r'.Withheld := by
  have hcall := called_of_leaves (x := .step m) hs trivial hl
  obtain ⟨c, hacts, rfl | ⟨cc, res, hx, -⟩⟩ := hcall.acts
  swap
  · cases hx
  intro hr' msg hmsg hp
  have hclean : r.state ≠ .leader ∨ r.state = .leader := (em _).symm
  by_cases hm : m.AsksPromise
  · have hnot : ¬ m.MayElect := fun he => he.not_asksPromise hm
    have hmicros : Micros False m r.core r'.core :=
      Relation.ReflTransGen.mono (fun _ _ ⟨m', hm', hstep⟩ => (show m' = m from hm') ▸ hstep) _ _ hacts
    by_cases hignored : m.Outdated r.core ∧ r.knobs.checkQuorum = false ∧ r.knobs.preVote = false
    · obtain ⟨⟨hkind, h0, hlt⟩, hc, hpre⟩ := hignored
      rw [step_outdated hkind h0 hlt hc hpre] at hl
      have hsame : r' = r := by
        rcases hl with ⟨a, hl⟩ | ⟨e, hl⟩
        · exact (Outcome.ok.inj hl).2.symm
        · cases hl
      rw [hsame] at hr' hmsg
      exact h hr' msg hmsg hp
    · have hcore : r.core.role = .leader → ¬ r.core.Lured m := by
        intro hr hlure
        refine hlured hr ?_
        rcases hlure with hvote | hout
        · exact Or.inl hvote
        · refine Or.inr ⟨?_, hout⟩
          by_contra hk
          rw [not_or, Bool.not_eq_true, Bool.not_eq_true] at hk
          exact hignored ⟨hout, hk⟩
      obtain ⟨hr, -, -, hnew⟩ := hmicros.led hnot hcore hr'
      exact h hr msg (hnew msg hmsg hp) hp
  · have hnew := hacts.noNewPromise fun m' hm' => (show m' = m from hm') ▸ hm
    have hold : msg ∈ r.messages := hnew msg hmsg hp
    rcases hclean with hr | hr
    · exact hq hr hr' msg hold hp
    · exact h hr msg hold hp

/-- A tick promises nothing. -/
theorem Withheld.tick (h : r.Withheld) (hs : r.Sound False)
    (hl : Outcome.Leaves (RaftCall.tick.run r) r')
    (hq : r.state ≠ .leader → r'.state = .leader → ∀ msg ∈ r.messages, ¬ msg.IsPromise) :
    r'.Withheld := by
  have hcall := called_of_leaves (x := .tick) hs trivial hl
  obtain ⟨c, hacts, rfl | ⟨cc, res, hx, -⟩⟩ := hcall.acts
  swap
  · cases hx
  intro hr' msg hmsg hp
  have hnew := hacts.noNewPromise fun m' hm' => Message.IsLocal.not_asksPromise hm'
  have hold : msg ∈ r.messages := hnew msg hmsg hp
  rcases em (r.state = .leader) with hr | hr
  · exact h hr msg hold hp
  · exact hq hr hr' msg hold hp

end Raft

/-! ### A window between two batches -/

/-- What happens to a node between two batches. -/
inductive WindowCall
  | step (m : Message)
  | tick
  | campaign

namespace WindowCall

variable {σ : Type}

/-- The computation of a call; its result is not looked at. -/
def run [Storage σ] : WindowCall → Act Err (RawNode σ) Unit
  | .step m => RawNode.step m
  | .tick => RawNode.tick >>= fun _ => pure ()
  | .campaign => RawNode.campaign

/-- The call neither elects a node with promises in its queue nor lures a leader. -/
structure Calm (x : WindowCall) (n n' : RawNode σ) : Prop where
  queued : n.raft.state ≠ .leader → n'.raft.state = .leader →
    ∀ msg ∈ n.raft.messages, ¬ msg.IsPromise
  led : n.raft.state = .leader → ∀ m, x = .step m → ¬ n.raft.Lured m

/-- The call of the consensus state machine behind it. -/
def call : WindowCall → RaftCall
  | .step m => .step m
  | .tick => .tick
  | .campaign => .step { msgType := .hup }

/-- A computation of the consensus state machine changes nothing else. -/
theorem leaves_onRaft {α : Type} {y : RaftM σ α} {n n' : RawNode σ}
    (h : Outcome.Leaves (RawNode.onRaft y n) n') :
    ∃ r', n' = { n with raft := r' } ∧ Outcome.Leaves (y n.raft) r' := by
  unfold RawNode.onRaft Act.zoom at h
  cases hy : y n.raft with
  | ok a r' =>
      rw [hy] at h
      rcases h with ⟨b, hb⟩ | ⟨e, he⟩
      · cases hb
        exact ⟨r', rfl, Or.inl ⟨a, rfl⟩⟩
      · cases he
  | err e r' =>
      rw [hy] at h
      rcases h with ⟨b, hb⟩ | ⟨e', he⟩
      · cases hb
      · cases he
        exact ⟨r', rfl, Or.inr ⟨e, rfl⟩⟩
  | panic =>
      rw [hy] at h
      rcases h with ⟨b, hb⟩ | ⟨e', he⟩
      · cases hb
      · cases he

/-- A result that is not looked at does not matter for the state. -/
theorem leaves_void {ε τ α : Type} {y : Act ε τ α} {s s' : τ} :
    Outcome.Leaves ((y >>= fun _ => pure () : Act ε τ Unit) s) s' ↔ Outcome.Leaves (y s) s' := by
  cases hy : y s with
  | ok a t =>
      rw [Act.bind_run hy]
      constructor
      · rintro (⟨b, hb⟩ | ⟨e, he⟩)
        · cases hb
          exact Or.inl ⟨a, rfl⟩
        · cases he
      · rintro (⟨b, hb⟩ | ⟨e, he⟩)
        · cases hb
          exact Or.inl ⟨(), rfl⟩
        · cases he
  | err e t =>
      rw [Act.bind_run_err hy]
      constructor
      · rintro (⟨b, hb⟩ | ⟨e', he⟩)
        · cases hb
        · cases he
          exact Or.inr ⟨e, rfl⟩
      · rintro (⟨b, hb⟩ | ⟨e', he⟩)
        · cases hb
        · cases he
          exact Or.inr ⟨e, rfl⟩
  | panic =>
      have hnone : (y >>= fun _ => pure () : Act ε τ Unit) s = .panic := by
        show Act.andThen y _ s = _
        unfold Act.andThen
        rw [hy]
      rw [hnone]
      constructor
      · rintro (⟨b, hb⟩ | ⟨e', he⟩)
        · cases hb
        · cases he
      · rintro (⟨b, hb⟩ | ⟨e', he⟩)
        · cases hb
        · cases he

/-- A refused call leaves the node as it is. -/
theorem leaves_throw {τ α : Type} {e : Err} {s s' : τ}
    (h : Outcome.Leaves ((Act.throw e : Act Err τ α) s) s') : s' = s := by
  rcases h with ⟨a, ha⟩ | ⟨e', he⟩
  · cases ha
  · cases he
    rfl

/-- A call is refused, or it is passed to the consensus state machine. -/
theorem leaves [Storage σ] {x : WindowCall} {n n' : RawNode σ}
    (h : Outcome.Leaves ((x.run : Act Err (RawNode σ) Unit) n) n') :
    n' = n ∨ ∃ r', n' = { n with raft := r' } ∧ Outcome.Leaves (x.call.run n.raft) r' := by
  cases x with
  | step m =>
      have h : Outcome.Leaves (RawNode.step m n) n' := h
      unfold RawNode.step at h
      rw [Act.bind_run (Act.get_run _)] at h
      split at h
      · exact Or.inl (leaves_throw h)
      · split at h
        · exact Or.inr (leaves_onRaft h)
        · exact Or.inl (leaves_throw h)
  | tick =>
      obtain ⟨r', hr', hl⟩ := leaves_onRaft (leaves_void.mp h)
      exact Or.inr ⟨r', hr', leaves_void.mpr hl⟩
  | campaign => exact Or.inr (leaves_onRaft h)

end WindowCall

namespace RawNode

variable {σ : Type} [LawfulStorage σ]

/-- Calls between two batches, each of which satisfies `P`. -/
abbrev Window (P : WindowCall → RawNode σ → RawNode σ → Prop) : RawNode σ → RawNode σ → Prop :=
  Relation.ReflTransGen fun n n' => ∃ x : WindowCall, Outcome.Leaves (x.run n) n' ∧ P x n n'

theorem withheld_of_window {n n' : RawNode σ} (h : n.raft.Withheld) (hs : n.raft.Sound False)
    (hw : Window WindowCall.Calm n n') : n'.raft.Withheld ∧ n'.raft.Sound False := by
  induction hw with
  | refl => exact ⟨h, hs⟩
  | tail _ hstep ih =>
      obtain ⟨x, hl, hcalm⟩ := hstep
      obtain ⟨h1, hs1⟩ := ih
      rcases WindowCall.leaves hl with rfl | ⟨r', rfl, hl'⟩
      · exact ⟨h1, hs1⟩
      · cases x with
        | step m =>
            exact ⟨h1.step hs1 hl' hcalm.queued fun hr => hcalm.led hr m rfl,
              (Raft.called_of_leaves (x := .step m) hs1 trivial hl').sound⟩
        | tick =>
            exact ⟨h1.tick hs1 hl' hcalm.queued,
              (Raft.called_of_leaves (x := .tick) hs1 trivial hl').sound⟩
        | campaign =>
            refine ⟨h1.step hs1 hl' hcalm.queued fun _ hlured => ?_,
              (Raft.called_of_leaves (x := .step { msgType := .hup }) hs1 trivial hl').sound⟩
            rcases hlured with ⟨hm, -⟩ | ⟨-, hm | hm, -⟩ <;> cases hm

end RawNode

namespace Driver

variable {σ : Type} [LawfulStorage σ]

/-- A node without pending work has an empty queue. -/
theorem withheld_of_idle {n : RawNode σ} (h : n.hasReady = false) : n.raft.Withheld := by
  unfold RawNode.hasReady at h
  simp only [Bool.or_eq_false_iff, Bool.not_eq_false', List.isEmpty_iff] at h
  intro _ msg hmsg
  rw [h.1.1.1.1.1.1] at hmsg
  cases hmsg

/-- **Nothing is promised before it is durable.**  A node without pending work is called any number
of times, then a batch is handed out.  When no call elected it over queued promises or lured it as
a leader, every granted vote and every acknowledged append waits until the batch is durable. -/
theorem promises_withheld {SameData : σ → σ → Prop} (hsame : Faithful SameData) {config : Config}
    {prng : List ℕ} {store : σ} (hv : LawfulStorage.Valid store)
    (happ : config.applied ≤ max (LawfulStorage.view store).log.base
      (Raft.loadedState config (LawfulStorage.view store)).commit)
    {d d' : Driver σ} (hstart : Starts config prng store d) (hrun : Steps SameData d d')
    (hidle : d'.raw.hasReady = false) {n n' : RawNode σ}
    (hw : RawNode.Window WindowCall.Calm d'.raw n) {rd : Ready}
    (hready : RawNode.getReady n = .ok rd n') :
    (∀ msg ∈ rd.messages, ¬ msg.IsPromise) ∧
      ∀ msg ∈ rd.light.messages, msg.IsPromise → msg ∈ rd.persistedMessages := by
  have hsound : d'.Sound := sound_of_steps hsame (sound_of_starts hv happ hstart).1 hrun
  obtain ⟨hheld, hs⟩ := RawNode.withheld_of_window (withheld_of_idle hidle) hsound.raft hw
  have hspec := Act.wp_ok (RawNode.wp_getReady hs) hready
  have hmessages := hspec.messages
  have hlate := hspec.late
  unfold Ready.messages Ready.persistedMessages
  by_cases hl : n.raft.state = .leader
  · have hlate : rd.isPersistedMsg = false := by simp [hlate, hl]
    rw [hlate, hmessages]
    exact ⟨hheld hl, fun msg hmsg hp => absurd hp (hheld hl msg hmsg)⟩
  · have hlate : rd.isPersistedMsg = true := by simp [hlate, hl]
    rw [hlate]
    exact ⟨fun msg hmsg => absurd hmsg List.not_mem_nil, fun msg hmsg _ => hmsg⟩

/-- Carry out calls between two batches. -/
def playWindow : List WindowCall → RawNode σ → Option (RawNode σ)
  | [], n => some n
  | x :: xs, n => (left? (x.run n)).bind (playWindow xs)

theorem playWindow_window {xs : List WindowCall} {n n' : RawNode σ} (h : playWindow xs n = some n') :
    RawNode.Window (fun _ _ _ => True) n n' := by
  induction xs generalizing n with
  | nil =>
      cases h
      exact .refl
  | cons x xs ih =>
      obtain ⟨n1, h1, h2⟩ := Option.bind_eq_some_iff.mp h
      exact .head ⟨x, leaves_of_left? h1, trivial⟩ (ih h2)

/-- The messages of the batch that is handed out next. -/
def nextMessages (n : RawNode σ) : Option (List Message × List Message) :=
  match RawNode.getReady n with
  | .ok rd _ => some (rd.messages, rd.persistedMessages)
  | _ => Option.none

theorem nextMessages_eq {n : RawNode σ} {early late : List Message}
    (h : nextMessages n = some (early, late)) : ∃ rd n', RawNode.getReady n = .ok rd n' ∧
      rd.messages = early ∧ rd.persistedMessages = late := by
  unfold nextMessages at h
  split at h
  · rename_i rd n' hready
    cases h
    exact ⟨rd, n', hready, rfl, rfl⟩
  · cases h

end Driver

/-- A request of node 2 for a vote in term 5. -/
def voteRequest : Message := { msgType := .requestVote, sender := 2, dest := 1, term := 5 }

/-- The vote that node 1 gives in answer. -/
def voteGranted : Message := { msgType := .requestVoteResponse, sender := 1, dest := 2, term := 5 }

namespace Driver

/-- A follower gives its vote; the answer waits for the batch. -/
theorem promises_withheld_voter : ∃ (d : Driver MemoryStorage) (n n' : RawNode MemoryStorage)
    (rd : Ready), Starts { id := 1 } [] { raftState := { confState := { voters := [1, 2] } } } d ∧
      RawNode.Window WindowCall.Calm d.raw n ∧ RawNode.getReady n = .ok rd n' ∧
      voteGranted ∈ rd.persistedMessages ∧ ∀ msg ∈ rd.messages, ¬ msg.IsPromise := by
  have hrun : (playFrom { id := 1 } []
      ({ raftState := { confState := { voters := [1, 2] } } } : MemoryStorage) []).bind (fun p =>
        (playWindow [.step voteRequest] p.2.raw).map (fun n => decide (p.1.length = 0 ∧
          p.2.raw.hasReady = false ∧ p.2.raw.raft.state = .follower ∧ n.raft.state = .follower ∧
          nextMessages n = some ([], [voteGranted])))) = some true := by decide +kernel
  obtain ⟨⟨trace, d⟩, hp, hrun⟩ := Option.bind_eq_some_iff.mp hrun
  obtain ⟨n, hn, heq⟩ := Option.map_eq_some_iff.mp hrun
  obtain ⟨hlen, hidle, hrole, hrole', hnext⟩ := of_decide_eq_true heq
  obtain ⟨rd, n', hready, -, hlate⟩ := nextMessages_eq hnext
  obtain ⟨d0, hstart, hsteps⟩ := playFrom_run Eq hp
  have hd : d = d0 := by
    rw [List.length_eq_zero_iff.mp hlen] at hsteps
    cases hsteps
    rfl
  subst hd
  have hw : RawNode.Window WindowCall.Calm d.raw n := by
    obtain ⟨n1, h1, h2⟩ := Option.bind_eq_some_iff.mp hn
    cases h2
    refine .single ⟨.step voteRequest, leaves_of_left? h1, fun _ hl => ?_, fun hl => ?_⟩
    · rw [hrole'] at hl
      cases hl
    · rw [hrole] at hl
      cases hl
  have hheld := promises_withheld faithful_eq (by trivial) (by decide) hstart .refl hidle hw hready
  refine ⟨d, n, n', rd, hstart, hw, hready, ?_, hheld.1⟩
  rw [hlate]
  exact List.mem_singleton_self _

/-- A node gives its vote, is elected as the only voter and hands the vote out at once. -/
theorem promises_elected : ∃ (d : Driver MemoryStorage) (n n' : RawNode MemoryStorage) (rd : Ready),
    Starts { id := 1 } [] { raftState := { confState := { voters := [1] } } } d ∧
      d.raw.hasReady = false ∧ RawNode.Window (fun _ _ _ => True) d.raw n ∧
      RawNode.getReady n = .ok rd n' ∧ ∃ msg ∈ rd.messages, msg.IsPromise := by
  have hrun : (playFrom { id := 1 } []
      ({ raftState := { confState := { voters := [1] } } } : MemoryStorage) []).bind (fun p =>
        (playWindow [.step voteRequest, .campaign] p.2.raw).map (fun n => (p.1.length,
          p.2.raw.hasReady, nextMessages n))) =
      some (0, false, some ([voteGranted], [])) := by decide +kernel
  obtain ⟨⟨trace, d⟩, hp, hrun⟩ := Option.bind_eq_some_iff.mp hrun
  obtain ⟨n, hn, heq⟩ := Option.map_eq_some_iff.mp hrun
  simp only [Prod.mk.injEq] at heq
  obtain ⟨hlen, hidle, hnext⟩ := heq
  obtain ⟨rd, n', hready, hearly, -⟩ := nextMessages_eq hnext
  obtain ⟨d0, hstart, hsteps⟩ := playFrom_run Eq hp
  have hd : d = d0 := by
    rw [List.length_eq_zero_iff.mp hlen] at hsteps
    cases hsteps
    rfl
  subst hd
  refine ⟨d, n, n', rd, hstart, hidle, playWindow_window hn, hready, voteGranted, ?_, by decide⟩
  rw [hearly]
  exact List.mem_singleton_self _

end Driver

end Raftz
