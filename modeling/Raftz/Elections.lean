import Raftz.Ballots
import Raftz.PreVote

/-! # Election safety

A cluster whose nodes vote, campaign, crash and are started again from their storage.  A
batch is written before its messages are sent, and a term and a vote that are written bind
the node after a restart.  So of two nodes that ever lead, no two lead in the same term. -/

open Base

namespace Raftz

variable {σ : Type} [LawfulStorage σ]

/-! ### What a batch leaves in the storage -/

/-- What binds after a term has been raised. -/
theorem Bound.raise {term vote t i term' : ℕ} (h : Bound term vote t i) (hle : term ≤ term') :
    Bound term' vote t i :=
  h.mono (hle.lt_or_eq.imp_right fun heq => ⟨heq.symm, fun hv => hv⟩)

theorem StoreView.append_hardState (v : StoreView) (es : List Entry) :
    (v.append es).hardState = v.hardState ∧ (v.append es).confState = v.confState := by
  cases es with
  | nil => exact ⟨rfl, rfl⟩
  | cons e es => exact ⟨rfl, rfl⟩

/-- The hard state and the configuration that a written batch leaves. -/
structure Ready.Leaves (rd : Ready) (v v' : StoreView) : Prop where
  confState : v'.confState = (rd.snapshot.map (fun s => s.metadata.confState)).getD v.confState
  written : ∀ hs, rd.hs = some hs → v'.hardState = hs
  kept : rd.hs = none → v'.hardState.vote = v.hardState.vote ∧ v.hardState.term ≤ v'.hardState.term

theorem Ready.write_leaves {rd : Ready} {l : RaftLog σ} (h : l.WF) (he : rd.entries = l.unstable.entries)
    {store : σ} (hw : rd.write l.store = .ok store) :
    rd.Leaves (LawfulStorage.view l.store) (LawfulStorage.view store) := by
  obtain ⟨s1, hs1, hw⟩ := bind_eq_ok.mp hw
  obtain ⟨s2, hs2, hw⟩ := bind_eq_ok.mp hw
  unfold Ready.writeSnapshot at hs1
  unfold Ready.writeEntries at hs2
  unfold Ready.writeHardState at hw
  -- the snapshot
  have h1 : LawfulStorage.Valid s1 ∧
      (LawfulStorage.view s1).confState =
        (rd.snapshot.map (fun s => s.metadata.confState)).getD (LawfulStorage.view l.store).confState ∧
      (LawfulStorage.view s1).hardState.vote = (LawfulStorage.view l.store).hardState.vote ∧
      (LawfulStorage.view l.store).hardState.term ≤ (LawfulStorage.view s1).hardState.term := by
    cases hsnap : rd.snapshot with
    | none =>
        rw [hsnap] at hs1
        cases hs1
        exact ⟨h.valid, rfl, rfl, le_rfl⟩
    | some snap =>
        rw [hsnap] at hs1
        obtain ⟨hv, hview⟩ := LawfulStorage.applySnapshot_ok h.valid hs1
        rw [hview]
        exact ⟨hv, rfl, rfl, le_max_left _ _⟩
  -- the entries
  have h2 : LawfulStorage.Valid s2 ∧ (LawfulStorage.view s2).confState = (LawfulStorage.view s1).confState ∧
      (LawfulStorage.view s2).hardState = (LawfulStorage.view s1).hardState := by
    split at hs2
    · cases hs2
      exact ⟨h1.1, rfl, rfl⟩
    · rename_i hne
      rw [he] at hs2 hne
      obtain ⟨e, es, hes⟩ := List.exists_cons_of_ne_nil hne
      have hcons := h.entries
      obtain ⟨hv, hview, _⟩ := LawfulStorage.append_ok h1.1 hs2 fun e' he' => by
        rw [hes] at he' hcons
        cases he'
        rw [hes, show e.index = l.unstable.offset from hcons.1]
        exact hcons
      rw [hview]
      obtain ⟨hhs, hcs⟩ := StoreView.append_hardState (LawfulStorage.view s1) l.unstable.entries
      exact ⟨hv, hcs, hhs⟩
  -- the hard state
  cases hhs : rd.hs with
  | none =>
      rw [hhs] at hw
      cases hw
      rw [← h2.2.2] at h1
      refine ⟨h2.2.1.trans h1.2.1, fun hs hh => ?_, fun _ => h1.2.2⟩
      rw [hhs] at hh
      cases hh
  | some hs =>
      rw [hhs] at hw
      obtain ⟨hv, hview⟩ := LawfulStorage.setHardState_ok h2.1 hw
      refine ⟨?_, fun hs' hh => ?_, fun hn => ?_⟩
      · rw [hview]
        exact h2.2.1.trans h1.2.1
      · rw [hhs] at hh
        cases hh
        rw [hview]
      · rw [hhs] at hn
        cases hn

/-! ### What a node has handed out -/

namespace RawNode

variable {n : RawNode σ} {rd : Ready}

/-- A light batch is handed out only when the hard state of its term and vote has been before. -/
structure Declared (rd : Ready) (n : RawNode σ) (n' : RawNode σ) : Prop where
  hardState : n'.prevHs = n'.raft.hardState
  term : n'.prevHs.term = (rd.hs.getD n.prevHs).term
  vote : n'.prevHs.vote = (rd.hs.getD n.prevHs).vote

theorem wp_advanceAppend_declared (h : n.raft.Sound False) (hw : rd.Written n.raft.raftLog.storeLog)
    (hterm : ∀ s s', rd.snapshot = some s → n.raft.raftLog.unstable.snapshot = some s' →
      s'.metadata.index = s.metadata.index → s'.metadata.term = s.metadata.term)
    (hrec : ∀ rec ∈ n.records, rec.number = rd.number → rec = rd.record) :
    (advanceAppend rd).wp (fun _ n' => Declared rd n n') (fun _ _ => True) n := by
  unfold advanceAppend
  rw [Act.wp_bind]
  refine Act.wp_mono (wp_commitReady h.log hw hterm hrec) ?_ fun _ _ _ => trivial
  intro _ n1 h1
  rw [Act.wp_bind, Act.wp_get, Act.wp_bind]
  refine Act.wp_mono (wp_onPersistReady (h1.sound h) _) ?_ fun _ _ _ => trivial
  intro _ n2 h2
  obtain ⟨l', -, hn1⟩ := h1.result
  obtain ⟨r', recs, hn2, -, hs2, -⟩ := h2.result
  have hprev : n2.prevHs = rd.hs.getD n.prevHs := by rw [hn2, hn1]
  have hs2 : n2.raft.Sound False := by
    rw [hn2]
    exact hs2
  rw [Act.wp_bind, Act.wp_get, Act.wp_bind]
  refine Act.wp_mono (wp_getLightReadySince hs2 _) ?_ fun _ _ _ => trivial
  intro light n3 h3
  have hprev3 : n3.prevHs = rd.hs.getD n.prevHs := h3.prevHs.trans hprev
  rw [Act.wp_bind, Act.wp_get, Act.wp_bind, Act.wp_assert]
  intro _
  rw [Act.wp_bind, Act.wp_assert]
  intro _
  rw [Act.wp_bind, Act.wp_modify, Act.wp_bind, Act.wp_get, Act.wp_bind, Act.wp_assert]
  intro heq
  rw [Act.wp_pure]
  have ht : n3.prevHs.term = (rd.hs.getD n.prevHs).term := congrArg HardState.term hprev3
  have hv : n3.prevHs.vote = (rd.hs.getD n.prevHs).vote := congrArg HardState.vote hprev3
  exact ⟨(of_decide_eq_true heq).symm, ht, hv⟩

end RawNode

/-- The calls that an election is made of: what arrives, time, and everything else that leaves the
configuration alone and makes no message up. -/
def RaftCall.Admitted (sent : List Message) (id : ℕ) : RaftCall → Prop
  | .step m => m.Arrives sent id
  | .applyConfChange _ => False
  | .restoreSnapshot _ => False
  | _ => True

theorem RaftCall.Admitted.arrives {sent : List Message} {id : ℕ} {x : RaftCall} (h : x.Admitted sent id)
    {m : Message} (hm : x.Handles m) : m.Arrives sent id := by
  have hlocal : m.msgType = .hup ∨ m.msgType = .beat ∨ m.msgType = .checkQuorum → m.Arrives sent id := by
    intro hk
    refine Or.inr ?_
    rintro (hf | hf | hf | hf | ⟨hf, -⟩) <;> rw [hf] at hk <;> simp at hk
  cases x with
  | step m' =>
      rw [show m = m' from hm]
      exact h
  | applyConfChange cc => exact h.elim
  | restoreSnapshot snap => exact h.elim
  | onPersistEntries index term => exact hlocal (Or.inr (Or.inl hm.1))
  | onPersistSnapshot index => exact hlocal (Or.inr (Or.inl hm.1))
  | tick => exact hlocal hm.2.2
  | ping => exact hlocal hm.2.2
  | requestSnapshot => exact hlocal hm.2.2
  | setPriority p => exact hlocal hm.2.2
  | commitApply applied => exact hlocal hm.2.2

namespace Driver

/-- What the storage keeps for a restart. -/
def saved (d : Driver σ) : HardState := (LawfulStorage.view d.raw.store).hardState

/-- The hard state that the batches taken so far amount to. -/
def handedHs (d : Driver σ) : HardState := (d.pending.bind Ready.hs).getD d.raw.prevHs

/-- A node of a cluster that is configured by `cs` and in which `sent` has been sent. -/
structure Votes (cs : ConfState) (sent : List Message) (d : Driver σ) : Prop where
  sound : d.Sound
  peer : Peer.Electing cs sent d.raw.raft.core
  handed : ∀ t i, Bound d.handedHs.term d.handedHs.vote t i → Bound d.saved.term d.saved.vote t i
  durable : ∀ x ∈ sent, ∀ t i, x.Tells d.raw.raft.core.id t i → Bound d.saved.term d.saved.vote t i

variable {cs : ConfState} {sent : List Message} {d d' : Driver σ}

/-- A step that only lets the node go on. -/
theorem Votes.goOn (h : Votes cs sent d) (hs : d'.Sound) (hpeer : Peer.Electing cs sent d'.raw.raft.core)
    (hid : d'.raw.raft.core.id = d.raw.raft.core.id) (hsaved : d'.saved = d.saved)
    (hhanded : d'.handedHs = d.handedHs) : Votes cs sent d' where
  sound := hs
  peer := hpeer
  handed := by
    rw [hhanded, hsaved]
    exact h.handed
  durable := by
    rw [hid, hsaved]
    exact h.durable

/-- Other nodes have sent something. -/
theorem Votes.grow (h : Votes cs sent d) {more : List Message}
    (hmore : ∀ x ∈ more, ∀ t i, ¬ x.Tells d.raw.raft.core.id t i) : Votes cs (sent ++ more) d where
  sound := h.sound
  peer := h.peer.grow hmore
  handed := h.handed
  durable := by
    intro x hx t i hti
    rcases List.mem_append.mp hx with hx | hx
    · exact h.durable x hx t i hti
    · exact absurd hti (hmore x hx t i)

/-- The messages of a node are its own, and true. -/
def Spoken (cs : ConfState) (sent : List Message) (id : ℕ) (msgs : List Message) : Prop :=
  ∀ x ∈ msgs, x.Sincere cs sent ∧ ∀ v t i, x.Tells v t i → v = id

/-- Protocol steps on messages that may be processed. -/
theorem Votes.acts (h : Votes cs sent d) (hsent : ∀ x ∈ sent, x.Sincere cs sent) {raw : RawNode σ}
    {ok : Message → Prop} (hacts : Acts False ok d.raw.raft.core raw.raft.core)
    (hok : ∀ m, ok m → m.Arrives sent d.raw.raft.core.id) (hprev : raw.prevHs = d.raw.prevHs)
    (hs : ({ d with raw := raw } : Driver σ).Sound) : Votes cs sent { d with raw := raw } := by
  refine h.goOn hs (Acts.electing h.peer hsent hok hacts) hacts.moved.id ?_ ?_
  · exact congrArg StoreView.hardState hacts.moved.store
  · unfold handedHs
    rw [hprev]

/-- The batch is reported as written. -/
theorem Votes.reported (h : Votes cs sent d) (hsent : ∀ x ∈ sent, x.Sincere cs sent) {rd : Ready}
    {n' : RawNode σ} (hp : d.pending = some rd) (hr : RawNode.Reported rd d.raw n') :
    Votes cs sent ⟨n', none⟩ := by
  have hs := h.sound.reported hr
  obtain ⟨l', hl', rfl⟩ := hr.result
  have hstore : l'.store = d.raw.raft.raftLog.store := by rw [hl'.same]
  refine h.goOn hs (h.peer.quiet hsent ?_ ?_) rfl ?_ ?_
  · show (_, _, _, _, _, _, _, (LawfulStorage.view l'.store).confState) = _
    rw [hstore]
    rfl
  · show l'.unstable.snapshot.map Snapshot.metadata = _ ∨ l'.unstable.snapshot.map Snapshot.metadata = _
    rcases hl'.snapshot with hsame | ⟨hnone, -⟩
    · rw [hsame]
      exact Or.inl rfl
    · rw [hnone]
      exact Or.inr rfl
  · show (LawfulStorage.view l'.store).hardState = _
    rw [hstore]
    rfl
  · unfold handedHs
    rw [hp]
    rfl

/-- A light batch is handed out: what it tells is about a vote that has been written. -/
theorem Votes.light (h : Votes cs sent d) (hp : d.pending = none)
    {since : ℕ} {l : LightReady} {n' : RawNode σ} (hl : RawNode.LightSpec d.raw since l n') {hs : HardState}
    (hdone : hs = n'.raft.hardState) (hterm : hs.term = d.raw.prevHs.term) (hvote : hs.vote = d.raw.prevHs.vote)
    (hsound : (⟨{ n' with prevHs := hs }, none⟩ : Driver σ).Sound) :
    Votes cs (sent ++ l.messages) ⟨{ n' with prevHs := hs }, none⟩ := by
  obtain ⟨u, hu⟩ := hl.raft
  have hmessages : l.messages = d.raw.raft.core.out := hl.messages
  have hcore : n'.raft.core = { d.raw.raft.core with out := [] } := by
    rw [hu]
    rfl
  have hstore : (⟨{ n' with prevHs := hs }, none⟩ : Driver σ).saved = d.saved := by
    show (LawfulStorage.view n'.raft.raftLog.store).hardState = _
    rw [hu]
    rfl
  -- the term and the vote of the node are those that were handed out
  have hnow : ∀ t i, Bound d.raw.raft.core.term d.raw.raft.core.vote t i →
    Bound d.saved.term d.saved.vote t i := by
    intro t i hb
    refine h.handed t i ?_
    unfold handedHs
    rw [hp]
    show Bound d.raw.prevHs.term d.raw.prevHs.vote t i
    rw [← hterm, ← hvote, hdone, hu]
    exact hb
  rw [hmessages]
  refine ⟨hsound, ?_, ?_, ?_⟩
  · show Peer.Electing cs _ n'.raft.core
    rw [hcore]
    exact h.peer.flush
  · rw [hstore]
    intro t i hb
    refine h.handed t i ?_
    unfold handedHs at hb ⊢
    rw [hp]
    show Bound d.raw.prevHs.term d.raw.prevHs.vote t i
    rw [← hterm, ← hvote]
    exact hb
  · rw [hstore]
    intro x hx t i hti
    refine hnow t i (h.peer.bound x (List.mem_append.mp hx) t i ?_)
    have hid : n'.raft.core.id = d.raw.raft.core.id := by rw [hcore]
    exact hid ▸ hti

/-- A batch is taken and written: after that its messages are sent. -/
theorem Votes.ready (h : Votes cs sent d) (hsent : ∀ x ∈ sent, x.Sincere cs sent) (hp : d.pending = none)
    {rd : Ready} {raw : RawNode σ} {store : σ} (hr : RawNode.ReadySpec d.raw rd raw)
    (hw : rd.write raw.store = .ok store) :
    Votes cs (sent ++ rd.light.messages) ⟨raw.setStore store, some rd⟩ := by
  have hsound := h.sound.ready hr hw
  obtain ⟨u, hu⟩ := hr.raft
  have hlog : raw.raft.raftLog = d.raw.raft.raftLog := by rw [hu]
  have hmessages : rd.light.messages = d.raw.raft.core.out := hr.messages
  have hleaves : rd.Leaves (LawfulStorage.view d.raw.store) (LawfulStorage.view store) := by
    refine Ready.write_leaves h.sound.raft.log hr.entries ?_
    rw [← hlog]
    exact hw
  have hconf : (LawfulStorage.view store).confState = cs := by
    rw [hleaves.confState, hr.snapshot]
    cases hsnap : d.raw.raft.raftLog.unstable.snapshot with
    | none => exact h.peer.store
    | some s =>
        refine h.peer.pending s.metadata ?_
        show d.raw.raft.raftLog.unstable.snapshot.map Snapshot.metadata = _
        rw [hsnap]
        rfl
  -- what the storage had from the batches before still binds, and so does what this one brings
  have hkept : rd.hs = none → ∀ t i, Bound d.saved.term d.saved.vote t i →
      Bound (LawfulStorage.view store).hardState.term (LawfulStorage.view store).hardState.vote t i := by
    intro hn t i hb
    obtain ⟨hvote, hterm⟩ := hleaves.kept hn
    rw [hvote]
    exact hb.raise hterm
  have hhanded : d.handedHs = d.raw.prevHs := by
    unfold handedHs
    rw [hp]
    rfl
  have hnow : ∀ t i, Bound (rd.hs.getD d.raw.prevHs).term (rd.hs.getD d.raw.prevHs).vote t i →
      Bound (LawfulStorage.view store).hardState.term (LawfulStorage.view store).hardState.vote t i := by
    intro t i hb
    cases hhs : rd.hs with
    | none =>
        rw [hhs] at hb
        refine hkept hhs t i (h.handed t i ?_)
        rw [hhanded]
        exact hb
    | some hs =>
        rw [hhs] at hb
        rw [hleaves.written hs hhs]
        exact hb
  have hmem : (rd.hs.getD d.raw.prevHs) = d.raw.raft.hardState := by
    rw [hr.hs]
    split
    · rename_i heq
      exact heq.symm
    · rfl
  rw [hmessages]
  refine ⟨hsound, ?_, ?_, ?_⟩
  · have hflush := h.peer.flush
    refine hflush.quiet ?_ ?_ (Or.inl ?_)
    · intro x hx
      rcases List.mem_append.mp hx with hx | hx
      · exact (hsent x hx).mono fun _ hy => List.mem_append_left _ hy
      · exact (h.peer.queue x hx).1.mono fun _ hy => List.mem_append_left _ hy
    · show (raw.raft.id, raw.raft.progressTracker.conf.voters, raw.raft.term, raw.raft.vote, raw.raft.state,
        (fun v => raw.raft.progressTracker.votes.lookup v), raw.raft.messages,
        (LawfulStorage.view store).confState) = _
      rw [hconf, hu, ← h.peer.store]
      rfl
    · show raw.raft.raftLog.unstable.snapshot.map Snapshot.metadata = _
      rw [hlog]
      rfl
  · intro t i hb
    refine hnow t i ?_
    rw [← hr.prevHs]
    exact hb
  · intro x hx t i hti
    refine hnow t i ?_
    rw [hmem]
    refine h.peer.bound x (List.mem_append.mp hx) t i ?_
    have hid : (raw.setStore store).raft.core.id = d.raw.raft.core.id := by
      show raw.raft.id = _
      rw [hu]
      rfl
    exact hid ▸ hti

/-- The storage is compacted, or changes behind the node. -/
theorem Votes.setStore (h : Votes cs sent d) (hsent : ∀ x ∈ sent, x.Sincere cs sent) {store : σ}
    (hconf : (LawfulStorage.view store).confState = cs)
    (hvote : (LawfulStorage.view store).hardState.vote = d.saved.vote)
    (hterm : d.saved.term ≤ (LawfulStorage.view store).hardState.term)
    (hs : ({ d with raw := d.raw.setStore store } : Driver σ).Sound) :
    Votes cs sent { d with raw := d.raw.setStore store } := by
  have hkept : ∀ t i, Bound d.saved.term d.saved.vote t i →
      Bound (LawfulStorage.view store).hardState.term (LawfulStorage.view store).hardState.vote t i := by
    intro t i hb
    rw [hvote]
    exact hb.raise hterm
  refine ⟨hs, h.peer.quiet hsent ?_ (Or.inl rfl), fun t i hb => hkept t i (h.handed t i hb),
    fun x hx t i hti => hkept t i (h.durable x hx t i hti)⟩
  show (_, _, _, _, _, _, _, (LawfulStorage.view store).confState) = _
  rw [hconf, ← h.peer.store]
  rfl

theorem spoken_nil (cs : ConfState) (sent : List Message) (id : ℕ) : Spoken cs sent id [] := nofun

/-- What a step leaves: the node speaks for itself only. -/
structure Voted (cs : ConfState) (sent : List Message) (d : Driver σ) (msgs : List Message) (d' : Driver σ) :
    Prop where
  votes : Votes cs (sent ++ msgs) d'
  spoken : Spoken cs sent d.raw.raft.core.id msgs
  id : d'.raw.raft.core.id = d.raw.raft.core.id

theorem Voted.silent (h : Votes cs sent d') (hid : d'.raw.raft.core.id = d.raw.raft.core.id) :
    Voted cs sent d [] d' := by
  refine ⟨?_, spoken_nil _ _ _, hid⟩
  rw [List.append_nil]
  exact h

theorem wp_advanceApply_acts (h : d.raw.raft.Sound False) : (RawNode.advanceApply : Act Err (RawNode σ) Unit).wp
    (fun _ n' => Micros False idleMessage d.raw.raft.core n'.raft.core ∧ n'.prevHs = d.raw.prevHs)
    (fun _ n' => Micros False idleMessage d.raw.raft.core n'.raft.core ∧ n'.prevHs = d.raw.prevHs) d.raw := by
  unfold RawNode.advanceApply RawNode.onRaft
  rw [Act.wp_bind, Act.wp_get, Act.wp_zoom]
  have hreach := Raft.wp_commitApply (m := idleMessage) h.reach d.raw.commitSinceIndex
  exact Act.wp_mono hreach (fun _ r' h' => ⟨h'.micros, rfl⟩) fun _ r' h' => ⟨h'.micros, rfl⟩

theorem not_fromPeer_beat {m : Message} (hm : m.msgType = .beat) : ¬ m.FromPeer := by
  rintro (hf | hf | hf | hf | ⟨hf, -⟩) <;> rw [hm] at hf <;> cases hf

/-- The report of a written batch is noted. -/
theorem Votes.persisted (h : Votes cs sent d) (hsent : ∀ x ∈ sent, x.Sincere cs sent) {n' : RawNode σ}
    (hp : RawNode.Persisted d.raw n') : Votes cs sent { d with raw := n' } ∧
      n'.raft.core.id = d.raw.raft.core.id := by
  have hs := h.sound.persisted hp
  obtain ⟨r', recs, rfl, -, -, hmicros⟩ := hp.result
  have hacts : Acts False (Eq reportMessage) d.raw.raft.core r'.core := Acts.of_micros rfl hmicros
  refine ⟨h.acts hsent hacts ?_ rfl hs, hmicros.moved.id⟩
  rintro m rfl
  exact Or.inr (not_fromPeer_beat rfl)

/-- Every step of a node keeps what it says about its votes true. -/
theorem Votes.step {SameData : σ → σ → Prop} (hsame : Faithful SameData) (h : Votes cs sent d)
    (hsent : ∀ x ∈ sent, x.Sincere cs sent) {ev : Event} (hstep : Step SameData d ev d')
    (hcall : ∀ x, ev = .call x → x.Admitted sent d.raw.raft.core.id)
    (hready : ∀ rd, ev = .ready rd → d.pending = none) : Voted cs sent d ev.messages d' := by
  have hsound := hstep.sound hsame h.sound
  cases hstep with
  | call x r hf hl =>
      have hx := hcall x rfl
      obtain ⟨c, hacts, rfl | ⟨cc, res, rfl, -⟩⟩ := (Raft.called_of_leaves h.sound.raft hf hl).acts
      · exact .silent (h.acts hsent hacts (fun _ hm => hx.arrives hm) rfl hsound) hacts.moved.id
      · exact hx.elim
  | ready rd raw store hr hw =>
      have hspec := Act.wp_ok (RawNode.wp_getReady h.sound.raft) hr
      have hmessages : rd.light.messages = d.raw.raft.core.out := hspec.messages
      refine ⟨h.ready hsent (hready rd rfl) hspec hw, ?_, ?_⟩
      · show Spoken cs sent _ rd.light.messages
        rw [hmessages]
        exact h.peer.queue
      · obtain ⟨u, hu⟩ := hspec.raft
        show raw.raft.id = _
        rw [hu]
        rfl
  | failedReady e raw hr =>
      have heq := Act.wp_err (RawNode.wp_getReady h.sound.raft) hr
      rw [heq]
      exact .silent h rfl
  | advanceAppendAsync rd raw hp hl =>
      have hb := h.sound.batch rd hp
      have hwp := RawNode.wp_commitReady h.sound.raft.log hb.written hb.snapshot_term hb.record
      have hreported := hl.of_wp (Act.wp_mono hwp (fun _ _ hr => hr) fun _ _ hf => hf.elim)
      have hv := h.reported hsent hp hreported
      obtain ⟨l', -, rfl⟩ := hreported.result
      exact .silent hv rfl
  | onPersistReady number raw hl =>
      obtain ⟨hv, hid⟩ := h.persisted hsent (hl.of_wp (RawNode.wp_onPersistReady h.sound.raft number))
      exact .silent hv hid
  | advanceAppend rd l raw hp hr =>
      have hb := h.sound.batch rd hp
      obtain ⟨n1, n2, n3, h1, h2, h3, hs, rfl⟩ := (Act.wp_ok (RawNode.wp_advanceAppend h.sound.raft
        hb.written hb.snapshot_term hb.record) hr).result
      obtain ⟨hhs, hterm, hvote⟩ := Act.wp_ok (RawNode.wp_advanceAppend_declared h.sound.raft
        hb.written hb.snapshot_term hb.record) hr
      have hv1 := h.reported hsent hp h1
      obtain ⟨hv2, hid2⟩ := hv1.persisted hsent h2
      have hid1 : n1.raft.core.id = d.raw.raft.core.id := by
        obtain ⟨l', -, rfl⟩ := h1.result
        rfl
      have hprev : n2.prevHs = rd.hs.getD d.raw.prevHs := by
        obtain ⟨l', -, rfl⟩ := h1.result
        obtain ⟨r', recs, rfl, -⟩ := h2.result
        rfl
      have hmessages : l.messages = n2.raft.core.out := h3.messages
      refine ⟨hv2.light rfl h3 hhs (hterm.trans (congrArg HardState.term hprev).symm)
        (hvote.trans (congrArg HardState.vote hprev).symm) hsound, ?_, ?_⟩
      · show Spoken cs sent _ l.messages
        rw [hmessages, ← hid1, ← hid2]
        exact hv2.peer.queue
      · obtain ⟨u, hu⟩ := h3.raft
        show n3.raft.id = _
        rw [hu]
        exact hid2.trans hid1
  | failedAdvance rd e raw hp hr =>
      have hb := h.sound.batch rd hp
      obtain ⟨n1, h1, h2⟩ := (Act.wp_err (RawNode.wp_advanceAppend h.sound.raft
        hb.written hb.snapshot_term hb.record) hr).result
      have hv1 := h.reported hsent hp h1
      obtain ⟨hv2, hid2⟩ := hv1.persisted hsent h2
      refine .silent hv2 (hid2.trans ?_)
      obtain ⟨l', -, rfl⟩ := h1.result
      rfl
  | advanceApply raw hl =>
      obtain ⟨hmicros, hprev⟩ := hl.of_wp (wp_advanceApply_acts h.sound.raft)
      have hacts : Acts False (Eq idleMessage) d.raw.raft.core raw.raft.core :=
        Acts.of_micros rfl hmicros
      refine .silent (h.acts hsent hacts ?_ hprev hsound) hmicros.moved.id
      rintro m rfl
      exact Or.inr (not_fromPeer_beat rfl)
  | compact snap rs store hp hi hd ht hs hc hw =>
      obtain ⟨-, hview, -⟩ := LawfulStorage.applyLocalSnapshot_ok h.sound.raft.log.valid hw
      obtain ⟨rs', hrs, -, hconf⟩ := LawfulStorage.initialState_eq h.sound.raft.log.valid
      have hsame : rs = rs' := Except.ok.inj (hs.symm.trans hrs)
      refine .silent (h.setStore hsent ?_ ?_ ?_ hsound) rfl
      · rw [hview]
        show snap.metadata.confState = cs
        rw [hc, hsame, hconf]
        exact h.peer.store
      · rw [hview]
        rfl
      · rw [hview]
        exact le_max_left _ _
  | drift store hs =>
      obtain ⟨-, hview⟩ := hsame _ _ hs h.sound.raft.log.valid
      refine .silent (h.setStore hsent ?_ ?_ ?_ hsound) rfl
      · rw [hview]
        exact h.peer.store
      · rw [hview]
        rfl
      · rw [hview]
        exact le_rfl

omit [LawfulStorage σ] in
/-- A started node takes its hard state for handed out. -/
theorem prevHs_of_starts [WritableStorage σ] {config : Config} {prng : List ℕ} {store : σ} {d : Driver σ}
    (h : Starts config prng store d) : d.raw.prevHs = d.raw.raft.hardState := (RawNode.init_cases h.1).2.1

/-- A node that may be started from a storage: it takes over the hard state, if there is one, and what
has been applied is committed. -/
structure Resumes (config : Config) (store : σ) : Prop where
  load : config.loadStateOnStartup = true ∨ (LawfulStorage.view store).hardState = {}
  applied : config.applied ≤ max (LawfulStorage.view store).log.base (LawfulStorage.view store).hardState.commit

/-- A started node is bound by what was written. -/
theorem votes_of_starts {config : Config} {prng : List ℕ} {store : σ} (hv : LawfulStorage.Valid store)
    (hres : Resumes config store) (hconf : (LawfulStorage.view store).confState = cs)
    (h : Starts config prng store d)
    (hbound : ∀ x ∈ sent, ∀ t i, x.Tells config.id t i →
      Bound (LawfulStorage.view store).hardState.term (LawfulStorage.view store).hardState.vote t i)
    (honce : ∀ x ∈ sent, ∀ y ∈ sent, ∀ t i j, x.Tells config.id t i → y.Tells config.id t j → i = j) :
    Votes cs sent d ∧ d.raw.raft.core.id = config.id := by
  have hload : Raft.loadedState config (LawfulStorage.view store) = (LawfulStorage.view store).hardState := by
    unfold Raft.loadedState
    split
    · rfl
    · rename_i hnot
      exact (hres.load.resolve_left hnot).symm
  obtain ⟨hsound, hboot, -⟩ := sound_of_starts hv (by rw [hload]; exact hres.applied) h
  have hterm : d.raw.raft.core.term = (LawfulStorage.view store).hardState.term := hboot.term.trans
    (by rw [hload])
  have hvote : d.raw.raft.core.vote = (LawfulStorage.view store).hardState.vote := hboot.vote.trans
    (by rw [hload])
  have hsaved : d.saved = (LawfulStorage.view store).hardState := congrArg StoreView.hardState hboot.store
  have hhanded : d.handedHs = d.raw.raft.hardState := by
    unfold handedHs
    rw [h.2]
    exact prevHs_of_starts h
  have hnone : ∀ x, x ∈ d.raw.raft.core.out → False := by
    intro x hx
    rw [hboot.out] at hx
    cases hx
  refine ⟨⟨hsound, ?_, ?_, ?_⟩, hboot.id⟩
  · refine {
      id := hsound.raft.id_ne
      voters := ?_
      pending := ?_
      store := ?_
      member := fun hr => absurd hboot.role hr
      stands := ?_
      counted := ?_
      leads := ?_
      queue := fun x hx => (hnone x hx).elim
      bound := ?_
      once := ?_ }
    · obtain ⟨n, k, t, ht, hvoters⟩ := hboot.voters
      rw [hvoters, ← hconf]
      exact ConfRestore.restore_lists ht
    · rw [hboot.pending]
      exact nofun
    · rw [hboot.store]
      exact hconf
    · rw [hboot.role]
      exact nofun
    · rw [hboot.role]
      exact nofun
    · rw [hboot.role]
      exact nofun
    · rintro x (hx | hx) t i hti
      · rw [hterm, hvote]
        exact hbound x hx t i (hboot.id ▸ hti)
      · exact (hnone x hx).elim
    · rintro x y (hx | hx) (hy | hy) t i j hti htj
      · exact honce x hx y hy t i j (hboot.id ▸ hti) (hboot.id ▸ htj)
      · exact (hnone y hy).elim
      · exact (hnone x hx).elim
      · exact (hnone x hx).elim
  · intro t i hb
    rw [hhanded] at hb
    rw [hsaved, ← hterm, ← hvote]
    exact hb
  · intro x hx t i hti
    rw [hsaved]
    exact hbound x hx t i (hboot.id ▸ hti)

end Driver

/-! ### Clusters -/

/-- Nodes, and everything they have ever sent. -/
structure Network (ι σ : Type) where
  nodes : ι → Driver σ
  sent : List Message := []

namespace Network

variable {ι : Type} [DecidableEq ι]

/-- A node acts, or is started again from what its storage holds.  Messages may be lost, repeated,
delayed and reordered; what a node steps of its own is no leader's order, no request for a vote and
no vote.  A batch is taken when the one before it has been reported. -/
inductive Step (ids : ι → ℕ) (SameData : σ → σ → Prop) : Network ι σ → Network ι σ → Prop
  | act (c : Network ι σ) (i : ι) (ev : Event) (d : Driver σ) (h : Driver.Step SameData (c.nodes i) ev d)
      (hcall : ∀ x, ev = .call x → x.Admitted c.sent (ids i))
      (hready : ∀ rd, ev = .ready rd → (c.nodes i).pending = none) :
      Step ids SameData c ⟨Function.update c.nodes i d, c.sent ++ ev.messages⟩
  | restart (c : Network ι σ) (i : ι) (config : Config) (prng : List ℕ) (d : Driver σ)
      (hid : config.id = ids i) (hres : Driver.Resumes config (c.nodes i).raw.store)
      (h : Driver.Starts config prng (c.nodes i).raw.store d) :
      Step ids SameData c ⟨Function.update c.nodes i d, c.sent⟩

/-- Every node has just been started, configured by `cs`, and nothing has been sent. -/
def Starts (ids : ι → ℕ) (cs : ConfState) (c : Network ι σ) : Prop :=
  (∀ i, ∃ config prng store, config.id = ids i ∧ LawfulStorage.Valid store ∧
    (LawfulStorage.view store).confState = cs ∧ Driver.Resumes config store ∧
    Driver.Starts config prng store (c.nodes i)) ∧ c.sent = []

/-- Any number of steps. -/
abbrev Steps (ids : ι → ℕ) (SameData : σ → σ → Prop) : Network ι σ → Network ι σ → Prop :=
  Relation.ReflTransGen (Step ids SameData)

/-- What every node says about its votes is true, and it says one thing for each term. -/
structure Inv (cs : ConfState) (ids : ι → ℕ) (c : Network ι σ) : Prop where
  id : ∀ i, (c.nodes i).raw.raft.core.id = ids i
  votes : ∀ i, (c.nodes i).Votes cs c.sent
  sincere : ∀ x ∈ c.sent, x.Sincere cs c.sent
  once : ∀ x ∈ c.sent, ∀ y ∈ c.sent, ∀ v t i j, x.Tells v t i → y.Tells v t j → i = j

variable {ids : ι → ℕ} {cs : ConfState} {SameData : σ → σ → Prop} {c c' : Network ι σ}

omit [DecidableEq ι] in
theorem inv_of_starts (h : Starts ids cs c) : Inv cs ids c := by
  obtain ⟨hnodes, hsent⟩ := h
  have hnil : ∀ x : Message, x ∉ ([] : List Message) := fun _ => List.not_mem_nil
  have hall : ∀ i, (c.nodes i).Votes cs c.sent ∧ (c.nodes i).raw.raft.core.id = ids i := by
    intro i
    obtain ⟨config, prng, store, hid, hv, hconf, hres, hst⟩ := hnodes i
    rw [hsent, ← hid]
    exact Driver.votes_of_starts hv hres hconf hst (fun x hx => absurd hx (hnil x)) fun x hx => absurd hx (hnil x)
  refine ⟨fun i => (hall i).2, fun i => (hall i).1, ?_, ?_⟩
  · rw [hsent]
    exact fun x hx => absurd hx (hnil x)
  · rw [hsent]
    exact fun x hx => absurd hx (hnil x)

/-- A step of node `i`. -/
theorem Inv.act (hids : Function.Injective ids) (h : Inv cs ids c) (i : ι) {d : Driver σ} {msgs : List Message}
    (hd : Driver.Voted cs c.sent (c.nodes i) msgs d) : Inv cs ids ⟨Function.update c.nodes i d,
      c.sent ++ msgs⟩ := by
  have hown : ∀ x ∈ msgs, ∀ v t a, x.Tells v t a → v = ids i := by
    intro x hx v t a hta
    rw [← h.id i]
    exact (hd.spoken x hx).2 v t a hta
  refine ⟨fun j => ?_, fun j => ?_, fun x hx => ?_, fun x hx y hy v t a b hta htb => ?_⟩
  · by_cases hij : j = i
    · subst hij
      dsimp only
      rw [Function.update_self]
      exact hd.id.trans (h.id j)
    · dsimp only
      rw [Function.update_of_ne hij]
      exact h.id j
  · by_cases hij : j = i
    · subst hij
      dsimp only
      rw [Function.update_self]
      exact hd.votes
    · dsimp only
      rw [Function.update_of_ne hij]
      refine (h.votes j).grow fun x hx t a hta => hij (hids ?_)
      exact (h.id j).symm.trans (hown x hx _ t a hta)
  · have hx := List.mem_append.mp hx
    rcases hx with hx | hx
    · exact (h.sincere x hx).mono fun _ hy => List.mem_append_left _ hy
    · exact (hd.spoken x hx).1.mono fun _ hy => List.mem_append_left _ hy
  · -- what node `i` says is up to it; the others have said nothing new
    by_cases hv : v = ids i
    · have hid : d.raw.raft.core.id = v := (hd.id.trans (h.id i)).trans hv.symm
      exact hd.votes.peer.once x y (Or.inl hx) (Or.inl hy) t a b (hid ▸ hta) (hid ▸ htb)
    · have hold : ∀ z ∈ c.sent ++ msgs, ∀ a, z.Tells v t a → z ∈ c.sent := fun z hz a hta =>
        (List.mem_append.mp hz).resolve_right fun hz => hv (hown z hz v t a hta)
      exact h.once x (hold x hx a hta) y (hold y hy b htb) v t a b hta htb

theorem Inv.step (hids : Function.Injective ids) (hsame : Driver.Faithful SameData) (h : Inv cs ids c)
    (hstep : Step ids SameData c c') : Inv cs ids c' := by
  cases hstep with
  | act i ev d hd hcall hready =>
      refine h.act hids i ((h.votes i).step hsame h.sincere hd ?_ hready)
      rw [h.id i]
      exact hcall
  | restart i config prng d hid hres hd =>
      have hi := h.votes i
      have hidi : (c.nodes i).raw.raft.core.id = config.id := (h.id i).trans hid.symm
      obtain ⟨hv, hid'⟩ := Driver.votes_of_starts hi.sound.raft.log.valid hres hi.peer.store hd
        (fun x hx t a hta => hi.durable x hx t a (hidi ▸ hta))
        fun x hx y hy t a b hta htb => h.once x hx y hy config.id t a b hta htb
      have hact := h.act hids i (Driver.Voted.silent hv (hid'.trans hidi.symm))
      rw [List.append_nil] at hact
      exact hact

theorem Inv.steps (hids : Function.Injective ids) (hsame : Driver.Faithful SameData) (h : Inv cs ids c)
    (hsteps : Steps ids SameData c c') : Inv cs ids c' := by
  induction hsteps with
  | refl => exact h
  | tail _ hstep ih => exact ih.step hids hsame hstep

/-- What has been sent stays sent. -/
theorem Steps.sent_subset (h : Steps ids SameData c c') : ∀ x ∈ c.sent, x ∈ c'.sent := by
  induction h with
  | refl => exact fun _ hx => hx
  | tail _ hstep ih =>
      intro x hx
      cases hstep with
      | act i ev d => exact List.mem_append_left _ (ih x hx)
      | restart => exact ih x hx

/-- **Election safety.**  Whatever is lost, repeated, delayed or reordered, and however often nodes are
started again from their storage: two nodes that lead in the same term, at whatever time, are one. -/
theorem election_safety (hids : Function.Injective ids) (hsame : Driver.Faithful SameData)
    {c0 c1 c2 : Network ι σ} (hstart : Starts ids cs c0) (h1 : Steps ids SameData c0 c1)
    (h2 : Steps ids SameData c1 c2) {i j : ι} (hi : (c1.nodes i).raw.raft.state = .leader)
    (hj : (c2.nodes j).raw.raft.state = .leader)
    (ht : (c1.nodes i).raw.raft.term = (c2.nodes j).raw.raft.term) : i = j := by
  have hinv1 := (inv_of_starts hstart).steps hids hsame h1
  have hinv2 := hinv1.steps hids hsame h2
  have hwon1 : Elected cs c1.sent (c1.nodes i).raw.raft.core.id (c1.nodes i).raw.raft.term :=
    (hinv1.votes i).peer.leads hi
  have hwon2 : Elected cs c2.sent (c2.nodes j).raw.raft.core.id (c2.nodes j).raw.raft.term :=
    (hinv2.votes j).peer.leads hj
  rw [hinv1.id i, ht] at hwon1
  rw [hinv2.id j] at hwon2
  exact hids ((hwon1.mono h2.sent_subset).unique hwon2 fun x hx y hy v a b => hinv2.once x hx y hy v _ a b)

/-- **A vote binds.**  Whatever a node has told of its vote in a term, it tells nothing else of that term
at any time, through all its restarts, and its storage says the same or a later term. -/
theorem vote_binds (hids : Function.Injective ids) (hsame : Driver.Faithful SameData)
    {c0 c1 c2 : Network ι σ} (hstart : Starts ids cs c0) (h1 : Steps ids SameData c0 c1)
    (h2 : Steps ids SameData c1 c2) {i : ι} {x y : Message} {t a b : ℕ} (hx : x ∈ c1.sent) (hy : y ∈ c2.sent)
    (hxt : x.Tells (ids i) t a) (hyt : y.Tells (ids i) t b) :
    a = b ∧ Bound (c2.nodes i).saved.term (c2.nodes i).saved.vote t a := by
  have hinv := ((inv_of_starts hstart).steps hids hsame h1).steps hids hsame h2
  have hx2 := h2.sent_subset x hx
  refine ⟨hinv.once x hx2 y hy _ t a b hxt hyt, (hinv.votes i).durable x hx2 t a ?_⟩
  rw [hinv.id i]
  exact hxt

/-! ### Scripts -/

/-- May a node do this on its own? -/
def mayDo (d : Driver σ) : Driver.Op → Bool
  | .call (.step m) => !decide m.FromPeer
  | .call (.applyConfChange _) => false
  | .call (.restoreSnapshot _) => false
  | .ready => d.pending.isNone
  | _ => true

/-- The cluster after a step of a node. -/
def next (c : Network ι σ) (i : ι) (t : Event × Driver σ) : Network ι σ :=
  ⟨Function.update c.nodes i t.2, c.sent ++ t.1.messages⟩

/-- Do it, if it can be done. -/
def exec (ids : ι → ℕ) (c : Network ι σ) : Cluster.Move ι → Option (Network ι σ)
  | .own i op => if mayDo (c.nodes i) op = true then ((c.nodes i).exec op).map (c.next i) else none
  | .deliver i k => (c.sent[k]?).bind fun m =>
      if m.dest = ids i then ((c.nodes i).exec (.call (.step m))).map (c.next i) else none

/-- Carry out a script. -/
def play (ids : ι → ℕ) : List (Cluster.Move ι) → Network ι σ → Option (Network ι σ)
  | [], c => some c
  | a :: as, c => (c.exec ids a).bind (play ids as)

omit [LawfulStorage σ] in
theorem admitted_of_mayDo {d : Driver σ} {op : Driver.Op} (h : mayDo d op = true)
    (sent : List Message) (id : ℕ) :
    (∀ x, op = .call x → x.Admitted sent id) ∧ (op = .ready → d.pending = none) := by
  refine ⟨?_, ?_⟩
  · rintro x rfl
    cases x with
    | step m =>
        refine Or.inr ?_
        simpa [mayDo] using h
    | applyConfChange cc => cases h
    | restoreSnapshot snap => cases h
    | _ => trivial
  · rintro rfl
    exact Option.isNone_iff_eq_none.mp h

/-- Only a call shows as a call, and only a batch as a batch. -/
theorem op_of_exec {d : Driver σ} {op : Driver.Op} {t : Event × Driver σ} (h : d.exec op = some t) :
    (∀ x, t.1 = .call x → op = .call x) ∧ (∀ rd, t.1 = .ready rd → op = .ready) := by
  unfold Driver.exec at h
  cases op with
  | call x =>
      dsimp only at h
      split at h
      · obtain ⟨r, _, rfl⟩ := Option.map_eq_some_iff.mp h
        exact ⟨fun y hy => congrArg Driver.Op.call (Event.call.inj hy), fun _ hy => by cases hy⟩
      · cases h
  | ready =>
      dsimp only at h
      split at h
      · split at h
        · cases h
          exact ⟨fun _ hy => (by cases hy), fun _ _ => rfl⟩
        · cases h
      · cases h
  | advanceAppend =>
      dsimp only at h
      split at h
      · split at h
        · cases h
          exact ⟨fun _ hy => (by cases hy), fun _ hy => by cases hy⟩
        · cases h
      · cases h
  | advanceAppendAsync =>
      dsimp only at h
      split at h
      · obtain ⟨r, _, rfl⟩ := Option.map_eq_some_iff.mp h
        exact ⟨fun _ hy => (by cases hy), fun _ hy => by cases hy⟩
      · cases h
  | onPersistReady number =>
      obtain ⟨r, _, rfl⟩ := Option.map_eq_some_iff.mp h
      exact ⟨fun _ hy => (by cases hy), fun _ hy => by cases hy⟩
  | advanceApply =>
      obtain ⟨r, _, rfl⟩ := Option.map_eq_some_iff.mp h
      exact ⟨fun _ hy => (by cases hy), fun _ hy => by cases hy⟩

theorem exec_step (SameData : σ → σ → Prop) {a : Cluster.Move ι} (h : c.exec ids a = some c') :
    Step ids SameData c c' := by
  cases a with
  | own i op =>
      unfold exec at h
      dsimp only at h
      split at h
      · rename_i hop
        obtain ⟨t, ht, rfl⟩ := Option.map_eq_some_iff.mp h
        obtain ⟨hcall, hready⟩ := op_of_exec ht
        obtain ⟨hallowed, hfree⟩ := admitted_of_mayDo hop c.sent (ids i)
        exact .act c i t.1 t.2 (Driver.exec_step ht) (fun x hx => hallowed x (hcall x hx)) fun rd hrd =>
          hfree (hready rd hrd)
      · cases h
  | deliver i k =>
      obtain ⟨m, hm, h⟩ := Option.bind_eq_some_iff.mp h
      split at h
      · rename_i hdest
        obtain ⟨t, ht, rfl⟩ := Option.map_eq_some_iff.mp h
        obtain ⟨hcall, hready⟩ := op_of_exec ht
        refine .act c i t.1 t.2 (Driver.exec_step ht) (fun x hx => ?_) fun rd hrd => ?_
        · cases hcall x hx
          exact Or.inl ⟨List.mem_of_getElem? hm, hdest⟩
        · cases hready rd hrd
      · cases h

theorem play_steps (SameData : σ → σ → Prop) {as : List (Cluster.Move ι)} (h : play ids as c = some c') :
    Steps ids SameData c c' := by
  induction as generalizing c with
  | nil =>
      cases h
      exact .refl
  | cons a as ih =>
      obtain ⟨c1, h1, h2⟩ := Option.bind_eq_some_iff.mp h
      exact .head (exec_step SameData h1) (ih h2)

/-! ### An election -/

/-- Three voters. -/
def threeVoters : ConfState := { voters := [1, 2, 3] }

/-- A node of a cluster of three. -/
def started (id : ℕ) : Option (Driver MemoryStorage) :=
  match RawNode.init { id := id, loadStateOnStartup := true } []
      ({ raftState := { confState := threeVoters } } : MemoryStorage) with
  | .ok raw _ => some ⟨raw, none⟩
  | _ => none

/-- Three nodes that have just been started. -/
def three : Option (Network (Fin 3) MemoryStorage) :=
  (started 1).bind fun a => (started 2).bind fun b => (started 3).map fun c =>
    { nodes := fun i => if i = 0 then a else if i = 1 then b else c }

theorem starts_three {c : Network (Fin 3) MemoryStorage} (h : three = some c) :
    Starts Cluster.threeIds threeVoters c := by
  have hstarted : ∀ {id : ℕ} {d : Driver MemoryStorage}, started id = some d →
      ∃ config prng store, config.id = id ∧ LawfulStorage.Valid store ∧
        (LawfulStorage.view store).confState = threeVoters ∧ Driver.Resumes config store ∧
        Driver.Starts config prng store d := by
    intro id d hd
    unfold started at hd
    split at hd
    · rename_i raw _ hinit
      cases hd
      exact ⟨_, _, _, rfl, by trivial, rfl, ⟨Or.inl rfl, Nat.zero_le _⟩, hinit, rfl⟩
    · cases hd
  obtain ⟨a, ha, h⟩ := Option.bind_eq_some_iff.mp h
  obtain ⟨b, hb, h⟩ := Option.bind_eq_some_iff.mp h
  obtain ⟨d, hd, rfl⟩ := Option.map_eq_some_iff.mp h
  refine ⟨fun i => ?_, rfl⟩
  match i with
  | 0 => exact hstarted ha
  | 1 => exact hstarted hb
  | 2 => exact hstarted hd

/-- Node 1 asks for votes, and node 2 gives it one. -/
def elects : List (Cluster.Move (Fin 3)) := [
  .own 0 (.call (.step { msgType := .hup })), .own 0 .ready, .own 0 .advanceAppend,
  .deliver 1 0, .own 1 .ready, .own 1 .advanceAppend, .deliver 0 2]

/-- Nobody but node 1 leads the term that it was elected in. -/
theorem election_safety_three : ∃ c0 c : Network (Fin 3) MemoryStorage,
    Starts Cluster.threeIds threeVoters c0 ∧ Steps Cluster.threeIds Eq c0 c ∧
      (c.nodes 0).raw.raft.state = .leader ∧ (c.nodes 0).raw.raft.term = 1 ∧
      ∀ j, (c.nodes j).raw.raft.state = .leader → (c.nodes j).raw.raft.term = 1 → 0 = j := by
  have hrun : (three.bind fun c0 => (play Cluster.threeIds elects c0).map fun c =>
      decide ((c.nodes 0).raw.raft.state = .leader ∧ (c.nodes 0).raw.raft.term = 1)) = some true := by
    decide +kernel
  obtain ⟨c0, hc0, hrun⟩ := Option.bind_eq_some_iff.mp hrun
  obtain ⟨c, hc, heq⟩ := Option.map_eq_some_iff.mp hrun
  obtain ⟨hleads, hterm⟩ := of_decide_eq_true heq
  have hsteps := play_steps Eq hc
  refine ⟨c0, c, starts_three hc0, hsteps, hleads, hterm, fun j hj ht => ?_⟩
  have hids : Function.Injective Cluster.threeIds := fun a b hab => Fin.ext (Nat.succ.inj hab)
  exact election_safety hids Driver.faithful_eq (starts_three hc0) hsteps .refl hleads hj (hterm.trans ht.symm)

/-- The vote of node 2 is in its storage. -/
theorem vote_binds_three : ∃ c0 c : Network (Fin 3) MemoryStorage,
    Starts Cluster.threeIds threeVoters c0 ∧ Steps Cluster.threeIds Eq c0 c ∧
      Bound (c.nodes 1).saved.term (c.nodes 1).saved.vote 1 1 := by
  have hrun : (three.bind fun c0 => (play Cluster.threeIds elects c0).map fun c =>
      (c.sent[2]?).map fun x => decide (x.Grants ∧ x.sender = 2 ∧ x.term = 1 ∧ x.dest = 1)) =
        some (some true) := by
    decide +kernel
  obtain ⟨c0, hc0, hrun⟩ := Option.bind_eq_some_iff.mp hrun
  obtain ⟨c, hc, heq⟩ := Option.map_eq_some_iff.mp hrun
  obtain ⟨x, hx, heq⟩ := Option.map_eq_some_iff.mp heq
  obtain ⟨hgrant, hs, ht, hd⟩ := of_decide_eq_true heq
  have hsteps := play_steps Eq hc
  have htell : x.Tells (Cluster.threeIds 1) 1 1 := ⟨hs, ht, Or.inl ⟨hgrant, hd⟩⟩
  have hids : Function.Injective Cluster.threeIds := fun a b hab => Fin.ext (Nat.succ.inj hab)
  have hmem := List.mem_of_getElem? hx
  exact ⟨c0, c, starts_three hc0, hsteps, (vote_binds hids Driver.faithful_eq (starts_three hc0) hsteps .refl
    hmem hmem htell htell).2⟩

end Network

end Raftz
