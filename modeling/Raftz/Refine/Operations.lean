import Raftz.Refine.Step

/-! # The public operations refine the protocol

Time, configuration changes, application and persistence progress, and the
start from a storage.  A tick processes messages of the node to itself, so it is
a sequence of protocol steps on local messages (`Acts`). -/

open Base

namespace Raftz

/-- A message the node made for itself. -/
def Message.IsLocal (m : Message) : Prop :=
  m.term = 0 ∧ m.sender ≠ 0 ∧
    (m.msgType = .hup ∨ m.msgType = .beat ∨ m.msgType = .checkQuorum)

/-- Protocol steps on messages that `ok` allows. -/
abbrev Acts (honest : Prop) (ok : Message → Prop) : Peer → Peer → Prop :=
  Relation.ReflTransGen fun c c' => ∃ m, ok m ∧ Micro honest m c c'

theorem Acts.of_micros {honest : Prop} {ok : Message → Prop} {m : Message} (hm : ok m) {c c' : Peer}
    (h : Micros honest m c c') : Acts honest ok c c' :=
  Relation.ReflTransGen.mono (fun _ _ hstep => ⟨m, hm, hstep⟩) c c' h

theorem Acts.moved {honest : Prop} {ok : Message → Prop} {c c' : Peer} (h : Acts honest ok c c') :
    Moved c c' := by
  induction h with
  | refl => exact Moved.refl c
  | tail _ hstep ih =>
      obtain ⟨m, _, hstep⟩ := hstep
      exact ih.trans hstep.moved

namespace Raft

variable {σ : Type} [LawfulStorage σ] {honest : Prop} {m : Message} {c : Peer} {r : Raft σ}

/-! ### Time -/

/-- Local steps from `c` to the view of `r`, which is sound. -/
structure Ticked (honest : Prop) (c : Peer) (r : Raft σ) : Prop where
  sound : r.Sound honest
  acts : Acts honest Message.IsLocal c r.core

theorem Ticked.same (h : Ticked honest c r) {r' : Raft σ} (hs : r'.Sound honest)
    (hc : r'.core = r.core) : Ticked honest c r' := ⟨hs, hc ▸ h.acts⟩

/-- A node processes a message to itself. -/
theorem wp_stepLocal (h : Ticked honest c r) (hm : m.IsLocal) :
    (step m).wp (fun _ r' => Ticked honest c r') (fun _ r' => Ticked honest c r') r := by
  have hask : honest → m.msgType = .appendResponse → r.state = .leader →
      m.requestSnapshot ≤ r.core.store.hardState.commit := by
    intro _ hresp _
    obtain ⟨_, _, hm | hm | hm⟩ := hm <;> rw [hm] at hresp <;> cases hresp
  have hdone : ∀ r' : Raft σ, Reach honest m r.core r' → Ticked honest c r' := fun r' h' =>
    ⟨h'.sound, h.acts.trans (Acts.of_micros hm h'.micros)⟩
  exact Act.wp_mono (wp_step h.sound.reach hask) (fun _ => hdone) fun _ => hdone

theorem wp_tickElection (h : Ticked honest c r) :
    tickElection.wp (fun _ r' => Ticked honest c r') (fun _ r' => Ticked honest c r') r := by
  unfold tickElection
  rw [Act.wp_bind, Act.wp_modify, Act.wp_bind, Act.wp_get, Act.wp_ite]
  refine ⟨fun _ => ?_, fun _ => h.same { h.sound with } rfl⟩
  rw [Act.wp_bind, Act.wp_modify, Act.wp_bind]
  exact Act.wp_mono (wp_stepLocal (h.same { h.sound with } rfl) ⟨rfl, h.sound.id_ne, Or.inl rfl⟩)
    (fun _ _ h' => h') fun _ _ h' => h'

theorem wp_tickCheckQuorum (h : Ticked honest c r) :
    tickCheckQuorum.wp (fun _ r' => Ticked honest c r') (fun _ r' => Ticked honest c r') r := by
  unfold tickCheckQuorum
  rw [Act.wp_bind, Act.wp_get, Act.wp_ite]
  refine ⟨fun _ => ?_, fun _ => h⟩
  have hrest : ∀ r' : Raft σ, Ticked honest c r' →
      (Act.modify (fun r => if r.state = .leader then r.abortLeaderTransfer else r) >>= fun _ =>
        pure r.knobs.checkQuorum : RaftM σ Bool).wp (fun _ r' => Ticked honest c r')
        (fun _ r' => Ticked honest c r') r' := by
    intro r' h'
    rw [Act.wp_bind, Act.wp_modify, Act.wp_pure]
    split
    · exact h'.same { h'.sound with } rfl
    · exact h'
  have h0 : Ticked honest c ({ r with electionElapsed := 0 } : Raft σ) := h.same { h.sound with } rfl
  rw [Act.wp_bind, Act.wp_modify, Act.wp_bind, Act.wp_when]
  refine ⟨fun _ => ?_, fun _ => hrest _ h0⟩
  exact Act.wp_mono (wp_stepLocal h0 ⟨rfl, h.sound.id_ne, Or.inr (Or.inr rfl)⟩) (fun _ => hrest) fun _ _ h' => h'

theorem wp_tickHeartbeat (h : Ticked honest c r) :
    tickHeartbeat.wp (fun _ r' => Ticked honest c r') (fun _ r' => Ticked honest c r') r := by
  unfold tickHeartbeat
  rw [Act.wp_bind, Act.wp_modify, Act.wp_bind]
  refine Act.wp_mono (wp_tickCheckQuorum (h.same { h.sound with } rfl)) ?_ fun _ _ h' => h'
  intro b r' h'
  rw [Act.wp_bind, Act.wp_get, Act.wp_ite]
  refine ⟨fun _ => h', fun _ => ?_⟩
  rw [Act.wp_ite]
  refine ⟨fun _ => ?_, fun _ => h'⟩
  rw [Act.wp_bind, Act.wp_modify, Act.wp_bind]
  exact Act.wp_mono (wp_stepLocal (h'.same { h'.sound with } rfl) ⟨rfl, h'.sound.id_ne, Or.inr (Or.inl rfl)⟩)
    (fun _ _ h' => h') fun _ _ h' => h'

/-- A tick is a sequence of protocol steps on local messages. -/
theorem wp_tick (h : r.Sound honest) :
    tick.wp (fun _ r' => Ticked honest r.core r') (fun _ r' => Ticked honest r.core r') r := by
  unfold tick
  rw [Act.wp_bind, Act.wp_get, Act.wp_ite]
  exact ⟨fun _ => wp_tickHeartbeat ⟨h, .refl⟩, fun _ => wp_tickElection ⟨h, .refl⟩⟩

/-! ### Configuration changes -/

/-- The node with a changed configuration installed. -/
def installed (r : Raft σ) (res : ConfChangeResult) : Raft σ :=
  { r with
    progressTracker := r.progressTracker.applyConf res.conf res.changes r.raftLog.lastIndex }

/-- What a successful configuration change leaves: the voters are replaced and the removed peers
forgotten; a leader then commits, sends and answers. -/
structure Reconfigured (honest : Prop) (m : Message) (r : Raft σ) (cc : ConfChangeV2)
    (r' : Raft σ) : Prop where
  result : ∃ res, changeConf r.progressTracker cc = .ok res ∧
    Reach honest m (r.installed res).core r' ∧ Served (r.installed res).core r'

theorem wp_applyConfChange (h : r.Sound honest) (hlast : 0 < r.raftLog.lastIndex)
    (cc : ConfChangeV2) :
    (applyConfChange cc).wp (fun _ r' => Reconfigured honest m r cc r')
      (fun _ r' => r' = r ∨ Reconfigured honest m r cc r') r := by
  unfold applyConfChange
  rw [Act.wp_bind, Act.wp_query]
  refine ⟨fun res hres => ?_, fun _ _ => Or.inl rfl⟩
  rw [Act.wp_bind, Act.wp_modify, Act.wp_bind]
  obtain ⟨h1, h2⟩ := ConfChanger.changeConf_sound h.tracker.fits hres
  have hsound : ({ r.installed res with promotable :=
      (r.installed res).progressTracker.conf.voters.contains (r.installed res).id } : Raft σ).Sound
      honest :=
    { h with
      tracker := h.tracker.applyConf h1 h2 hlast
      promotable := rfl
      asked := fun hh => ProgressTracker.applyConf_forall (h.asked hh) res.conf res.changes
        fun _ => Nat.zero_le _ }
  have hpost := wp_postConfChange (m := m) res.conf.toConfState hsound .refl
  exact Act.wp_mono hpost (fun _ r' h' => ⟨res, hres, h'⟩)
    fun _ r' h' => Or.inr ⟨res, hres, h'⟩

/-! ### Application and persistence -/

theorem wp_maybeAutoLeave (h : Reach honest m c r) {old applied : ℕ}
    (happ : applied ≤ r.raftLog.applied) : Reaches honest m c r (maybeAutoLeave old applied) := by
  unfold Reaches maybeAutoLeave
  rw [Act.wp_bind, Act.wp_get, Act.wp_ite]
  refine ⟨fun hcond => ?_, fun _ => h⟩
  obtain ⟨_, _, hpc, hl⟩ := hcond
  split
  · trivial
  · rename_i data hdata
    rw [Act.wp_bind, Act.wp_catchErr]
    have hle : r.core.pendingConf ≤ r.core.applied := hpc.trans happ
    refine Act.wp_mono (wp_appendEntry h.sound _) ?_ fun _ _ _ => trivial
    rintro b r1 ⟨hs1, hcase⟩
    rw [Act.wp_modify]
    have hlast1 := hs1.log.lastIndex_eq
    have hpers := h.sound.log
    rcases hcase with ⟨_, rfl⟩ | ⟨_, hnil, _⟩ | ⟨_, _, happd⟩
    · -- nothing was appended; only the marker moves
      refine h.step { hs1 with } ?_
      have hm := @Micro.extend honest m r1.core [] r1.raftLog.lastIndex hl trivial
        (fun _ he => absurd he List.not_mem_nil)
        (Or.inl ⟨fun _ he => absurd he List.not_mem_nil, by
          have h1 := hpers.applied_le
          have h2 := hpers.committed_le
          have h3 : r1.core.pendingConf ≤ r1.raftLog.applied := hle
          omega⟩)
      rw [Log.splice_last] at hm
      exact hm
    · cases hnil
    · refine h.step { hs1 with } ?_
      have hcore : ({ r1 with pendingConfIndex := r1.raftLog.lastIndex } : Raft σ).core =
          { r1.core with pendingConf := r1.raftLog.lastIndex } := rfl
      have hlog : r1.raftLog.log = r.core.log.splice (r.core.log.last + 1)
          (retag r.term (r.core.log.last + 1) [{ entryType := .confChangeV2, data := data }]) :=
        (congrArg Peer.log happd.core :)
      have hbase : r.core.log.base ≤ r.core.log.last := Log.base_le_last
      have hidx : r1.raftLog.lastIndex = r.core.log.last + 1 := by
        rw [hlast1, hlog, Log.last_splice (by omega) le_rfl]
        rfl
      rw [hcore, happd.core, hidx]
      refine .extend r.core _ _ hl (consecutive_retag _ _ _) (fun e he => term_of_mem_retag he)
        (Or.inr ⟨hle, _, List.mem_cons_self, rfl, rfl, ?_⟩)
      intro e' he' _
      exact List.mem_singleton.mp he'

theorem wp_commitApply (h : Reach honest m c r) (applied : ℕ) :
    Reaches honest m c r (commitApply applied) := by
  unfold Reaches commitApply onLog
  rw [Act.wp_bind, Act.wp_get, Act.wp_bind, Act.wp_zoom]
  refine Act.wp_mono (RaftLog.wp_appliedTo _) ?_ ?_
  · rintro _ l' (⟨rfl, rfl⟩ | ⟨h1, h2, rfl⟩)
    · exact wp_maybeAutoLeave h (Nat.zero_le _)
    · refine wp_maybeAutoLeave (r := { r with raftLog := { r.raftLog with applied := applied } })
        (h.step { h.sound with log := h.sound.log.setApplied h1 } ?_) le_rfl
      exact .apply r.core applied h2 h1
  · rintro _ l' rfl
    exact h

/-- Everything up to a persisted position is in the storage. -/
theorem stored_of_lt (h : r.raftLog.WF) {i : ℕ} (hi : i < r.raftLog.unstable.offset) :
    (∀ j, r.core.log.base < j → j ≤ i → r.core.store.log.entryAt j = r.core.log.entryAt j) ∧
      i ≤ r.core.log.last := by
  have hlast := h.last_eq
  refine ⟨fun j hb hj => ?_, ?_⟩
  · cases hs : r.raftLog.unstable.snapshot with
    | none => exact (h.entryAt_lt hs (by omega)).symm
    | some s =>
        have hoff := h.snapshot s hs
        have hbase : r.raftLog.log.base = s.metadata.index := by
          rw [RaftLog.log_of_snapshot hs]
        have hb : r.raftLog.log.base < j := hb
        omega
  · show i ≤ r.raftLog.log.last
    omega

/-- What a report of durability leaves: nothing changes, or the position is taken over for the
reason `why` and the node goes on from there. -/
inductive Noted (honest : Prop) (m : Message) (why : Prop) (i : ℕ) (r : Raft σ) : Raft σ → Prop
  | same : Noted honest m why i r r
  | moved (r' : Raft σ) (hlt : r.raftLog.persisted < i) (hoff : i < r.raftLog.unstable.offset)
      (hwhy : why) (h : Reach honest m
        ({ r with raftLog := { r.raftLog with persisted := i } } : Raft σ).core r') :
      Noted honest m why i r r'

theorem Noted.reach {why : Prop} {i : ℕ} {r' : Raft σ} (hn : Noted honest m why i r r')
    (h : Reach honest m c r) (hm : m.IsReport) : Reach honest m c r' := by
  cases hn with
  | same => exact h
  | moved _ hlt hoff _ h' =>
      obtain ⟨hst, hle⟩ := stored_of_lt h.sound.log hoff
      have hpers : Reach honest m c
          ({ r with raftLog := { r.raftLog with persisted := i } } : Raft σ) :=
        h.step { h.sound with log := h.sound.log.setPersisted hoff }
          (.persist r.core i hm hlt hst hle)
      exact hpers.trans h'

theorem Noted.imp {why why' : Prop} {i : ℕ} {r' : Raft σ} (hn : Noted honest m why i r r')
    (hw : why → why') : Noted honest m why' i r r' := by
  cases hn with
  | same => exact .same
  | moved _ hlt hoff hwhy h' => exact .moved _ hlt hoff (hw hwhy) h'

theorem Noted.sound {why : Prop} {i : ℕ} {r' : Raft σ} (hn : Noted honest m why i r r')
    (h : r.Sound honest) : r'.Sound honest := by
  cases hn with
  | same => exact h
  | moved _ _ _ _ h' => exact h'.sound

theorem noted_onPersistEntries (h : r.Sound honest) (index term : ℕ) :
    (onPersistEntries index term).wp
      (fun _ r' => Noted honest m (r.raftLog.storeLog.termAt index = some term) index r r')
      (fun _ r' => Noted honest m (r.raftLog.storeLog.termAt index = some term) index r r') r := by
  unfold onPersistEntries onLog
  rw [Act.wp_bind, Act.wp_zoom]
  refine Act.wp_mono (h.log.wp_maybePersist index term) ?_ ?_
  · rintro b l' (⟨rfl, rfl⟩ | ⟨rfl, hlt, hoff, _, hterm, rfl⟩)
    · rw [Act.wp_bind, Act.wp_get, Act.wp_ite]
      exact ⟨fun hf => (by cases hf.1), fun _ => .same⟩
    · have hmoved := @Noted.moved _ _ honest m (r.raftLog.storeLog.termAt index = some term) index r
      have hpers : ({ r with raftLog := { r.raftLog with persisted := index } } : Raft σ).Sound
          honest := { h with log := h.log.setPersisted hoff }
      rw [Act.wp_bind, Act.wp_get, Act.wp_ite]
      refine ⟨fun hl => ?_, fun _ => hmoved _ hlt hoff hterm hpers.reach⟩
      have hl : r.state = .leader := hl.2
      split
      · exact hmoved _ hlt hoff hterm hpers.reach
      · rename_i p hp
        have hp : r.progressTracker.get r.id = some p := hp
        unfold setProgress
        rw [Act.wp_bind, Act.wp_modify]
        have hself : Reach honest m
            ({ r with raftLog := { r.raftLog with persisted := index } } : Raft σ).core ({ r with
            raftLog := { r.raftLog with persisted := index }
            progressTracker := r.progressTracker.set r.id (p.maybeUpdate index).1 } : Raft σ) := by
          refine hpers.reach.step (hpers.setProgress hp
            ((h.tracker.progress _ p hp).maybeUpdate index) fun hh => ?_) ?_
          · rw [maybeUpdate_asked]
            exact h.asked hh _ p hp
          · have hcore := core_setProgress (r := { r with
              raftLog := { r.raftLog with persisted := index } }) r.id (p.maybeUpdate index).1
            rw [Progress.maybeUpdate_matched, ← core_matched_get hp] at hcore
            exact hcore ▸ .selfAck _ hl
        rw [Act.wp_ite]
        refine ⟨fun _ => hmoved _ hlt hoff hterm hself, fun _ => ?_⟩
        refine Act.wp_mono (Leads.reaches (Leads.wp_bind (wp_maybeCommit hself hl) hl ?_))
          (fun _ _ h' => hmoved _ hlt hoff hterm h') fun _ _ h' => hmoved _ hlt hoff hterm h'
        intro b r1 h1 hl1 _
        unfold Leads
        rw [Act.wp_bind, Act.wp_get, Act.wp_ite]
        exact ⟨fun _ => sendsOnly_broadcastAppend.leads h1 hl1, fun _ => ⟨h1, Served.refl r1⟩⟩
  · rintro _ l' rfl
    exact .same

theorem wp_onPersistEntries (h : Reach honest m c r) (hm : m.IsReport) (index term : ℕ) :
    Reaches honest m c r (onPersistEntries index term) :=
  Act.wp_mono (noted_onPersistEntries h.sound index term) (fun _ _ h' => h'.reach h hm)
    fun _ _ h' => h'.reach h hm

theorem noted_onPersistSnapshot (h : r.Sound honest) (index : ℕ) :
    (onPersistSnapshot index).wp (fun _ r' => Noted honest m True index r r')
      (fun _ r' => Noted honest m True index r r') r := by
  unfold onPersistSnapshot onLog
  rw [Act.wp_bind, Act.wp_zoom]
  refine Act.wp_mono (RaftLog.wp_maybePersistSnapshot index) ?_ ?_
  · rintro b l' (⟨_, rfl⟩ | ⟨_, hlt, _, hoff, rfl⟩)
    · exact .same
    · exact .moved _ hlt hoff trivial
        (Sound.reach { h with log := h.log.setPersisted hoff })
  · rintro _ l' rfl
    exact .same

theorem wp_onPersistSnapshot (h : Reach honest m c r) (hm : m.IsReport) (index : ℕ) :
    Reaches honest m c r (onPersistSnapshot index) :=
  Act.wp_mono (noted_onPersistSnapshot h.sound index) (fun _ _ h' => h'.reach h hm)
    fun _ _ h' => h'.reach h hm

/-! ### Start -/

/-- The hard state a node starts with. -/
def loadedState (config : Config) (v : StoreView) : HardState :=
  if config.loadStateOnStartup = true then v.hardState else {}

/-- The view of a node that has just been started from a storage. -/
structure Booted (config : Config) (store : σ) (c : Peer) : Prop where
  id : c.id = config.id
  voters : ∃ n k t, ConfRestore.restore (ProgressTracker.init k) n
    (LawfulStorage.view store).confState = .ok t ∧ c.voters = t.conf.voters
  term : c.term = (loadedState config (LawfulStorage.view store)).term
  vote : c.vote = (loadedState config (LawfulStorage.view store)).vote
  role : c.role = .follower
  log : c.log = (LawfulStorage.view store).log
  pending : c.pending = none
  committed : c.committed = max (LawfulStorage.view store).log.base
    (loadedState config (LawfulStorage.view store)).commit
  persisted : c.persisted = (LawfulStorage.view store).log.last
  matched : c.Cleared c.matched
  votes : ∀ v, c.votes v = none
  reads : c.reads = ReadOnly.init config.readOnlyOption
  postponed : c.postponed = []
  readStates : c.readStates = []
  out : c.out = []
  store : c.store = LawfulStorage.view store

theorem initial_wf {store : σ} (hv : LawfulStorage.Valid store) {limit : ℕ} {l : RaftLog σ}
    (hl : RaftLog.init store limit = .ok l) : l.WF ∧ l.log = (LawfulStorage.view store).log ∧
      l.store = store ∧ l.unstable.snapshot = none ∧
      l.committed = (LawfulStorage.view store).log.base ∧
      l.persisted = (LawfulStorage.view store).log.last ∧
      l.applied = (LawfulStorage.view store).log.base := by
  unfold RaftLog.init at hl
  rw [LawfulStorage.lastIndex_eq hv, LawfulStorage.firstIndex_eq hv] at hl
  cases hl
  have hbase : (LawfulStorage.view store).log.base ≤ (LawfulStorage.view store).log.last :=
    Log.base_le_last
  have hlog : (LawfulStorage.view store).log.splice ((LawfulStorage.view store).log.last + 1) [] =
      (LawfulStorage.view store).log := Log.splice_last
  refine ⟨?_, hlog, rfl, rfl, rfl, rfl, rfl⟩
  exact {
    valid := hv
    entries := trivial
    snapshot := fun s hs => by cases hs
    stored := fun _ => ⟨Nat.lt_succ_of_le hbase, le_rfl⟩
    drained := fun _ _ => rfl
    base_le := le_rfl
    committed_le := by
      show (LawfulStorage.view store).log.base ≤ ((LawfulStorage.view store).log.splice
        ((LawfulStorage.view store).log.last + 1) []).last
      rw [hlog]
      exact hbase
    persisted_lt := Nat.lt_succ_self _
    applied_le := le_rfl }

/-- Starting the current term as a follower makes a node with a sound tracker and log sound. -/
theorem wp_followAndPost {cs : ConfState} (hid : r.id ≠ 0) (hwf : r.raftLog.WF)
    (htr : r.progressTracker.Sound) (hsnap : r.raftLog.unstable.snapshot = none)
    {Q : Unit → Raft σ → Prop} {E : Err → Raft σ → Prop}
    (hQ : ∀ r' : Raft σ, r'.Sound honest →
      r'.core = { r.core.reset r.term (r.clearedMatch r.term) with role := .follower } → Q () r') :
    (becomeFollower r.term invalidId >>= fun _ => postConfChange cs).wp Q E r := by
  unfold becomeFollower postConfChange
  rw [Act.wp_bind, Act.wp_modify, Act.wp_bind, Act.wp_modify, Act.wp_bind, Act.wp_get]
  have hreset := core_reset r r.term
  obtain ⟨htr', hro, hconf, hlog, hid', hprom, hknobs, hask⟩ := reset_sound hwf htr r.term
  have hfinal : ∀ r' : Raft σ, r' = { r.reset r.term with
      leaderId := invalidId
      state := .follower
      pendingRequestSnapshot := r.pendingRequestSnapshot
      raftLog := { (r.reset r.term).raftLog with maxApplyUnpersistedLogLimit := 0 }
      promotable := (r.reset r.term).progressTracker.conf.voters.contains (r.reset r.term).id } →
      Q () r' := by
    rintro r' rfl
    refine hQ _ ?_ ?_
    · exact {
        id_ne := by
          show (r.reset r.term).id ≠ 0
          rw [hid']
          exact hid
        log := by
          show ({ (r.reset r.term).raftLog with maxApplyUnpersistedLogLimit := 0 } : RaftLog σ).WF
          rw [hlog]
          exact hwf.setLimit 0
        limit := rfl
        snapshot := by
          intro s hs
          have hs : (r.reset r.term).raftLog.unstable.snapshot = some s := hs
          rw [hlog, hsnap] at hs
          cases hs
        requested := by
          intro hs
          have hs : (r.reset r.term).raftLog.unstable.snapshot ≠ none := hs
          rw [hlog] at hs
          exact absurd hsnap hs
        tracker := htr'
        promotable := rfl
        leader := fun hl => by cases hl
        candidate := by
          rintro (hl | hl) <;> cases hl
        reads := hro
        asked := fun _ v p hp => by
          rw [hask v p hp]
          exact Nat.zero_le _ }
    · rw [← hreset]
      rfl
  rw [Act.wp_ite]
  refine ⟨fun _ => hfinal _ rfl, fun _ => ?_⟩
  rw [Act.wp_ite]
  refine ⟨fun _ => hfinal _ rfl, fun hl => absurd (Or.inl ?_) hl⟩
  exact fun hl => by cases hl

/-- Where the committed entries start to be applied from after a start. -/
def startApplied (config : Config) (v : StoreView) : ℕ :=
  if 0 < config.applied then config.applied else v.log.base

theorem wp_boot {config : Config} {prng : List ℕ} {store : σ} {l : RaftLog σ}
    {t : ProgressTracker} {n : ℕ} (hid : config.id ≠ 0) (hv : LawfulStorage.Valid store)
    (hl : RaftLog.init store config.maxApplyUnpersistedLogLimit = .ok l) (hn : 0 < n)
    (ht : ConfRestore.restore (ProgressTracker.init config.maxInflightMessages) n
      (LawfulStorage.view store).confState = .ok t)
    (happ : config.applied ≤ max (LawfulStorage.view store).log.base
      (loadedState config (LawfulStorage.view store)).commit) :
    (boot config (LawfulStorage.view store).hardState t.conf.toConfState).wp
      (fun _ r => r.Sound honest ∧ Booted config store r.core ∧
        r.core.applied = startApplied config (LawfulStorage.view store))
      (fun _ _ => True) (initial config prng l t) := by
  obtain ⟨hwf, hlog, hstore, hsnap, hcom, hpers, happl⟩ := initial_wf hv hl
  have htr := ConfRestore.restore_sound hn ht
  have hfresh := ConfRestore.restore_fresh ht
  -- the state after the hard state is loaded
  have hstart : ∀ r : Raft σ, r = { initial config prng l t with
      term := (loadedState config (LawfulStorage.view store)).term
      vote := (loadedState config (LawfulStorage.view store)).vote
      raftLog := { l with
        committed := max (LawfulStorage.view store).log.base
          (loadedState config (LawfulStorage.view store)).commit
        applied := startApplied config (LawfulStorage.view store) } } →
      max (LawfulStorage.view store).log.base
        (loadedState config (LawfulStorage.view store)).commit ≤ l.log.last →
      (becomeFollower r.term invalidId >>= fun _ => postConfChange t.conf.toConfState).wp
        (fun _ r => r.Sound honest ∧ Booted config store r.core ∧
          r.core.applied = startApplied config (LawfulStorage.view store)) (fun _ _ => True) r := by
    rintro r rfl hlast
    have hwf' : ({ l with
        committed := max (LawfulStorage.view store).log.base
          (loadedState config (LawfulStorage.view store)).commit
        applied := startApplied config (LawfulStorage.view store) } : RaftLog σ).WF := by
      refine (hwf.setCommitted ?_ hlast).setApplied ?_
      · rw [hcom]
        exact le_max_left _ _
      · unfold startApplied
        show _ ≤ max _ _
        split
        · exact happ
        · exact le_max_left _ _
    refine wp_followAndPost hid hwf' htr hsnap fun r' hs' hc' => ⟨hs', ?_, ?_⟩
    · rw [hc']
      exact {
        id := rfl
        voters := ⟨n, _, t, ht, rfl⟩
        term := rfl
        vote := if_pos rfl
        role := rfl
        log := hlog
        pending := by
          show l.unstable.snapshot.map _ = none
          rw [hsnap]
          rfl
        committed := rfl
        persisted := hpers
        matched := cleared_reset _ _
        votes := fun _ => rfl
        reads := rfl
        postponed := rfl
        readStates := rfl
        out := rfl
        store := congrArg LawfulStorage.view hstore }
    · rw [hc']
      rfl
  -- taking over the applied index
  have happly : ∀ r : Raft σ, r = { initial config prng l t with
      term := (loadedState config (LawfulStorage.view store)).term
      vote := (loadedState config (LawfulStorage.view store)).vote
      raftLog := { l with
        committed := max (LawfulStorage.view store).log.base
          (loadedState config (LawfulStorage.view store)).commit } } →
      max (LawfulStorage.view store).log.base
        (loadedState config (LawfulStorage.view store)).commit ≤ l.log.last →
      (do
        Act.when (0 < config.applied) (commitApplyUnchecked config.applied)
        let r ← Act.get
        becomeFollower r.term invalidId
        postConfChange t.conf.toConfState : RaftM σ Unit).wp
        (fun _ r => r.Sound honest ∧ Booted config store r.core ∧
          r.core.applied = startApplied config (LawfulStorage.view store)) (fun _ _ => True) r := by
    rintro r rfl hlast
    rw [Act.wp_bind, Act.wp_when]
    refine ⟨fun hpos => ?_, fun hpos => ?_⟩
    · unfold commitApplyUnchecked maybeAutoLeave
      rw [Act.wp_bind, Act.wp_get, Act.wp_bind, Act.wp_modify, Act.wp_bind, Act.wp_get, Act.wp_ite]
      refine ⟨fun hf => (by cases hf.2.2.2), fun _ => ?_⟩
      rw [Act.wp_pure, Act.wp_bind, Act.wp_get]
      refine hstart _ ?_ hlast
      unfold startApplied
      rw [if_pos hpos]
    · rw [Act.wp_bind, Act.wp_get]
      refine hstart _ ?_ hlast
      unfold startApplied
      rw [if_neg hpos, ← happl]
  unfold boot
  rw [Act.wp_bind, Act.wp_when]
  refine ⟨fun hload => ?_, fun hempty => ?_⟩
  · have hloaded : loadedState config (LawfulStorage.view store) =
        (LawfulStorage.view store).hardState := if_pos hload.1
    unfold loadState
    rw [Act.wp_bind, Act.wp_get, Act.wp_ite]
    refine ⟨fun _ => trivial, fun hrange => ?_⟩
    rw [Act.wp_modify]
    have hr : (LawfulStorage.view store).log.base ≤ (LawfulStorage.view store).hardState.commit ∧
        (LawfulStorage.view store).hardState.commit ≤ l.log.last := by
      have hrange : ¬ ((LawfulStorage.view store).hardState.commit < l.committed ∨
        l.lastIndex < (LawfulStorage.view store).hardState.commit) := hrange
      rw [hcom, hwf.lastIndex_eq] at hrange
      omega
    refine happly _ ?_ (by rw [hloaded]; omega)
    rw [hloaded, max_eq_right hr.1]
    rfl
  · have hzero : loadedState config (LawfulStorage.view store) = ⟨0, 0, 0⟩ := by
      unfold loadedState
      split
      · rename_i hload
        have hzero : (LawfulStorage.view store).hardState.isEmpty = true := by
          by_contra hf
          exact hempty ⟨hload, by simpa using hf⟩
        unfold HardState.isEmpty at hzero
        simp only [Bool.and_eq_true, beq_iff_eq] at hzero
        obtain ⟨⟨h1, h2⟩, h3⟩ := hzero
        cases hhs : (LawfulStorage.view store).hardState
        rw [hhs] at h1 h2 h3
        simp_all
      · rfl
    refine happly _ ?_ ?_
    · have hmax : max (LawfulStorage.view store).log.base 0 = l.committed := by
        rw [hcom]
        exact max_eq_left (Nat.zero_le _)
      rw [hzero, hmax]
      rfl
    · rw [hzero, hlog, max_eq_left (Nat.zero_le _)]
      exact Log.base_le_last

/-- A node started from a valid storage is sound, and its view is what the storage says. -/
theorem init_ok {config : Config} {prng : List ℕ} {store : σ} (hv : LawfulStorage.Valid store)
    (happ : config.applied ≤ max (LawfulStorage.view store).log.base
      (loadedState config (LawfulStorage.view store)).commit)
    (hinit : init config prng store = .ok r ()) :
    r.Sound honest ∧ Booted config store r.core ∧
      r.core.applied = startApplied config (LawfulStorage.view store) := by
  obtain ⟨l, st, t, hval, hl, hst, ht, hrun⟩ := init_cases hinit
  obtain ⟨rs, hrs, hhs, hcs⟩ := LawfulStorage.initialState_eq hv
  rw [hrs] at hst
  cases hst
  rw [hhs] at hrun
  rw [hcs] at ht
  have hid : config.id ≠ 0 := by
    unfold Config.validate at hval
    split at hval
    · cases hval
    · rename_i hne
      exact hne
  have hboot : (boot config (LawfulStorage.view store).hardState t.conf.toConfState).wp
      (fun _ r => r.Sound honest ∧ Booted config store r.core ∧
        r.core.applied = startApplied config (LawfulStorage.view store))
      (fun _ _ => True) (initial config prng l t) :=
    wp_boot hid hv hl (Nat.succ_pos _) ht happ
  have hdone := Act.wp_ok hboot hrun
  exact hdone

end Raft

end Raftz
