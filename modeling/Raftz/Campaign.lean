import Raftz.DriverSound

/-! # No election over an unapplied configuration change

A node starts an election only after it has scanned the committed entries that
it has not applied for configuration changes.  The commit index may still move
while the election goes on, but only by a vote message, and then the new entries
are scanned as well: a configuration change among them makes the node step down. -/

open Base

namespace Raftz

/-- A node that campaigns has no committed configuration change to apply. -/
def Peer.Quiet (c : Peer) : Prop :=
  c.role = .candidate ∨ c.role = .preCandidate → c.NoConf c.settled c.committed

namespace Peer

theorem quiet_of_role {c : Peer} (h1 : c.role ≠ .candidate) (h2 : c.role ≠ .preCandidate) :
    c.Quiet := by
  rintro (h | h)
  · exact absurd h h1
  · exact absurd h h2

/-- What the property depends on. -/
theorem Quiet.of_eq {c c' : Peer} (h : c.Quiet) (hr : c'.role = c.role) (hl : c'.log = c.log)
    (ha : c'.applied = c.applied) (hp : c'.pending = c.pending) (hc : c'.committed = c.committed) :
    c'.Quiet := by
  intro hrole
  rw [hr] at hrole
  unfold NoConf settled
  rw [hl, ha, hp, hc]
  exact h hrole

/-- One protocol step. -/
theorem Quiet.micro {honest : Prop} {m : Message} {c c' : Peer} (h : c.Quiet)
    (hstep : Micro honest m c c') : c'.Quiet := by
  cases hstep with
  | follow t M ht hM => exact quiet_of_role (by simp) (by simp)
  | preCampaign hr hv hn => exact fun _ => hn
  | campaign M hr hv hM =>
      intro _
      rcases hv with hv | ⟨_, hn⟩
      · exact h (Or.inr hv)
      · exact hn
  | lead M hr hw hM => exact quiet_of_role (by simp) (by simp)
  | extend es pc hr hi ht hconf => exact quiet_of_role (by simp [hr]) (by simp [hr])
  | merge l p hm hr hcur hc ht hi hl hp hp' hst => exact quiet_of_role (by simp [hr]) (by simp [hr])
  | commit i hlt hle hcom =>
      intro hrole
      have hrole : c.role = .candidate ∨ c.role = .preCandidate := hrole
      have hfollow : c.role ≠ .follower := by
        rcases hrole with hr | hr <;> rw [hr] <;> simp
      have hlead : c.role ≠ .leader := by
        rcases hrole with hr | hr <;> rw [hr] <;> simp
      cases hcom with
      | append _ hr => exact absurd hr hfollow
      | heartbeat _ hr => exact absurd hr hfollow
      | vote _ _ _ _ _ _ hconf =>
          -- the entries up to the old commit index were quiet, the new ones have been scanned
          have hnew := hconf.resolve_left hfollow
          intro j e hj hji he
          have hset : max c.applied ((c.pending.map SnapshotMetadata.index).getD 0) < j := hj
          by_cases hjc : j ≤ c.committed
          · exact h hrole j e hj hjc he
          · exact hnew j e (by omega) hji he
      | readIndexResp _ hr => exact absurd hr hfollow
      | snapshot _ _ _ hr => exact absurd hr hfollow
      | quorum hr => exact absurd hr hlead
  | commitDown i M hlt hle hm hr hc ht h0 hterm hM => exact quiet_of_role (by simp) (by simp)
  | restore s t n k hm hs hr hcur hle hlt ht => exact quiet_of_role (by simp [hr]) (by simp [hr])
  | apply i h1 h2 =>
      intro hrole j e hj hji he
      have hj : max i ((c.pending.map SnapshotMetadata.index).getD 0) < j := hj
      refine h hrole j e ?_ hji he
      show max c.applied _ < j
      omega
  | _ => exact h.of_eq rfl rfl rfl rfl rfl

theorem Quiet.acts {honest : Prop} {ok : Message → Prop} {c c' : Peer} (h : c.Quiet)
    (hacts : Acts honest ok c c') : c'.Quiet := by
  induction hacts with
  | refl => exact h
  | tail _ hstep ih =>
      obtain ⟨m, _, hstep⟩ := hstep
      exact ih.micro hstep

end Peer

variable {σ : Type} [LawfulStorage σ]

namespace Driver

/-- The view of the node of a driver. -/
def core (d : Driver σ) : Peer := d.raw.raft.core

/-- A batch is reported back while the buffer still holds it. -/
def Prompt (d d' : Driver σ) : Prop :=
  ∀ rd, d.pending = some rd → d'.pending = none → d.raw.raft.raftLog.unstable.entries = rd.entries

/-- Steps of a driver that reports its batches promptly. -/
abbrev PromptSteps (SameData : σ → σ → Prop) : Driver σ → Driver σ → Prop :=
  Relation.ReflTransGen fun d d' => ∃ ev, Step SameData d ev d' ∧ Prompt d d'

theorem quiet_reported {d : Driver σ} (h : d.core.Quiet) {rd : Ready} {n' : RawNode σ}
    (hr : RawNode.Reported rd d.raw n') (hheld : d.raw.raft.raftLog.unstable.entries = rd.entries) :
    n'.raft.core.Quiet := by
  obtain ⟨l', hl', rfl⟩ := hr.result
  intro hrole i e hi hic he
  have hlog : l'.log = d.raw.raft.raftLog.log := hl'.held hheld
  have he : l'.log.entryAt i = some e := he
  rw [hlog] at he
  have happ : l'.applied = d.raw.raft.raftLog.applied := by rw [hl'.same]
  have hcom : l'.committed = d.raw.raft.raftLog.committed := by rw [hl'.same]
  have hi : max l'.applied (((l'.unstable.snapshot.map Snapshot.metadata).map
    SnapshotMetadata.index).getD 0) < i := hi
  have hic : i ≤ l'.committed := hic
  rw [happ] at hi
  rw [hcom] at hic
  refine h hrole i e ?_ hic he
  show max d.raw.raft.raftLog.applied (((d.raw.raft.raftLog.unstable.snapshot.map
    Snapshot.metadata).map SnapshotMetadata.index).getD 0) < i
  rcases hl'.snapshot with heq | ⟨_, s, _, hb⟩
  · rw [heq] at hi
    exact hi
  · -- the dropped snapshot is the start of the log
    have hlow := (Log.entryAt_bounds he).1
    cases hsnap : d.raw.raft.raftLog.unstable.snapshot with
    | none =>
        simp only [Option.map_none, Option.getD_none]
        omega
    | some s' =>
        rw [RaftLog.log_of_snapshot hsnap] at hlow
        simp only [Option.map_some, Option.getD_some]
        have hlow : s'.metadata.index < i := hlow
        omega

theorem quiet_micros {m : Message} {c c' : Peer} (h : c.Quiet) (hmic : Micros False m c c') :
    c'.Quiet := by
  have hacts : Acts False (fun _ => True) c c' := Acts.of_micros trivial hmic
  exact h.acts hacts

theorem quiet_persisted {n n' : RawNode σ} (h : n.raft.core.Quiet) (hp : RawNode.Persisted n n') :
    n'.raft.core.Quiet := by
  obtain ⟨r', recs, rfl, _, _, hmic⟩ := hp.result
  exact quiet_micros h hmic

/-- A storage that holds no more entries. -/
theorem quiet_setStore {d : Driver σ} (h : d.core.Quiet) {store : σ}
    (hlog : ∀ i e, (d.raw.setStore store).raft.raftLog.log.entryAt i = some e →
      d.raw.raft.raftLog.log.entryAt i = some e) : (d.raw.setStore store).raft.core.Quiet := by
  intro hrole i e hi hic he
  exact h hrole i e hi hic (hlog i e he)

/-- One step of a driver. -/
theorem quiet_step {SameData : σ → σ → Prop} (hsame : Faithful SameData) {d d' : Driver σ} {ev : Event}
    (hstep : Step SameData d ev d') (hprompt : Prompt d d') (hs : d.Sound) (h : d.core.Quiet) :
    d'.core.Quiet := by
  cases hstep with
  | call x r hf hl =>
      obtain ⟨c, hacts, rfl | ⟨cc, res, _, _, rfl⟩⟩ := (Raft.called_of_leaves hs.raft hf hl).acts
      · exact h.acts hacts
      · have hinst : (d.raw.raft.installed res).core.Quiet := h.of_eq rfl rfl rfl rfl rfl
        exact hinst.acts hacts
  | ready rd raw store hr hw =>
      have hspec := Act.wp_ok (RawNode.wp_getReady hs.raft) hr
      obtain ⟨u, hu⟩ := hspec.raft
      have hlog : raw.raft.raftLog = d.raw.raft.raftLog := by rw [hu]
      have hw' : rd.write d.raw.raft.raftLog.store = .ok store := by
        rw [← hlog]
        exact hw
      have hwrite := Ready.write_ok hs.raft.log hspec.entries hspec.snapshot hw'
      refine h.of_eq ?_ ?_ ?_ ?_ ?_
      · show raw.raft.state = d.raw.raft.state
        rw [hu]
      · show ({ raw.raft.raftLog with store := store } : RaftLog σ).log = d.raw.raft.raftLog.log
        rw [hlog]
        exact (hs.raft.log.setStore hwrite.1 hwrite.2).2
      · show raw.raft.raftLog.applied = _
        rw [hlog]
        rfl
      · show raw.raft.raftLog.unstable.snapshot.map _ = _
        rw [hlog]
        rfl
      · show raw.raft.raftLog.committed = _
        rw [hlog]
        rfl
  | failedReady e raw hr =>
      have heq := Act.wp_err (RawNode.wp_getReady hs.raft) hr
      rw [heq]
      exact h
  | advanceAppendAsync rd raw hp hl =>
      have hb := hs.batch rd hp
      have hwp := RawNode.wp_commitReady hs.raft.log hb.written hb.snapshot_term hb.record
      have hrep := hl.of_wp (Act.wp_mono hwp (fun _ _ hr => hr) fun _ _ hf => hf.elim)
      exact quiet_reported h hrep (hprompt rd hp rfl)
  | onPersistReady number raw hl =>
      exact quiet_persisted h (hl.of_wp (RawNode.wp_onPersistReady hs.raft number))
  | advanceAppend rd l raw hp hr =>
      have hb := hs.batch rd hp
      obtain ⟨n1, n2, n3, h1, h2, h3, prev, rfl⟩ := (Act.wp_ok (RawNode.wp_advanceAppend hs.raft
        hb.written hb.snapshot_term hb.record) hr).result
      have hq := quiet_persisted (quiet_reported h h1 (hprompt rd hp rfl)) h2
      obtain ⟨u, hu⟩ := h3.raft
      show n3.raft.core.Quiet
      rw [hu]
      exact hq.of_eq rfl rfl rfl rfl rfl
  | failedAdvance rd e raw hp hr =>
      have hb := hs.batch rd hp
      obtain ⟨n1, h1, h2⟩ := (Act.wp_err (RawNode.wp_advanceAppend hs.raft
        hb.written hb.snapshot_term hb.record) hr).result
      exact quiet_persisted (quiet_reported h h1 (hprompt rd hp rfl)) h2
  | advanceApply raw hl =>
      have hwp : (RawNode.advanceApply : Act Err (RawNode σ) Unit).wp
          (fun _ n' => n'.raft.core.Quiet) (fun _ n' => n'.raft.core.Quiet) d.raw := by
        unfold RawNode.advanceApply RawNode.onRaft
        rw [Act.wp_bind, Act.wp_get, Act.wp_zoom]
        have hreach := Raft.wp_commitApply (m := idleMessage) hs.raft.reach d.raw.commitSinceIndex
        exact Act.wp_mono hreach
          (fun _ _ h' => quiet_micros h h'.micros) fun _ _ h' => quiet_micros h h'.micros
      exact hl.of_wp hwp
  | compact snap rs store hp hi hd ht hst hc hw =>
      refine quiet_setStore h fun i e he => ?_
      have hlog := (compact_ok hs hi hd hw).2
      have he : ({ d.raw.raft.raftLog with store := store } : RaftLog σ).log.entryAt i = some e := he
      rw [hlog] at he
      split at he
      · rename_i hn
        obtain ⟨_, _, hlo, _⟩ := LawfulStorage.applyLocalSnapshot_ok hs.raft.log.valid hw
        have hbase : d.raw.raft.raftLog.log.base =
            (LawfulStorage.view d.raw.raft.raftLog.store).log.base := by
          rw [RaftLog.log_of_none hn]
          rfl
        have hlow : snap.metadata.index < i := (Log.entryAt_bounds he).1
        rw [Log.entryAt_compact (by omega) hlow] at he
        exact he
      · exact he
  | drift store hd =>
      obtain ⟨hv, hview⟩ := hsame _ _ hd hs.raft.log.valid
      have hlog : (LawfulStorage.view store).log = d.raw.raft.raftLog.storeLog := by
        rw [hview]
        rfl
      refine quiet_setStore h fun i e he => ?_
      rw [← (hs.raft.log.driftStore hv hlog).2]
      exact he

theorem quiet_run {SameData : σ → σ → Prop} (hsame : Faithful SameData) {d d' : Driver σ}
    (hrun : PromptSteps SameData d d') (hs : d.Sound) (h : d.core.Quiet) :
    d'.Sound ∧ d'.core.Quiet := by
  induction hrun with
  | refl => exact ⟨hs, h⟩
  | tail _ hstep ih =>
      obtain ⟨ev, hstep, hprompt⟩ := hstep
      exact ⟨hstep.sound hsame ih.1, quiet_step hsame hstep hprompt ih.1 ih.2⟩

/-- A storage with a committed entry. -/
def behind : MemoryStorage where
  raftState := { hardState := { term := 1, commit := 1 }, confState := { voters := [1, 2, 3] } }
  entries := [{ term := 1, index := 1, data := [7] }]

/-- In every state of a started node, whatever it is called with, a candidate or pre-candidate has
no committed configuration change beyond its applied index and its pending snapshot. -/
theorem campaign_quiet {SameData : σ → σ → Prop} (hsame : Faithful SameData) {config : Config}
    {prng : List ℕ} {store : σ} (hv : LawfulStorage.Valid store)
    (happ : config.applied ≤ max (LawfulStorage.view store).log.base
      (Raft.loadedState config (LawfulStorage.view store)).commit)
    {d d' : Driver σ} (hstart : Starts config prng store d) (hrun : PromptSteps SameData d d')
    (hrole : d'.raw.raft.state = .candidate ∨ d'.raw.raft.state = .preCandidate) {i : ℕ} {e : Entry}
    (hlo : max d'.raw.raft.raftLog.applied
      ((d'.raw.raft.raftLog.unstable.snapshot.map fun s => s.metadata.index).getD 0) < i)
    (hhi : i ≤ d'.raw.raft.raftLog.committed) (he : d'.raw.raft.raftLog.log.entryAt i = some e) :
    e.isConf = false := by
  obtain ⟨hs, hboot, _⟩ := sound_of_starts hv happ hstart
  have hfollower : d.core.role = .follower := hboot.role
  have hquiet := Peer.quiet_of_role (c := d.core) (by rw [hfollower]; simp) (by rw [hfollower]; simp)
  refine (quiet_run hsame hrun hs hquiet).2 hrole i e ?_ hhi he
  show max d'.raw.raft.raftLog.applied
    (((d'.raw.raft.raftLog.unstable.snapshot.map Snapshot.metadata).map
      SnapshotMetadata.index).getD 0) < i
  rw [Option.map_map]
  exact hlo

/-- A node that has not applied its committed entry campaigns: the entry is a normal one. -/
theorem campaign_quiet_behind : ∃ d d' : Driver MemoryStorage,
    Starts { id := 1, loadStateOnStartup := true } [] behind d ∧ PromptSteps Eq d d' ∧
      d'.raw.raft.state = .candidate ∧ d'.raw.raft.raftLog.applied < 1 ∧
      d'.raw.raft.raftLog.committed = 1 ∧ ∃ e, d'.raw.raft.raftLog.log.entryAt 1 = some e ∧
        e.isConf = false := by
  have hrun : (playFrom { id := 1, loadStateOnStartup := true } [] behind
      [.call (.step { msgType := .hup })]).map (fun p => decide (p.1.length = 1 ∧
        p.2.raw.raft.state = .candidate ∧ p.2.raw.raft.raftLog.applied = 0 ∧
        p.2.raw.raft.raftLog.committed = 1 ∧ p.2.raw.raft.raftLog.unstable.snapshot = none ∧
        p.2.raw.raft.raftLog.log.entryAt 1 = some { term := 1, index := 1, data := [7] })) =
      some true := by
    decide +kernel
  obtain ⟨⟨trace, d'⟩, hp, heq⟩ := Option.map_eq_some_iff.mp hrun
  obtain ⟨hlen, hrole, happ, hcom, hsnap, hentry⟩ := of_decide_eq_true heq
  obtain ⟨d, hstart, hrun⟩ := playFrom_run Eq hp
  have hrun : Run Eq d trace d' := hrun
  have hlen : trace.length = 1 := hlen
  have happ : d'.raw.raft.raftLog.applied = 0 := happ
  have hcom : d'.raw.raft.raftLog.committed = 1 := hcom
  have hsteps : PromptSteps Eq d d' := by
    cases hrun with
    | nil => cases hlen
    | cons hstep hrest =>
        cases hrest with
        | nil =>
            refine .single ⟨_, hstep, fun rd hrd => ?_⟩
            rw [hstart.2] at hrd
            cases hrd
        | cons => cases hlen
  have hvalid : LawfulStorage.Valid behind := by
    show Log.Consecutive 1 behind.entries
    exact ⟨rfl, trivial⟩
  refine ⟨d, d', hstart, hsteps, hrole, by omega, hcom, _, hentry, ?_⟩
  refine campaign_quiet faithful_eq hvalid (Nat.zero_le _) hstart hsteps (Or.inl hrole) (i := 1) ?_
    (by omega) hentry
  rw [happ, hsnap]
  decide

end Driver

end Raftz
