import Raftz.Replay

/-! # Snapshots and restarts along a run

The invariant of `Raftz.Replay` along every run of a node: `Replica.Run` are the
runs in which every received snapshot carries the configuration of its index,
own snapshots are taken by settled nodes only, and a restart without a
membership replays no configuration entry.  In such a run every snapshot that is
taken carries the configuration of its index, and a node that has replayed up to
where it stood before a crash has the configuration it had then. -/

open Base

namespace Raftz

open LawfulMembershipStorage

namespace Replica

variable {σ : Type} [LawfulMembershipStorage σ] {nodeId : ℕ} {intact : Entry → Bool}
  {history : ℕ → Entry} {c₀ c : Configured} {m : ℕ} {r r' : Replica σ}

/-! ### Restart -/

/-- A state machine is recovered at its own position or at that of the last snapshot. -/
theorem recoverStateMachine_ok {durable : Option (ℕ × ℕ)} {commit a : ℕ} {s : σ}
    (h : Raftor.recoverStateMachine durable commit 0 s = .ok a) :
    snapshotIndex s ≤ a ∧ (a = snapshotIndex s ∨ (a ≤ commit ∧ ∃ d ∈ durable, d.1 = a)) := by
  unfold Raftor.recoverStateMachine at h
  dsimp only at h
  simp only [localSnapshot_eq] at h
  split at h
  · rename_i index term
    split at h
    · cases h
    · rename_i hcommit
      split at h
      · cases h
        exact ⟨le_rfl, Or.inl rfl⟩
      · rename_i hlt
        have hle : snapshotIndex s ≤ index := Nat.le_of_not_lt hlt
        have hok : snapshotIndex s ≤ index ∧
            (index = snapshotIndex s ∨ (index ≤ commit ∧ ∃ d ∈ some (index, term), d.1 = index)) :=
          ⟨hle, Or.inr ⟨Nat.le_of_not_lt hcommit, (index, term), rfl, rfl⟩⟩
        split at h
        · split at h
          · cases h
          · cases h
            exact hok
        · obtain ⟨first, -, h⟩ := bind_eq_ok.mp h
          obtain ⟨last, -, h⟩ := bind_eq_ok.mp h
          split at h
          · cases h
          · split at h
            · cases h
            · cases h
            · cases h
            · split at h
              · cases h
              · cases h
                exact hok
  · split at h
    · cases h
      exact ⟨le_rfl, Or.inl rfl⟩
    · rename_i hzero
      cases h
      have : snapshotIndex s = 0 := by omega
      exact ⟨this.le, Or.inl this.symm⟩

theorem restart_ok {k : ℕ} {durable : Option (ℕ × ℕ)} {s : σ} {p : ReadyProcessor σ}
    (h : Raftor.restart nodeId k durable s = .ok p) :
    ∃ n, ConfRestore.restore (ProgressTracker.init k) (n + 1) (state s).confState = .ok p.tracker ∧
      Raftor.recoverStateMachine durable (state s).hardState.commit 0 s = .ok p.appliedIndex ∧
      p.storage = s ∧ p.durable = s ∧ p.clusterMembership = (state s).clusterMembership ∧
      p.membershipIndex = (state s).membershipIndex := by
  unfold Raftor.restart at h
  obtain ⟨rs, hrs, h⟩ := bind_eq_ok.mp h
  have hrs : rs = state s := (Except.ok.inj ((initialState_eq s).symm.trans hrs)).symm
  subst hrs
  obtain ⟨_, _, h⟩ := bind_eq_ok.mp h
  have key : ∀ {x : Except Err (ReadyProcessor σ)}, (x = do
      let applied ← Raftor.recoverStateMachine durable (state s).hardState.commit 0 s
      let last ← Storage.lastIndex s
      let tracker ← ConfRestore.restore (ProgressTracker.init k) (last + 1) (state s).confState
      return {
        tracker := tracker
        storage := s
        durable := s
        appliedIndex := applied
        clusterMembership := (state s).clusterMembership
        membershipIndex := (state s).membershipIndex }) → x = .ok p →
      ∃ n, ConfRestore.restore (ProgressTracker.init k) (n + 1) (state s).confState = .ok p.tracker ∧
        Raftor.recoverStateMachine durable (state s).hardState.commit 0 s = .ok p.appliedIndex ∧
        p.storage = s ∧ p.durable = s ∧ p.clusterMembership = (state s).clusterMembership ∧
        p.membershipIndex = (state s).membershipIndex := by
    intro x hx h
    rw [hx] at h
    obtain ⟨applied, happlied, h⟩ := bind_eq_ok.mp h
    obtain ⟨last, -, h⟩ := bind_eq_ok.mp h
    obtain ⟨t, ht, h⟩ := bind_eq_ok.mp h
    cases h
    exact ⟨last, ht, happlied, rfl, rfl, rfl, rfl⟩
  split at h
  · obtain ⟨_, _, h⟩ := bind_eq_ok.mp h
    obtain ⟨_, _, h⟩ := bind_eq_ok.mp h
    exact key rfl h
  · obtain ⟨_, _, h⟩ := bind_eq_ok.mp h
    exact key rfl h

/-- A node that restarts has the configuration it had. -/
theorem Inv.restart (h : r.Inv c₀ intact history c m) (hc₀ : c₀.Valid) {k : ℕ}
    {durable : Option (ℕ × ℕ)} {p : ReadyProcessor σ}
    (hd : ∀ d ∈ durable, d.1 ≤ r.processor.appliedIndex)
    (hp : Raftor.restart nodeId k durable r.processor.durable = .ok p)
    (honce : p.clusterMembership = none → ∀ i, p.appliedIndex < i → i ≤ r.reached →
      (history i).isConf = false) :
    (⟨p, (state r.processor.durable).hardState.commit, .none, r.reached⟩ : Replica σ).Inv
      c₀ intact history c m := by
  obtain ⟨n, ht, happlied, hs, hdur, hmem, hidx⟩ := restart_ok hp
  obtain ⟨hsound, hsets⟩ := restore_eq (hc₀.after h.configured) h.durable.conf ht
  obtain ⟨hlow, hcase⟩ := recoverStateMachine_ok happlied
  have hbounds := h.reached
  have hdcommit := h.durable_commit
  have hdsnap := h.durable_snapIndex
  have hsnap : snapshotIndex p.storage = r.snapIndex := by rw [hs, hdsnap]
  have happ : p.appliedIndex ≤ r.reached ∧ p.appliedIndex ≤ (state r.processor.durable).hardState.commit := by
    rcases hcase with heq | ⟨hle, d, hmemd, hda⟩
    · omega
    · have := hd d hmemd
      omega
  have hmem : p.clusterMembership = c.membership := hmem.trans h.durable.membership
  have hidx : p.membershipIndex = m := hidx.trans h.durable.index
  exact {
    sound := hsound
    configured := h.configured
    stored := by
      show Stored c m p.storage
      rw [hs]
      exact h.durable
    durable := by
      show Stored c m p.durable
      rw [hdur]
      exact h.durable
    durable_snapIndex := by
      show snapshotIndex p.durable = snapshotIndex p.storage
      rw [hs, hdur]
    durable_commit := by
      show m ≤ (state p.durable).hardState.commit ∧ snapshotIndex p.storage ≤ (state p.durable).hardState.commit
      rw [hdur, hsnap]
      exact hdcommit
    stored_commit := by
      show (state p.durable).hardState.commit ≤ (state p.storage).hardState.commit
      rw [hs, hdur]
    committed := ⟨hdcommit.1, happ.2⟩
    reached := by
      show m ≤ r.reached ∧ p.appliedIndex ≤ r.reached ∧ snapshotIndex p.storage ≤ r.reached
      rw [hsnap]
      exact ⟨hbounds.1, happ.1, hbounds.2.2⟩
    plain := h.plain
    fresh := h.fresh
    once := fun hn i h1 h2 => by
      have h1 : max p.appliedIndex (snapshotIndex p.storage) < i := h1
      exact honce (hmem.trans hn) i (by omega) h2
    intact := by
      show ∀ i, snapshotIndex p.storage < i → i ≤ r.reached → intact (history i) = true
      rw [hsnap]
      exact h.intact
    follows := by
      refine ⟨hsets, ⟨hmem, hidx.le, hidx.ge.trans (le_max_left _ _), fun hn i h1 h2 => ?_⟩, ?_⟩
      · have h1 : p.membershipIndex < i := h1
        exact h.fresh hn i (by omega) h2
      · show snapshotIndex p.storage ≤ p.appliedIndex
        rw [hs]
        exact hlow }

/-! ### Runs -/

/-- What is asked of a step.  A received snapshot carries the configuration of its index; a snapshot
is taken by a settled node only; and a node without a membership restarts above every configuration
entry it has applied. -/
def Careful (c₀ : Configured) (history : ℕ → Entry) (r : Replica σ) (op : Op) (r' : Replica σ) : Prop :=
  match op with
  | .receive _ snap => ∃ c, c₀.after history snap.metadata.index = .ok c ∧ snap.Carries c
  | .takeSnapshot _ => r.Settled
  | .restart _ _ => r'.processor.clusterMembership = none → ∀ i, r'.processor.appliedIndex < i →
      i ≤ r.reached → (history i).isConf = false
  | _ => True

/-- A node that has been given its first configuration. -/
structure Starts (c₀ : Configured) (r : Replica σ) : Prop where
  sound : r.processor.tracker.Sound
  sets : r.processor.tracker.conf.sets = c₀.sets
  stored : Stored c₀ 0 r.processor.storage
  durable : Stored c₀ 0 r.processor.durable
  snapshotIndex : snapshotIndex r.processor.storage = 0 ∧ snapshotIndex r.processor.durable = 0
  commit : (state r.processor.durable).hardState.commit ≤ (state r.processor.storage).hardState.commit
  membership : r.processor.clusterMembership = c₀.membership ∧ r.processor.membershipIndex = 0
  fresh : r.processor.appliedIndex = 0 ∧ r.reached = 0 ∧ r.incoming = .none

/-- The steps from one state to another, all of them careful. -/
abbrev Run (nodeId : ℕ) (intact : Entry → Bool) (c₀ : Configured) (history : ℕ → Entry) :
    Replica σ → Replica σ → Prop :=
  Relation.ReflTransGen fun r r' => ∃ op, Step nodeId intact history r op r' ∧ Careful c₀ history r op r'

theorem Starts.inv (h : Starts c₀ r) : r.Inv c₀ intact history c₀ 0 := by
  obtain ⟨happ, hreach, hin⟩ := h.fresh
  obtain ⟨hs1, hs2⟩ := h.snapshotIndex
  have hs1 : r.snapIndex = 0 := hs1
  refine {
    sound := h.sound
    configured := by
      rw [hreach]
      rfl
    stored := h.stored
    durable := h.durable
    durable_snapIndex := hs2.trans hs1.symm
    durable_commit := ⟨Nat.zero_le _, hs1.le.trans (Nat.zero_le _)⟩
    stored_commit := h.commit
    committed := ⟨Nat.zero_le _, happ.le.trans (Nat.zero_le _)⟩
    reached := by omega
    plain := fun _ => rfl
    fresh := fun _ i h1 h2 => by omega
    once := fun _ i h1 h2 => by omega
    intact := fun i h1 h2 => by omega
    follows := ?_ }
  unfold Follows
  rw [hin]
  refine ⟨h.sets, ⟨h.membership.1, h.membership.2.le, Nat.zero_le _, fun _ i h1 h2 => by omega⟩, ?_⟩
  omega

/-- The storage appends entries. -/
theorem Inv.append (h : r.Inv c₀ intact history c m) {es : List Entry} {s : σ}
    (hs : WritableStorage.append r.processor.storage es = .ok s) :
    ({ r with processor := { r.processor with storage := s } } : Replica σ).Inv c₀ intact history c m := by
  obtain ⟨hstate, hsnap⟩ := append_ok hs
  refine h.write ?_ hsnap (by rw [hstate])
  obtain ⟨h1, h2, h3⟩ := h.stored
  exact ⟨by rw [hstate, h1], by rw [hstate, h2], by rw [hstate, h3]⟩

/-- The storage takes a hard state whose commit index is no lower. -/
theorem Inv.setHardState (h : r.Inv c₀ intact history c m) {hs : HardState} {rs : RaftState} {s : σ}
    (hrs : Storage.initialState r.processor.storage = .ok rs) (hle : rs.hardState.commit ≤ hs.commit)
    (hset : WritableStorage.setHardState r.processor.storage hs = .ok s) :
    ({ r with processor := { r.processor with storage := s } } : Replica σ).Inv c₀ intact history c m := by
  have hrs : rs = state r.processor.storage :=
    (Except.ok.inj ((initialState_eq r.processor.storage).symm.trans hrs)).symm
  obtain ⟨hstate, hsnap⟩ := setHardState_ok hset
  refine h.write ?_ hsnap (by rw [hstate, ← hrs]; exact hle)
  obtain ⟨h1, h2, h3⟩ := h.stored
  exact ⟨by rw [hstate]; exact h1, by rw [hstate]; exact h2, by rw [hstate]; exact h3⟩

/-- Every careful step keeps the invariant, and the index of the membership does not decrease. -/
theorem Inv.step (h : r.Inv c₀ intact history c m) (hc₀ : c₀.Valid) (hhist : ∀ i, (history i).index = i)
    {op : Op} (hstep : Step nodeId intact history r op r') (hcare : Careful c₀ history r op r') :
    ∃ c' m', m ≤ m' ∧ r'.Inv c₀ intact history c' m' := by
  cases hstep with
  | core t ht hc => exact ⟨c, m, le_rfl, h.core ht hc⟩
  | commit i hi => exact ⟨c, m, le_rfl, h.commit hi⟩
  | append es s hs => exact ⟨c, m, le_rfl, h.append hs⟩
  | setHardState hs rs s hrs hle hset => exact ⟨c, m, le_rfl, h.setHardState hrs hle hset⟩
  | sync => exact ⟨c, m, le_rfl, h.sync⟩
  | receive k snap t hu hle ht =>
      obtain ⟨c', hc', hsnap⟩ := hcare
      exact ⟨c, m, le_rfl, h.receive hc₀ hu hle hc' hsnap ht⟩
  | persist snap p mem hi hp => exact h.persist hi hp
  | install snap mem hi => exact ⟨c, m, le_rfl, h.install hi⟩
  | restore snap hi => exact ⟨c, m, le_rfl, h.restore hi⟩
  | apply last rs p hc hlast hrs hs hi hp =>
      have hrs : rs = state r.processor.storage :=
        (Except.ok.inj ((initialState_eq r.processor.storage).symm.trans hrs)).symm
      rw [hrs] at hs
      exact h.apply hhist hc hlast hs hi hp
  | takeSnapshot data p hp =>
      obtain ⟨m', hm', hinv⟩ := h.takeSnapshot hc₀ hcare hp
      exact ⟨c, m', hm', hinv⟩
  | restart k durable rs p hd hrs hp =>
      have hrs : rs = state r.processor.durable :=
        (Except.ok.inj ((initialState_eq r.processor.durable).symm.trans hrs)).symm
      rw [hrs]
      exact ⟨c, m, le_rfl, h.restart hc₀ hd hp hcare⟩

theorem Inv.run (h : r.Inv c₀ intact history c m) (hc₀ : c₀.Valid) (hhist : ∀ i, (history i).index = i)
    (hrun : Run nodeId intact c₀ history r r') : ∃ c' m', m ≤ m' ∧ r'.Inv c₀ intact history c' m' := by
  induction hrun with
  | refl => exact ⟨c, m, le_rfl, h⟩
  | tail _ hstep ih =>
      obtain ⟨c1, m1, hm1, h1⟩ := ih
      obtain ⟨op, hstep, hcare⟩ := hstep
      obtain ⟨c2, m2, hm2, h2⟩ := h1.step hc₀ hhist hstep hcare
      exact ⟨c2, m2, hm1.trans hm2, h2⟩

/-- **A snapshot carries the configuration of its index.**  In a careful run, the snapshot that a
settled node gives to its storage has the configuration and the membership that the configuration
entries up to its index lead to, and the index of the stored membership never decreases. -/
theorem takeSnapshot_carries {start : Replica σ} (hc₀ : c₀.Valid) (hhist : ∀ i, (history i).index = i)
    (hstart : Starts c₀ start) (hrun : Run nodeId intact c₀ history start r) :
    (∀ data snap, r.Settled → r.processor.makeSnapshot data = .ok snap →
      ∃ c, c₀.after history snap.metadata.index = .ok c ∧
        snap.metadata.confState = c.sets.toConfState ∧
        match c.membership with
          | none => snap.membership = []
          | some mem => mem.encode = .ok snap.membership) ∧
    ∀ r', Run nodeId intact c₀ history r r' →
      (state r.processor.storage).membershipIndex ≤ (state r'.processor.storage).membershipIndex := by
  obtain ⟨c, m, -, h⟩ := hstart.inv.run hc₀ hhist hrun
  refine ⟨fun data snap hs hsnap => ?_, fun r' hrun' => ?_⟩
  · obtain ⟨hindex, hconf, hmem, -⟩ := h.makeSnapshot hc₀ hs hsnap
    refine ⟨c, ?_, hconf, hmem⟩
    rw [hindex]
    exact h.after_applied hs
  · obtain ⟨c', m', hm, h'⟩ := h.run hc₀ hhist hrun'
    rw [h.stored.index, h'.stored.index]
    exact hm

/-! ### Replay -/

/-- The steps of a node that replays committed entries. -/
def Op.replays : Op → Bool
  | .core _ => true
  | .commit _ => true
  | .append _ => true
  | .setHardState _ => true
  | .sync => true
  | .apply _ => true
  | _ => false

/-- A node that replays. -/
abbrev Replays (nodeId : ℕ) (intact : Entry → Bool) (history : ℕ → Entry) :
    Replica σ → Replica σ → Prop :=
  Relation.ReflTransGen fun r r' => ∃ op, Step nodeId intact history r op r' ∧ op.replays = true

/-- A step of a replay that stays at or below `reached` changes nothing but the position. -/
theorem Inv.replay (h : r.Inv c₀ intact history c m) (hhist : ∀ i, (history i).index = i)
    (hin : r.incoming = .none) {op : Op} (hstep : Step nodeId intact history r op r')
    (hop : op.replays = true) (hle : r'.processor.appliedIndex ≤ r.reached) :
    r'.Inv c₀ intact history c m ∧ r'.incoming = .none ∧ r'.reached = r.reached ∧
      r.processor.appliedIndex ≤ r'.processor.appliedIndex := by
  cases hstep with
  | core t ht hc => exact ⟨h.core ht hc, hin, rfl, le_rfl⟩
  | commit i hi => exact ⟨h.commit hi, hin, rfl, le_rfl⟩
  | append es s hs => exact ⟨h.append hs, hin, rfl, le_rfl⟩
  | setHardState hs rs s hrs hle' hset => exact ⟨h.setHardState hrs hle' hset, hin, rfl, le_rfl⟩
  | sync => exact ⟨h.sync, hin, rfl, le_rfl⟩
  | apply last rs p hc hlast hrs hs hi hp =>
      obtain ⟨q, hq, rfl⟩ := applyCommitted_ok hp
      obtain ⟨hintact, hcase⟩ := applyEntry_cases hq
      rw [hhist] at hcase hle ⊢
      have hle : r.processor.appliedIndex + 1 ≤ r.reached := hle
      rcases hcase with ⟨rfl, -⟩ | ⟨hconf, hskip, -⟩
      · refine ⟨?_, hin, max_eq_left hle, Nat.le_succ _⟩
        exact h.advance rfl hintact hc (fun snap hsnap => (hi snap hsnap).2) fun hlt => by omega
      · rcases h.skips hin (Nat.lt_succ_self _) hle with hn | hsk
        · rw [hconf] at hn
          cases hn
        · exact absurd hsk hskip
  | _ => cases hop

theorem applied_le_of_replays (hhist : ∀ i, (history i).index = i) {op : Op}
    (hstep : Step nodeId intact history r op r') (hop : op.replays = true) :
    r.processor.appliedIndex ≤ r'.processor.appliedIndex := by
  cases hstep with
  | apply last rs p hc hlast hrs hs hi hp =>
      obtain ⟨q, hq, rfl⟩ := applyCommitted_ok hp
      show r.processor.appliedIndex ≤ (history (r.processor.appliedIndex + 1)).index
      rw [hhist]
      exact Nat.le_succ _
  | core => exact le_rfl
  | commit => exact le_rfl
  | append => exact le_rfl
  | setHardState => exact le_rfl
  | sync => exact le_rfl
  | _ => cases hop

theorem Inv.replays (h : r.Inv c₀ intact history c m) (hhist : ∀ i, (history i).index = i)
    (hin : r.incoming = .none) (hrun : Replays nodeId intact history r r')
    (hle : r'.processor.appliedIndex ≤ r.reached) :
    r'.Inv c₀ intact history c m ∧ r'.incoming = .none ∧ r'.reached = r.reached := by
  induction hrun with
  | refl => exact ⟨h, hin, rfl⟩
  | tail _ hstep ih =>
      obtain ⟨op, hstep, hop⟩ := hstep
      obtain ⟨h1, hin1, hreach⟩ := ih ((applied_le_of_replays hhist hstep hop).trans hle)
      obtain ⟨h2, hin2, hreach2, -⟩ := h1.replay hhist hin1 hstep hop (hreach ▸ hle)
      exact ⟨h2, hin2, hreach2.trans hreach⟩

/-- A script of replay steps is a careful run. -/
theorem play_run (c₀ : Configured) {ops : List Op} (hops : ops.all Op.replays = true)
    (h : play nodeId intact history ops r = .ok r') :
    Run nodeId intact c₀ history r r' ∧ Replays nodeId intact history r r' := by
  induction ops generalizing r with
  | nil =>
      cases h
      exact ⟨.refl, .refl⟩
  | cons op ops ih =>
      rw [List.all_cons, Bool.and_eq_true] at hops
      obtain ⟨r1, h1, h⟩ := bind_eq_ok.mp h
      obtain ⟨hrun, hreplay⟩ := ih hops.2 h
      have hstep := exec_step h1
      refine ⟨.head ⟨op, hstep, ?_⟩ hrun, .head ⟨op, hstep, hops.1⟩ hreplay⟩
      cases op with
      | receive => cases hops.1
      | takeSnapshot => cases hops.1
      | restart => cases hops.1
      | _ => trivial

/-- A node that starts with an empty log. -/
def boot (cs : ConfState) (membership : Option ClusterMembership) : Replica MemoryStorage where
  processor :=
    { tracker := (ConfRestore.restore (ProgressTracker.init 256) 1 cs).toOption.getD (.init 256)
      storage := { raftState := { confState := cs, clusterMembership := membership } }
      durable := { raftState := { confState := cs, clusterMembership := membership } }
      clusterMembership := membership }

theorem boot_starts (hc : c.Valid) : Starts c (boot c.sets.toConfState c.membership) := by
  obtain ⟨u, hu, hsound, hsets⟩ := ConfRestore.restore_sets hc.sets (ProgressTracker.init 256) Nat.one_pos
  have ht : (boot c.sets.toConfState c.membership).processor.tracker = u := by
    show (ConfRestore.restore _ _ _).toOption.getD _ = u
    rw [hu]
    rfl
  exact {
    sound := ht ▸ hsound
    sets := ht ▸ hsets
    stored := ⟨rfl, rfl, rfl⟩
    durable := ⟨rfl, rfl, rfl⟩
    snapshotIndex := ⟨rfl, rfl⟩
    commit := le_rfl
    membership := ⟨rfl, rfl⟩
    fresh := ⟨rfl, rfl, rfl⟩ }

/-- Node 1 alone. -/
def alone (membership : Option ClusterMembership) : Configured := ⟨{ incoming := {1} }, membership⟩

/-- The membership of node 1 alone. -/
def aloneMembership : ClusterMembership where
  clusterId := ⟨List.replicate 16 1, rfl⟩
  peers := [⟨1, [97]⟩]

theorem alone_valid {mem : Option ClusterMembership} (h : ∀ m, mem = some m → m.Bounded) :
    (alone mem).Valid where
  sets := by
    constructor
    · simp [alone]
    · simp [alone]
    · simp [alone]
    · simp [alone]
    · exact fun _ => rfl
  bounded := by simp [alone, ConfSets.members]
  membership := h

theorem aloneMembership_bounded : aloneMembership.Bounded := by
  constructor
  · simp [aloneMembership]
  · simp [aloneMembership]

theorem alone_toConfState (mem : Option ClusterMembership) :
    (alone mem).sets.toConfState = { voters := [1] } := by
  simp [alone, ConfSets.toConfState]

/-- A log with one configuration change, at index `i`. -/
def oneChange (i : ℕ) (cc : ConfChangeV2) (j : ℕ) : Entry :=
  if j = i then
    { index := j, term := 1, entryType := .confChangeV2
      data := (encodeConfChangeV2 cc).toOption.getD [] }
  else { index := j, term := 1 }

theorem oneChange_index (i : ℕ) (cc : ConfChangeV2) (j : ℕ) : (oneChange i cc j).index = j := by
  unfold oneChange
  split <;> rfl

/-- Node 2 joins as a learner with the second entry. -/
def secondJoins : ℕ → Entry := oneChange 2 { changes := [⟨.addLearnerNode, 2⟩], context := [98] }

/-- Write and apply the first two entries of a log. -/
def applyTwo (history : ℕ → Entry) : List Op :=
  [.append [history 1, history 2], .setHardState { term := 1, commit := 2 }, .commit 2, .apply 2, .apply 2]

theorem exists_ok {α β : Type} {x : Except Err α} {f : α → β} {b : β}
    (h : x.toOption.map f = some b) : ∃ a, x = .ok a ∧ f a = b := by
  cases x with
  | error e => cases h
  | ok a => exact ⟨a, rfl, Option.some.inj h⟩

/-- A snapshot taken after both entries carries the configuration with the learner. -/
theorem takeSnapshot_carries_learner : ∃ (r : Replica MemoryStorage) (snap : Snapshot),
    r.processor.makeSnapshot [] = .ok snap ∧ snap.metadata.index = 2 ∧
      ∃ c, (alone (some aloneMembership)).after secondJoins 2 = .ok c ∧
        snap.metadata.confState = c.sets.toConfState := by
  have heval : ((play 1 (fun _ => true) secondJoins (applyTwo secondJoins)
      (boot { voters := [1] } (some aloneMembership))).toOption.map fun r =>
        (decide r.Settled, (r.processor.makeSnapshot []).toOption.map fun snap => snap.metadata.index)) =
      some (true, some 2) := by decide +kernel
  obtain ⟨r, hplay, hr⟩ := exists_ok heval
  obtain ⟨hsettled, hmade⟩ := Prod.mk.inj hr
  obtain ⟨snap, hsnap, hindex⟩ := exists_ok hmade
  have hvalid := @alone_valid (some aloneMembership) fun m hm => by
    cases hm
    exact aloneMembership_bounded
  have hstart := boot_starts hvalid
  rw [alone_toConfState] at hstart
  obtain ⟨c, hc, hconf, -⟩ := (takeSnapshot_carries hvalid (oneChange_index 2 _) hstart
    (play_run _ rfl hplay).1).1 [] snap (of_decide_eq_true hsettled) hsnap
  rw [hindex] at hc
  exact ⟨r, snap, hsnap, hindex, c, hc, hconf⟩

/-- After a restart, a snapshot taken between the two entries carries the configuration of the
second one, and takes the index of the membership back. -/
theorem takeSnapshot_ahead : ∃ (before after : Replica MemoryStorage) (snap : Snapshot),
    Starts (alone (some aloneMembership)) (boot { voters := [1] } (some aloneMembership)) ∧
      Steps 1 (fun _ => true) secondJoins (boot { voters := [1] } (some aloneMembership)) before ∧
      before.processor.makeSnapshot [] = .ok snap ∧
      Step 1 (fun _ => true) secondJoins before (.takeSnapshot []) after ∧
      (alone (some aloneMembership)).after secondJoins snap.metadata.index =
        .ok (alone (some aloneMembership)) ∧
      snap.metadata.confState ≠ (alone (some aloneMembership)).sets.toConfState ∧
      after.processor.storage.raftState.membershipIndex <
        before.processor.storage.raftState.membershipIndex := by
  have heval : ((play 1 (fun _ => true) secondJoins
      (applyTwo secondJoins ++ [.restart 256 none, .apply 2])
      (boot { voters := [1] } (some aloneMembership))).toOption.map fun r =>
        (r.processor.storage.raftState.membershipIndex,
          (r.processor.makeSnapshot []).toOption.map fun snap =>
            (snap.metadata.index, snap.metadata.confState.learners),
          (exec 1 (fun _ => true) secondJoins r (.takeSnapshot [])).toOption.map fun r' =>
            r'.processor.storage.raftState.membershipIndex)) =
      some (2, some (1, [2]), some 1) := by decide +kernel
  obtain ⟨before, hplay, hr⟩ := exists_ok heval
  obtain ⟨hbefore, hr⟩ := Prod.mk.inj hr
  obtain ⟨hmade, htaken⟩ := Prod.mk.inj hr
  obtain ⟨snap, hsnap, hfields⟩ := exists_ok hmade
  obtain ⟨hindex, hlearners⟩ := Prod.mk.inj hfields
  obtain ⟨after, hafter, hidx⟩ := exists_ok htaken
  have hstart := boot_starts (@alone_valid (some aloneMembership) fun m hm => by
    cases hm
    exact aloneMembership_bounded)
  rw [alone_toConfState] at hstart
  refine ⟨before, after, snap, hstart, play_steps hplay, hsnap, exec_step hafter, ?_, ?_, ?_⟩
  · rw [hindex]
    rfl
  · intro he
    rw [he, alone_toConfState] at hlearners
    cases hlearners
  · rw [hbefore, hidx]
    exact Nat.one_lt_two

end Replica

end Raftz
