import Raftz.ReadyProcessor

/-! # The configuration of an index

What the configuration of a node should be: the one that the configuration
entries up to its position lead to from the initial one (`Configured.after`).
`Replica.Inv` ties the tracker, the storage and the driver of a node to it and
is kept by every step, as long as no snapshot is taken while the node still
replays configuration entries it had applied before, and no restart without a
membership replays any. -/

open Base

namespace Raftz

/-! ### The configuration that a log leads to -/

/-- A configuration and the membership that belongs to it. -/
structure Configured where
  sets : ConfSets
  membership : Option ClusterMembership
  deriving DecidableEq

namespace Configured

/-- What a committed entry makes of the configuration. -/
def apply (c : Configured) (e : Entry) : Except Err Configured :=
  if e.isConf = false then .ok c
  else
    match decodeConfChangeV2 e.data with
    | .error _ => .error .confChangeParseError
    | .ok cc => do
        let sets ← c.sets.change cc
        match c.membership with
        | none => return ⟨sets, none⟩
        | some m => do
            let m ← m.deriveClusterMembership c.sets.toConfState sets.toConfState cc
            return ⟨sets, some m⟩

/-- The configuration at an index of the log. -/
def after (c : Configured) (history : ℕ → Entry) : ℕ → Except Err Configured
  | 0 => .ok c
  | i + 1 => do
      let c ← after c history i
      c.apply (history (i + 1))

/-- A configuration that a node can have, with 64-bit ids. -/
structure Valid (c : Configured) : Prop where
  sets : c.sets.Valid
  bounded : ∀ id ∈ c.sets.members, id < 2 ^ 64
  membership : ∀ m, c.membership = some m → m.Bounded

variable {c c' : Configured} {e : Entry} {history : ℕ → Entry}

theorem apply_normal (h : e.isConf = false) : c.apply e = .ok c := by
  unfold apply
  rw [if_pos h]

theorem apply_ok (h : c.apply e = .ok c') (hconf : e.isConf = true) :
    ∃ cc, decodeConfChangeV2 e.data = .ok cc ∧ c.sets.change cc = .ok c'.sets ∧
      ((c.membership = none ∧ c'.membership = none) ∨
        ∃ m m', c.membership = some m ∧ c'.membership = some m' ∧
          m.deriveClusterMembership c.sets.toConfState c'.sets.toConfState cc = .ok m') := by
  unfold apply at h
  rw [if_neg (by simp [hconf])] at h
  split at h
  · cases h
  · rename_i cc hcc
    obtain ⟨sets, hsets, h⟩ := bind_eq_ok.mp h
    split at h
    · rename_i hm
      cases h
      exact ⟨cc, hcc, hsets, Or.inl ⟨hm, rfl⟩⟩
    · rename_i m hm
      obtain ⟨m', hm', h⟩ := bind_eq_ok.mp h
      cases h
      exact ⟨cc, hcc, hsets, Or.inr ⟨m, m', hm, rfl, hm'⟩⟩

/-- Entries for the application leave the configuration alone. -/
theorem after_eq_of_normal {i j : ℕ} (hij : i ≤ j)
    (h : ∀ k, i < k → k ≤ j → (history k).isConf = false) :
    c.after history j = c.after history i := by
  induction j, hij using Nat.le_induction with
  | base => rfl
  | succ j hij ih =>
      have hj := ih fun k h1 h2 => h k h1 (by omega)
      rw [after, hj]
      cases c.after history i with
      | error e => rfl
      | ok c' => exact apply_normal (h (j + 1) (by omega) le_rfl)

/-- A node has a membership from the beginning or never. -/
theorem after_membership {i : ℕ} (h : c.after history i = .ok c') :
    c'.membership = none ↔ c.membership = none := by
  induction i generalizing c' with
  | zero =>
      cases h
      exact Iff.rfl
  | succ i ih =>
      rw [after] at h
      obtain ⟨c1, h1, h⟩ := bind_eq_ok.mp h
      rw [← ih h1]
      cases hconf : (history (i + 1)).isConf with
      | false =>
          rw [apply_normal hconf] at h
          cases h
          exact Iff.rfl
      | true =>
          obtain ⟨cc, -, -, hm⟩ := apply_ok h hconf
          rcases hm with ⟨h2, h3⟩ | ⟨m, m', h2, h3, -⟩
          · simp [h2, h3]
          · simp [h2, h3]

/-! ### Ids stay 64-bit numbers -/

theorem decodeChanges_bounded {n : ℕ} {bs rest : Bytes} {ccs : List ConfChangeSingle}
    (h : decodeChanges n bs = some (ccs, rest)) : ∀ cc ∈ ccs, cc.nodeId < 2 ^ 64 := by
  induction n generalizing bs rest ccs with
  | zero =>
      unfold decodeChanges at h
      cases h
      intro cc hcc
      cases hcc
  | succ n ih =>
      cases bs with
      | nil => cases h
      | cons b bs =>
          simp only [decodeChanges, Option.bind_eq_bind, Option.bind_eq_some_iff] at h
          obtain ⟨t, -, ⟨cs, rest'⟩, hcs, h⟩ := h
          cases h
          intro cc hcc
          rcases List.mem_cons.mp hcc with rfl | hcc
          · show ofLeBytes (bs.take 8) < 2 ^ 64
            have hlt := ofLeBytes_lt (bs.take 8)
            have hlen : (bs.take 8).length ≤ 8 := by simp
            calc ofLeBytes (bs.take 8) < 256 ^ (bs.take 8).length := hlt
              _ ≤ 256 ^ 8 := Nat.pow_le_pow_right (by norm_num) hlen
              _ = 2 ^ 64 := by norm_num
          · exact ih hcs cc hcc

theorem decodeConfChangeV2_bounded {bs : Bytes} {cc : ConfChangeV2} (h : decodeConfChangeV2 bs = .ok cc) :
    ∀ c ∈ cc.changes, c.nodeId < 2 ^ 64 := by
  unfold decodeConfChangeV2 at h
  split at h
  · cases h
  · split at h
    · cases h
    · split at h
      · cases h
      · dsimp only at h
        split at h
        · cases h
        · split at h
          · rename_i hc
            split at h
            · cases h
            · cases h
              exact decodeChanges_bounded hc
          · cases h

end Configured

namespace ClusterMembership

/-- What `deriveClusterMembership` yields: the members of the new configuration, and as retired ids
the old ones and those that left. -/
theorem deriveClusterMembership_ok {current m : ClusterMembership} {previous new : ConfState}
    {cc : ConfChangeV2} (h : current.deriveClusterMembership previous new cc = .ok m) :
    (∀ p ∈ m.peers, p.nodeId ∈ members new) ∧
      ∀ i ∈ m.retiredNodeIds, i ∈ current.retiredNodeIds ∨ i ∈ members previous := by
  unfold deriveClusterMembership at h
  obtain ⟨_, _, h⟩ := bind_eq_ok.mp h
  obtain ⟨_, _, h⟩ := bind_eq_ok.mp h
  obtain ⟨_, _, h⟩ := bind_eq_ok.mp h
  obtain ⟨endpoints, _, h⟩ := bind_eq_ok.mp h
  obtain ⟨_, _, h⟩ := bind_eq_ok.mp h
  obtain ⟨_, _, h⟩ := bind_eq_ok.mp h
  obtain ⟨_, _, h⟩ := bind_eq_ok.mp h
  obtain ⟨_, _, h⟩ := bind_eq_ok.mp h
  cases h
  refine ⟨fun p hp => ?_, fun i hi => ?_⟩
  · obtain ⟨id, hid, rfl⟩ := List.mem_map.mp hp
    exact mem_collectEffectiveMemberIds.mp hid
  · rcases List.mem_append.mp ((List.mem_insertionSort _).mp hi) with hi | hi
    · exact Or.inl hi
    · exact Or.inr (mem_collectEffectiveMemberIds.mp (List.mem_filter.mp hi).1)

end ClusterMembership

theorem ConfSets.mem_toConfState (s : ConfSets) (id : ℕ) :
    id ∈ ClusterMembership.members s.toConfState ↔ id ∈ s.members := by
  unfold ClusterMembership.members toConfState members
  simp only [List.mem_append, Finset.mem_sort, Finset.mem_union]

namespace Configured

variable {c c' : Configured} {e : Entry} {history : ℕ → Entry}

theorem Valid.apply (h : c.Valid) (hc : c.apply e = .ok c') : c'.Valid := by
  cases hconf : e.isConf with
  | false =>
      rw [apply_normal hconf] at hc
      cases hc
      exact h
  | true =>
      obtain ⟨cc, hcc, hsets, hm⟩ := apply_ok hc hconf
      obtain ⟨hvalid, hmem⟩ := h.sets.change hsets
      have hbound : ∀ id ∈ c'.sets.members, id < 2 ^ 64 := by
        intro id hid
        rcases Finset.mem_union.mp (hmem hid) with h1 | h1
        · exact h.bounded id h1
        · obtain ⟨cc', hcc', rfl⟩ := List.mem_map.mp (List.mem_toFinset.mp h1)
          exact decodeConfChangeV2_bounded hcc cc' hcc'
      refine ⟨hvalid, hbound, fun m hm' => ?_⟩
      rcases hm with ⟨-, hnone⟩ | ⟨m1, m2, h1, h2, hd⟩
      · rw [hnone] at hm'
        cases hm'
      · rw [h2] at hm'
        cases hm'
        obtain ⟨hp, hr⟩ := ClusterMembership.deriveClusterMembership_ok hd
        refine ⟨fun p hpm => ?_, fun i hi => ?_⟩
        · exact hbound _ ((ConfSets.mem_toConfState _ _).mp (hp p hpm))
        · rcases hr i hi with h3 | h3
          · exact (h.membership m1 h1).retired i h3
          · exact h.bounded i ((ConfSets.mem_toConfState _ _).mp h3)

/-- Every index has a configuration that a node can have. -/
theorem Valid.after (h : c.Valid) {i : ℕ} (hc : c.after history i = .ok c') : c'.Valid := by
  induction i generalizing c' with
  | zero =>
      cases hc
      exact h
  | succ i ih =>
      rw [Configured.after] at hc
      obtain ⟨c1, h1, hc⟩ := bind_eq_ok.mp hc
      exact (ih h1).apply hc

end Configured

/-! ### Nodes that follow the log -/

open LawfulMembershipStorage

/-- The storage holds the configuration, with the membership of index `m`. -/
structure Stored {σ : Type} [LawfulMembershipStorage σ] (c : Configured) (m : ℕ) (s : σ) : Prop where
  conf : (state s).confState = c.sets.toConfState
  membership : (state s).clusterMembership = c.membership
  index : (state s).membershipIndex = m

/-- The snapshot carries a configuration and its membership. -/
structure Snapshot.Carries (snap : Snapshot) (c : Configured) : Prop where
  conf : snap.metadata.confState = c.sets.toConfState
  membership : decodeSnapshotMembership snap = .ok c.membership

namespace ReadyProcessor

variable {σ : Type} [LawfulMembershipStorage σ] {p p' : ReadyProcessor σ} {c : Configured}

theorem applyConfChange_ok {t t' : ProgressTracker} {last : ℕ} {cc : ConfChangeV2} {cs : ConfState}
    (ht : t.Sound) (hlast : 0 < last) (h : t.applyConfChange last cc = .ok (t', cs)) :
    t'.Sound ∧ t.conf.sets.change cc = .ok t'.conf.sets ∧ cs = t'.conf.sets.toConfState := by
  unfold ProgressTracker.applyConfChange at h
  obtain ⟨res, hres, h⟩ := bind_eq_ok.mp h
  cases h
  have hsound := ConfChanger.changeConf_sound ht.fits hres
  refine ⟨ht.applyConf hsound.1 hsound.2 hlast, ?_, TrackerConfiguration.toConfState_eq _⟩
  rw [← ConfChanger.changeConf_sets ht.fits cc, hres]
  rfl

/-- A configuration entry that is applied takes the node to the next configuration. -/
theorem applyConfEntry_ok {m last : ℕ} {e : Entry} {cc : ConfChangeV2} (ht : p.tracker.Sound)
    (hlast : 0 < last) (hsets : p.tracker.conf.sets = c.sets) (hs : Stored c m p.storage)
    (hm : p.clusterMembership = c.membership) (hconf : e.isConf = true)
    (hcc : decodeConfChangeV2 e.data = .ok cc) (h : p.applyConfEntry last e cc = .ok p') :
    ∃ c', c.apply e = .ok c' ∧ p'.tracker.Sound ∧ p'.tracker.conf.sets = c'.sets ∧
      p'.durable = p'.storage ∧ snapshotIndex p'.storage = snapshotIndex p.storage ∧
      (state p'.storage).hardState = (state p.storage).hardState ∧
      ((c.membership = none ∧ c'.membership = none ∧ Stored c' m p'.storage ∧
          p'.clusterMembership = none ∧ p'.membershipIndex = p.membershipIndex) ∨
        (c.membership ≠ none ∧ c'.membership ≠ none ∧ Stored c' e.index p'.storage ∧
          p'.clusterMembership = c'.membership ∧ p'.membershipIndex = e.index)) := by
  unfold applyConfEntry at h
  cases hcm : c.membership with
  | none =>
      rw [hm, hcm] at h
      dsimp only at h
      obtain ⟨⟨t', cs⟩, ht', h⟩ := bind_eq_ok.mp h
      obtain ⟨s', hs', h⟩ := bind_eq_ok.mp h
      cases h
      obtain ⟨hsound, hchange, rfl⟩ := applyConfChange_ok ht hlast ht'
      obtain ⟨hstate, hsnap⟩ := setConfState_ok hs'
      rw [hsets] at hchange
      refine ⟨⟨t'.conf.sets, none⟩, ?_, hsound, rfl, rfl, hsnap, ?_, Or.inl ⟨rfl, rfl, ?_, ?_, rfl⟩⟩
      · unfold Configured.apply
        rw [if_neg (by simp [hconf]), hcc]
        refine bind_eq_ok.mpr ⟨_, hchange, ?_⟩
        rw [hcm]
        rfl
      · show (state s').hardState = _
        rw [hstate]
      · refine ⟨?_, ?_, ?_⟩
        · show (state s').confState = _
          rw [hstate]
        · show (state s').clusterMembership = _
          rw [hstate]
          exact hs.membership.trans hcm
        · show (state s').membershipIndex = _
          rw [hstate]
          exact hs.index
      · rfl
  | some mem =>
      rw [hm, hcm] at h
      dsimp only at h
      obtain ⟨previous, hprevious, h⟩ := bind_eq_ok.mp h
      obtain ⟨⟨t', cs⟩, ht', h⟩ := bind_eq_ok.mp h
      obtain ⟨mem', hmem', h⟩ := bind_eq_ok.mp h
      obtain ⟨s', hs', h⟩ := bind_eq_ok.mp h
      cases h
      have hprevious : previous = state p.storage := by
        have heq := (initialState_eq p.storage).symm.trans hprevious
        exact (Except.ok.inj heq).symm
      obtain ⟨hsound, hchange, rfl⟩ := applyConfChange_ok ht hlast ht'
      obtain ⟨hstate, hsnap⟩ := setMembershipState_ok hs'
      rw [hsets] at hchange
      dsimp only at hmem'
      rw [hprevious, hs.conf] at hmem'
      refine ⟨⟨t'.conf.sets, some mem'⟩, ?_, hsound, rfl, rfl, hsnap, ?_,
        Or.inr ⟨nofun, nofun, ?_, rfl, rfl⟩⟩
      · unfold Configured.apply
        rw [if_neg (by simp [hconf]), hcc]
        refine bind_eq_ok.mpr ⟨_, hchange, ?_⟩
        rw [hcm]
        exact bind_eq_ok.mpr ⟨_, hmem', rfl⟩
      · show (state s').hardState = _
        rw [hstate]
      · refine ⟨?_, ?_, ?_⟩
        · show (state s').confState = _
          rw [hstate]
        · show (state s').clusterMembership = _
          rw [hstate]
        · show (state s').membershipIndex = _
          rw [hstate]

end ReadyProcessor

namespace Replica

variable {σ : Type} [LawfulMembershipStorage σ] {nodeId : ℕ} {intact : Entry → Bool}
  {history : ℕ → Entry} {c₀ c : Configured} {m : ℕ} {r r' : Replica σ}

/-- The position of the last snapshot in the storage. -/
def snapIndex (r : Replica σ) : ℕ := snapshotIndex r.processor.storage

/-- The driver has the membership of the configuration.  A snapshot taken since may have raised the
index in the storage, but no configuration entry lies in between. -/
def Installed (history : ℕ → Entry) (c : Configured) (m : ℕ) (r : Replica σ) : Prop :=
  r.processor.clusterMembership = c.membership ∧ r.processor.membershipIndex ≤ m ∧
    m ≤ max r.processor.membershipIndex r.snapIndex ∧
    (c.membership ≠ none → ∀ i, r.processor.membershipIndex < i → i ≤ r.reached →
      (history i).isConf = false)

/-- What the stage of a received snapshot means for the tracker and the driver. -/
def Follows (c₀ : Configured) (history : ℕ → Entry) (c : Configured) (m : ℕ) (r : Replica σ) : Prop :=
  match r.incoming with
  | .none => r.processor.tracker.conf.sets = c.sets ∧ r.Installed history c m ∧
      r.snapIndex ≤ r.processor.appliedIndex
  | .accepted snap => (∃ c', c₀.after history snap.metadata.index = .ok c' ∧ snap.Carries c' ∧
        r.processor.tracker.conf.sets = c'.sets) ∧ r.Installed history c m ∧
      r.snapIndex ≤ r.processor.appliedIndex ∧ r.processor.appliedIndex ≤ snap.metadata.index ∧
      m ≤ snap.metadata.index ∧ snap.metadata.index ≤ r.committed
  | .persisted snap mem => r.processor.tracker.conf.sets = c.sets ∧ snap.metadata.index = r.reached ∧
      r.snapIndex = r.reached ∧ mem = c.membership ∧ (mem ≠ none → m = r.reached) ∧
      (mem = none → r.Installed history c m) ∧ snap.metadata.index ≤ r.committed
  | .installed snap => r.processor.tracker.conf.sets = c.sets ∧ snap.metadata.index = r.reached ∧
      r.snapIndex = r.reached ∧ r.Installed history c m ∧ snap.metadata.index ≤ r.committed

/-- The node has the configuration `c` of the position it has reached, with the membership of index
`m`. -/
structure Inv (c₀ : Configured) (intact : Entry → Bool) (history : ℕ → Entry) (c : Configured) (m : ℕ)
    (r : Replica σ) : Prop where
  sound : r.processor.tracker.Sound
  configured : c₀.after history r.reached = .ok c
  stored : Stored c m r.processor.storage
  durable : Stored c m r.processor.durable
  durable_snapIndex : snapshotIndex r.processor.durable = r.snapIndex
  /-- A crash does not take the commit index back below the membership or the snapshot. -/
  durable_commit : m ≤ (state r.processor.durable).hardState.commit ∧
    r.snapIndex ≤ (state r.processor.durable).hardState.commit
  stored_commit : (state r.processor.durable).hardState.commit ≤
    (state r.processor.storage).hardState.commit
  committed : m ≤ r.committed ∧ r.processor.appliedIndex ≤ r.committed
  reached : m ≤ r.reached ∧ r.processor.appliedIndex ≤ r.reached ∧ r.snapIndex ≤ r.reached
  plain : c.membership = none → m = 0
  /-- Configuration entries above the membership have not been applied. -/
  fresh : c.membership ≠ none → ∀ i, m < i → i ≤ r.reached → (history i).isConf = false
  /-- Without a membership, no configuration entry is applied twice. -/
  once : c.membership = none → ∀ i, max r.processor.appliedIndex r.snapIndex < i → i ≤ r.reached →
    (history i).isConf = false
  intact : ∀ i, r.snapIndex < i → i ≤ r.reached → intact (history i) = true
  follows : r.Follows c₀ history c m

/-! ### Steps that leave the configuration alone -/

theorem Inv.core (h : r.Inv c₀ intact history c m) {t : ProgressTracker} (ht : t.Sound)
    (hc : t.conf = r.processor.tracker.conf) :
    ({ r with processor := { r.processor with tracker := t } } : Replica σ).Inv c₀ intact history c m where
  __ := h
  sound := ht
  follows := by
    show Follows c₀ history c m { r with processor := { r.processor with tracker := t } }
    unfold Follows
    dsimp only
    rw [hc]
    exact h.follows

theorem Inv.commit (h : r.Inv c₀ intact history c m) {i : ℕ} (hi : r.committed ≤ i) :
    ({ r with committed := i } : Replica σ).Inv c₀ intact history c m where
  __ := h
  committed := ⟨h.committed.1.trans hi, h.committed.2.trans hi⟩
  follows := by
    have hf := h.follows
    unfold Follows at hf ⊢
    dsimp only
    cases hin : r.incoming with
    | none =>
        rw [hin] at hf
        exact hf
    | accepted snap =>
        rw [hin] at hf
        obtain ⟨h1, h2, h3, h4, h5, h6⟩ := hf
        exact ⟨h1, h2, h3, h4, h5, h6.trans hi⟩
    | persisted snap mem =>
        rw [hin] at hf
        obtain ⟨h1, h2, h3, h4, h5, h6, h7⟩ := hf
        exact ⟨h1, h2, h3, h4, h5, h6, h7.trans hi⟩
    | installed snap =>
        rw [hin] at hf
        obtain ⟨h1, h2, h3, h4, h5⟩ := hf
        exact ⟨h1, h2, h3, h4, h5.trans hi⟩

/-- A write that keeps the configuration, the snapshot and the commit index. -/
theorem Inv.write (h : r.Inv c₀ intact history c m) {s : σ} (hs : Stored c m s)
    (hsnap : snapshotIndex s = r.snapIndex)
    (hcommit : (state r.processor.storage).hardState.commit ≤ (state s).hardState.commit) :
    ({ r with processor := { r.processor with storage := s } } : Replica σ).Inv c₀ intact history c m where
  sound := h.sound
  configured := h.configured
  stored := hs
  durable := h.durable
  durable_snapIndex := h.durable_snapIndex.trans hsnap.symm
  durable_commit := ⟨h.durable_commit.1, hsnap.le.trans h.durable_commit.2⟩
  stored_commit := h.stored_commit.trans hcommit
  committed := h.committed
  reached := ⟨h.reached.1, h.reached.2.1, hsnap.le.trans h.reached.2.2⟩
  plain := h.plain
  fresh := h.fresh
  once := by
    show c.membership = none → ∀ i, max r.processor.appliedIndex (snapshotIndex s) < i → _
    rw [hsnap]
    exact h.once
  intact := by
    show ∀ i, snapshotIndex s < i → _
    rw [hsnap]
    exact h.intact
  follows := by
    have hf := h.follows
    unfold Follows at hf ⊢
    have hsnap : ({ r with processor := { r.processor with storage := s } } : Replica σ).snapIndex =
      r.snapIndex := hsnap
    simp only [Installed, hsnap]
    simp only [Installed] at hf
    exact hf

theorem Inv.sync (h : r.Inv c₀ intact history c m) :
    ({ r with processor := r.processor.sync } : Replica σ).Inv c₀ intact history c m where
  __ := h
  durable := h.stored
  durable_snapIndex := rfl
  durable_commit := ⟨h.durable_commit.1.trans h.stored_commit, h.durable_commit.2.trans h.stored_commit⟩
  stored_commit := le_rfl
  follows := h.follows

/-! ### Received snapshots -/

/-- A tracker that is restored from an exported configuration has it. -/
theorem restore_eq {t t' : ProgressTracker} {n : ℕ} {cs : ConfState} (hc : c.Valid)
    (hcs : cs = c.sets.toConfState) (h : ConfRestore.restore t (n + 1) cs = .ok t') :
    t'.Sound ∧ t'.conf.sets = c.sets := by
  subst hcs
  obtain ⟨u, hu, hs, hsets⟩ := ConfRestore.restore_sets hc.sets t (Nat.succ_pos n)
  rw [hu] at h
  cases h
  exact ⟨hs, hsets⟩

/-- Before a received snapshot is written, the driver has the membership of the storage. -/
theorem Inv.installed (h : r.Inv c₀ intact history c m) (hu : r.incoming.underway = false) :
    r.Installed history c m ∧ r.snapIndex ≤ r.processor.appliedIndex := by
  have hf := h.follows
  unfold Follows at hf
  cases hin : r.incoming with
  | none =>
      rw [hin] at hf
      exact hf.2
  | accepted snap =>
      rw [hin] at hf
      exact ⟨hf.2.1, hf.2.2.1⟩
  | persisted snap mem =>
      rw [hin] at hu
      cases hu
  | installed snap =>
      rw [hin] at hu
      cases hu

theorem Inv.receive (h : r.Inv c₀ intact history c m) (hc₀ : c₀.Valid) {k : ℕ} {snap : Snapshot}
    {t : ProgressTracker} {c' : Configured} (hu : r.incoming.underway = false)
    (hle : r.committed ≤ snap.metadata.index)
    (hc : c₀.after history snap.metadata.index = .ok c') (hsnap : snap.Carries c')
    (ht : ConfRestore.restore (ProgressTracker.init k) (snap.metadata.index + 1)
      snap.metadata.confState = .ok t) :
    ({ r with
      processor := { r.processor with tracker := t }
      committed := snap.metadata.index
      incoming := .accepted snap } : Replica σ).Inv c₀ intact history c m := by
  obtain ⟨hsound, hsets⟩ := restore_eq (hc₀.after hc) hsnap.conf ht
  obtain ⟨hinst, hidx⟩ := h.installed hu
  exact {
    h with
    sound := hsound
    committed := ⟨h.committed.1.trans hle, h.committed.2.trans hle⟩
    follows := ⟨⟨c', hc, hsnap, hsets⟩, hinst, hidx, h.committed.2.trans hle, h.committed.1.trans hle,
      le_rfl⟩ }

theorem persistSnapshot_ok {p p' : ReadyProcessor σ} {snap : Snapshot} {mem : Option ClusterMembership}
    {c' : Configured} (hsnap : snap.Carries c') (h : p.persistSnapshot snap = .ok (p', mem)) :
    mem = c'.membership ∧ (mem = none → p.clusterMembership = none) ∧
      ∃ s, WritableStorage.applySnapshot p.storage snap = .ok s ∧
        p' = ({ p with storage := s } : ReadyProcessor σ).sync := by
  have hdec := hsnap.membership
  unfold decodeSnapshotMembership at hdec
  unfold ReadyProcessor.persistSnapshot at h
  split at h
  · cases h
  · rename_i hguard
    obtain ⟨s, hs, h⟩ := bind_eq_ok.mp h
    dsimp only at h
    split at h
    · rename_i hnil
      cases h
      rw [if_pos hnil] at hdec
      refine ⟨Except.ok.inj hdec, fun _ => ?_, s, hs, rfl⟩
      by_contra hne
      exact hguard ⟨hnil, hne⟩
    · rename_i hnil
      rw [if_neg hnil] at hdec
      split at h
      · cases h
      · rename_i m hm
        rw [hm] at hdec
        dsimp only at hdec
        split at h
        · rename_i hv
          cases h
          split at hdec
          · cases hdec
          · exact ⟨Except.ok.inj hdec, nofun, s, hs, rfl⟩
        · cases h

theorem Inv.persist (h : r.Inv c₀ intact history c m) {snap : Snapshot} {p : ReadyProcessor σ}
    {mem : Option ClusterMembership} (hi : r.incoming = .accepted snap)
    (hp : r.processor.persistSnapshot snap = .ok (p, mem)) :
    ∃ c' m', m ≤ m' ∧ ({ r with
      processor := p
      incoming := .persisted snap mem
      reached := snap.metadata.index } : Replica σ).Inv c₀ intact history c' m' := by
  have hf := h.follows
  unfold Follows at hf
  rw [hi] at hf
  obtain ⟨⟨c', hc', hsnap, hsets⟩, hinst, hidx, happ, hm, hcom⟩ := hf
  obtain ⟨rfl, hnone, s, hs, rfl⟩ := persistSnapshot_ok hsnap hp
  obtain ⟨m', hm', hconf, hmem, hindex, hcommit, hsnapIdx⟩ := applySnapshot_ok hs
  rw [hsnap.membership] at hm'
  cases hm'
  have hstored : Stored c' (if c'.membership = none then 0 else snap.metadata.index) s :=
    ⟨hconf.trans hsnap.conf, hmem, hindex⟩
  have hmle : (if c'.membership = none then 0 else snap.metadata.index) ≤ snap.metadata.index := by
    split
    · exact Nat.zero_le _
    · exact le_rfl
  have hiff : c'.membership = none ↔ c.membership = none :=
    (Configured.after_membership hc').trans (Configured.after_membership h.configured).symm
  refine ⟨c', _, ?_, {
    sound := h.sound
    configured := hc'
    stored := hstored
    durable := hstored
    durable_snapIndex := rfl
    durable_commit := ⟨hmle.trans hcommit, hsnapIdx.le.trans hcommit⟩
    stored_commit := le_rfl
    committed := ⟨hmle.trans hcom, h.committed.2⟩
    reached := ⟨hmle, happ, hsnapIdx.le⟩
    plain := fun hn => if_pos hn
    fresh := fun hn i h1 h2 => ?_
    once := fun hn i h1 h2 => ?_
    intact := fun i h1 h2 => ?_
    follows := ⟨hsets, rfl, hsnapIdx, rfl, fun hne => if_neg hne,
      fun hn => ⟨?_, ?_, ?_, fun hne => absurd hn hne⟩, hcom⟩ }⟩
  · by_cases hn : c'.membership = none
    · rw [if_pos hn, h.plain (hiff.mp hn)]
    · rw [if_neg hn]
      exact hm
  · rw [if_neg hn] at h1
    have h2 : i ≤ snap.metadata.index := h2
    omega
  · have h1 : snapshotIndex s < i := lt_of_le_of_lt (le_max_right _ _) h1
    have h2 : i ≤ snap.metadata.index := h2
    omega
  · have h1 : snapshotIndex s < i := h1
    have h2 : i ≤ snap.metadata.index := h2
    omega
  · exact (hnone hn).trans hn.symm
  · have hzero := h.plain (hiff.mp hn)
    rw [if_pos hn]
    exact hinst.2.1.trans hzero.le
  · rw [if_pos hn]
    exact Nat.zero_le _

theorem Inv.install (h : r.Inv c₀ intact history c m) {snap : Snapshot}
    {mem : Option ClusterMembership} (hi : r.incoming = .persisted snap mem) :
    ({ r with
      processor := r.processor.installSnapshot snap mem
      incoming := .installed snap } : Replica σ).Inv c₀ intact history c m := by
  have hf := h.follows
  unfold Follows at hf
  rw [hi] at hf
  obtain ⟨hsets, hidx, hsnap, hmem, hsome, hnone, hcom⟩ := hf
  have hsync := h.sync
  cases mem with
  | none => exact { hsync with follows := ⟨hsets, hidx, hsnap, hnone rfl, hcom⟩ }
  | some m' =>
      have hm : m = r.reached := hsome nofun
      refine { hsync with follows := ⟨hsets, hidx, hsnap, ⟨hmem, ?_, ?_, fun _ i h1 h2 => ?_⟩, hcom⟩ }
      · exact (hidx.trans hm.symm).le
      · exact hm.le.trans (hidx.ge.trans (le_max_left _ _))
      · have h1 : snap.metadata.index < i := h1
        have h2 : i ≤ r.reached := h2
        omega

theorem Inv.restore (h : r.Inv c₀ intact history c m) {snap : Snapshot}
    (hi : r.incoming = .installed snap) :
    ({ r with
      processor := r.processor.restoreSnapshot snap
      incoming := .none } : Replica σ).Inv c₀ intact history c m := by
  have hf := h.follows
  unfold Follows at hf
  rw [hi] at hf
  obtain ⟨hsets, hidx, hsnap, hinst, hcom⟩ := hf
  exact {
    h with
    committed := ⟨h.committed.1, hcom⟩
    reached := ⟨h.reached.1, hidx.le, h.reached.2.2⟩
    once := fun hn i h1 h2 => by
      have h1 : snap.metadata.index < i := lt_of_le_of_lt (le_max_left _ _) h1
      have h2 : i ≤ r.reached := h2
      omega
    follows := ⟨hsets, hinst, hsnap.trans hidx.symm |>.le⟩ }

/-! ### Entries -/

theorem applyCommitted_ok {p p' : ReadyProcessor σ} {last : ℕ} {e : Entry}
    (h : p.applyCommitted intact last e = .ok p') :
    ∃ q, p.applyEntry intact last e = .ok q ∧ p' = { q with appliedIndex := e.index } := by
  unfold ReadyProcessor.applyCommitted at h
  obtain ⟨q, hq, h⟩ := bind_eq_ok.mp h
  cases h
  exact ⟨q, hq, rfl⟩

/-- What `applyEntry` does: nothing for entries of the application and for those it skips. -/
theorem applyEntry_cases {p q : ReadyProcessor σ} {last : ℕ} {e : Entry}
    (h : p.applyEntry intact last e = .ok q) : intact e = true ∧
      ((q = p ∧ (e.isConf = false ∨ (p.clusterMembership ≠ none ∧ e.index ≤ p.membershipIndex))) ∨
        (e.isConf = true ∧ ¬ (p.clusterMembership ≠ none ∧ e.index ≤ p.membershipIndex) ∧
          ∃ cc, decodeConfChangeV2 e.data = .ok cc ∧ p.applyConfEntry last e cc = .ok q)) := by
  unfold ReadyProcessor.applyEntry at h
  split at h
  · cases h
  · rename_i hi
    refine ⟨by simpa using hi, ?_⟩
    split at h
    · rename_i hn
      cases h
      exact Or.inl ⟨rfl, Or.inl hn⟩
    · rename_i hn
      split at h
      · rename_i hskip
        cases h
        exact Or.inl ⟨rfl, Or.inr hskip⟩
      · rename_i hskip
        split at h
        · cases h
        · rename_i cc hcc
          exact Or.inr ⟨by simpa using hn, hskip, cc, hcc, h⟩

/-- An entry that leaves the configuration alone moves the node forward. -/
theorem Inv.advance (h : r.Inv c₀ intact history c m) {i : ℕ} (hi : i = r.processor.appliedIndex + 1)
    (hintact : intact (history i) = true) (hcom : i ≤ r.committed)
    (hin : ∀ snap, r.incoming.snapshot = some snap → i ≤ snap.metadata.index)
    (hconf : r.reached < i → (history i).isConf = false) :
    ({ r with
      processor := { r.processor with appliedIndex := i }
      reached := max r.reached i } : Replica σ).Inv c₀ intact history c m := by
  have hreach := h.reached
  have hconfigured : c₀.after history (max r.reached i) = .ok c := by
    rw [← h.configured]
    refine Configured.after_eq_of_normal (le_max_left _ _) fun k h1 h2 => ?_
    have hk : k = i := by omega
    rw [hk]
    exact hconf (by omega)
  exact {
    sound := h.sound
    configured := hconfigured
    stored := h.stored
    durable := h.durable
    durable_snapIndex := h.durable_snapIndex
    durable_commit := h.durable_commit
    stored_commit := h.stored_commit
    committed := ⟨h.committed.1, hcom⟩
    reached := ⟨hreach.1.trans (le_max_left _ _), le_max_right _ _, hreach.2.2.trans (le_max_left _ _)⟩
    plain := h.plain
    fresh := fun hn k h1 h2 => by
      have h2 : k ≤ max r.reached i := h2
      by_cases hk : k ≤ r.reached
      · exact h.fresh hn k h1 hk
      · have hki : k = i := by omega
        rw [hki]
        exact hconf (by omega)
    once := fun hn k h1 h2 => by
      have h1 : max i r.snapIndex < k := h1
      have h2 : k ≤ max r.reached i := h2
      exact h.once hn k (by omega) (by omega)
    intact := fun k h1 h2 => by
      have h1 : r.snapIndex < k := h1
      have h2 : k ≤ max r.reached i := h2
      by_cases hk : k ≤ r.reached
      · exact h.intact k h1 hk
      · have hki : k = i := by omega
        rw [hki]
        exact hintact
    follows := by
      have hf := h.follows
      have hinst : r.Installed history c m → ({ r with
          processor := { r.processor with appliedIndex := i }
          reached := max r.reached i } : Replica σ).Installed history c m := by
        intro ⟨h1, h2, h3, h4⟩
        refine ⟨h1, h2, h3, fun hn k hk1 hk2 => ?_⟩
        have hk2 : k ≤ max r.reached i := hk2
        by_cases hk : k ≤ r.reached
        · exact h4 hn k hk1 hk
        · have hki : k = i := by omega
          rw [hki]
          exact hconf (by omega)
      unfold Follows at hf ⊢
      dsimp only
      cases hcase : r.incoming with
      | none =>
          rw [hcase] at hf hinst
          obtain ⟨h1, h2, h3⟩ := hf
          exact ⟨h1, hcase ▸ hinst h2, h3.trans (by omega)⟩
      | accepted snap =>
          rw [hcase] at hf
          obtain ⟨h1, h2, h3, h4, h5, h6⟩ := hf
          exact ⟨h1, hinst h2, h3.trans (by omega), hin snap (by rw [hcase]; rfl), h5, h6⟩
      | persisted snap mem =>
          rw [hcase] at hf
          obtain ⟨h1, h2, h3, h4, h5, h6, h7⟩ := hf
          have hle := hin snap (by rw [hcase]; rfl)
          have hmax : max r.reached i = r.reached := max_eq_left (hle.trans h2.le)
          rw [hmax]
          exact ⟨h1, h2, h3, h4, h5, h6, h7⟩
      | installed snap =>
          rw [hcase] at hf
          obtain ⟨h1, h2, h3, h4, h5⟩ := hf
          have hle := hin snap (by rw [hcase]; rfl)
          have hmax : max r.reached i = r.reached := max_eq_left (hle.trans h2.le)
          rw [hmax]
          exact ⟨h1, h2, h3, h4, h5⟩ }

/-- While it replays, a node skips the configuration entries. -/
theorem Inv.skips (h : r.Inv c₀ intact history c m) (hin : r.incoming = .none) {i : ℕ}
    (hi : r.processor.appliedIndex < i) (hle : i ≤ r.reached) :
    (history i).isConf = false ∨ (r.processor.clusterMembership ≠ none ∧ i ≤ r.processor.membershipIndex) := by
  obtain ⟨⟨hmem, -, -, hfresh⟩, hsnap⟩ := h.installed (by rw [hin]; rfl)
  by_cases hnone : c.membership = none
  · exact Or.inl (h.once hnone i (by omega) hle)
  · by_cases him : i ≤ r.processor.membershipIndex
    · exact Or.inr ⟨hmem ▸ hnone, him⟩
    · exact Or.inl (hfresh hnone i (by omega) hle)

theorem Inv.apply (h : r.Inv c₀ intact history c m) (hhist : ∀ i, (history i).index = i) {last : ℕ}
    {p : ReadyProcessor σ} (hc : r.processor.appliedIndex < r.committed)
    (hlast : r.processor.appliedIndex < last)
    (hs : r.processor.appliedIndex < (state r.processor.storage).hardState.commit)
    (hi : ∀ snap, r.incoming.snapshot = some snap →
      (history (r.processor.appliedIndex + 1)).isConf = false ∧
        r.processor.appliedIndex < snap.metadata.index)
    (hp : r.processor.applyCommitted intact last (history (r.processor.appliedIndex + 1)) = .ok p) :
    ∃ c' m', m ≤ m' ∧ ({ r with
      processor := p
      reached := max r.reached p.appliedIndex } : Replica σ).Inv c₀ intact history c' m' := by
  obtain ⟨q, hq, rfl⟩ := applyCommitted_ok hp
  obtain ⟨hintact, hcase⟩ := applyEntry_cases hq
  rw [hhist] at hcase ⊢
  -- a configuration entry is applied only while no snapshot is on its way
  have hnone : (history (r.processor.appliedIndex + 1)).isConf = true → r.incoming = .none := by
    intro hconf
    cases hin : r.incoming with
    | none => rfl
    | accepted snap =>
        have := (hi snap (by rw [hin]; rfl)).1
        rw [hconf] at this
        cases this
    | persisted snap mem =>
        have := (hi snap (by rw [hin]; rfl)).1
        rw [hconf] at this
        cases this
    | installed snap =>
        have := (hi snap (by rw [hin]; rfl)).1
        rw [hconf] at this
        cases this
  rcases hcase with ⟨rfl, hquiet⟩ | ⟨hconf, hskip, cc, hcc, hentry⟩
  · refine ⟨c, m, le_rfl, h.advance rfl hintact hc (fun snap hsnap => (hi snap hsnap).2) fun hlt => ?_⟩
    rcases hquiet with hn | ⟨-, hle⟩
    · exact hn
    · by_contra hconf
      have hin := hnone (by simpa using hconf)
      obtain ⟨⟨-, hidx, -⟩, -⟩ := h.installed (by rw [hin]; rfl)
      have := h.reached.1
      omega
  · have hin := hnone hconf
    have hf := h.follows
    unfold Follows at hf
    rw [hin] at hf
    obtain ⟨hsets, ⟨hmem, hidx, hidx', -⟩, hsnap⟩ := hf
    -- the entry is new
    have hnew : r.reached = r.processor.appliedIndex := by
      have h1 := h.reached.2.1
      by_contra hne
      rcases h.skips hin (Nat.lt_succ_self _) (by omega) with hn | hsk
      · rw [hconf] at hn
        cases hn
      · exact hskip hsk
    obtain ⟨c', hc', hsound, hsets', hdur, hsnap', hhard, hmode⟩ := ReadyProcessor.applyConfEntry_ok
      h.sound (by omega) hsets h.stored hmem hconf hcc hentry
    have hmax : max r.reached (r.processor.appliedIndex + 1) = r.reached + 1 := by omega
    have hconfigured : c₀.after history (r.reached + 1) = .ok c' := by
      rw [Configured.after, h.configured, hnew]
      exact hc'
    have hsnapIdx : snapshotIndex q.storage = r.snapIndex := hsnap'
    have hcommit : (state q.storage).hardState.commit = (state r.processor.storage).hardState.commit := by
      rw [hhard]
    have hbounds := h.reached
    have hdcommit := h.durable_commit
    have hscommit := h.stored_commit
    have hintact' : ∀ k, snapshotIndex q.storage < k → k ≤ r.reached + 1 →
        intact (history k) = true := by
      intro k h1 h2
      by_cases hk : k ≤ r.reached
      · exact h.intact k (by rw [← hsnapIdx]; exact h1) hk
      · have hk : k = r.processor.appliedIndex + 1 := by omega
        rw [hk]
        exact hintact
    -- only the clauses about the membership depend on whether there is one
    have hinv : ∀ m', Stored c' m' q.storage → m' ≤ r.processor.appliedIndex + 1 →
        (c'.membership = none → m' = 0) →
        (c'.membership ≠ none → r.processor.appliedIndex + 1 ≤ m') →
        ({ r with
          processor := { q with appliedIndex := r.processor.appliedIndex + 1 }
          reached := r.reached + 1 } : Replica σ).Installed history c' m' →
        ({ r with
          processor := { q with appliedIndex := r.processor.appliedIndex + 1 }
          reached := r.reached + 1 } : Replica σ).Inv c₀ intact history c' m' := by
      intro m' hstored hm hplain hfresh hinstalled
      exact {
        sound := hsound
        configured := hconfigured
        stored := hstored
        durable := by
          show Stored c' m' q.durable
          rw [hdur]
          exact hstored
        durable_snapIndex := by
          show snapshotIndex q.durable = snapshotIndex q.storage
          rw [hdur]
        durable_commit := by
          show m' ≤ (state q.durable).hardState.commit ∧
            snapshotIndex q.storage ≤ (state q.durable).hardState.commit
          rw [hdur, hcommit, hsnapIdx]
          omega
        stored_commit := by
          show (state q.durable).hardState.commit ≤ (state q.storage).hardState.commit
          rw [hdur]
        committed := ⟨hm.trans hc, hc⟩
        reached := by
          show m' ≤ r.reached + 1 ∧ r.processor.appliedIndex + 1 ≤ r.reached + 1 ∧
            snapshotIndex q.storage ≤ r.reached + 1
          rw [hsnapIdx]
          omega
        plain := hplain
        fresh := fun hn k h1 h2 => by
          have hle := hfresh hn
          have h2 : k ≤ r.reached + 1 := h2
          omega
        once := fun _ k h1 h2 => by
          have h1 : max (r.processor.appliedIndex + 1) (snapshotIndex q.storage) < k := h1
          have h2 : k ≤ r.reached + 1 := h2
          omega
        intact := hintact'
        follows := by
          show Follows c₀ history c' m' { r with processor := _, reached := _ }
          unfold Follows
          dsimp only
          rw [hin]
          refine ⟨hsets', hinstalled, ?_⟩
          show snapshotIndex q.storage ≤ r.processor.appliedIndex + 1
          rw [hsnapIdx]
          omega }
    rcases hmode with ⟨hcn, hcn', hstored, hqm, hqi⟩ | ⟨hcs, hcs', hstored, hqm, hqi⟩
    · have hzero := h.plain hcn
      refine ⟨c', m, le_rfl, ?_⟩
      dsimp only
      rw [hmax]
      refine hinv m hstored (by omega) (fun _ => hzero) (fun hn => absurd hcn' hn)
        ⟨hqm.trans hcn'.symm, hqi.le.trans hidx, ?_, fun hn => absurd hcn' hn⟩
      rw [hzero]
      exact Nat.zero_le _
    · rw [hhist] at hstored hqi
      refine ⟨c', r.processor.appliedIndex + 1, by omega, ?_⟩
      dsimp only
      rw [hmax]
      refine hinv _ hstored le_rfl (fun hn => absurd hn hcs') (fun _ => le_rfl)
        ⟨hqm, hqi.le, hqi.ge.trans (le_max_left _ _), fun _ k h1 h2 => ?_⟩
      have h1 : q.membershipIndex < k := h1
      have h2 : k ≤ r.reached + 1 := h2
      omega

/-! ### Own snapshots -/

/-- May a snapshot be taken here?  The node has caught up with the membership it holds, and no
received snapshot lies in the storage that the state machine has not got. -/
def Settled (r : Replica σ) : Prop :=
  r.incoming.underway = false ∧
    (r.processor.clusterMembership ≠ none → r.processor.membershipIndex ≤ r.processor.appliedIndex)

instance (r : Replica σ) : Decidable r.Settled := by
  unfold Settled
  infer_instance

/-- A settled node has the configuration of its applied index. -/
theorem Inv.after_applied (h : r.Inv c₀ intact history c m) (hs : r.Settled) :
    c₀.after history r.processor.appliedIndex = .ok c := by
  obtain ⟨⟨hmem, -, -, hfresh⟩, hsnap⟩ := h.installed hs.1
  rw [← h.configured]
  refine (Configured.after_eq_of_normal h.reached.2.1 fun k h1 h2 => ?_).symm
  by_cases hnone : c.membership = none
  · exact h.once hnone k (by omega) h2
  · have hle := hs.2 (hmem ▸ hnone)
    exact hfresh hnone k (by omega) h2

/-- The snapshot that a settled node gives to its storage. -/
theorem Inv.makeSnapshot (h : r.Inv c₀ intact history c m) (hc₀ : c₀.Valid) (hs : r.Settled)
    {data : Bytes} {snap : Snapshot} (hsnap : r.processor.makeSnapshot data = .ok snap) :
    snap.metadata.index = r.processor.appliedIndex ∧ snap.metadata.confState = c.sets.toConfState ∧
      (match c.membership with
        | none => snap.membership = []
        | some mem => mem.encode = .ok snap.membership) ∧
      ∀ mem, decodeSnapshotMembership snap = .ok mem → mem = c.membership := by
  obtain ⟨⟨hmem, -⟩, -⟩ := h.installed hs.1
  unfold ReadyProcessor.makeSnapshot at hsnap
  obtain ⟨rs, hrs, hsnap⟩ := bind_eq_ok.mp hsnap
  obtain ⟨bytes, hbytes, hsnap⟩ := bind_eq_ok.mp hsnap
  cases hsnap
  unfold ReadyProcessor.encodedMembership at hbytes
  have hrs : rs = state r.processor.storage :=
    (Except.ok.inj ((initialState_eq r.processor.storage).symm.trans hrs)).symm
  refine ⟨rfl, ?_, ?_⟩
  · show rs.confState = _
    rw [hrs]
    exact h.stored.conf
  · cases hcm : c.membership with
    | none =>
        rw [hmem, hcm] at hbytes
        cases hbytes
        refine ⟨rfl, fun mem hdec => ?_⟩
        unfold decodeSnapshotMembership at hdec
        rw [if_pos rfl] at hdec
        exact (Except.ok.inj hdec).symm
    | some mem =>
        rw [hmem, hcm] at hbytes
        dsimp only at hbytes
        cases henc : mem.encode with
        | error e =>
            rw [henc] at hbytes
            cases hbytes
        | ok out =>
            rw [henc] at hbytes
            cases hbytes
            refine ⟨henc, fun mem' hdec => ?_⟩
            have hbounded := (hc₀.after h.configured).membership mem hcm
            have hdecode := ClusterMembership.decode_encode hbounded henc
            unfold decodeSnapshotMembership at hdec
            dsimp only at hdec
            split at hdec
            · rename_i hnil
              rw [hnil] at hdecode
              cases hdecode
            · rw [hdecode] at hdec
              dsimp only at hdec
              split at hdec
              · cases hdec
              · exact (Except.ok.inj hdec).symm

theorem Inv.takeSnapshot (h : r.Inv c₀ intact history c m) (hc₀ : c₀.Valid) (hs : r.Settled)
    {data : Bytes} {p : ReadyProcessor σ} (hp : r.processor.takeSnapshotImpl data = .ok p) :
    ∃ m', m ≤ m' ∧ ({ r with processor := p } : Replica σ).Inv c₀ intact history c m' := by
  unfold ReadyProcessor.takeSnapshotImpl at hp
  split at hp
  · cases hp
    exact ⟨m, le_rfl, h⟩
  · obtain ⟨snap, hsnap, hp⟩ := bind_eq_ok.mp hp
    obtain ⟨s, hlocal, hp⟩ := bind_eq_ok.mp hp
    cases hp
    obtain ⟨⟨hmem, hidx, hidx', hfresh⟩, hle⟩ := h.installed hs.1
    obtain ⟨hindex, hconf, -, hdec⟩ := h.makeSnapshot hc₀ hs hsnap
    obtain ⟨mem, hmem', hconf', hcm, hmi, hcommit, hsnapIdx⟩ := applyLocalSnapshot_ok hlocal
    have hmem'' := hdec mem hmem'
    subst hmem''
    rw [hindex] at hmi hcommit hsnapIdx
    have hbounds := h.reached
    have hcommitted := h.committed
    have hstored : Stored c (if c.membership = none then 0 else r.processor.appliedIndex) s :=
      ⟨hconf'.trans hconf, hcm, hmi⟩
    have hmono : m ≤ if c.membership = none then 0 else r.processor.appliedIndex := by
      split
      · rename_i hn
        exact (h.plain hn).le
      · rename_i hn
        have hlt := hs.2 (hmem ▸ hn)
        omega
    have hupper : (if c.membership = none then 0 else r.processor.appliedIndex) ≤
        r.processor.appliedIndex := by
      split
      · exact Nat.zero_le _
      · exact le_rfl
    have hnew : r.processor.appliedIndex ≤ (state s).hardState.commit := by
      rw [hcommit]
      exact le_max_right _ _
    -- the configuration entries that are left to be applied are all new
    have hnext : ∀ k, r.processor.appliedIndex < k → k ≤ r.reached → (history k).isConf = false := by
      intro k h1 h2
      by_cases hnone : c.membership = none
      · exact h.once hnone k (by omega) h2
      · have hlt := hs.2 (hmem ▸ hnone)
        exact hfresh hnone k (by omega) h2
    refine ⟨_, hmono, {
      sound := h.sound
      configured := h.configured
      stored := hstored
      durable := hstored
      durable_snapIndex := rfl
      durable_commit := ⟨hupper.trans hnew, hsnapIdx.le.trans hnew⟩
      stored_commit := le_rfl
      committed := ⟨hupper.trans hcommitted.2, hcommitted.2⟩
      reached := ⟨hupper.trans hbounds.2.1, hbounds.2.1, hsnapIdx.le.trans hbounds.2.1⟩
      plain := fun hn => if_pos hn
      fresh := fun hn k h1 h2 => ?_
      once := fun hn k h1 h2 => ?_
      intact := fun k h1 h2 => ?_
      follows := ?_ }⟩
    · rw [if_neg hn] at h1
      exact hnext k h1 h2
    · have h1 : max r.processor.appliedIndex (snapshotIndex s) < k := h1
      exact hnext k (by omega) h2
    · have h1 : snapshotIndex s < k := h1
      exact h.intact k (by omega) h2
    · have hf := h.follows
      have hinst : ({ r with processor := { r.processor with storage := s }.sync } : Replica σ).Installed
          history c (if c.membership = none then 0 else r.processor.appliedIndex) := by
        refine ⟨hmem, hidx.trans hmono, ?_, hfresh⟩
        exact hupper.trans (hsnapIdx.ge.trans (le_max_right _ _))
      unfold Follows at hf ⊢
      dsimp only
      cases hcase : r.incoming with
      | none =>
          rw [hcase] at hf hinst
          exact ⟨hf.1, hinst, hsnapIdx.le⟩
      | accepted snap' =>
          rw [hcase] at hf hinst
          obtain ⟨h1, -, -, h4, -, h6⟩ := hf
          exact ⟨h1, hinst, hsnapIdx.le, h4, hupper.trans h4, h6⟩
      | persisted snap' mem' =>
          have hu := hs.1
          rw [hcase] at hu
          cases hu
      | installed snap' =>
          have hu := hs.1
          rw [hcase] at hu
          cases hu

end Replica

end Raftz
