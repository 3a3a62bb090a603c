import Raftz.Storage

/-! # Snapshots that a memory storage hands out

`MemoryStorage.getSnapshot` puts a snapshot together from the commit index, the
term of the entry there, the data of the last snapshot and the current
configuration.  `track` keeps the list of the snapshots that have been
installed along any sequence of operations.  What is handed out is one of them
exactly when the commit index is still that of the last snapshot, no later index
is asked for and the configuration has not changed since
(`getSnapshot_installed_iff`). -/

open Base

namespace Raftz

namespace MemoryStorage

/-- The operations of the storage. -/
inductive Update
  | append (es : List Entry)
  | setHardState (hs : HardState)
  | setConfState (cs : ConfState)
  | setMembershipState (cs : ConfState) (m : ClusterMembership) (membershipIndex : ℕ)
  | applySnapshot (snap : Snapshot)
  | applyLocalSnapshot (snap : Snapshot)
  | compact (index : ℕ)

/-- Carry out an operation. -/
def update (s : MemoryStorage) : Update → Except Err MemoryStorage
  | .append es => s.mayAppend es
  | .setHardState hs => WritableStorage.setHardState s hs
  | .setConfState cs => WritableStorage.setConfState s cs
  | .setMembershipState cs m i => s.setMembershipState cs m i
  | .applySnapshot snap => s.applySnapshot snap
  | .applyLocalSnapshot snap => s.applyLocalSnapshot snap
  | .compact i => s.compact i

/-- The snapshot that an operation installs. -/
def Update.snapshot : Update → List Snapshot
  | .applySnapshot snap => [snap]
  | .applyLocalSnapshot snap => [snap]
  | _ => []

/-- The storage and the snapshots installed so far, after an operation; one that fails changes
nothing. -/
def track (st : MemoryStorage × List Snapshot) (x : Update) : MemoryStorage × List Snapshot :=
  match st.1.update x with
  | .ok s => (s, st.2 ++ x.snapshot)
  | .error _ => st

/-- The storage and the installed snapshots after a sequence of operations. -/
def trackAll (xs : List Update) : MemoryStorage × List Snapshot := xs.foldl track ({}, [])

/-- Batches are runs of consecutive entries, as every caller passes them. -/
def Update.WellFormed : Update → Prop
  | .append es => ∀ e ∈ es.head?, Log.Consecutive e.index es
  | _ => True

/-! ### The last snapshot is the highest -/

variable {s s' : MemoryStorage}

/-- The entries follow one another above the last snapshot. -/
structure Above (s : MemoryStorage) : Prop where
  consecutive : Log.Consecutive s.firstIndex s.entries
  first : s.snapshotData.metadata.index < s.firstIndex

/-- A storage whose entries start at `b`, above its snapshot. -/
theorem above_of_consecutive {b : ℕ} (h : Log.Consecutive b s.entries)
    (hb : s.snapshotData.metadata.index < b) : s.Above := by
  cases hes : s.entries with
  | nil =>
      refine ⟨?_, ?_⟩
      · rw [hes]
        trivial
      · unfold firstIndex
        rw [hes]
        exact Nat.lt_succ_self _
  | cons e es =>
      have hfirst : s.firstIndex = b := by
        unfold firstIndex
        rw [hes]
        rw [hes] at h
        exact h.1
      refine ⟨?_, ?_⟩
      · rw [hfirst]
        exact h
      · rw [hfirst]
        exact hb

theorem Above.lastIndex_eq (h : s.Above) : s.lastIndex + 1 = s.firstIndex + s.entries.length := by
  unfold lastIndex
  cases hlast : s.entries.getLast? with
  | none =>
      have hnil : s.entries = [] := List.getLast?_eq_none_iff.mp hlast
      unfold firstIndex
      rw [hnil]
      rfl
  | some e =>
      rw [List.getLast?_eq_getElem?, List.getElem?_eq_some_iff] at hlast
      obtain ⟨hk, rfl⟩ := hlast
      have hidx : s.entries[s.entries.length - 1].index = s.firstIndex + (s.entries.length - 1) :=
        Log.consecutive_iff.mp h.consecutive _ hk
      show s.entries[s.entries.length - 1].index + 1 = _
      rw [hidx]
      omega

theorem Above.mayAppend (h : s.Above) {es : List Entry} (hes : ∀ e ∈ es.head?, Log.Consecutive e.index es)
    (hs : s.mayAppend es = .ok s') : s'.Above ∧ s'.snapshotData = s.snapshotData := by
  cases es with
  | nil =>
      cases hs
      exact ⟨h, rfl⟩
  | cons e es =>
      unfold MemoryStorage.mayAppend at hs
      dsimp only at hs
      split at hs
      · cases hs
      · split at hs
        · cases hs
        · rename_i hlow hhigh
          cases hs
          refine ⟨above_of_consecutive (b := s.firstIndex) ?_ h.first, rfl⟩
          refine (h.consecutive.take _).append ?_
          have hlen : (s.entries.take (e.index - s.firstIndex)).length = e.index - s.firstIndex := by
            have := h.lastIndex_eq
            rw [List.length_take]
            omega
          rw [hlen, show s.firstIndex + (e.index - s.firstIndex) = e.index by omega]
          exact hes e rfl

theorem Above.compact (h : s.Above) {i : ℕ} (hs : s.compact i = .ok s') :
    s'.Above ∧ s'.snapshotData = s.snapshotData ∧ s'.raftState = s.raftState ∧
      ∃ b, max s.firstIndex i ≤ b ∧ Log.Consecutive b s'.entries := by
  unfold MemoryStorage.compact at hs
  split at hs
  · rename_i hle
    cases hs
    exact ⟨h, rfl, rfl, s.firstIndex, by omega, h.consecutive⟩
  · rename_i hlt
    split at hs
    · cases hs
    · cases hs
      have hdrop := h.consecutive.drop (i - s.firstIndex)
      have hb : s.firstIndex + (i - s.firstIndex) = i := by omega
      rw [hb] at hdrop
      have hfirst := h.first
      refine ⟨above_of_consecutive hdrop ?_, rfl, rfl, i, by omega, hdrop⟩
      show s.snapshotData.metadata.index < i
      omega

/-- Everything that is known of a storage and the snapshots installed in it: the indexes of these
increase from 1 on, and the storage holds the last one. -/
structure Tracked (s : MemoryStorage) (installed : List Snapshot) : Prop where
  above : s.Above
  increasing : installed.Pairwise fun a b => a.metadata.index < b.metadata.index
  positive : ∀ t ∈ installed, 0 < t.metadata.index
  last : s.snapshotData = installed.getLast?.getD {}

theorem Tracked.le_last {installed : List Snapshot} (h : Tracked s installed) {t : Snapshot}
    (ht : t ∈ installed) : t = s.snapshotData ∨ t.metadata.index < s.snapshotData.metadata.index := by
  obtain ⟨front, l, rfl⟩ : ∃ front l, installed = front ++ [l] :=
    (List.eq_nil_or_concat' installed).resolve_left (List.ne_nil_of_mem ht)
  have hlast : s.snapshotData = l := by
    rw [h.last]
    simp
  rw [hlast]
  rcases List.mem_append.mp ht with hfront | hl
  · exact Or.inr ((List.pairwise_append.mp h.increasing).2.2 t hfront l (List.mem_singleton_self l))
  · exact Or.inl (List.mem_singleton.mp hl)

/-- A snapshot that is installed above the entries in front of it. -/
theorem Tracked.install {installed : List Snapshot} (h : Tracked s installed) {snap : Snapshot}
    (habove : s'.Above) (hsnap : s'.snapshotData = snap) (hfirst : s.firstIndex ≤ snap.metadata.index) :
    Tracked s' (installed ++ [snap]) where
  above := habove
  increasing := by
    refine List.pairwise_append.mpr ⟨h.increasing, List.pairwise_singleton _ _, ?_⟩
    intro t ht u hu
    rw [List.mem_singleton.mp hu]
    have hlt := h.above.first
    rcases h.le_last ht with rfl | hlt'
    · omega
    · omega
  positive := by
    intro t ht
    rcases List.mem_append.mp ht with ht | ht
    · exact h.positive t ht
    · rw [List.mem_singleton.mp ht]
      have := h.above.first
      omega
  last := by
    rw [hsnap]
    simp

theorem Tracked.keep {installed : List Snapshot} (h : Tracked s installed) (habove : s'.Above)
    (hsnap : s'.snapshotData = s.snapshotData) : Tracked s' (installed ++ []) := by
  rw [List.append_nil]
  exact ⟨habove, h.increasing, h.positive, hsnap.trans h.last⟩

theorem Tracked.update {installed : List Snapshot} (h : Tracked s installed) {x : Update}
    (hx : x.WellFormed) (hs : s.update x = .ok s') : Tracked s' (installed ++ x.snapshot) := by
  cases x with
  | append es =>
      obtain ⟨habove, hsnap⟩ := h.above.mayAppend hx hs
      exact h.keep habove hsnap
  | setHardState hs' =>
      cases hs
      exact h.keep ⟨h.above.consecutive, h.above.first⟩ rfl
  | setConfState cs =>
      cases hs
      exact h.keep ⟨h.above.consecutive, h.above.first⟩ rfl
  | setMembershipState cs m i =>
      have hs : s.setMembershipState cs m i = .ok s' := hs
      unfold setMembershipState at hs
      obtain ⟨_, _, hs⟩ := bind_eq_ok.mp hs
      cases hs
      exact h.keep ⟨h.above.consecutive, h.above.first⟩ rfl
  | applySnapshot snap =>
      have hs : s.applySnapshot snap = .ok s' := hs
      unfold applySnapshot at hs
      obtain ⟨_, hfirst, hs⟩ := bind_eq_ok.mp hs
      obtain ⟨m, _, hs⟩ := bind_eq_ok.mp hs
      cases hs
      refine h.install ?_ rfl (ensure_eq_ok.mp hfirst)
      exact above_of_consecutive (b := snap.metadata.index + 1) trivial (Nat.lt_succ_self _)
  | applyLocalSnapshot snap =>
      have hs : s.applyLocalSnapshot snap = .ok s' := hs
      unfold applyLocalSnapshot at hs
      obtain ⟨_, hfirst, hs⟩ := bind_eq_ok.mp hs
      obtain ⟨m, _, hs⟩ := bind_eq_ok.mp hs
      obtain ⟨u, hu, hs⟩ := bind_eq_ok.mp hs
      cases hs
      obtain ⟨-, -, -, b, hb, hcons⟩ := h.above.compact hu
      refine h.install ?_ rfl (ensure_eq_ok.mp hfirst)
      refine above_of_consecutive (b := b) hcons ?_
      show snap.metadata.index < b
      omega
  | compact i =>
      obtain ⟨habove, hsnap, -, -⟩ := h.above.compact hs
      exact h.keep habove hsnap

theorem Tracked.track {st : MemoryStorage × List Snapshot} (h : Tracked st.1 st.2) {x : Update}
    (hx : x.WellFormed) : Tracked (track st x).1 (track st x).2 := by
  unfold MemoryStorage.track
  cases hs : st.1.update x with
  | ok s' => exact h.update hx hs
  | error e => exact h

/-- Along every sequence of operations the storage holds the last snapshot that was installed. -/
theorem tracked_trackAll {xs : List Update} (hxs : ∀ x ∈ xs, x.WellFormed) :
    Tracked (trackAll xs).1 (trackAll xs).2 := by
  induction xs using List.reverseRecOn with
  | nil =>
      refine ⟨above_of_consecutive (b := 1) trivial Nat.one_pos, List.Pairwise.nil, ?_, rfl⟩
      intro t ht
      cases ht
  | append_singleton xs x ih =>
      have ih := ih fun y hy => hxs y (List.mem_append_left _ hy)
      have hx := hxs x (List.mem_append_right _ (List.mem_singleton_self x))
      unfold trackAll
      rw [List.foldl_append, List.foldl_cons, List.foldl_nil]
      exact ih.track hx

/-! ### What is handed out -/

/-- The state of a state machine after the entries `i + 1, …, i + n`. -/
def catchUp {S : Type} (apply : S → Entry → S) (history : ℕ → Entry) (x : S) (i n : ℕ) : S :=
  (List.range n).foldl (fun x k => apply x (history (i + k + 1))) x

theorem catchUp_catchUp {S : Type} (apply : S → Entry → S) (history : ℕ → Entry) (x : S) (i n : ℕ) :
    catchUp apply history (catchUp apply history x 0 i) i n = catchUp apply history x 0 (i + n) := by
  induction n with
  | zero => rfl
  | succ n ih =>
      unfold catchUp at ih ⊢
      rw [← Nat.add_assoc, List.range_succ, List.foldl_append, ih, List.range_succ, List.foldl_append]
      simp

/-- Whatever the state machine is: if the installed snapshots hold its state at their index, then a
follower that restores the snapshot and applies the following entries has the state of the leader. -/
def Reproduces (installed : List Snapshot) (snap : Snapshot) : Prop :=
  ∀ (S : Type) (apply : S → Entry → S) (initial : S) (restore : Bytes → S) (history : ℕ → Entry),
    (∀ t ∈ installed, restore t.data = catchUp apply history initial 0 t.metadata.index) →
    ∀ n, catchUp apply history (restore snap.data) snap.metadata.index n =
      catchUp apply history initial 0 (snap.metadata.index + n)

/-- The commit index is that of the last snapshot, nothing later is asked for, and the configuration
is still that of the snapshot. -/
def Current (s : MemoryStorage) (request : ℕ) : Prop :=
  0 < s.snapshotData.metadata.index ∧ s.raftState.hardState.commit = s.snapshotData.metadata.index ∧
    request ≤ s.snapshotData.metadata.index ∧ s.raftState.confState = s.snapshotData.metadata.confState

theorem snapshot_cases {snap : Snapshot} (h : s.snapshot = .ok snap) :
    snap.metadata.index = s.raftState.hardState.commit ∧
      s.snapshotData.metadata.index ≤ s.raftState.hardState.commit ∧
      snap.metadata.confState = s.raftState.confState ∧
      (s.raftState.hardState.commit = s.snapshotData.metadata.index →
        snap = { s.snapshotData with
          metadata := { s.snapshotData.metadata with confState := s.raftState.confState } }) := by
  unfold snapshot at h
  dsimp only at h
  split at h
  · cases h
  · rename_i hle
    split at h
    · rename_i heq
      cases h
      refine ⟨rfl, by omega, rfl, fun _ => ?_⟩
      rw [heq]
    · rename_i hne
      split at h
      · cases h
      · split at h
        · cases h
        · cases h
          exact ⟨rfl, by omega, rfl, fun heq => absurd heq hne⟩

theorem getSnapshot_cases {request dest : ℕ} {snap : Snapshot} (h : s.getSnapshot request dest = .ok snap) :
    s.snapshotData.metadata.index ≤ s.raftState.hardState.commit ∧
      s.raftState.hardState.commit ≤ snap.metadata.index ∧ request ≤ snap.metadata.index ∧
      snap.metadata.confState = s.raftState.confState ∧
      (s.raftState.hardState.commit = s.snapshotData.metadata.index →
        request ≤ s.snapshotData.metadata.index →
        snap = { s.snapshotData with
          metadata := { s.snapshotData.metadata with confState := s.raftState.confState } }) := by
  unfold getSnapshot at h
  split at h
  · cases h
  · split at h
    · cases h
    · rename_i sn hsn
      obtain ⟨hindex, hle, hconf, heq⟩ := snapshot_cases hsn
      split at h
      · rename_i hlt
        cases h
        exact ⟨hle, by dsimp only; omega, le_rfl, hconf, fun h1 h2 => by omega⟩
      · cases h
        exact ⟨hle, hindex.ge, by omega, hconf, fun h1 _ => heq h1⟩

/-- **When a real snapshot is handed out.**  What `getSnapshot` returns is a snapshot that was
installed, with which a follower reproduces the state of the leader, exactly when the last snapshot
is current. -/
theorem getSnapshot_installed_iff {xs : List Update} (hxs : ∀ x ∈ xs, x.WellFormed) {request dest : ℕ}
    {snap : Snapshot} (h : (trackAll xs).1.getSnapshot request dest = .ok snap) :
    (snap ∈ (trackAll xs).2 ∧ Reproduces (trackAll xs).2 snap) ↔ Current (trackAll xs).1 request := by
  have ht := tracked_trackAll hxs
  obtain ⟨hle, hcommit, hrequest, hconf, heq⟩ := getSnapshot_cases h
  constructor
  · rintro ⟨hmem, -⟩
    have hpos := ht.positive snap hmem
    -- its index is at least that of the last snapshot, so it is the last snapshot
    rcases ht.le_last hmem with hlast | hlt
    · rw [hlast] at hcommit hrequest hconf hpos
      exact ⟨hpos, by omega, hrequest, hconf.symm⟩
    · omega
  · rintro ⟨hpos, hcur, hreq, hcs⟩
    have hsnap : snap = (trackAll xs).1.snapshotData := by
      rw [heq hcur hreq, hcs]
    have hmem : snap ∈ (trackAll xs).2 := by
      rw [hsnap, ht.last]
      cases hlast : (trackAll xs).2.getLast? with
      | none =>
          rw [ht.last, hlast] at hpos
          exact absurd hpos (lt_irrefl 0)
      | some t => exact List.mem_of_getLast? hlast
    refine ⟨hmem, fun S apply initial restore history hfaithful n => ?_⟩
    rw [hfaithful snap hmem, catchUp_catchUp]

/-- Two entries and a snapshot of both. -/
def compacted : List Update :=
  [.append [{ index := 1, term := 1 }, { index := 2, term := 1 }],
    .setHardState { term := 1, commit := 2 }, .setConfState { voters := [1] },
    .applyLocalSnapshot { data := [7], metadata := ⟨2, 1, { voters := [1] }⟩ }]

theorem compacted_wellFormed : ∀ x ∈ compacted, x.WellFormed := by
  intro x hx
  simp only [compacted, List.mem_cons, List.not_mem_nil, or_false] at hx
  rcases hx with rfl | rfl | rfl | rfl
  · intro e he
    cases he
    exact ⟨rfl, rfl, trivial⟩
  · trivial
  · trivial
  · trivial

/-- The snapshot is handed out as it was installed. -/
theorem getSnapshot_compacted : ∃ snap, (trackAll compacted).1.getSnapshot 0 2 = .ok snap ∧
    snap ∈ (trackAll compacted).2 ∧ snap.data = [7] := by
  have hget : (trackAll compacted).1.getSnapshot 0 2 =
      .ok { data := [7], metadata := ⟨2, 1, { voters := [1] }⟩ } := by decide +kernel
  have hcurrent : Current (trackAll compacted).1 0 :=
    ⟨by decide +kernel, by decide +kernel, by decide +kernel, by decide +kernel⟩
  exact ⟨_, hget, ((getSnapshot_installed_iff compacted_wellFormed hget).mpr hcurrent).1, rfl⟩

/-- One committed entry and no snapshot: one is handed out all the same, without data. -/
theorem getSnapshot_made_up : ∃ snap, (trackAll [.append [{ index := 1, term := 1 }],
    .setHardState { term := 1, commit := 1 }]).1.getSnapshot 0 2 = .ok snap ∧
      snap ∉ (trackAll [.append [{ index := 1, term := 1 }], .setHardState { term := 1, commit := 1 }]).2 ∧
      snap.metadata.index = 1 ∧ snap.data = [] :=
  ⟨{ metadata := ⟨1, 1, {}⟩ }, by decide +kernel, by decide +kernel, rfl, rfl⟩

end MemoryStorage

end Raftz
