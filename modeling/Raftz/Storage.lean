import Raftz.Log
import Raftz.Membership

/-! # Storage

The storage interface of `storage.zig` as two classes, the reads the consensus
core performs and the writes of the layer above it, and what a back end has to
guarantee (`LawfulStorage`): the log, the hard state and the configuration it
holds (`view`), and how every operation reads and changes them.  Reads of
entries and snapshots may fail at any time; the positions and terms of the log
are always known.  A snapshot is at a committed position of the stored log as
long as none beyond the commit index is asked for.

`MemoryStorage` of `memory_storage.zig` follows, with the proof that it is
lawful. -/

open Base

namespace Raftz

/-- Persisted state supplied to a freshly started node. -/
structure RaftState where
  hardState : HardState := {}
  confState : ConfState := {}
  clusterMembership : Option ClusterMembership := none
  /-- Index of the entry the membership is that of. -/
  membershipIndex : ℕ := 0
  deriving DecidableEq, Repr, Inhabited

/-- Read access to a storage. -/
class Storage (σ : Type) where
  initialState : σ → Except Err RaftState
  entries : σ → ℕ → ℕ → Option ℕ → GetEntriesContext → Except Err (List Entry)
  term : σ → ℕ → Except Err ℕ
  firstIndex : σ → Except Err ℕ
  lastIndex : σ → Except Err ℕ
  getSnapshot : σ → ℕ → ℕ → Except Err Snapshot

/-- Read and write access to a storage. -/
class WritableStorage (σ : Type) extends Storage σ where
  append : σ → List Entry → Except Err σ
  setHardState : σ → HardState → Except Err σ
  setConfState : σ → ConfState → Except Err σ
  applySnapshot : σ → Snapshot → Except Err σ
  applyLocalSnapshot : σ → Snapshot → Except Err σ

/-- What a storage holds. -/
structure StoreView where
  log : Log := {}
  hardState : HardState := {}
  confState : ConfState := {}
  deriving DecidableEq, Repr

namespace StoreView

/-- The effect of appending entries. -/
def append (v : StoreView) (es : List Entry) : StoreView :=
  match es with
  | [] => v
  | e :: _ => { v with log := v.log.splice e.index es }

/-- The effect of installing a received snapshot. -/
def applySnapshot (v : StoreView) (snap : Snapshot) : StoreView where
  log := ⟨snap.metadata.index, snap.metadata.term, []⟩
  hardState := { v.hardState with
    term := max v.hardState.term snap.metadata.term
    commit := snap.metadata.index }
  confState := snap.metadata.confState

/-- The effect of installing a snapshot of the own state machine. -/
def applyLocalSnapshot (v : StoreView) (snap : Snapshot) : StoreView where
  log := v.log.compact snap.metadata.index snap.metadata.term
  hardState := { v.hardState with
    term := max v.hardState.term snap.metadata.term
    commit := max v.hardState.commit snap.metadata.index }
  confState := snap.metadata.confState

end StoreView

/-- The laws of a storage back end. -/
class LawfulStorage (σ : Type) extends WritableStorage σ where
  /-- The consistent states of the back end. -/
  Valid : σ → Prop
  view : σ → StoreView
  contiguous {s : σ} : Valid s → (view s).log.Contiguous
  initialState_eq {s : σ} : Valid s →
    ∃ rs, initialState s = .ok rs ∧ rs.hardState = (view s).hardState ∧
      rs.confState = (view s).confState
  firstIndex_eq {s : σ} : Valid s → firstIndex s = .ok ((view s).log.base + 1)
  lastIndex_eq {s : σ} : Valid s → lastIndex s = .ok (view s).log.last
  term_eq {s : σ} {i : ℕ} : Valid s → (view s).log.base ≤ i → i ≤ (view s).log.last →
    ∃ t, term s i = .ok t ∧ (view s).log.termAt i = some t
  term_of_lt {s : σ} {i : ℕ} : Valid s → i < (view s).log.base → term s i = .error .compacted
  term_of_gt {s : σ} {i : ℕ} : Valid s → (view s).log.last < i → term s i = .error .unavailable
  entries_ok {s : σ} {lo hi : ℕ} {m : Option ℕ} {c : GetEntriesContext} {es : List Entry} :
    Valid s → entries s lo hi m c = .ok es → (view s).log.base < lo ∧ es <+: (view s).log.slice lo hi
  getSnapshot_ok {s : σ} {req dest : ℕ} {snap : Snapshot} : Valid s →
    getSnapshot s req dest = .ok snap → snap.metadata.confState = (view s).confState ∧
      (req ≤ (view s).hardState.commit → snap.metadata.index ≤ (view s).hardState.commit ∧
        (view s).log.termAt snap.metadata.index = some snap.metadata.term)
  append_ok {s s' : σ} {es : List Entry} : Valid s → append s es = .ok s' →
    (∀ e ∈ es.head?, Log.Consecutive e.index es) →
    Valid s' ∧ view s' = (view s).append es ∧
      ∀ e ∈ es.head?, (view s).log.base < e.index ∧ e.index ≤ (view s).log.last + 1
  setHardState_ok {s s' : σ} {hs : HardState} : Valid s → setHardState s hs = .ok s' →
    Valid s' ∧ view s' = { view s with hardState := hs }
  setConfState_ok {s s' : σ} {cs : ConfState} : Valid s → setConfState s cs = .ok s' →
    Valid s' ∧ view s' = { view s with confState := cs }
  applySnapshot_ok {s s' : σ} {snap : Snapshot} : Valid s → applySnapshot s snap = .ok s' →
    Valid s' ∧ view s' = (view s).applySnapshot snap
  applyLocalSnapshot_ok {s s' : σ} {snap : Snapshot} : Valid s →
    applyLocalSnapshot s snap = .ok s' → Valid s' ∧ view s' = (view s).applyLocalSnapshot snap ∧
      (view s).log.base < snap.metadata.index ∧ snap.metadata.index ≤ (view s).log.last

/-! ### Memory storage -/

/-- Volatile storage: hard state, configuration, entries and the last snapshot. -/
structure MemoryStorage where
  raftState : RaftState := {}
  entries : List Entry := []
  snapshotData : Snapshot := {}
  /-- The next snapshot read fails. -/
  triggerSnapshotUnavailable : Bool := false
  /-- Reads that may be answered later fail. -/
  triggerLogUnavailable : Bool := false
  deriving DecidableEq, Repr, Inhabited

namespace MemoryStorage

variable (s : MemoryStorage)

/-- First index that can be read. -/
def firstIndex : ℕ :=
  match s.entries with
  | [] => s.snapshotData.metadata.index + 1
  | e :: _ => e.index

/-- Last index. -/
def lastIndex : ℕ :=
  match s.entries.getLast? with
  | none => s.snapshotData.metadata.index
  | some e => e.index

/-- Term at an index. -/
def term (idx : ℕ) : Except Err ℕ :=
  if idx = s.snapshotData.metadata.index then .ok s.snapshotData.metadata.term
  else if idx < s.firstIndex then .error .compacted
  else if s.lastIndex < idx then .error .unavailable
  else .ok (s.entries.getD (idx - s.firstIndex) {}).term

/-- May the read be answered later? -/
def canAsync : GetEntriesContext → Bool
  | .empty b => b
  | .sendAppend .. => true
  | _ => false

/-- The entries in `[low, high)`, cut to the size limit. -/
def readEntries (low high : ℕ) (maxSize : Option ℕ) (context : GetEntriesContext) :
    Except Err (List Entry) :=
  if low < s.firstIndex then .error .compacted
  else if s.lastIndex + 1 < high then .error .fatal
  else if s.triggerLogUnavailable = true ∧ canAsync context = true then
    .error .logTemporarilyUnavailable
  else
    let offset := s.firstIndex
    let result := (s.entries.drop (low - offset)).take (high - low)
    .ok (limitSize result maxSize)

/-- A snapshot at the stored commit index.  (When the entry at the commit index has been
compacted away, the code aborts.) -/
def snapshot : Except Err Snapshot :=
  let commit := s.raftState.hardState.commit
  let meta_ := s.snapshotData.metadata
  if commit < meta_.index then .error .fatal
  else if commit = meta_.index then
    .ok { membership := s.snapshotData.membership
          data := s.snapshotData.data
          metadata := ⟨commit, meta_.term, s.raftState.confState⟩ }
  else if commit < s.firstIndex then .error .fatal
  else
    match s.entries[commit - s.firstIndex]? with
    | none => .error .fatal
    | some e =>
        .ok { membership := s.snapshotData.membership
              data := []
              metadata := ⟨commit, e.term, s.raftState.confState⟩ }

/-- The snapshot handed to a peer: when it is older than requested, its index is raised to the
requested one. -/
def getSnapshot (requestIndex _dest : ℕ) : Except Err Snapshot :=
  if s.triggerSnapshotUnavailable then .error .snapshotTemporarilyUnavailable
  else
    match s.snapshot with
    | .error e => .error e
    | .ok snap =>
        if snap.metadata.index < requestIndex then
          .ok { snap with metadata := { snap.metadata with index := requestIndex } }
        else .ok snap

/-- Append entries, replacing those from the first new index on. -/
def mayAppend (ents : List Entry) : Except Err MemoryStorage :=
  match ents with
  | [] => .ok s
  | e :: _ =>
      if e.index < s.firstIndex then .error .fatal
      else if s.lastIndex + 1 < e.index then .error .fatal
      else .ok { s with entries := s.entries.take (e.index - s.firstIndex) ++ ents }

/-- Discard the entries below `compactIndex`. -/
def compact (compactIndex : ℕ) : Except Err MemoryStorage :=
  if compactIndex ≤ s.firstIndex then .ok s
  else if s.lastIndex + 1 < compactIndex then .error .fatal
  else .ok { s with entries := s.entries.drop (compactIndex - s.firstIndex) }

/-- The membership of a snapshot that is to be installed: a storage that has one wants one. -/
def snapshotMembership (snap : Snapshot) : Except Err (Option ClusterMembership) :=
  if snap.membership = [] ∧ s.raftState.clusterMembership ≠ none then
    .error .missingClusterMembership
  else decodeSnapshotMembership snap

/-- Install a received snapshot. -/
def applySnapshot (snap : Snapshot) : Except Err MemoryStorage := do
  ensure (s.firstIndex ≤ snap.metadata.index) .snapshotOutOfDate
  let membership ← s.snapshotMembership snap
  return { s with
    raftState := {
      hardState := { s.raftState.hardState with
        term := max s.raftState.hardState.term snap.metadata.term
        commit := snap.metadata.index }
      confState := snap.metadata.confState
      clusterMembership := membership
      membershipIndex := if membership = none then 0 else snap.metadata.index }
    entries := []
    snapshotData := snap }

/-- Install a snapshot of the own state machine, keeping the entries above it. -/
def applyLocalSnapshot (snap : Snapshot) : Except Err MemoryStorage := do
  ensure (s.firstIndex ≤ snap.metadata.index) .snapshotOutOfDate
  let membership ← s.snapshotMembership snap
  let s ← s.compact (snap.metadata.index + 1)
  return { s with
    raftState := {
      hardState := { s.raftState.hardState with
        term := max s.raftState.hardState.term snap.metadata.term
        commit := max s.raftState.hardState.commit snap.metadata.index }
      confState := snap.metadata.confState
      clusterMembership := membership
      membershipIndex := if membership = none then 0 else snap.metadata.index }
    snapshotData := snap }

/-- Record a configuration and its membership. -/
def setMembershipState (cs : ConfState) (m : ClusterMembership) (membershipIndex : ℕ) :
    Except Err MemoryStorage := do
  ensure ((m.validate cs).isOk = true) .invalidClusterMembership
  return { s with raftState := { s.raftState with
    confState := cs, clusterMembership := some m, membershipIndex := membershipIndex } }

/-- The snapshot that was installed last, if any. -/
def localSnapshot : Option Snapshot :=
  if s.snapshotData.metadata.index = 0 then none else some s.snapshotData

/-- Give a storage of an older version a membership. -/
def migrateLegacyMembership (current : ClusterMembership) (membershipIndex : ℕ)
    (snapshotMembership : Option ClusterMembership) : Except Err MemoryStorage := do
  ensure (s.raftState.clusterMembership = none) .invalidConfig
  validateLegacyMembershipMigration current membershipIndex s.raftState.hardState
    s.raftState.confState s.localSnapshot snapshotMembership
  let snapshot ← historicalSnapshot s.localSnapshot snapshotMembership
  return { s with
    raftState := { s.raftState with
      clusterMembership := some current, membershipIndex := membershipIndex }
    snapshotData := snapshot.getD s.snapshotData }

/-- The read gets as far as the first entry and there is none: the code indexes an empty list. -/
def readPanics (low high : ℕ) : Prop :=
  s.entries = [] ∧ s.firstIndex ≤ low ∧ high ≤ s.lastIndex + 1

instance : WritableStorage MemoryStorage where
  initialState s := .ok s.raftState
  entries s := s.readEntries
  term s := s.term
  firstIndex s := .ok s.firstIndex
  lastIndex s := .ok s.lastIndex
  getSnapshot s := s.getSnapshot
  append s := s.mayAppend
  setHardState s hs := .ok { s with raftState := { s.raftState with hardState := hs } }
  setConfState s cs := .ok { s with raftState := { s.raftState with confState := cs } }
  applySnapshot s := s.applySnapshot
  applyLocalSnapshot s := s.applyLocalSnapshot

/-! ### The laws hold of the memory storage -/

/-- The log a memory storage holds. -/
def log : Log :=
  ⟨s.snapshotData.metadata.index, s.snapshotData.metadata.term, s.entries⟩

variable {s}

theorem firstIndex_eq_base (h : s.log.Contiguous) : s.firstIndex = s.log.base + 1 := by
  unfold firstIndex
  cases he : s.entries with
  | nil => rfl
  | cons e es =>
      unfold Log.Contiguous log at h
      rw [he] at h
      exact h.1

theorem lastIndex_eq_last (h : s.log.Contiguous) : s.lastIndex = s.log.last := by
  unfold lastIndex
  cases he : s.entries.getLast? with
  | none =>
      have hnil : s.entries = [] := List.getLast?_eq_none_iff.mp he
      simp [Log.last, log, hnil]
  | some e =>
      rw [List.getLast?_eq_getElem?, List.getElem?_eq_some_iff] at he
      obtain ⟨hk, rfl⟩ := he
      have hidx : s.entries[s.entries.length - 1].index =
          s.log.base + 1 + (s.entries.length - 1) := Log.consecutive_iff.mp h _ hk
      show s.entries[s.entries.length - 1].index = s.log.base + s.entries.length
      omega

theorem readEntries_ok (h : s.log.Contiguous) {lo hi : ℕ} {m : Option ℕ} {c : GetEntriesContext}
    {es : List Entry} (he : s.readEntries lo hi m c = .ok es) :
    s.log.base < lo ∧ es <+: s.log.slice lo hi := by
  unfold readEntries at he
  rw [firstIndex_eq_base h] at he
  split at he
  · cases he
  · rename_i hlo
    split at he
    · cases he
    · split at he
      · cases he
      · cases he
        refine ⟨by omega, ?_⟩
        have : lo - (s.log.base + 1) = lo - s.log.base - 1 := by omega
        rw [this]
        exact limitSize_isPrefix _ _

theorem mayAppend_ok (h : s.log.Contiguous) {s' : MemoryStorage} {es : List Entry}
    (he : s.mayAppend es = .ok s') (hes : ∀ e ∈ es.head?, Log.Consecutive e.index es) :
    s'.log.Contiguous ∧
      (⟨s'.log, s'.raftState.hardState, s'.raftState.confState⟩ : StoreView) =
        (⟨s.log, s.raftState.hardState, s.raftState.confState⟩ : StoreView).append es ∧
      ∀ e ∈ es.head?, s.log.base < e.index ∧ e.index ≤ s.log.last + 1 := by
  cases es with
  | nil =>
      cases he
      exact ⟨h, rfl, by simp⟩
  | cons e es =>
      unfold mayAppend at he
      dsimp only at he
      rw [firstIndex_eq_base h, lastIndex_eq_last h] at he
      split at he
      · cases he
      · split at he
        · cases he
        · rename_i h1 h2
          cases he
          have h1 : s.log.base < e.index := by omega
          have h2 : e.index ≤ s.log.last + 1 := by omega
          have hidx : e.index - (s.log.base + 1) = e.index - s.log.base - 1 := by omega
          rw [hidx]
          refine ⟨Log.Contiguous.splice h h1 h2 (hes e rfl), rfl, ?_⟩
          intro e' he'
          cases he'
          exact ⟨h1, h2⟩

theorem compact_ok (h : s.log.Contiguous) {s' : MemoryStorage} {i : ℕ}
    (hs : s.compact (i + 1) = .ok s') (hi : s.log.base < i) :
    s' = { s with entries := s.entries.drop (i - s.log.base) } ∧ i ≤ s.log.last := by
  unfold compact at hs
  rw [firstIndex_eq_base h, lastIndex_eq_last h] at hs
  rw [if_neg (by omega)] at hs
  split at hs
  · cases hs
  · cases hs
    have : i + 1 - (s.log.base + 1) = i - s.log.base := by omega
    rw [this]
    exact ⟨rfl, by omega⟩

theorem applyLocalSnapshot_eq (h : s.log.Contiguous) {s' : MemoryStorage} {snap : Snapshot}
    (hs : s.applyLocalSnapshot snap = .ok s') :
    s'.log.Contiguous ∧
      (⟨s'.log, s'.raftState.hardState, s'.raftState.confState⟩ : StoreView) =
        (⟨s.log, s.raftState.hardState, s.raftState.confState⟩ : StoreView).applyLocalSnapshot snap ∧
      s.log.base < snap.metadata.index ∧ snap.metadata.index ≤ s.log.last := by
  unfold applyLocalSnapshot at hs
  obtain ⟨_, h1, hs⟩ := bind_eq_ok.mp hs
  have h1 := ensure_eq_ok.mp h1
  rw [firstIndex_eq_base h] at h1
  obtain ⟨_, _, hs⟩ := bind_eq_ok.mp hs
  obtain ⟨s1, hc, hs⟩ := bind_eq_ok.mp hs
  obtain ⟨rfl, hlast⟩ := compact_ok h hc (by omega)
  have hbase : s.log.base ≤ snap.metadata.index := by omega
  cases hs
  exact ⟨Log.Contiguous.compact h (t := snap.metadata.term) hbase, rfl, by omega, hlast⟩

/-- The snapshot taken at the commit index is a position of the log. -/
theorem snapshot_ok (h : s.log.Contiguous) {snap : Snapshot} (hs : s.snapshot = .ok snap) :
    snap.metadata.confState = s.raftState.confState ∧
      snap.metadata.index = s.raftState.hardState.commit ∧
      s.log.termAt snap.metadata.index = some snap.metadata.term := by
  unfold snapshot at hs
  dsimp only at hs
  split at hs
  · cases hs
  · rename_i hlt
    split at hs
    · rename_i heq
      cases hs
      refine ⟨rfl, rfl, ?_⟩
      show s.log.termAt s.raftState.hardState.commit = _
      rw [heq]
      exact Log.termAt_base
    · rename_i hne
      split at hs
      · cases hs
      · split at hs
        · cases hs
        · rename_i e he
          cases hs
          refine ⟨rfl, rfl, Log.termAt_of_entryAt (e := e) ?_⟩
          have hb : s.log.base < s.raftState.hardState.commit := by
            show s.snapshotData.metadata.index < _
            omega
          rw [Log.entryAt_of_gt hb, ← he, firstIndex_eq_base h, Nat.sub_sub]
          rfl

theorem getSnapshot_eq (h : s.log.Contiguous) {req dest : ℕ} {snap : Snapshot}
    (hs : s.getSnapshot req dest = .ok snap) :
    snap.metadata.confState = s.raftState.confState ∧
      (req ≤ s.raftState.hardState.commit → snap.metadata.index ≤ s.raftState.hardState.commit ∧
        s.log.termAt snap.metadata.index = some snap.metadata.term) := by
  unfold getSnapshot at hs
  split at hs
  · cases hs
  · cases hsn : s.snapshot with
    | error e =>
        rw [hsn] at hs
        cases hs
    | ok sn =>
        obtain ⟨hconf, hidx, hterm⟩ := snapshot_ok h hsn
        rw [hsn] at hs
        dsimp only at hs
        split at hs
        · rename_i hlt
          cases hs
          exact ⟨hconf, fun hreq => absurd hlt (by omega)⟩
        · cases hs
          exact ⟨hconf, fun _ => ⟨hidx.le, hterm⟩⟩

instance : LawfulStorage MemoryStorage where
  Valid s := s.log.Contiguous
  view s := ⟨s.log, s.raftState.hardState, s.raftState.confState⟩
  contiguous h := h
  initialState_eq {s} _ := ⟨s.raftState, rfl, rfl, rfl⟩
  firstIndex_eq h := congrArg Except.ok (firstIndex_eq_base h)
  lastIndex_eq h := congrArg Except.ok (lastIndex_eq_last h)
  term_eq {s i} h h1 h2 := by
    show ∃ t, s.term i = .ok t ∧ s.log.termAt i = some t
    unfold term
    split
    · rename_i he
      refine ⟨_, rfl, ?_⟩
      rw [he]
      exact Log.termAt_base
    · rename_i hne
      rw [firstIndex_eq_base h, lastIndex_eq_last h]
      have hgt : s.log.base < i := lt_of_le_of_ne h1 fun e => hne e.symm
      have h2 : i ≤ s.log.last := h2
      obtain ⟨e, he⟩ := Log.exists_entryAt hgt h2
      have hget := he
      rw [Log.entryAt_of_gt hgt] at hget
      have hidx : i - (s.log.base + 1) = i - s.log.base - 1 := by omega
      rw [if_neg (by omega), if_neg (by omega), hidx, List.getD_eq_getElem?_getD]
      refine ⟨e.term, ?_, Log.termAt_of_entryAt he⟩
      have hget' : s.entries[i - s.log.base - 1]? = some e := hget
      rw [hget']
      rfl
  term_of_lt {s i} h hi := by
    show s.term i = _
    unfold term
    rw [if_neg (fun he => absurd hi (by rw [he]; exact lt_irrefl _)), firstIndex_eq_base h,
      if_pos (Nat.lt_succ_of_lt hi)]
  term_of_gt {s i} h hi := by
    show s.term i = _
    have hbl : s.log.base ≤ s.log.last := Log.base_le_last
    have hi' : s.log.last < i := hi
    unfold term
    rw [if_neg, firstIndex_eq_base h, lastIndex_eq_last h, if_neg (by omega), if_pos hi']
    intro he
    have : s.log.base = i := he.symm
    omega
  entries_ok h he := readEntries_ok h he
  getSnapshot_ok h hs := getSnapshot_eq h hs
  append_ok h he hes := mayAppend_ok h he hes
  setHardState_ok h he := by
    cases he
    exact ⟨h, rfl⟩
  setConfState_ok h he := by
    cases he
    exact ⟨h, rfl⟩
  applySnapshot_ok {s s' snap} h he := by
    have he' : s.applySnapshot snap = .ok s' := he
    unfold applySnapshot at he'
    obtain ⟨_, _, he'⟩ := bind_eq_ok.mp he'
    obtain ⟨m, _, he'⟩ := bind_eq_ok.mp he'
    cases he'
    exact ⟨trivial, rfl⟩
  applyLocalSnapshot_ok h he := applyLocalSnapshot_eq h he

end MemoryStorage

end Raftz
