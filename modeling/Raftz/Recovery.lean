import Raftz.Base.Versioned
import Raftz.Wal
import Raftz.WalRecords

/-! # Recovery of the log

`WAL.open` of `wal.zig` reads the metadata file and the segments.  The HardState comes
from the metadata alone: the records of HardStates in the segments are passed over.
`WAL.sync` syncs the segments before it saves the metadata, so a crash in between leaves
the entries of the sync group without its HardState.

The segment files and the metadata file are followed with the versions that a crash may
leave (`Versioned`).  A step is one operation on a file or a change in memory; the calls of
the log are made of such steps, and a crash may come after any of them.  The checks of the
membership and of the snapshot that the metadata names read nothing of the log and are a
parameter. -/

open Base

namespace Raftz

namespace Recovery

/-! ### Reading the files -/

/-- What the metadata file says. -/
structure SavedState where
  firstIndex : ℕ := 1
  snapshotIndex : ℕ := 0
  snapshotTerm : ℕ := 0
  firstSegmentId : ℕ := 0
  membershipIndex : ℕ := 0
  hardState : HardState := {}
  confState : ConfState := {}
  clusterMembership : Option ClusterMembership := none
  deriving DecidableEq, Repr

/-- What is found in a segment file: its records, and whether something unreadable follows them. -/
structure Image where
  segment : Segment
  torn : Bool := false
  deriving DecidableEq, Repr

/-- Read a record; entries below the first index are passed over, and all that are not entries. -/
def readRecord (segmentId offset : ℕ) (w : WAL) : Record → Except WalErr WAL
  | .entry e =>
      if e.index < w.firstIndex then .ok w
      else
        match w.walIndex.insert e.index ⟨segmentId, offset, (Record.entry e).size, e.term⟩ with
        | .error _ => .error .fatal
        | .ok walIndex => .ok { w with walIndex := walIndex, entries := w.entries ++ [e] }
  | .hardState _ => .ok w
  | .confState _ => .ok w

/-- Read the records of a segment. -/
def readRecords (segmentId : ℕ) : ℕ → List Record → WAL → Except WalErr WAL
  | _, [], w => .ok w
  | offset, r :: rs, w => do
      let w ← readRecord segmentId offset w r
      readRecords segmentId (offset + r.size) rs w

/-- Read the segments from an id on.  A broken tail is cut off in the last one, when there is metadata. -/
def readSegments (hasMetadata : Bool) (firstSegmentId : ℕ) : List Image → WAL → Except WalErr WAL
  | [], w => .ok w
  | s :: ss, w =>
      if s.segment.segmentId < firstSegmentId then readSegments hasMetadata firstSegmentId ss w
      else do
        let w ← readRecords s.segment.segmentId Segment.headerSize s.segment.records w
        ensure (s.torn = false ∨ (hasMetadata = true ∧ ss = [])) .corruptEntryRecord
        readSegments hasMetadata firstSegmentId ss w

/-- The segments that are there; without any, the first is created. -/
def present (images : List Image) : List Image := if images = [] then [⟨⟨1, 1, []⟩, false⟩] else images

/-- The log before its segments are read. -/
def baseOf (segmentSize : ℕ) (saved : Option SavedState) (images : List Image) : WAL :=
  let segments := images.map Image.segment
  let manager : SegmentManager := ⟨segments, (segments.getLast?.map Segment.segmentId).getD 0⟩
  match saved with
  | some m => {
      segmentSize := segmentSize
      segmentManager := manager
      walIndex := ⟨[], m.firstIndex⟩
      hardState := m.hardState
      confState := m.confState
      clusterMembership := m.clusterMembership
      membershipIndex := m.membershipIndex
      snapshotMetadata := { index := m.snapshotIndex, term := m.snapshotTerm }
      firstIndex := m.firstIndex }
  | none =>
      let first := (segments.head?.map Segment.firstIndex).getD 1
      { segmentSize := segmentSize, segmentManager := manager, walIndex := ⟨[], first⟩, firstIndex := first }

/-- Check what the metadata says against the segments; without metadata there must be nothing. -/
def checkSaved (checks : SavedState → Except WalErr Unit) (images : List Image) :
    Option SavedState → Except WalErr Unit
  | some m => do
      ensure (m.firstSegmentId = 0 ∨ ∃ s ∈ images, s.segment.segmentId = m.firstSegmentId) .metadataCorrupt
      checks m
  | none =>
      ensure (images.map (fun s => (s.segment.segmentId, s.segment.records, s.torn)) = [(1, [], false)])
        .metadataCorrupt

/-- Open a log. -/
def recover (checks : SavedState → Except WalErr Unit) (segmentSize : ℕ) (saved : Option SavedState)
    (images : List Image) : Except WalErr WAL := do
  let images := present images
  checkSaved checks images saved
  let w ← readSegments saved.isSome ((saved.map SavedState.firstSegmentId).getD 0) images
    (baseOf segmentSize saved images)
  ensure (w.hardState.commit ≤ w.lastIndex) .fatal
  if saved.isSome ∧ 1 < w.firstIndex then
    match w.cleanupCompactedSegments with
    | .error _ => throw .fatal
    | .ok w => return w
  else return w

/-! ### A log and its files -/

/-- The entry in a record. -/
def entriesIn : Record → List Entry
  | .entry e => [e]
  | .hardState _ => []
  | .confState _ => []

/-- The entries in segments. -/
def entriesOf (segments : List Segment) : List Entry := segments.flatMap fun g => g.records.flatMap entriesIn

/-- The term of the HardState in the metadata. -/
def termIn (saved : Option SavedState) : ℕ := (saved.map fun m => m.hardState.term).getD 0

/-- An operation on a segment file or on the directory, and the entries that it writes; several segments may be
unlinked, or one. -/
inductive FileOp (m : SegmentManager) : SegmentManager → List Entry → Prop
  | append (r : Record) : FileOp m (m.append r) (entriesIn r)
  | rollToNew (firstIndex : ℕ) : FileOp m (m.rollToNew firstIndex) []
  | truncate (id offset : ℕ) : FileOp m (m.truncate id offset) []
  | unlink {segments : List Segment} (hsub : segments.Sublist m.segments) : FileOp m { m with segments := segments } []

/-- A log and its files; the entries appended since the last completed sync, and those of groups that were
under way when the machine failed, until a sync with their term is completed. -/
structure Store where
  wal : WAL
  segments : Versioned (List Segment)
  metadata : Versioned (Option SavedState) := ⟨none, []⟩
  metadataDirty : Bool := true
  group : List Entry := []
  stray : List Entry := []

/-- A log opened on an empty directory; its metadata is not there yet. -/
def Store.empty (segmentSize : ℕ) : Store where
  wal := WAL.empty segmentSize
  segments := ⟨(WAL.empty segmentSize).segmentManager.segments, []⟩

/-- What a crash may leave of a segment file: a prefix of a version; a synced file is whole. -/
structure Survives (f : Versioned (List Segment)) (s : Image) : Prop where
  version : ∃ v ∈ f.versions, ∃ g ∈ v, g.segmentId = s.segment.segmentId ∧ g.firstIndex = s.segment.firstIndex ∧
    s.segment.records <+: g.records
  whole : f.older = [] → s.segment ∈ f.current ∧ s.torn = false

/-- What a crash may leave of the files. -/
structure Store.Crash (s : Store) (saved : Option SavedState) (images : List Image) : Prop where
  saved : saved ∈ s.metadata.versions
  segments : ∀ i ∈ images, Survives s.segments i
  synced : s.segments.older = [] → ∀ g ∈ s.segments.current, ∃ i ∈ images, i.segment = g

/-- One operation on the files, or a change in memory.  The conditions are those on the callers: the terms of
HardStates do not fall, `commit` is in the log, and when a sync is completed the HardState has at least the terms
of the entries of the group. -/
inductive Step (checks : SavedState → Except WalErr Unit) : Store → Store → Prop
  | file {s : Store} {m : SegmentManager} {es : List Entry} (hop : FileOp s.wal.segmentManager m es) :
      Step checks s { s with
        wal := { s.wal with segmentManager := m }
        segments := s.segments.write m.segments
        group := s.group ++ es }
  | memory {s : Store} {w : WAL} {dirty : Bool} (hseg : w.segmentManager.segments = s.wal.segmentManager.segments)
      (hhs : w.hardState = s.wal.hardState) (hdirty : s.metadataDirty = true → dirty = true) :
      Step checks s { s with wal := w, metadataDirty := dirty }
  | hardState {s : Store} {hs : HardState} (hterm : s.wal.hardState.term ≤ hs.term)
      (hcommit : hs.commit ≤ s.wal.lastIndex) :
      Step checks s { s with wal := { s.wal with hardState := hs }, metadataDirty := true }
  | syncSegments {s : Store} : Step checks s { s with segments := s.segments.sync }
  /-- The metadata is saved, with the HardState that the log has from then on. -/
  | save {s : Store} {m : SavedState} {w : WAL} (hseg : w.segmentManager.segments = s.wal.segmentManager.segments)
      (hhs : m.hardState = w.hardState) (hterm : s.wal.hardState.term ≤ w.hardState.term) :
      Step checks s { s with wal := w, metadata := (s.metadata.write (some m)).sync, metadataDirty := false }
  /-- The metadata is renamed, but the directory is not synced. -/
  | rename {s : Store} {m : SavedState} (hterm : s.wal.hardState.term ≤ m.hardState.term) :
      Step checks s { s with metadata := s.metadata.write (some m) }
  | synced {s : Store} (hclean : s.metadataDirty = false) (hgroup : ∀ e ∈ s.group, e.term ≤ s.wal.hardState.term) :
      Step checks s { s with
        group := [], stray := s.stray.filter fun e => decide (s.wal.hardState.term < e.term) }
  /-- The machine fails, and the log is opened on what the disk holds. -/
  | reopen {s : Store} {saved : Option SavedState} {images : List Image} {w : WAL} (hc : s.Crash saved images)
      (hopen : recover checks s.wal.segmentSize saved images = .ok w) :
      Step checks s {
        wal := w
        segments := ⟨w.segmentManager.segments, []⟩
        metadata := ⟨saved, []⟩
        metadataDirty := saved.isNone
        group := []
        stray := s.stray ++ s.group }

/-! ### What is recovered -/

section recovered
variable {w w' : WAL} {checks : SavedState → Except WalErr Unit} {images : List Image}

/-- What reading leaves of the log: the entries are read, the rest stays. -/
structure Read (es : List Entry) (w w' : WAL) : Prop where
  hardState : w'.hardState = w.hardState
  segments : w'.segmentManager = w.segmentManager
  entries : ∀ e ∈ w'.entries, e ∈ w.entries ∨ e ∈ es

theorem Read.refl (w : WAL) (es : List Entry) : Read es w w := ⟨rfl, rfl, fun _ h => .inl h⟩

theorem Read.trans {es es' es'' : List Entry} {w1 : WAL} (h : Read es w w1) (h' : Read es' w1 w')
    (hes : ∀ e, e ∈ es ∨ e ∈ es' → e ∈ es'') : Read es'' w w' := by
  refine ⟨h'.hardState.trans h.hardState, h'.segments.trans h.segments, fun e he => ?_⟩
  rcases h'.entries e he with he | he
  · rcases h.entries e he with he | he
    · exact .inl he
    · exact .inr (hes e (.inl he))
  · exact .inr (hes e (.inr he))

theorem read_readRecord {segmentId offset : ℕ} {r : Record} (h : readRecord segmentId offset w r = .ok w') :
    Read (entriesIn r) w w' := by
  cases r with
  | hardState hs =>
      cases h
      exact Read.refl _ _
  | confState cs =>
      cases h
      exact Read.refl _ _
  | entry e =>
      dsimp only [readRecord] at h
      split_ifs at h
      · cases h
        exact Read.refl w _
      · split at h
        · cases h
        · cases h
          exact ⟨rfl, rfl, fun e he => List.mem_append.mp he⟩

theorem read_readRecords {segmentId offset : ℕ} {rs : List Record} (h : readRecords segmentId offset rs w = .ok w') :
    Read (rs.flatMap entriesIn) w w' := by
  induction rs generalizing w offset with
  | nil =>
      cases h
      exact Read.refl _ _
  | cons r rs ih =>
      obtain ⟨w1, h1, h⟩ := bind_eq_ok.mp h
      exact (read_readRecord h1).trans (ih h) fun e he => by rw [List.flatMap_cons]; exact List.mem_append.mpr he

theorem read_readSegments {hasMetadata : Bool} {firstSegmentId : ℕ}
    (h : readSegments hasMetadata firstSegmentId images w = .ok w') :
    Read (entriesOf (images.map Image.segment)) w w' := by
  induction images generalizing w with
  | nil =>
      cases h
      exact Read.refl _ _
  | cons s ss ih =>
      have hcons : entriesOf ((s :: ss).map Image.segment) =
          s.segment.records.flatMap entriesIn ++ entriesOf (ss.map Image.segment) := rfl
      rw [hcons]
      unfold readSegments at h
      split_ifs at h
      · exact (ih h).trans (Read.refl w' []) fun e he => List.mem_append_right _ (he.resolve_right List.not_mem_nil)
      · obtain ⟨w1, h1, h⟩ := bind_eq_ok.mp h
        obtain ⟨_, -, h⟩ := bind_eq_ok.mp h
        exact (read_readRecords h1).trans (ih h) fun e he => List.mem_append.mpr he

/-- What is recovered: the HardState of the metadata, and entries of the segments. -/
structure Recovered (saved : Option SavedState) (images : List Image) (w : WAL) : Prop where
  hardState : w.hardState.term = termIn saved
  commit : w.hardState.commit ≤ w.lastIndex
  entries : ∀ e ∈ w.entries, e ∈ entriesOf (images.map Image.segment)
  segments : ∀ e ∈ entriesOf w.segmentManager.segments, e ∈ entriesOf (images.map Image.segment)

/-- Cleaning up removes segments only. -/
theorem cleanup_ok (h : w.cleanupCompactedSegments = .ok w') :
    w'.hardState = w.hardState ∧ w'.lastIndex = w.lastIndex ∧ w'.entries = w.entries ∧
      w'.segmentManager.segments.Sublist w.segmentManager.segments := by
  unfold WAL.cleanupCompactedSegments at h
  split_ifs at h
  · cases h
    exact ⟨rfl, rfl, rfl, List.Sublist.refl _⟩
  · cases h
    exact ⟨rfl, rfl, rfl, List.filter_sublist⟩
  · split at h
    · cases h
    · split_ifs at h
      · cases h
        exact ⟨rfl, rfl, rfl, List.Sublist.refl _⟩
      · cases h
        exact ⟨rfl, rfl, rfl, List.filter_sublist⟩

theorem entriesOf_subset {a b : List Segment} (h : ∀ g ∈ a, g ∈ b) : ∀ e ∈ entriesOf a, e ∈ entriesOf b := by
  intro e he
  obtain ⟨g, hg, he⟩ := List.mem_flatMap.mp he
  exact List.mem_flatMap.mpr ⟨g, h g hg, he⟩

theorem entriesOf_present : ∀ e ∈ entriesOf ((present images).map Image.segment),
    e ∈ entriesOf (images.map Image.segment) := by
  unfold present
  split_ifs with hnil
  · intro e he
    cases he
  · exact fun _ he => he

theorem recover_ok {segmentSize : ℕ} {saved : Option SavedState}
    (h : recover checks segmentSize saved images = .ok w) : Recovered saved images w := by
  obtain ⟨_, -, h⟩ := bind_eq_ok.mp h
  obtain ⟨w1, hread, h⟩ := bind_eq_ok.mp h
  obtain ⟨_, hcommit, h⟩ := bind_eq_ok.mp h
  have hread := read_readSegments hread
  have hcommit := ensure_eq_ok.mp hcommit
  have hbase : (baseOf segmentSize saved (present images)).hardState.term = termIn saved ∧
      (baseOf segmentSize saved (present images)).entries = [] ∧
      (baseOf segmentSize saved (present images)).segmentManager.segments = (present images).map Image.segment := by
    cases saved <;> exact ⟨rfl, rfl, rfl⟩
  obtain ⟨hhs, hnil, hsegs⟩ := hbase
  have hw1 : Recovered saved images w1 := by
    refine ⟨hread.hardState ▸ hhs, hcommit, fun e he => ?_, fun e he => ?_⟩
    · rcases hread.entries e he with he | he
      · rw [hnil] at he
        cases he
      · exact entriesOf_present e he
    · rw [hread.segments, hsegs] at he
      exact entriesOf_present e he
  split_ifs at h
  · split at h
    · cases h
    · rename_i w2 hclean
      cases h
      obtain ⟨hhs2, hlast, hentries, hsub⟩ := cleanup_ok hclean
      refine ⟨hhs2 ▸ hw1.hardState, ?_, fun e he => hw1.entries e (hentries ▸ he),
        fun e he => hw1.segments e (entriesOf_subset (fun _ hg => hsub.subset hg) e he)⟩
      rw [hhs2, hlast]
      exact hw1.commit
  · cases h
    exact hw1

end recovered

/-! ### Runs -/

section runs
variable {checks : SavedState → Except WalErr Unit} {s s' : Store}

/-- What is kept of a cut segment was there. -/
theorem mem_keep {n : ℕ} {r : Record} {rs : List Record} (h : r ∈ Segment.keep n rs) : r ∈ rs := by
  induction rs generalizing n with
  | nil => cases n <;> cases h
  | cons r' rs ih =>
      cases n with
      | zero => cases h
      | succ n =>
          rcases List.mem_cons.mp h with rfl | h
          · exact List.mem_cons_self
          · exact List.mem_cons_of_mem _ (ih h)

/-- An operation on the files adds the entries that it writes, and no others. -/
theorem entriesOf_fileOp {m m' : SegmentManager} {es : List Entry} (h : FileOp m m' es) :
    ∀ e ∈ entriesOf m'.segments, e ∈ entriesOf m.segments ∨ e ∈ es := by
  cases h with
  | append r =>
      intro e he
      unfold SegmentManager.append SegmentManager.getCurrent at he
      cases hlast : m.segments.getLast? with
      | none =>
          rw [hlast] at he
          exact .inl he
      | some g =>
          rw [hlast] at he
          have hsplit : m.segments = m.segments.dropLast ++ [g] :=
            (List.dropLast_append_getLast? g (Option.mem_def.mpr hlast)).symm
          rw [hsplit]
          simp only [entriesOf, List.flatMap_append, List.flatMap_cons, List.flatMap_nil, List.append_nil,
            List.mem_append] at he ⊢
          tauto
  | rollToNew firstIndex =>
      intro e he
      left
      simpa [entriesOf, SegmentManager.rollToNew] using he
  | truncate id offset =>
      intro e he
      left
      obtain ⟨g', hg', he⟩ := List.mem_flatMap.mp he
      obtain ⟨g, hg, rfl⟩ := List.mem_map.mp hg'
      obtain ⟨r, hr, he⟩ := List.mem_flatMap.mp he
      refine List.mem_flatMap.mpr ⟨g, hg, List.mem_flatMap.mpr ⟨r, ?_, he⟩⟩
      split_ifs at hr
      · exact mem_keep hr
      · exact hr
  | unlink hsub => exact fun e he => .inl (entriesOf_subset (fun g hg => hsub.subset hg) e he)

/-- What a crash leaves of an entry was in a version of the files. -/
theorem Store.Crash.entries {saved : Option SavedState} {images : List Image} (hc : s.Crash saved images) :
    ∀ e ∈ entriesOf (images.map Image.segment), ∃ v ∈ s.segments.versions, e ∈ entriesOf v := by
  intro e he
  obtain ⟨g, hg, he⟩ := List.mem_flatMap.mp he
  obtain ⟨i, hi, rfl⟩ := List.mem_map.mp hg
  obtain ⟨v, hv, g', hg', -, -, hprefix⟩ := (hc.segments i hi).version
  obtain ⟨r, hr, he⟩ := List.mem_flatMap.mp he
  exact ⟨v, hv, List.mem_flatMap.mpr ⟨g', hg', List.mem_flatMap.mpr ⟨r, hprefix.subset hr, he⟩⟩⟩

/-- An entry is covered by the HardState in memory, and by every one that a crash may leave. -/
def Covered (s : Store) (e : Entry) : Prop :=
  e.term ≤ s.wal.hardState.term ∧ s.metadata.All fun m => e.term ≤ termIn m

/-- Entries that are not covered belong to a group without its completed sync. -/
structure Inv (s : Store) : Prop where
  current : s.segments.current = s.wal.segmentManager.segments
  covered : s.segments.All fun v => ∀ e ∈ entriesOf v, e ∈ s.group ∨ e ∈ s.stray ∨ Covered s e
  clean : s.metadataDirty = false → s.metadata.All fun m => s.wal.hardState.term ≤ termIn m

theorem inv_empty (segmentSize : ℕ) : Inv (Store.empty segmentSize) := by
  refine ⟨rfl, fun v hv e he => ?_, fun h => by cases h⟩
  rw [List.mem_singleton.mp hv] at he
  cases he

/-- A step that leaves the files. -/
theorem Inv.of_covered (hi : Inv s) (hcur : s'.wal.segmentManager.segments = s.wal.segmentManager.segments)
    (hseg : s'.segments = s.segments) (hcov : ∀ e, e ∈ s.group ∨ e ∈ s.stray ∨ Covered s e →
      e ∈ s'.group ∨ e ∈ s'.stray ∨ Covered s' e)
    (hclean : s'.metadataDirty = false → s'.metadata.All fun m => s'.wal.hardState.term ≤ termIn m) : Inv s' := by
  refine ⟨?_, ?_, hclean⟩
  · rw [hseg, hcur]
    exact hi.current
  · rw [hseg]
    exact hi.covered.mono fun v hv e he => hcov e (hv e he)

/-- The HardState grows, in memory and on disk. -/
theorem covered_mono {e : Entry} (h : e ∈ s.group ∨ e ∈ s.stray ∨ Covered s e) (hgroup : s'.group = s.group)
    (hstray : s'.stray = s.stray) (hcov : Covered s e → Covered s' e) :
    e ∈ s'.group ∨ e ∈ s'.stray ∨ Covered s' e := by
  rw [hgroup, hstray]
  exact h.imp_right (Or.imp_right hcov)

theorem Inv.step (hi : Inv s) (hs : Step checks s s') : Inv s' := by
  cases hs with
  | @file m es hop =>
      refine ⟨rfl, Versioned.All.write ?_ ?_, hi.clean⟩
      · refine hi.covered.mono fun v hv e he => ?_
        rcases hv e he with h | h
        · exact .inl (List.mem_append_left _ h)
        · exact .inr h
      · intro e he
        rcases entriesOf_fileOp hop e he with he | he
        · rw [← hi.current] at he
          rcases hi.covered.current e he with h | h
          · exact .inl (List.mem_append_left _ h)
          · exact .inr h
        · exact .inl (List.mem_append_right _ he)
  | memory hseg hhs hdirty =>
      refine hi.of_covered hseg rfl (fun e he => covered_mono he rfl rfl fun hc => ⟨?_, hc.2⟩) fun hclean => ?_
      · dsimp only
        rw [hhs]
        exact hc.1
      · dsimp only at hclean ⊢
        rw [hhs]
        refine hi.clean ?_
        by_contra hd
        rw [hdirty (Bool.eq_true_of_not_eq_false hd)] at hclean
        cases hclean
  | hardState hterm hcommit =>
      refine hi.of_covered rfl rfl (fun e he => covered_mono he rfl rfl fun hc => ⟨hc.1.trans hterm, hc.2⟩) ?_
      intro hclean
      cases hclean
  | syncSegments => exact ⟨hi.current, hi.covered.sync, hi.clean⟩
  | save hseg hhs hterm =>
      refine hi.of_covered hseg rfl (fun e he => covered_mono he rfl rfl fun hc => ?_) fun _ => ?_
      · refine ⟨hc.1.trans hterm, Versioned.all_synced ?_⟩
        show e.term ≤ HardState.term _
        rw [hhs]
        exact hc.1.trans hterm
      · refine Versioned.all_synced ?_
        show _ ≤ HardState.term _
        rw [hhs]
  | rename hterm =>
      refine hi.of_covered rfl rfl (fun e he => covered_mono he rfl rfl fun hc => ?_) fun hclean => ?_
      · exact ⟨hc.1, hc.2.write (hc.1.trans hterm)⟩
      · exact (hi.clean hclean).write hterm
  | synced hclean hgroup =>
      refine hi.of_covered rfl rfl (fun e he => ?_) hi.clean
      have hreached : e.term ≤ s.wal.hardState.term → Covered s e := fun hle =>
        ⟨hle, (hi.clean hclean).mono fun m hm => hle.trans hm⟩
      rcases he with he | he | he
      · exact .inr (.inr (hreached (hgroup e he)))
      · by_cases hle : e.term ≤ s.wal.hardState.term
        · exact .inr (.inr (hreached hle))
        · exact .inr (.inl (List.mem_filter.mpr ⟨he, decide_eq_true (Nat.lt_of_not_le hle)⟩))
      · exact .inr (.inr he)
  | @reopen saved images w hc hopen =>
      have hrec := recover_ok hopen
      refine ⟨rfl, fun v hv e he => ?_, fun _ m hm => ?_⟩
      · rw [List.mem_singleton.mp hv] at he
        obtain ⟨v', hv', he'⟩ := hc.entries e (hrec.segments e he)
        rcases hi.covered v' hv' e he' with h | h | h
        · exact .inr (.inl (List.mem_append_right _ h))
        · exact .inr (.inl (List.mem_append_left _ h))
        · refine .inr (.inr ⟨?_, fun m hm => ?_⟩)
          · dsimp only
            rw [hrec.hardState]
            exact h.2 saved hc.saved
          · rw [List.mem_singleton.mp hm]
            exact h.2 saved hc.saved
      · rw [List.mem_singleton.mp hm]
        exact hrec.hardState.le

theorem inv_run {segmentSize : ℕ} (hrun : Relation.ReflTransGen (Step checks) (Store.empty segmentSize) s) : Inv s := by
  induction hrun with
  | refl => exact inv_empty segmentSize
  | tail _ hs ih => exact ih.step hs

end runs

end Recovery

namespace Recovery

/-! ### The calls of the log -/

section calls
variable {checks : SavedState → Except WalErr Unit} {α β : Type}

/-- A log in memory is reached by steps. -/
def Reach (checks : SavedState → Except WalErr Unit) (s : Store) (w : WAL) : Prop :=
  ∃ s', Relation.ReflTransGen (Step checks) s s' ∧ s'.wal = w

/-- A call is made of steps, also when it fails. -/
def Made (checks : SavedState → Except WalErr Unit) (x : Act Err WAL α) : Prop :=
  ∀ s : Store, x.wp (fun _ w => Reach checks s w) (fun _ w => Reach checks s w) s.wal

theorem Reach.refl (s : Store) : Reach checks s s.wal := ⟨s, .refl, rfl⟩

theorem Reach.trans {s s' : Store} {w : WAL} (h : Relation.ReflTransGen (Step checks) s s')
    (h' : Reach checks s' w) : Reach checks s w := by
  obtain ⟨s'', hrun, heq⟩ := h'
  exact ⟨s'', h.trans hrun, heq⟩

theorem Made.bind {x : Act Err WAL α} {f : α → Act Err WAL β} (hx : Made checks x) (hf : ∀ a, Made checks (f a)) :
    Made checks (x >>= f) := by
  intro s
  rw [Act.wp_bind]
  refine Act.wp_mono (hx s) (fun a w hw => ?_) fun _ _ hw => hw
  obtain ⟨s', hrun, rfl⟩ := hw
  exact Act.wp_mono (hf a s') (fun _ _ h => h.trans hrun) fun _ _ h => h.trans hrun

/-- A read, or a failure, leaves the log. -/
theorem made_of_same {x : Act Err WAL α} (h : ∀ w, x.wp (fun _ w' => w' = w) (fun _ w' => w' = w) w) :
    Made checks x := by
  intro s
  refine Act.wp_mono (h s.wal) (fun _ w hw => ?_) fun _ w hw => ?_
  · rw [hw]
    exact Reach.refl s
  · rw [hw]
    exact Reach.refl s

theorem made_throw (e : Err) : Made checks (Act.throw e : Act Err WAL α) := made_of_same fun _ => rfl

theorem made_pure (a : α) : Made checks (pure a : Act Err WAL α) := made_of_same fun _ => rfl

theorem made_get : Made checks (Act.get : Act Err WAL WAL) := made_of_same fun _ => rfl

theorem made_query (f : WAL → Except Err α) : Made checks (Act.query f) := by
  refine made_of_same fun w => ?_
  unfold Act.wp Act.query
  cases f w <;> rfl

theorem made_orPanic (a : Option α) : Made checks (Act.orPanic a : Act Err WAL α) := by
  refine made_of_same fun w => ?_
  cases a with
  | none => trivial
  | some a => rfl

theorem made_when {c : Prop} [Decidable c] {x : Act Err WAL Unit} (hx : Made checks x) : Made checks (Act.when c x) := by
  unfold Act.when
  split_ifs
  · exact hx
  · exact made_pure ()

theorem made_each {f : α → Act Err WAL Unit} (hf : ∀ a, Made checks (f a)) (as : List α) :
    Made checks (Act.each as f) := by
  induction as with
  | nil => exact made_pure ()
  | cons a as ih => exact (hf a).bind fun _ => ih

theorem made_modify {f : WAL → WAL} (h : ∀ s : Store, Reach checks s (f s.wal)) : Made checks (Act.modify f) := by
  intro s
  rw [Act.wp_modify]
  exact h s

/-- A change in memory. -/
theorem reach_memory (s : Store) {w : WAL} (hseg : w.segmentManager.segments = s.wal.segmentManager.segments)
    (hhs : w.hardState = s.wal.hardState) : Reach checks s w := ⟨_, .single (.memory hseg hhs id), rfl⟩

/-- An operation on the files. -/
theorem reach_file (s : Store) {m : SegmentManager} {es : List Entry} (hop : FileOp s.wal.segmentManager m es) :
    Reach checks s { s.wal with segmentManager := m } := ⟨_, .single (.file hop), rfl⟩

theorem made_writeRecord (r : Record) : Made checks (WAL.writeRecord r) := by
  unfold WAL.writeRecord
  split_ifs
  · refine made_get.bind fun w => (made_orPanic _).bind fun cur => Made.bind (made_when ?_) fun _ => ?_
    · exact made_modify fun s => reach_file s (.rollToNew _)
    · refine made_get.bind fun w => (made_orPanic _).bind fun active => Made.bind ?_ fun _ => made_pure _
      exact made_modify fun s => reach_file s (.append r)
  · exact made_throw _

theorem made_appendEntry (e : Entry) : Made checks (WAL.appendEntry e) := by
  refine (made_writeRecord _).bind fun place => (made_query _).bind fun walIndex => ?_
  exact made_modify fun s => reach_memory s rfl rfl

/-- A segment is cut, the segments after it are unlinked, and then the log in memory is cut. -/
theorem made_truncateSuffixFrom (index : ℕ) : Made checks (WAL.truncateSuffixFrom index) := by
  refine made_get.bind fun w => ?_
  split
  · exact made_throw _
  · rename_i place _
    split_ifs
    · exact made_throw _
    · refine made_modify fun s => ?_
      obtain ⟨s1, hcut, h1⟩ := @reach_file checks s _ _ (.truncate place.segmentId place.offset)
      have hsub : (s1.wal.segmentManager.removeSegmentsAfter place.segmentId).segments.Sublist
          s1.wal.segmentManager.segments := (List.rdropWhile_prefix _ _).sublist
      obtain ⟨s2, hunlink, h2⟩ := @reach_file checks s1 _ _ (.unlink hsub)
      refine (reach_memory s2 ?_ ?_).trans (hcut.trans hunlink) <;> rw [h2, h1]

theorem made_append (entries : List Entry) : Made checks (WAL.append entries) := by
  unfold WAL.append
  split
  · exact made_pure ()
  · refine made_get.bind fun w => ?_
    split_ifs
    · exact made_throw _
    · exact made_throw _
    rotate_left
    · exact made_throw _
    · refine (made_query _).bind fun new => ?_
      split
      · exact made_pure ()
      · rename_i first rest
        unfold WAL.appendFrom
        refine made_get.bind fun w => ?_
        split_ifs
        · exact made_throw _
        · refine (made_when (made_truncateSuffixFrom _)).bind fun _ => made_get.bind fun w => ?_
          split_ifs
          · exact made_throw _
          · exact made_each (fun e => made_appendEntry e) _

theorem made_saveConfState (cs : ConfState) : Made checks (WAL.saveConfState cs) :=
  (made_writeRecord _).bind fun _ => made_modify fun s => reach_memory s rfl rfl

theorem made_saveMembershipState (cs : ConfState) (m : ClusterMembership) (membershipIndex : ℕ) :
    Made checks (WAL.saveMembershipState cs m membershipIndex) := by
  unfold WAL.saveMembershipState
  split_ifs
  · exact (made_writeRecord _).bind fun _ => made_modify fun s => reach_memory s rfl rfl
  · exact made_throw _

/-- A HardState is recorded, under the conditions on the callers. -/
theorem made_saveHardState {s : Store} {hs : HardState} (hterm : s.wal.hardState.term ≤ hs.term)
    (hcommit : hs.commit ≤ s.wal.lastIndex) : (WAL.saveHardState hs).wp (fun _ w => Reach checks s w)
      (fun _ w => Reach checks s w) s.wal := by
  have hrecord : (WAL.writeRecord (.hardState hs)).wp
      (fun _ w => w.hardState = s.wal.hardState ∧ w.lastIndex = s.wal.lastIndex) (fun _ _ => True) s.wal := by
    unfold WAL.writeRecord
    split_ifs
    · rw [Act.wp_bind, Act.wp_get, Act.wp_bind, Act.wp_orPanic]
      intro cur _
      rw [Act.wp_bind, Act.wp_when, Act.wp_modify]
      constructor <;> intro _ <;> rw [Act.wp_bind, Act.wp_get, Act.wp_bind, Act.wp_orPanic] <;> intro active _
      · rw [Act.wp_bind, Act.wp_modify]
        exact ⟨rfl, rfl⟩
      · rw [Act.wp_bind, Act.wp_modify]
        exact ⟨rfl, rfl⟩
    · trivial
  unfold WAL.saveHardState
  rw [Act.wp_bind]
  refine Act.wp_mono (Act.wp_and (made_writeRecord (.hardState hs) s) hrecord) (fun place w hw => ?_) fun _ w hw => hw.1
  obtain ⟨⟨s1, hrun, rfl⟩, hhs, hlast⟩ := hw
  rw [Act.wp_modify]
  refine ⟨_, hrun.tail (.hardState ?_ ?_), rfl⟩
  · rw [hhs]
    exact hterm
  · rw [hlast]
    exact hcommit

/-- A call that saves the metadata: the HardState of the log comes from it, and its term does not fall. -/
theorem reach_save (s : Store) {w : WAL} (hseg : w.segmentManager.segments = s.wal.segmentManager.segments)
    (hterm : s.wal.hardState.term ≤ w.hardState.term) : Reach checks s w :=
  ⟨_, .single (@Step.save checks s { hardState := w.hardState } w hseg rfl hterm), rfl⟩

theorem made_migrateLegacyMembership (current : ClusterMembership) (membershipIndex : ℕ)
    (snapshotMembership : Option ClusterMembership) :
    Made checks (WAL.migrateLegacyMembership current membershipIndex snapshotMembership) := by
  refine made_get.bind fun w => ?_
  split_ifs
  · exact made_throw _
  · refine (made_query _).bind fun _ => (made_query _).bind fun snapshot => (made_query _).bind fun _ =>
      (made_query _).bind fun _ => ?_
    exact made_modify fun s => reach_save s rfl le_rfl

/-- A new segment, the metadata, and then the old segments go. -/
theorem made_applySnapshot (snap : Snapshot) : Made checks (WAL.applySnapshot snap) := by
  refine made_get.bind fun w => ?_
  split_ifs
  · exact made_throw _
  · refine (made_query _).bind fun membership => made_modify fun s => ?_
    let rolled := s.wal.segmentManager.rollToNew (snap.metadata.index + 1)
    obtain ⟨s1, hroll, h1⟩ := @reach_file checks s _ _ (.rollToNew (snap.metadata.index + 1))
    have hmax : s1.wal.hardState.term ≤ (s.wal.adopt snap membership).hardState.term := by
      rw [h1]
      exact le_max_left _ _
    obtain ⟨s2, hsave, h2⟩ := @reach_save checks s1 { s.wal.adopt snap membership with
      entries := []
      walIndex := ⟨[], snap.metadata.index + 1⟩
      firstIndex := snap.metadata.index + 1
      segmentManager := rolled } (by rw [h1]) hmax
    have hsub : (rolled.removeSegmentsBefore rolled.currentSegmentId).segments.Sublist
        s2.wal.segmentManager.segments := by
      rw [h2]
      exact List.filter_sublist
    obtain ⟨s3, hunlink, h3⟩ := @reach_file checks s2 _ _ (.unlink hsub)
    refine ⟨s3, (hroll.trans hsave).trans hunlink, ?_⟩
    rw [h3, h2]
    rfl

theorem made_applyLocalSnapshot (snap : Snapshot) : Made checks (WAL.applyLocalSnapshot snap) := by
  refine made_get.bind fun w => ?_
  split_ifs
  · exact made_throw _
  · exact made_throw _
  · refine (made_query _).bind fun t => ?_
    split_ifs
    · exact made_throw _
    · refine (made_query _).bind fun membership => (made_query _).bind fun _ => Made.bind ?_ fun _ => ?_
      · exact made_modify fun s => reach_save s rfl (le_max_left _ _)
      · refine made_modify fun s => ?_
        split
        · rename_i w' hclean
          obtain ⟨hhs, -, -, hsub⟩ := cleanup_ok hclean
          obtain ⟨s1, hunlink, h1⟩ := @reach_file checks s _ _ (.unlink hsub)
          exact (reach_memory s1 (by rw [h1]) (by rw [h1, hhs])).trans hunlink
        · exact Reach.refl s

end calls

end Recovery

open Recovery in
/-- After a crash at any point, the HardState that is recovered has at least the term of every recovered entry,
other than the entries of groups whose sync was not completed; and `commit` is in the log. -/
theorem recovered_terms (checks : SavedState → Except WalErr Unit) (segmentSize : ℕ) (s : Store)
    (hrun : Relation.ReflTransGen (Step checks) (Store.empty segmentSize) s) (saved : Option SavedState)
    (images : List Image) (w : WAL) (hc : s.Crash saved images)
    (hopen : recover checks s.wal.segmentSize saved images = .ok w) :
    w.hardState.commit ≤ w.lastIndex ∧
      ∀ e ∈ w.entries, e.term ≤ w.hardState.term ∨ e ∈ s.group ∨ e ∈ s.stray := by
  have hi := inv_run hrun
  have hrec := recover_ok hopen
  refine ⟨hrec.commit, fun e he => ?_⟩
  obtain ⟨v, hv, he⟩ := hc.entries e (hrec.entries e he)
  rcases hi.covered v hv e he with h | h | h
  · exact .inr (.inl h)
  · exact .inr (.inr h)
  · left
    rw [hrec.hardState]
    exact h.2 saved hc.saved

namespace Recovery

/-- An entry of term 2 and the HardState of term 2 are written and the segments are synced; the machine fails before
the metadata is renamed.  The entry is recovered, with the HardState of term 0 from before. -/
theorem behind_run : ∃ (s : Store) (saved : Option SavedState) (images : List Image) (w : WAL),
    Relation.ReflTransGen (Step fun _ => .ok ()) (Store.empty 4096) s ∧ s.Crash saved images ∧
      recover (fun _ => .ok ()) s.wal.segmentSize saved images = .ok w ∧
      (∀ e ∈ s.group, e.term ≤ s.wal.hardState.term) ∧ ∃ e, w.entries.getLast? = some e ∧ w.hardState.term < e.term := by
  refine ⟨_, some {}, [⟨⟨1, 1, [.entry { index := 1, term := 2 }, .hardState { term := 2 }]⟩, false⟩], _,
    .tail (.tail (.tail (.tail (.tail (.tail .refl
      (@Step.save _ _ {} (WAL.empty 4096) rfl rfl le_rfl))
      (.synced rfl (by intro e he; cases he)))
      (.file (.append (.entry { index := 1, term := 2 }))))
      (.file (.append (.hardState { term := 2 }))))
      (@Step.hardState _ _ { term := 2 } (Nat.zero_le _) (Nat.zero_le _)))
      .syncSegments, ?_, rfl, ?_, ?_⟩
  · refine ⟨List.mem_singleton.mpr rfl, fun i hi => ?_, fun _ g hg => ?_⟩
    · rw [List.mem_singleton.mp hi]
      refine ⟨⟨_, List.mem_cons_self, _, List.mem_cons_self, rfl, rfl, List.prefix_rfl⟩, fun _ => ⟨?_, rfl⟩⟩
      exact List.mem_cons_self
    · exact ⟨_, List.mem_singleton.mpr rfl, (List.mem_singleton.mp hg).symm⟩
  · intro e he
    rw [List.mem_singleton.mp he]
  · exact ⟨{ index := 1, term := 2 }, rfl, by decide⟩

end Recovery

open Recovery in
/-- The entry belongs to a group whose sync was not completed. -/
theorem recovered_terms_behind : ∃ (s : Store) (w : WAL), w.hardState.commit ≤ w.lastIndex ∧
    ∃ e ∈ w.entries, w.hardState.term < e.term ∧ (e ∈ s.group ∨ e ∈ s.stray) := by
  obtain ⟨s, saved, images, w, hrun, hc, hopen, -, e, hlast, hlt⟩ := behind_run
  obtain ⟨hcommit, hterms⟩ := recovered_terms _ _ s hrun saved images w hc hopen
  have he := List.mem_of_getLast? hlast
  exact ⟨s, w, hcommit, e, he, hlt, (hterms e he).resolve_left (Nat.not_le_of_lt hlt)⟩

open Recovery in
/-- The HardState that is recovered may have a smaller term than the last recovered entry, although no entry has a
greater term than the HardState of its group. -/
theorem recovered_term_behind : ¬ ∀ (s : Store) (saved : Option SavedState) (images : List Image) (w : WAL),
    Relation.ReflTransGen (Step fun _ => .ok ()) (Store.empty 4096) s → s.Crash saved images →
      recover (fun _ => .ok ()) s.wal.segmentSize saved images = .ok w →
      (∀ e ∈ s.group, e.term ≤ s.wal.hardState.term) →
        w.hardState.commit ≤ w.lastIndex ∧ ∀ e, w.entries.getLast? = some e → e.term ≤ w.hardState.term := by
  intro hclaim
  obtain ⟨s, saved, images, w, hrun, hc, hopen, hgroup, e, hlast, hlt⟩ := behind_run
  exact absurd ((hclaim s saved images w hrun hc hopen hgroup).2 e hlast) (Nat.not_le_of_lt hlt)

end Raftz
