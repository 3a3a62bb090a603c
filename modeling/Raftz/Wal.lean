import Mathlib.Data.List.DropRight
import Raftz.Storage

/-! # The write-ahead log

`WAL` of `wal.zig`: the entries, the hard state, the configuration, the
membership and the last snapshot in memory, the index that places every entry
in a segment (`WALIndex`), and the segments themselves (`SegmentManager`).

A record is kept as the value it encodes, together with the length of its
encoding, which decides where segments roll.  The file system accepts every
write; the metadata and snapshot files, which are only read when a log is
opened, are left out. -/

open Base

namespace Raftz

/-! ### Records and segments -/

/-- A record of a segment. -/
inductive Record
  | entry (e : Entry)
  | hardState (hs : HardState)
  | confState (cs : ConfState)
  deriving DecidableEq, Repr

namespace Record

/-- Length of the encoded value. -/
def payloadSize : Record → ℕ
  | .entry e => 1 + 8 + 8 + 4 + 4 + e.data.length + 4 + e.context.length
  | .hardState _ => 24
  | .confState cs => 4 + 8 * cs.voters.length + (4 + 8 * cs.learners.length) +
      (4 + 8 * cs.votersOutgoing.length) + (4 + 8 * cs.learnersNext.length) + 1

/-- Length of the record: a header of sixteen bytes, the value, and padding to eight bytes. -/
def size (r : Record) : ℕ := 16 + r.payloadSize + (8 - r.payloadSize % 8) % 8

/-- Can the length of the record be written in four bytes? -/
abbrev Fits (r : Record) : Prop := r.size < 2 ^ 32

end Record

/-- A segment file: its header and its records. -/
structure Segment where
  segmentId : ℕ
  firstIndex : ℕ
  records : List Record := []
  deriving DecidableEq, Repr

namespace Segment

/-- Size of the header. -/
def headerSize : ℕ := 32

/-- Where the next record goes. -/
def writeOffset (s : Segment) : ℕ := headerSize + (s.records.map Record.size).sum

/-- The records that start before an offset of the body. -/
def keep : ℕ → List Record → List Record
  | _, [] => []
  | 0, _ :: _ => []
  | n + 1, r :: rs => r :: keep (n + 1 - r.size) rs

/-- Cut the file at an offset. -/
def truncate (s : Segment) (offset : ℕ) : Segment :=
  { s with records := keep (offset - headerSize) s.records }

end Segment

/-- The segments in ascending order, and the id of the one that is written. -/
structure SegmentManager where
  segments : List Segment := []
  currentSegmentId : ℕ := 0
  deriving DecidableEq, Repr

namespace SegmentManager

variable (m : SegmentManager)

/-- The segment that is written. -/
def getCurrent : Option Segment := m.segments.getLast?

/-- Start a new segment. -/
def rollToNew (firstIndex : ℕ) : SegmentManager where
  segments := m.segments ++ [⟨m.currentSegmentId + 1, firstIndex, []⟩]
  currentSegmentId := m.currentSegmentId + 1

/-- Remove the segments with a smaller id. -/
def removeSegmentsBefore (id : ℕ) : SegmentManager :=
  { m with segments := m.segments.filter fun s => decide (id ≤ s.segmentId) }

/-- Remove the segments with a larger id, from the last one on. -/
def removeSegmentsAfter (id : ℕ) : SegmentManager :=
  let segments := m.segments.rdropWhile fun s => decide (id < s.segmentId)
  ⟨segments, (segments.getLast?.map Segment.segmentId).getD 0⟩

/-- The segment with an id. -/
def get (id : ℕ) : Option Segment := m.segments.find? fun s => s.segmentId == id

/-- Write a record at the end of the current segment. -/
def append (r : Record) : SegmentManager :=
  match m.getCurrent with
  | none => m
  | some s => { m with segments := m.segments.dropLast ++ [{ s with records := s.records ++ [r] }] }

/-- Cut the segment with an id. -/
def truncate (id offset : ℕ) : SegmentManager :=
  { m with segments := m.segments.map fun s => if s.segmentId = id then s.truncate offset else s }

end SegmentManager

/-! ### The index of the entries -/

/-- Where an entry is, and its term. -/
structure IndexEntry where
  segmentId : ℕ
  offset : ℕ
  length : ℕ
  term : ℕ
  deriving DecidableEq, Repr

/-- The places of the entries from `firstIndex` on. -/
structure WALIndex where
  entries : List IndexEntry := []
  firstIndex : ℕ := 1
  deriving DecidableEq, Repr

namespace WALIndex

variable (x : WALIndex)

/-- Index of the last place. -/
def lastIndex : ℕ := if x.entries = [] then x.firstIndex - 1 else x.firstIndex + x.entries.length - 1

/-- Add the place of the next entry. -/
def insert (index : ℕ) (e : IndexEntry) : Except Err WALIndex :=
  if index ≠ x.firstIndex + x.entries.length then .error .fatal
  else .ok { x with entries := x.entries ++ [e] }

/-- The place of an entry. -/
def lookup (index : ℕ) : Option IndexEntry :=
  if x.entries = [] ∨ index < x.firstIndex ∨ x.lastIndex < index then none
  else x.entries[index - x.firstIndex]?

/-- The term of an entry. -/
def term (index : ℕ) : Option ℕ := (x.lookup index).map IndexEntry.term

/-- Forget the places from an index on. -/
def truncateFrom (index : ℕ) : WALIndex :=
  if x.entries = [] ∨ x.lastIndex < index then x
  else if index ≤ x.firstIndex then { x with entries := [] }
  else { x with entries := x.entries.take (index - x.firstIndex) }

/-- Forget the places below an index. -/
def truncateBefore (index : ℕ) : WALIndex :=
  if index ≤ x.firstIndex then x
  else if x.entries = [] ∨ x.lastIndex < index then ⟨[], index⟩
  else ⟨x.entries.drop (index - x.firstIndex), index⟩

end WALIndex

/-! ### The log -/

/-- Segmented write-ahead log. -/
structure WAL where
  segmentSize : ℕ := 64 * 1024 * 1024
  segmentManager : SegmentManager := {}
  walIndex : WALIndex := {}
  entries : List Entry := []
  hardState : HardState := {}
  confState : ConfState := {}
  clusterMembership : Option ClusterMembership := none
  membershipIndex : ℕ := 0
  /-- Index and term of the last snapshot; its configuration is not kept here. -/
  snapshotMetadata : SnapshotMetadata := {}
  snapshot : Option Snapshot := none
  firstIndex : ℕ := 1
  deriving DecidableEq, Repr

namespace WAL

/-- A log opened on an empty directory. -/
def empty (segmentSize : ℕ) : WAL where
  segmentSize := segmentSize
  segmentManager := SegmentManager.rollToNew {} 1

section queries
variable (w : WAL)

/-- Last index. -/
def lastIndex : ℕ :=
  match w.entries.getLast? with
  | none => max w.snapshotMetadata.index (w.firstIndex - 1)
  | some e => e.index

/-- Term at an index. -/
def term (idx : ℕ) : Except Err ℕ :=
  if idx = w.snapshotMetadata.index then .ok w.snapshotMetadata.term
  else if idx < w.firstIndex then .error .compacted
  else
    match w.walIndex.term idx with
    | none => .error .unavailable
    | some t => .ok t

/-- The entries in `[low, high)`, cut to the size limit. -/
def readEntries (low high : ℕ) (maxSize : Option ℕ) : Except Err (List Entry) :=
  if w.entries = [] then .ok []
  else if low < w.firstIndex then .error .compacted
  else if w.lastIndex + 1 < high then .error .fatal
  else
    .ok (limitSize ((w.entries.drop (low - w.firstIndex)).take (high - low)) maxSize)

/-- The segment that holds the entry at an index, or the current one when there is no such entry. -/
def firstSegmentIdFor (firstIndex : ℕ) : Except Err ℕ :=
  if firstIndex ≤ w.lastIndex then
    match w.walIndex.lookup firstIndex with
    | none => .error .fatal
    | some x => .ok x.segmentId
  else .ok w.segmentManager.currentSegmentId

/-- The membership of a snapshot that is to be installed: a log that has one wants one. -/
def snapshotMembership (snap : Snapshot) : Except Err (Option ClusterMembership) := do
  let membership ← decodeSnapshotMembership snap
  ensure (¬ (membership = none ∧ w.clusterMembership ≠ none)) .missingClusterMembership
  return membership

/-- The batch without the leading entries that are stored already. -/
def skipEqual : List Entry → Except Err (List Entry)
  | [] => .ok []
  | e :: es =>
      if e.index ≤ w.lastIndex then
        match w.entries[e.index - w.firstIndex]? with
        | none => .error .fatal
        | some x => if x = e then skipEqual es else .ok (e :: es)
      else .ok (e :: es)

/-- Remove the segments below the one of the first entry. -/
def cleanupCompactedSegments : Except Err WAL :=
  if w.entries = [] then
    if w.segmentManager.currentSegmentId = 0 then .ok w
    else
      .ok { w with segmentManager :=
        w.segmentManager.removeSegmentsBefore w.segmentManager.currentSegmentId }
  else
    match w.walIndex.lookup w.firstIndex with
    | none => .error .fatal
    | some x =>
        if x.segmentId = 0 then .ok w
        else .ok { w with segmentManager := w.segmentManager.removeSegmentsBefore x.segmentId }

/-- Forget the entries below an index. -/
def compactMemory (compactIndex : ℕ) : WAL :=
  { w with
    entries := w.entries.drop (compactIndex - w.firstIndex)
    walIndex := w.walIndex.truncateBefore compactIndex
    firstIndex := compactIndex }

/-- What every snapshot changes: the hard state, the configuration and the membership. -/
def adopt (snap : Snapshot) (membership : Option ClusterMembership) : WAL :=
  { w with
    snapshot := some snap
    snapshotMetadata := { index := snap.metadata.index, term := snap.metadata.term }
    confState := snap.metadata.confState
    clusterMembership := membership
    membershipIndex := if membership = none then 0 else snap.metadata.index
    hardState := { w.hardState with
      term := max w.hardState.term snap.metadata.term
      commit := max w.hardState.commit snap.metadata.index } }

/-- The first index noted in a segment that follows `cur`. -/
def nextFirstIndex (cur : Segment) : ℕ :=
  match w.entries.getLast? with
  | some e => e.index + 1
  | none => cur.firstIndex

end queries

/-! ### Writes -/

/-- Write a record, rolling the segment when it is full; the place of the record. -/
def writeRecord (r : Record) : Act Err WAL IndexEntry := do
  if r.Fits then
    let w ← Act.get
    let cur ← Act.orPanic w.segmentManager.getCurrent
    Act.when (w.segmentSize < cur.writeOffset + r.size ∧ Segment.headerSize < cur.writeOffset) <|
      Act.modify fun w => { w with
        segmentManager := w.segmentManager.rollToNew (w.nextFirstIndex cur) }
    let w ← Act.get
    let active ← Act.orPanic w.segmentManager.getCurrent
    Act.modify fun w => { w with segmentManager := w.segmentManager.append r }
    return ⟨active.segmentId, active.writeOffset, r.size, 0⟩
  else Act.throw .messageTooLarge

/-- Write one entry and remember it. -/
def appendEntry (e : Entry) : Act Err WAL Unit := do
  let place ← writeRecord (.entry e)
  let walIndex ← Act.query fun w => w.walIndex.insert e.index { place with term := e.term }
  Act.modify fun w => { w with walIndex := walIndex, entries := w.entries ++ [e] }

/-- Discard the entries from an index on, on disk and in memory. -/
def truncateSuffixFrom (index : ℕ) : Act Err WAL Unit := do
  let w ← Act.get
  match w.walIndex.lookup index with
  | none => Act.throw .fatal
  | some place =>
      if (w.segmentManager.get place.segmentId).isNone then Act.throw .fatal
      else
        Act.modify fun w => { w with
          segmentManager := (w.segmentManager.truncate place.segmentId place.offset).removeSegmentsAfter
            place.segmentId
          entries := w.entries.take (index - w.firstIndex)
          walIndex := w.walIndex.truncateFrom index }

/-- Write what is left of a batch, replacing the stored entries from its first index on. -/
def appendFrom (first : Entry) (rest : List Entry) : Act Err WAL Unit := do
  let w ← Act.get
  if first.index ≤ w.lastIndex ∧ first.index ≤ w.hardState.commit then Act.throw .fatal
  else
    Act.when (first.index ≤ w.lastIndex) (truncateSuffixFrom first.index)
    let w ← Act.get
    if first.index ≠ w.lastIndex + 1 then Act.throw .fatal
    else Act.each (first :: rest) appendEntry

/-- Append entries.  Leading entries that are stored already are skipped; when nothing is left, the
log stays as it is, with the entries beyond the batch. -/
def append (entries : List Entry) : Act Err WAL Unit := do
  match entries with
  | [] => pure ()
  | e :: _ =>
      let w ← Act.get
      if ¬ Log.Consecutive e.index entries then Act.throw .fatal
      else if e.index < w.firstIndex then Act.throw .fatal
      else if w.lastIndex + 1 < e.index then Act.throw .fatal
      else
        let new ← Act.query fun w => w.skipEqual entries
        match new with
        | [] => pure ()
        | first :: rest => appendFrom first rest

/-- Record a hard state. -/
def saveHardState (hs : HardState) : Act Err WAL Unit := do
  let _ ← writeRecord (.hardState hs)
  Act.modify fun w => { w with hardState := hs }

/-- Record a configuration. -/
def saveConfState (cs : ConfState) : Act Err WAL Unit := do
  let _ ← writeRecord (.confState cs)
  Act.modify fun w => { w with confState := cs }

/-- Record a configuration and its membership. -/
def saveMembershipState (cs : ConfState) (m : ClusterMembership) (membershipIndex : ℕ) :
    Act Err WAL Unit := do
  if (m.validate cs).isOk then
    let _ ← writeRecord (.confState cs)
    Act.modify fun w => { w with
      confState := cs, clusterMembership := some m, membershipIndex := membershipIndex }
  else Act.throw .invalidClusterMembership

/-- Give a log of an older version a membership. -/
def migrateLegacyMembership (current : ClusterMembership) (membershipIndex : ℕ)
    (snapshotMembership : Option ClusterMembership) : Act Err WAL Unit := do
  let w ← Act.get
  if w.clusterMembership ≠ none then Act.throw .invalidConfig
  else
    Act.query fun w => validateLegacyMembershipMigration current membershipIndex w.hardState
      w.confState w.snapshot snapshotMembership
    let snapshot ← Act.query fun w => historicalSnapshot w.snapshot snapshotMembership
    let _ ← Act.query fun w => w.firstSegmentIdFor w.firstIndex
    let _ ← Act.query fun _ => encodeMembership current
    Act.modify fun w => { w with
      clusterMembership := some current
      membershipIndex := membershipIndex
      snapshot := snapshot.or w.snapshot }

/-- Install a received snapshot. -/
def applySnapshot (snap : Snapshot) : Act Err WAL Unit := do
  let w ← Act.get
  if snap.metadata.index ≤ w.snapshotMetadata.index then Act.throw .snapshotOutOfDate
  else
    let membership ← Act.query fun w => w.snapshotMembership snap
    let first := snap.metadata.index + 1
    Act.modify fun w =>
      let rolled := w.segmentManager.rollToNew first
      { w.adopt snap membership with
        entries := []
        walIndex := ⟨[], first⟩
        firstIndex := first
        segmentManager := rolled.removeSegmentsBefore rolled.currentSegmentId }

/-- Install a snapshot of the own state machine, keeping the entries above it. -/
def applyLocalSnapshot (snap : Snapshot) : Act Err WAL Unit := do
  let w ← Act.get
  if snap.metadata.index ≤ w.snapshotMetadata.index ∨ snap.metadata.index < w.firstIndex then
    Act.throw .snapshotOutOfDate
  else if w.lastIndex < snap.metadata.index then Act.throw .fatal
  else
    let t ← Act.query fun w => w.term snap.metadata.index
    if t ≠ snap.metadata.term then Act.throw .fatal
    else
      let membership ← Act.query fun w => w.snapshotMembership snap
      let _ ← Act.query fun w => w.firstSegmentIdFor (snap.metadata.index + 1)
      Act.modify fun w => (w.adopt snap membership).compactMemory (snap.metadata.index + 1)
      -- A clean-up that fails is only logged.
      Act.modify fun w =>
        match w.cleanupCompactedSegments with
        | .ok w' => w'
        | .error _ => w

end WAL

end Raftz
