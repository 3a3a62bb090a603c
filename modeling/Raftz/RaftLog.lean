import Raftz.Storage

/-! # The combined log

`Unstable` of `unstable_log.zig` (the buffer of entries and of a snapshot that
are not yet in the storage) and `RaftLog` of `raft_log.zig`, which stitches it
together with a storage.

Queries that cannot abort are functions into `Except`; everything else is an
`Act` on the log, so that an error leaves the writes made before it in place. -/

open Base

namespace Raftz

/-- Entries with index at least `offset` and a received snapshot, not yet in the storage. -/
structure Unstable where
  snapshot : Option Snapshot := none
  entries : List Entry := []
  offset : ℕ
  deriving DecidableEq, Repr

namespace Unstable

/-- An empty buffer. -/
def init (offset : ℕ) : Unstable := { offset := offset }

/-- First index once the snapshot is applied. -/
def maybeFirstIndex (u : Unstable) : Option ℕ := u.snapshot.map (fun s => s.metadata.index + 1)

/-- Last index of the buffer. -/
def maybeLastIndex (u : Unstable) : Option ℕ :=
  if u.entries.isEmpty then u.snapshot.map (fun s => s.metadata.index)
  else some (u.offset + (u.entries.length - 1))

/-- Term at an index the buffer knows. -/
def maybeTerm (u : Unstable) (idx : ℕ) : Option ℕ :=
  if idx < u.offset then
    match u.snapshot with
    | none => none
    | some s => if idx = s.metadata.index then some s.metadata.term else none
  else
    match u.maybeLastIndex with
    | none => none
    | some last => if last < idx then none else (u.entries[idx - u.offset]?).map Entry.term

/-- The buffered entries have been persisted up to `(index, term)`, which must be the tail. -/
def stableEntries (u : Unstable) (index term : ℕ) : Option Unstable :=
  match u.snapshot, u.entries.getLast? with
  | none, some tail =>
      if tail.index = index ∧ tail.term = term then
        some { u with offset := tail.index + 1, entries := [] }
      else none
  | _, _ => none

/-- Replace the buffer by a snapshot. -/
def restore (_u : Unstable) (snapshot : Snapshot) : Unstable :=
  { snapshot := some snapshot, entries := [], offset := snapshot.metadata.index + 1 }

/-- Append (or replace) entries starting at the index of the first one; a gap aborts. -/
def truncateAndAppend (u : Unstable) (ents : List Entry) : Option Unstable :=
  match ents with
  | [] => none
  | e :: _ =>
      let after := e.index
      if after = u.offset + u.entries.length then some { u with entries := u.entries ++ ents }
      else if after ≤ u.offset then some { u with offset := after, entries := ents }
      else if after ≤ u.offset + u.entries.length then
        some { u with entries := u.entries.take (after - u.offset) ++ ents }
      else none

/-- The snapshot with this index has been persisted. -/
def stableSnapshot (u : Unstable) (index : ℕ) : Option Unstable :=
  match u.snapshot with
  | some s => if s.metadata.index = index then some { u with snapshot := none } else none
  | none => none

/-- The entries in `[lo, hi)`; a range outside the buffer aborts. -/
def slice (u : Unstable) (lo hi : ℕ) : Option (List Entry) :=
  if lo ≤ hi ∧ u.offset ≤ lo ∧ hi ≤ u.offset + u.entries.length then
    some ((u.entries.drop (lo - u.offset)).take (hi - lo))
  else none

end Unstable

/-- Outcome of `RaftLog.maybeAppend`. -/
structure MaybeAppendResult where
  termMatched : Bool
  conflictIndex : ℕ
  lastIndex : ℕ
  deriving DecidableEq, Repr

/-- A storage with the unstable buffer in front of it. -/
structure RaftLog (σ : Type) where
  store : σ
  unstable : Unstable
  committed : ℕ
  persisted : ℕ
  applied : ℕ
  maxApplyUnpersistedLogLimit : ℕ

namespace RaftLog

variable {σ : Type} [Storage σ]

/-- The log over a storage with an empty buffer. -/
def init (store : σ) (maxApplyUnpersistedLogLimit : ℕ) : Except Err (RaftLog σ) := do
  let lastIndex ← Storage.lastIndex store
  let firstIndex ← Storage.firstIndex store
  return {
    store := store
    unstable := Unstable.init (lastIndex + 1)
    committed := wrapPred firstIndex
    persisted := lastIndex
    applied := wrapPred firstIndex
    maxApplyUnpersistedLogLimit := maxApplyUnpersistedLogLimit }

/-- Last index; 0 when the storage fails. -/
def lastIndex (l : RaftLog σ) : ℕ :=
  match l.unstable.maybeLastIndex with
  | some i => i
  | none =>
      match Storage.lastIndex l.store with
      | .ok i => i
      | .error _ => 0

/-- First index; 0 when the storage fails. -/
def firstIndex (l : RaftLog σ) : ℕ :=
  match l.unstable.maybeFirstIndex with
  | some i => i
  | none =>
      match Storage.firstIndex l.store with
      | .ok i => i
      | .error _ => 0

/-- Term at an index, 0 outside the log. -/
def term (l : RaftLog σ) (idx : ℕ) : Except Err ℕ :=
  if idx < wrapPred l.firstIndex ∨ l.lastIndex < idx then .ok 0
  else
    match l.unstable.maybeTerm idx with
    | some t => .ok t
    | none => Storage.term l.store idx

/-- Term of the last entry. -/
def lastTerm (l : RaftLog σ) : Except Err ℕ :=
  match l.term l.lastIndex with
  | .ok t => .ok t
  | .error .compacted => .ok 0
  | .error e => .error e

/-- Does the log hold this term at this index? -/
def matchTerm (l : RaftLog σ) (idx term : ℕ) : Except Err Bool :=
  if idx < wrapPred l.firstIndex ∨ l.lastIndex < idx then .ok false
  else
    match l.term idx with
    | .ok t => .ok (t == term)
    | .error .compacted => .ok false
    | .error .unavailable => .ok false
    | .error e => .error e

/-- The first index at which the entries disagree with the log, 0 if there is none. -/
def findConflict (l : RaftLog σ) : List Entry → Except Err ℕ
  | [] => .ok 0
  | e :: es =>
      match l.matchTerm e.index e.term with
      | .error err => .error err
      | .ok true => l.findConflict es
      | .ok false => .ok e.index

/-- Raise `persisted` when the storage confirms the entry. -/
def maybePersist (index term : ℕ) : Act Err (RaftLog σ) Bool := do
  let l ← Act.get
  let firstUpdateIndex := match l.unstable.snapshot with
    | some s => s.metadata.index
    | none => l.unstable.offset
  if l.persisted < index ∧ index < firstUpdateIndex then do
    let t ← Act.query (fun l => Storage.term l.store index)
    if t = term then do
      Act.modify (fun l => { l with persisted := index })
      return true
    else return false
  else return false

/-- Raise `persisted` to the index of a persisted snapshot. -/
def maybePersistSnapshot (index : ℕ) : Act Err (RaftLog σ) Bool := do
  let l ← Act.get
  if index ≤ l.persisted then return false
  else do
    Act.assert (index ≤ l.committed)
    Act.assert (index < l.unstable.offset)
    Act.modify (fun l => { l with persisted := index })
    return true

/-- Raise `committed`; never beyond the log. -/
def commitTo (toCommit : ℕ) : Act Err (RaftLog σ) Unit := do
  let l ← Act.get
  if toCommit = maxU64 then Act.throw .fatal
  else if toCommit ≤ l.committed then return ()
  else if l.lastIndex < toCommit then Act.throw .fatal
  else Act.modify (fun l => { l with committed := toCommit })

/-- Commit up to `maxIndex` if the entry there has this term. -/
def maybeCommit (maxIndex term : ℕ) : Act Err (RaftLog σ) Bool := do
  let l ← Act.get
  if l.committed < maxIndex then do
    let t ← Act.query (fun l => l.term maxIndex)
    if t = term then do
      commitTo maxIndex
      return true
    else return false
  else return false

/-- Are the entries consecutive with non-decreasing terms after `prev`? -/
def validTail (prev : Entry) : List Entry → Bool
  | [] => true
  | e :: es => e.index == prev.index + 1 && decide (prev.term ≤ e.term) && validTail e es

/-- The checks before entries `e :: es` may be appended. -/
def validateAppend (l : RaftLog σ) (e : Entry) (es : List Entry) : Except Err Unit :=
  if ((e :: es).getLast (List.cons_ne_nil e es)).index = maxU64 then .error .fatal
  else if e.index ≤ l.committed then .error .fatal
  else if maxU64 ≤ l.lastIndex then .error .fatal
  else if l.lastIndex + 1 < e.index then .error .fatal
  else
    match (if l.firstIndex ≤ e.index then l.term (e.index - 1) else .ok 0) with
    | .error .compacted => if validTail e es then .ok () else .error .fatal
    | .error err => .error err
    | .ok previousTerm =>
        if e.term < previousTerm then .error .fatal
        else if validTail e es then .ok () else .error .fatal

/-- Append entries to the unstable buffer and return the new last index. -/
def append (ents : List Entry) : Act Err (RaftLog σ) ℕ :=
  match ents with
  | [] => Act.gets lastIndex
  | e :: es => do
      Act.query (fun l => l.validateAppend e es)
      let l ← Act.get
      let u ← Act.orPanic (l.unstable.truncateAndAppend ents)
      Act.modify (fun l => { l with persisted := min l.persisted (e.index - 1), unstable := u })
      Act.gets lastIndex

/-- Are the indexes of the entries those after `idx`, one by one? -/
def contiguousAfter (idx : ℕ) : List Entry → Bool
  | [] => true
  | e :: es => e.index == idx + 1 && contiguousAfter (idx + 1) es

/-- Append the entries from the first conflict on; a conflict with a committed entry is an error. -/
def appendConflict (idx conflictIdx : ℕ) (ents : List Entry) : Act Err (RaftLog σ) Unit := do
  let l ← Act.get
  if conflictIdx = 0 then return ()
  else if conflictIdx ≤ l.committed then Act.throw .fatal
  else do
    let _ ← append (ents.drop (conflictIdx - (idx + 1)))
    return ()

/-- Append a leader's entries after `(idx, term)` and raise the commit index. -/
def maybeAppend (idx term committed : ℕ) (ents : List Entry) :
    Act Err (RaftLog σ) MaybeAppendResult := do
  let matched ← Act.query (fun l => l.matchTerm idx term)
  if matched = false then return ⟨false, 0, 0⟩
  else do
    let lastNewIdx := idx + ents.length
    if maxU64 < lastNewIdx then Act.throw .fatal
    else if ents ≠ [] ∧ lastNewIdx = maxU64 then Act.throw .fatal
    else if contiguousAfter idx ents = false then Act.throw .fatal
    else do
      let conflictIdx ← Act.query (fun l => l.findConflict ents)
      appendConflict idx conflictIdx ents
      commitTo (min committed lastNewIdx)
      return ⟨true, conflictIdx, lastNewIdx⟩

/-- Is `[low, high)` a range of the log? -/
def mustCheckOutOfBounds (l : RaftLog σ) (low high : ℕ) : Except Err Unit :=
  if high < low then .error .fatal
  else if low < l.firstIndex then .error .compacted
  else if l.firstIndex + (l.lastIndex + 1 - l.firstIndex) < high then .error .fatal
  else .ok ()

/-- The entries of the storage part of a range; `Unavailable` aborts. -/
def storeEntries (low high : ℕ) (maxSize : Option ℕ) (context : GetEntriesContext) :
    Act Err (RaftLog σ) (List Entry) :=
  Act.catchErr (Act.query (fun l => Storage.entries l.store low high maxSize context))
    (fun e => if e = .unavailable then Act.panic else Act.throw e)

/-- The entries in `[low, high)`, cut to the size limit. -/
def slice (low high : ℕ) (maxSize : Option ℕ) (context : GetEntriesContext) :
    Act Err (RaftLog σ) (List Entry) := do
  Act.query (fun l => l.mustCheckOutOfBounds low high)
  if low = high then return []
  else do
    let l ← Act.get
    let offset := l.unstable.offset
    if low < offset then do
      let ents ← storeEntries low (min high offset) maxSize context
      if ents.length < min high offset - low then return ents
      else if offset < high then do
        let rest ← Act.orPanic (l.unstable.slice (max low offset) high)
        return limitSize (ents ++ rest) maxSize
      else return limitSize ents maxSize
    else do
      let rest ← Act.orPanic (l.unstable.slice (max low offset) high)
      return limitSize rest maxSize

/-- The entries from `idx` to the end, cut to the size limit. -/
def getEntries (idx : ℕ) (maxSize : Option ℕ) (context : GetEntriesContext) :
    Act Err (RaftLog σ) (List Entry) := do
  let l ← Act.get
  if l.lastIndex < idx then return []
  else slice idx (l.lastIndex + 1) maxSize context

/-- Record that the entries up to `idx` have been applied. -/
def appliedTo (idx : ℕ) : Act Err (RaftLog σ) Unit := do
  if idx = 0 then return ()
  else do
    let l ← Act.get
    Act.assert (idx ≤ l.committed ∧ l.applied ≤ idx)
    Act.modify (fun l => { l with applied := idx })

/-- The backward walk of `findConflictByTerm`. -/
def conflictByTerm (l : RaftLog σ) (term : ℕ) : ℕ → Except Err (ℕ × ℕ)
  | 0 =>
      match l.term 0 with
      | .error e => .error e
      | .ok t =>
          if term < t then
            -- the index wraps around; beyond the log the term is 0
            match l.term maxU64 with
            | .error e => .error e
            | .ok t' => .ok (maxU64, t')
          else .ok (0, t)
  | i + 1 =>
      match l.term (i + 1) with
      | .error e => .error e
      | .ok t => if term < t then l.conflictByTerm term i else .ok (i + 1, t)

/-- The last index at or before `index` whose term is at most `term`. -/
def findConflictByTerm (l : RaftLog σ) (index term : ℕ) : Except Err (ℕ × Option ℕ) :=
  if l.lastIndex < index then .ok (index, none)
  else
    match l.conflictByTerm term index with
    | .error e => .error e
    | .ok (i, t) => .ok (i, some t)

/-- The pending snapshot if it is recent enough, else one of the storage. -/
def getSnapshot (l : RaftLog σ) (requestIndex dest : ℕ) : Except Err Snapshot :=
  match l.unstable.snapshot with
  | some s =>
      if requestIndex ≤ s.metadata.index then .ok s
      else Storage.getSnapshot l.store requestIndex dest
  | none => Storage.getSnapshot l.store requestIndex dest

/-- Commit index and its term. -/
def commitInfo (l : RaftLog σ) : Except Err (ℕ × ℕ) :=
  match l.term l.committed with
  | .ok t => .ok (l.committed, t)
  | .error e => .error e

/-- Is a log that ends at `(lastIndex, term)` at least as up to date as this one? -/
def isUpToDate (l : RaftLog σ) (lastIndex term : ℕ) : Except Err Bool :=
  match l.lastTerm with
  | .ok lt => .ok (decide (lt < term) || (term == lt && decide (l.lastIndex ≤ lastIndex)))
  | .error e => .error e

/-- Replace the log by a snapshot. -/
def restore (snapshot : Snapshot) : Act Err (RaftLog σ) Unit := do
  let l ← Act.get
  if snapshot.metadata.index = maxU64 then Act.throw .fatal
  else if snapshot.metadata.index < l.committed then Act.throw .fatal
  else Act.modify (fun l => { l with
    unstable := l.unstable.restore snapshot
    persisted := min l.persisted l.committed
    committed := snapshot.metadata.index })

/-- The entries up to here may be applied. -/
def appliedIndexUpperBound (l : RaftLog σ) : ℕ :=
  min l.committed ((l.persisted + l.maxApplyUnpersistedLogLimit) % 2 ^ 64)

/-- Are there entries to apply after `sinceIdx`? -/
def hasNextEntriesSince (l : RaftLog σ) (sinceIdx : ℕ) : Bool :=
  decide (max (sinceIdx + 1) l.firstIndex < l.appliedIndexUpperBound + 1)

/-- The entries to apply after `sinceIdx`. -/
def nextEntriesSince (sinceIdx : ℕ) (maxSize : Option ℕ) :
    Act Err (RaftLog σ) (Option (List Entry)) := do
  let l ← Act.get
  if l.hasNextEntriesSince sinceIdx then do
    let es ← slice (max (sinceIdx + 1) l.firstIndex) (l.appliedIndexUpperBound + 1) maxSize .genReady
    return some es
  else return none

/-- The pending snapshot has been persisted. -/
def stableSnapshot (index : ℕ) : Act Err (RaftLog σ) Unit := do
  let l ← Act.get
  let u ← Act.orPanic (l.unstable.stableSnapshot index)
  Act.modify (fun l => { l with unstable := u })

/-- The unstable entries have been persisted. -/
def stableEntries (index term : ℕ) : Act Err (RaftLog σ) Unit := do
  let l ← Act.get
  let u ← Act.orPanic (l.unstable.stableEntries index term)
  Act.modify (fun l => { l with unstable := u })

/-- Does `[low, high)` hold an entry with `p`?  Pages of at most `pageSize` bytes are read until one
is found; an empty page is an error.  The first argument bounds the number of pages. -/
def scan (p : Entry → Bool) (high pageSize : ℕ) (context : GetEntriesContext) :
    ℕ → ℕ → Act Err (RaftLog σ) Bool
  | 0, _ => return false
  | fuel + 1, low =>
      if low < high then do
        let got ← slice low high (some pageSize) context
        if got.isEmpty then Act.throw .zeroEntriesInSlice
        else if got.any p then return true
        else scan p high pageSize context fuel (low + got.length)
      else return false

end RaftLog

end Raftz
