import Raftz.Interchange

/-! # Appending again after a failure

`WAL.append` of `wal.zig` when calls of the file system fail: `truncateSuffixFrom`,
`SegmentManager.rollToNew` and `removeSegmentsAfter`, and `Segment.create` and `append`.
What a failing attempt leaves is what the next one starts from.

A failing write may leave bytes of its record behind the end of the segment.  A call that
truncates, syncs or unlinks may have had its effect when it fails: the manager goes on as if
it had not, and to repeat it does no harm.  The file of a new segment may stay in the
directory, where the manager does not know it: when its creation fails although it is
there, and when its header cannot be written and the unlink that follows fails as well.
Segments are created exclusively, so the next attempt finds the file in its way. -/

open Base

namespace Raftz

namespace AppendRetry

/-- What an attempt reports. -/
inductive RetryErr
  | openFailed
  | writeFailed
  | truncateFailed
  | syncFailed
  | directorySyncFailed
  | unlinkFailed
  | log (e : Err)
  deriving DecidableEq, Repr

/-- The failing call of a truncation; an unlink is named by its segment. -/
inductive CutFault
  | truncate
  | sync
  | unlink (segmentId : ℕ)
  | syncAll
  | syncDirectory
  deriving DecidableEq, Repr

/-- The failing call of a record: the sync of a roll, the creation of the new segment or the write of its header,
where the file may stay, or the write of the record, after some bytes. -/
inductive RecordFault
  | sync
  | create (stays : Bool)
  | header (stays : Bool)
  | write (written : ℕ)
  deriving DecidableEq, Repr

/-- The failing call of an attempt; a record is named by the index of its entry. -/
inductive Fault
  | cut (f : CutFault)
  | record (index : ℕ) (f : RecordFault)
  deriving DecidableEq, Repr

/-- The fault at the record of an entry. -/
def Fault.at? (f : Option Fault) (index : ℕ) : Option RecordFault :=
  match f with
  | some (.record i g) => if i = index then some g else none
  | _ => none

/-- The fault of the truncation. -/
def Fault.cut? : Option Fault → Option CutFault
  | some (.cut g) => some g
  | _ => none

/-- A log, the segment files that its manager does not know, and the bytes that failing writes have left behind
the end of a segment. -/
structure Files where
  wal : WAL
  strays : List ℕ := []
  tail : ℕ → ℕ := fun _ => 0

namespace Files

/-- Change the segments. -/
def setSegments (d : Files) (m : SegmentManager) : Files := { d with wal := { d.wal with segmentManager := m } }

/-- The segment that is written; it must be the one whose id the manager has. -/
def getCurrent : Act RetryErr Files Segment := do
  let d ← Act.get
  match d.wal.segmentManager.getCurrent with
  | none => Act.panic
  | some s => if s.segmentId = d.wal.segmentManager.currentSegmentId then return s else Act.panic

/-- The file of a segment stays. -/
def leave (stays : Bool) (id : ℕ) : Act RetryErr Files Unit :=
  Act.when (stays = true) (Act.modify fun d => { d with strays := id :: d.strays })

/-- Start a new segment. -/
def rollToNew (f : Option RecordFault) (firstIndex : ℕ) : Act RetryErr Files Unit := do
  let _ ← getCurrent
  if f = some .sync then Act.throw .syncFailed
  else do
    let d ← Act.get
    let id := d.wal.segmentManager.currentSegmentId + 1
    if id ∈ d.strays then Act.throw .openFailed
    else
      match f with
      | some (.create stays) => do
          leave stays id
          Act.throw .openFailed
      | some (.header stays) => do
          leave stays id
          Act.throw .writeFailed
      | _ => Act.modify fun d => d.setSegments (d.wal.segmentManager.rollToNew firstIndex)

/-- The bytes of a record that a failing write has written. -/
def written (r : Record) : Option RecordFault → Option ℕ
  | some (.write n) => some (min n r.size)
  | _ => none

/-- Write a record. -/
def writeRecord (f : Option RecordFault) (r : Record) : Act RetryErr Files IndexEntry := do
  if r.Fits then
    let cur ← getCurrent
    let d ← Act.get
    Act.when (d.wal.segmentSize < cur.writeOffset + r.size ∧ Segment.headerSize < cur.writeOffset)
      (rollToNew f (d.wal.nextFirstIndex cur))
    let active ← getCurrent
    match written r f with
    | some n => do
        Act.modify fun d => { d with
          tail := Function.update d.tail active.segmentId (max (d.tail active.segmentId) n) }
        Act.throw .writeFailed
    | none => do
        Act.modify fun d => { d.setSegments (d.wal.segmentManager.append r) with
          tail := Function.update d.tail active.segmentId (d.tail active.segmentId - r.size) }
        return ⟨active.segmentId, active.writeOffset, r.size, 0⟩
  else Act.throw (.log .messageTooLarge)

/-- Write one entry and remember it. -/
def appendEntry (f : Option Fault) (e : Entry) : Act RetryErr Files Unit := do
  let place ← writeRecord (Fault.at? f e.index) (.entry e)
  let d ← Act.get
  match d.wal.walIndex.insert e.index { place with term := e.term } with
  | .error err => Act.throw (.log err)
  | .ok walIndex => Act.modify fun d => { d with
      wal := { d.wal with walIndex := walIndex, entries := d.wal.entries ++ [e] } }

/-- Go through the segments from the last one on, and unlink those with a larger id; what is left, still in
that order, and whether the unlink of the failing segment was reached. -/
def unlinkAfter (failing : Option ℕ) (id : ℕ) : List Segment → List Segment × Bool
  | [] => ([], false)
  | s :: ss =>
      if s.segmentId ≤ id then (s :: ss, false)
      else if failing = some s.segmentId then (s :: ss, true)
      else unlinkAfter failing id ss

/-- Remove the segments with a larger id.  When an unlink fails, the id of the current segment stays. -/
def removeSegmentsAfter (failing : Option ℕ) (id : ℕ) : Act RetryErr Files Unit := do
  let d ← Act.get
  let left := unlinkAfter failing id d.wal.segmentManager.segments.reverse
  let segments := left.1.reverse
  Act.modify fun d => d.setSegments { d.wal.segmentManager with segments := segments }
  if left.2 then Act.throw .unlinkFailed
  else Act.modify fun d => d.setSegments ⟨segments, (segments.getLast?.map Segment.segmentId).getD 0⟩

/-- The segment whose unlink fails. -/
def unlinked : Option CutFault → Option ℕ
  | some (.unlink id) => some id
  | _ => none

/-- Discard the entries from an index on, on disk and then in memory. -/
def truncateSuffixFrom (f : Option CutFault) (index : ℕ) : Act RetryErr Files Unit := do
  let d ← Act.get
  match d.wal.walIndex.lookup index with
  | none => Act.throw (.log .fatal)
  | some place =>
      if (d.wal.segmentManager.get place.segmentId).isNone then Act.throw (.log .fatal)
      else if f = some .truncate then Act.throw .truncateFailed
      else do
        Act.modify fun d => { d.setSegments (d.wal.segmentManager.truncate place.segmentId place.offset) with
          tail := Function.update d.tail place.segmentId 0 }
        if f = some .sync then Act.throw .syncFailed
        else do
          removeSegmentsAfter (unlinked f) place.segmentId
          if f = some .syncAll then Act.throw .syncFailed
          else if f = some .syncDirectory then Act.throw .directorySyncFailed
          else Act.modify fun d => { d with wal := { d.wal with
            entries := d.wal.entries.take (index - d.wal.firstIndex)
            walIndex := d.wal.walIndex.truncateFrom index } }

/-- Write what is left of a batch, replacing the stored entries from its first index on. -/
def appendFrom (f : Option Fault) (first : Entry) (rest : List Entry) : Act RetryErr Files Unit := do
  let d ← Act.get
  if first.index ≤ d.wal.lastIndex ∧ first.index ≤ d.wal.hardState.commit then Act.throw (.log .fatal)
  else do
    Act.when (first.index ≤ d.wal.lastIndex) (truncateSuffixFrom (Fault.cut? f) first.index)
    let d ← Act.get
    if first.index ≠ d.wal.lastIndex + 1 then Act.throw (.log .fatal)
    else Act.each (first :: rest) (appendEntry f)

/-- Append entries, with a call that fails or none. -/
def append (f : Option Fault) (entries : List Entry) : Act RetryErr Files Unit := do
  match entries with
  | [] => pure ()
  | e :: _ =>
      let d ← Act.get
      if ¬ Log.Consecutive e.index entries then Act.throw (.log .fatal)
      else if e.index < d.wal.firstIndex then Act.throw (.log .fatal)
      else if d.wal.lastIndex + 1 < e.index then Act.throw (.log .fatal)
      else
        match d.wal.skipEqual entries with
        | .error err => Act.throw (.log err)
        | .ok [] => pure ()
        | .ok (first :: rest) => appendFrom f first rest

/-- Attempts that fail, one after the other. -/
inductive Attempts (batch : List Entry) : Files → List Fault → Files → Prop
  | nil (d : Files) : Attempts batch d [] d
  | cons {d d' d'' : Files} {f : Fault} {fs : List Fault} {e : RetryErr} (h : append (some f) batch d = .err e d')
      (hrest : Attempts batch d' fs d'') : Attempts batch d (f :: fs) d''

end Files

/-- Does the file of a new segment stay in the directory? -/
def RecordFault.leaves : Option RecordFault → Bool
  | some (.create stays) => stays
  | some (.header stays) => stays
  | _ => false

/-- The file of a new segment stays in the directory. -/
def Fault.Stays (f : Fault) : Prop := ∃ i g, f = .record i g ∧ RecordFault.leaves (some g) = true

/-! ### Records -/

section records
variable {v : WAL} {r : Record} {d : Files}

/-- The current segment has no room for a record. -/
def Full (v : WAL) (r : Record) : Prop := ∃ cur, v.segmentManager.getCurrent = some cur ∧
  (v.segmentSize < cur.writeOffset + r.size ∧ Segment.headerSize < cur.writeOffset)

/-- The log once there is room for a record. -/
def rolled (v : WAL) (r : Record) : WAL :=
  match v.segmentManager.getCurrent with
  | none => v
  | some cur =>
      if v.segmentSize < cur.writeOffset + r.size ∧ Segment.headerSize < cur.writeOffset then
        { v with segmentManager := v.segmentManager.rollToNew (v.nextFirstIndex cur) }
      else v

/-- The log with a record at its end. -/
def recorded (v : WAL) (r : Record) : WAL := { v with segmentManager := v.segmentManager.append r }

theorem rolled_of_not_full (h : ¬ Full v r) : rolled v r = v := by
  unfold rolled
  split
  · rfl
  · rename_i cur hcur
    exact if_neg fun hc => h ⟨cur, hcur, hc⟩

/-- A new segment has room. -/
theorem not_full_rolled : ¬ Full (rolled v r) r := by
  rintro ⟨s, hs, hsize, hoff⟩
  unfold rolled at hs
  split at hs
  · rename_i hnone
    rw [hnone] at hs
    cases hs
  · rename_i cur hcur
    split_ifs at hs with hc
    · have heq : s = ⟨v.segmentManager.currentSegmentId + 1, v.nextFirstIndex cur, []⟩ := by
        simpa [SegmentManager.getCurrent, SegmentManager.rollToNew, eq_comm] using hs
      rw [heq] at hoff
      simp [Segment.writeOffset] at hoff
    · rw [hcur] at hs
      cases hs
      refine hc ⟨?_, hoff⟩
      unfold rolled at hsize
      rw [hcur] at hsize
      dsimp only at hsize
      rwa [if_neg hc] at hsize

theorem rolled_rolled : rolled (rolled v r) r = rolled v r := rolled_of_not_full not_full_rolled

theorem ordered_rolled (h : v.segmentManager.Ordered) : (rolled v r).segmentManager.Ordered := by
  unfold rolled
  split
  · exact h
  · split_ifs
    · exact h.rollToNew _
    · exact h

/-- Without a failure, a record is written where there is room. -/
theorem writeRecord_eq (h : v.segmentManager.Ordered) (hr : r.Fits) : ∃ active,
    (rolled v r).segmentManager.getCurrent = some active ∧ WAL.writeRecord r v =
      .ok ⟨active.segmentId, active.writeOffset, r.size, 0⟩ (recorded (rolled v r) r) := by
  obtain ⟨cur, hcur, -⟩ := h.getCurrent
  obtain ⟨active, hactive, -⟩ := (@ordered_rolled v r h).getCurrent
  have hwp : (WAL.writeRecord r).twp (fun p w => p = ⟨active.segmentId, active.writeOffset, r.size, 0⟩ ∧
      w = recorded (rolled v r) r) (fun _ _ => False) v := by
    unfold WAL.writeRecord
    rw [if_pos hr, Act.twp_bind, Act.twp_get, Act.twp_bind, Act.twp_orPanic hcur, Act.twp_bind]
    have hroll : rolled v r = if v.segmentSize < cur.writeOffset + r.size ∧
      Segment.headerSize < cur.writeOffset then
        { v with segmentManager := v.segmentManager.rollToNew (v.nextFirstIndex cur) } else v := by
      unfold rolled
      rw [hcur]
    rw [hroll] at hactive ⊢
    unfold Act.when
    split_ifs at hactive ⊢ with hc
    · rw [Act.twp_modify, Act.twp_bind, Act.twp_get, Act.twp_bind, Act.twp_orPanic hactive, Act.twp_bind,
        Act.twp_modify]
      exact ⟨rfl, rfl⟩
    · rw [Act.twp_pure, Act.twp_bind, Act.twp_get, Act.twp_bind, Act.twp_orPanic hactive, Act.twp_bind,
        Act.twp_modify]
      exact ⟨rfl, rfl⟩
  rcases Act.twp_cases hwp with ⟨p, w, hrun, rfl, rfl⟩ | ⟨e, w, -, hfalse⟩
  · exact ⟨active, hactive, hrun⟩
  · exact hfalse.elim

theorem twp_getCurrent (h : d.wal.segmentManager.Ordered) {s : Segment}
    (hs : d.wal.segmentManager.getCurrent = some s)
    {Q : Segment → Files → Prop} {E : RetryErr → Files → Prop} (hq : Q s d) : Files.getCurrent.twp Q E d := by
  obtain ⟨s', hs', hid⟩ := h.getCurrent
  rw [hs] at hs'
  cases hs'
  unfold Files.getCurrent
  rw [Act.twp_bind, Act.twp_get, hs]
  dsimp only
  rw [if_pos hid]
  exact hq

/-- The id of the next segment. -/
def nextId (v : WAL) : ℕ := v.segmentManager.currentSegmentId + 1

/-- What a failing roll leaves: the log, and perhaps the file of the segment. -/
structure RollFails (f : Option RecordFault) (d d' : Files) : Prop where
  wal : d'.wal = d.wal
  tail : d'.tail = d.tail
  strays : (d'.strays = d.strays ∧ (nextId d.wal ∈ d.strays ∨ (f ≠ none ∧ RecordFault.leaves f = false))) ∨
    (d'.strays = nextId d.wal :: d.strays ∧ RecordFault.leaves f = true)

theorem twp_rollToNew (h : d.wal.segmentManager.Ordered) (f : Option RecordFault) (i : ℕ) :
    (Files.rollToNew f i).twp (fun _ d' => d' = d.setSegments (d.wal.segmentManager.rollToNew i) ∧
      nextId d.wal ∉ d.strays) (fun _ d' => RollFails f d d') d := by
  obtain ⟨cur, hcur, -⟩ := h.getCurrent
  unfold Files.rollToNew
  rw [Act.twp_bind]
  refine twp_getCurrent h hcur ?_
  rw [Act.twp_ite]
  refine ⟨fun hf => ⟨rfl, rfl, .inl ⟨rfl, .inr (by simp [hf, RecordFault.leaves])⟩⟩, fun hsync => ?_⟩
  rw [Act.twp_bind, Act.twp_get]
  dsimp only
  rw [Act.twp_ite]
  refine ⟨fun hin => ⟨rfl, rfl, .inl ⟨rfl, .inl hin⟩⟩, fun hfree => ?_⟩
  have hleave : ∀ stays e, RecordFault.leaves f = stays → f ≠ none →
      (Files.leave stays (nextId d.wal) >>= fun _ => (Act.throw e : Act RetryErr Files Unit)).twp
        (fun _ d' => d' = d.setSegments (d.wal.segmentManager.rollToNew i) ∧ nextId d.wal ∉ d.strays)
        (fun _ d' => RollFails f d d') d := by
    intro stays e hstays hf
    rw [Act.twp_bind]
    cases stays with
    | false => exact ⟨rfl, rfl, .inl ⟨rfl, .inr ⟨hf, hstays⟩⟩⟩
    | true => exact ⟨rfl, rfl, .inr ⟨rfl, hstays⟩⟩
  split
  · exact hleave _ _ rfl (by simp)
  · exact hleave _ _ rfl (by simp)
  · exact ⟨rfl, hfree⟩

/-- A log that waits for a record: the segment may have been rolled already, and failing writes may have left
bytes of the record behind its end; or a file is in the way of the roll. -/
structure Pending (v : WAL) (r : Record) (d : Files) : Prop where
  wal : d.wal = v ∨ d.wal = rolled v r
  tail : ∀ i, i ≠ (rolled v r).segmentManager.currentSegmentId → d.tail i = 0
  bytes : d.tail (rolled v r).segmentManager.currentSegmentId ≤ r.size
  strays : d.strays = [] ∨ (Full v r ∧ d.wal = v ∧ nextId v ∈ d.strays)

/-- What a failing attempt at a record says about its fault and about the files that stay. -/
structure Failed (f : Option RecordFault) (d d' : Files) : Prop where
  strays : d'.strays = [] ↔ d.strays = [] ∧ RecordFault.leaves f = false
  fault : d.strays = [] → f ≠ none

theorem twp_writeRecord (hv : v.segmentManager.Ordered) (hr : r.Fits) (hp : Pending v r d)
    (f : Option RecordFault) :
    (Files.writeRecord f r).twp
      (fun p d' => WAL.writeRecord r v = .ok p d'.wal ∧ d.strays = [] ∧ d'.strays = [] ∧ ∀ i, d'.tail i = 0)
      (fun _ d' => Pending v r d' ∧ Failed f d d') d := by
  obtain ⟨active, hactive, hwrite⟩ := writeRecord_eq hv hr
  have hord : d.wal.segmentManager.Ordered := by
    rcases hp.wal with h | h <;> rw [h]
    · exact hv
    · exact ordered_rolled hv
  obtain ⟨cur, hcur, -⟩ := hord.getCurrent
  have hid : active.segmentId = (rolled v r).segmentManager.currentSegmentId := by
    obtain ⟨s, hs, hid⟩ := (@ordered_rolled v r hv).getCurrent
    rw [hactive] at hs
    cases hs
    exact hid
  -- the write, once there is room
  have hthen : ∀ d1 : Files, d1.wal = rolled v r → d1.strays = [] → d1.tail = d.tail → d.strays = [] →
      (Files.getCurrent >>= fun active : Segment =>
        match Files.written r f with
        | some n => do
            Act.modify fun d => { d with
              tail := Function.update d.tail active.segmentId (max (d.tail active.segmentId) n) }
            Act.throw .writeFailed
        | none => do
            Act.modify fun d => { d.setSegments (d.wal.segmentManager.append r) with
              tail := Function.update d.tail active.segmentId (d.tail active.segmentId - r.size) }
            return (⟨active.segmentId, active.writeOffset, r.size, 0⟩ : IndexEntry)).twp
      (fun p d' => WAL.writeRecord r v = .ok p d'.wal ∧ d.strays = [] ∧ d'.strays = [] ∧ ∀ i, d'.tail i = 0)
      (fun _ d' => Pending v r d' ∧ Failed f d d') d1 := by
    intro d1 hw1 hs1 ht1 hs
    rw [Act.twp_bind]
    refine twp_getCurrent (by rw [hw1]; exact ordered_rolled hv) (by rw [hw1]; exact hactive) ?_
    have hother : ∀ n i, i ≠ (rolled v r).segmentManager.currentSegmentId →
        Function.update d1.tail active.segmentId n i = 0 := by
      intro n i hi
      rw [Function.update_of_ne (by rw [hid]; exact hi), ht1]
      exact hp.tail i hi
    split
    · rename_i n hn
      rw [Act.twp_bind, Act.twp_modify, Act.twp_throw]
      have hfault : ∃ m, f = some (.write m) ∧ n ≤ r.size := by
        unfold Files.written at hn
        split at hn
        · rename_i m
          cases hn
          exact ⟨m, rfl, min_le_right _ _⟩
        · cases hn
      obtain ⟨m, rfl, hle⟩ := hfault
      refine ⟨⟨.inr hw1, hother _, ?_, .inl hs1⟩, ⟨by simp [hs, hs1, RecordFault.leaves], by simp⟩⟩
      dsimp only
      rw [hid, Function.update_self, ht1]
      exact max_le hp.bytes hle
    · rw [Act.twp_bind, Act.twp_modify, Act.twp_pure]
      refine ⟨?_, hs, hs1, fun i => ?_⟩
      · rw [hwrite]
        show Outcome.ok _ (recorded (rolled v r) r) = Outcome.ok _ (recorded d1.wal r)
        rw [hw1]
      · by_cases hi : i = (rolled v r).segmentManager.currentSegmentId
        · dsimp only
          rw [hi, hid, Function.update_self, ht1]
          exact Nat.sub_eq_zero_of_le hp.bytes
        · exact hother _ i hi
  have hnotfull : ¬ Full d.wal r → rolled v r = d.wal ∧ d.strays = [] := by
    intro hn
    rcases hp.wal with h | h
    · refine ⟨?_, ?_⟩
      · rw [h] at hn ⊢
        exact rolled_of_not_full hn
      · rcases hp.strays with hs | ⟨hfull, -, -⟩
        · exact hs
        · exact absurd (h ▸ hfull) hn
    · refine ⟨h.symm, ?_⟩
      rcases hp.strays with hs | ⟨hfull, heq, -⟩
      · exact hs
      · exact absurd (heq ▸ hfull) hn
  unfold Files.writeRecord
  rw [if_pos hr, Act.twp_bind]
  refine twp_getCurrent hord hcur ?_
  rw [Act.twp_bind, Act.twp_get, Act.twp_bind]
  unfold Act.when
  split_ifs with hc
  · have hfull : Full d.wal r := ⟨cur, hcur, hc⟩
    have hwal : d.wal = v := by
      rcases hp.wal with h | h
      · exact h
      · rw [h] at hfull
        exact absurd hfull not_full_rolled
    have hroll : rolled v r = (d.setSegments (d.wal.segmentManager.rollToNew (d.wal.nextFirstIndex cur))).wal := by
      unfold rolled
      rw [← hwal, hcur]
      exact if_pos hc
    refine Act.twp_mono (twp_rollToNew hord f _) (fun _ d1 h1 => ?_) fun _ d' hfails => ?_
    · obtain ⟨rfl, hfree⟩ := h1
      have hs : d.strays = [] := by
        rcases hp.strays with hs | ⟨-, -, hin⟩
        · exact hs
        · rw [hwal] at hfree
          exact absurd hin hfree
      exact hthen _ hroll.symm hs rfl hs
    · refine ⟨⟨.inl (hfails.wal.trans hwal), fun i hi => ?_, ?_, ?_⟩, ?_⟩
      · rw [hfails.tail]
        exact hp.tail i hi
      · rw [hfails.tail]
        exact hp.bytes
      · rcases hfails.strays with ⟨hs, -⟩ | ⟨hs, -⟩
        · rw [hs]
          rcases hp.strays with h | ⟨h1, -, h3⟩
          · exact .inl h
          · exact .inr ⟨h1, hfails.wal.trans hwal, h3⟩
        · refine .inr ⟨hwal ▸ hfull, hfails.wal.trans hwal, ?_⟩
          rw [hs, hwal]
          exact List.mem_cons_self
      · rcases hfails.strays with ⟨hs, hin | ⟨hf, hheader⟩⟩ | ⟨hs, hheader⟩
        · have hne : d.strays ≠ [] := List.ne_nil_of_mem hin
          exact ⟨by rw [hs]; simp [hne], fun hnil => absurd hnil hne⟩
        · exact ⟨by rw [hs]; simp [hheader], fun _ => hf⟩
        · exact ⟨by rw [hs]; simp [hheader], fun _ hnone => by rw [hnone] at hheader; cases hheader⟩
  · have hnot : ¬ Full d.wal r := by
      rintro ⟨cur', hcur', hc'⟩
      rw [hcur] at hcur'
      cases hcur'
      exact hc hc'
    obtain ⟨hroll, hs⟩ := hnotfull hnot
    rw [Act.twp_pure]
    exact hthen d hroll.symm hs rfl hs

end records

/-! ### Entries -/

section entries
variable {v v' vF : WAL} {d : Files} {f : Option Fault}

/-- What a failing attempt says about its fault and about the files that stay. -/
structure Stopped (f : Option Fault) (d d' : Files) : Prop where
  strays : d'.strays = [] ↔ d.strays = [] ∧ ∀ g, f = some g → ¬ g.Stays
  fault : d.strays = [] → f ≠ none

theorem Failed.stopped {i : ℕ} {d d' : Files} (h : Failed (Fault.at? f i) d d') : Stopped f d d' := by
  have hstays : d.strays = [] → (RecordFault.leaves (Fault.at? f i) = true ↔ ∃ g, f = some g ∧ g.Stays) := by
    intro hs
    have hat := h.fault hs
    unfold Fault.at? at hat ⊢
    split at hat
    · rename_i j g
      split_ifs at hat ⊢ with hj
      · constructor
        · exact fun hg => ⟨_, rfl, j, g, rfl, hg⟩
        · rintro ⟨g', hg', j', r, rfl, hr⟩
          cases hg'
          exact hr
      · exact absurd rfl hat
    · exact absurd rfl hat
  refine ⟨?_, fun hs hf => h.fault hs (by rw [hf]; rfl)⟩
  rw [h.strays]
  constructor
  · rintro ⟨hs, hne⟩
    exact ⟨hs, fun g hg hstay => absurd ((hstays hs).mpr ⟨g, hg, hstay⟩) (by simp [hne])⟩
  · rintro ⟨hs, hall⟩
    refine ⟨hs, Bool.eq_false_iff.mpr fun hleaves => ?_⟩
    obtain ⟨g, hg, hstay⟩ := (hstays hs).mp hleaves
    exact hall g hg hstay

/-- Nothing is left of failing writes, and no file is in the way. -/
structure Clean (w : WAL) (d : Files) : Prop where
  wal : d.wal = w
  strays : d.strays = []
  tail : ∀ i, d.tail i = 0

theorem Clean.pending (h : Clean v d) (r : Record) : Pending v r d :=
  ⟨.inl h.wal, fun i _ => h.tail i, by rw [h.tail]; exact Nat.zero_le _, .inl h.strays⟩

/-- The entry is written as without failures, or it stays pending. -/
theorem twp_appendEntry (hv : v.segmentManager.Ordered) {e : Entry} (hr : (Record.entry e).Fits)
    (hrun : WAL.appendEntry e v = .ok () v') (hp : Pending v (.entry e) d) :
    (Files.appendEntry f e).twp (fun _ d' => Clean v' d' ∧ d.strays = [])
      (fun _ d' => Pending v (.entry e) d' ∧ Stopped f d d') d := by
  unfold Files.appendEntry
  rw [Act.twp_bind]
  refine Act.twp_mono (twp_writeRecord hv hr hp _) (fun p d1 hd => ?_) fun _ d' hd => ⟨hd.1, hd.2.stopped⟩
  obtain ⟨hwrite, hs, hs1, htail⟩ := hd
  rw [Act.twp_bind, Act.twp_get]
  have hthen : (Act.query (fun w : WAL => w.walIndex.insert e.index { p with term := e.term }) >>=
      fun walIndex => Act.modify fun w : WAL => { w with
        walIndex := walIndex, entries := w.entries ++ [e] }) d1.wal = .ok () v' := by
    unfold WAL.appendEntry at hrun
    rwa [Act.bind_run hwrite] at hrun
  cases hins : d1.wal.walIndex.insert e.index { p with term := e.term } with
  | error err =>
      have hq : Act.query (fun w : WAL => w.walIndex.insert e.index { p with term := e.term }) d1.wal =
          .err err d1.wal := by
        unfold Act.query
        dsimp only
        rw [hins]
      have hne : (Act.query (fun w : WAL => w.walIndex.insert e.index { p with term := e.term }) >>=
          fun walIndex => Act.modify fun w : WAL => { w with walIndex := walIndex, entries := w.entries ++ [e] }) d1.wal =
            .err err d1.wal := by
        show Act.andThen _ _ _ = _
        unfold Act.andThen
        rw [hq]
      rw [hne] at hthen
      cases hthen
  | ok walIndex =>
      rw [Act.bind_run
        (Act.query_run (f := fun w : WAL => w.walIndex.insert e.index { p with term := e.term }) hins)]
        at hthen
      cases hthen
      exact ⟨⟨rfl, hs1, htail⟩, hs⟩

/-- Entries of a batch are written one after the other; a failing attempt stops at one that stays pending. -/
theorem twp_each {es : List Entry} (hv : v.Placed) (hes : Log.Consecutive (v.firstIndex + v.entries.length) es)
    (hr : ∀ e ∈ es, (Record.entry e).Fits) (hrun : Act.each es WAL.appendEntry v = .ok () vF)
    (hp : ∀ e, es.head? = some e → Pending v (.entry e) d) (hnil : es = [] → Clean v d) :
    (Act.each es (Files.appendEntry f)).twp (fun _ d' => Clean vF d' ∧ d.strays = [])
      (fun _ d' => (∃ done e rest v', es = done ++ e :: rest ∧ Act.each done WAL.appendEntry v = .ok () v' ∧
        Pending v' (.entry e) d') ∧ Stopped f d d') d := by
  induction es generalizing v d with
  | nil =>
      cases hrun
      have hclean := hnil rfl
      exact ⟨hclean, hclean.strays⟩
  | cons e es ih =>
      obtain ⟨v1, hv1, hp1, heq1⟩ := WAL.appendEntry_ok hv hes.1 (hr e List.mem_cons_self)
      have hrest : Act.each es WAL.appendEntry v1 = .ok () vF := by
        have hbind : (WAL.appendEntry e >>= fun _ => Act.each es WAL.appendEntry) v = .ok () vF := hrun
        rwa [Act.bind_run hv1] at hbind
      have hnext : Log.Consecutive (v1.firstIndex + v1.entries.length) es := by
        rw [heq1]
        dsimp only
        rw [List.length_append]
        exact hes.2
      show (Files.appendEntry f e >>= fun _ => Act.each es (Files.appendEntry f)).twp _ _ d
      rw [Act.twp_bind]
      refine Act.twp_mono (twp_appendEntry hv.ordered (hr e List.mem_cons_self) hv1 (hp e rfl))
        (fun _ d1 hd => ?_)
        fun _ d' hd => ⟨⟨[], e, es, v, rfl, rfl, hd.1⟩, hd.2⟩
      obtain ⟨hclean, hs⟩ := hd
      refine Act.twp_mono (ih hp1 hnext (fun x hx => hr x (List.mem_cons_of_mem _ hx)) hrest
        (fun x _ => hclean.pending _) fun _ => hclean) (fun _ d' hd' => ⟨hd'.1, hs⟩) fun _ d' hd' => ?_
      obtain ⟨⟨done, x, rest, v2, hsplit, hdone, hpend⟩, hstop⟩ := hd'
      refine ⟨⟨e :: done, x, rest, v2, by rw [hsplit]; rfl, ?_, hpend⟩, ?_⟩
      · show (WAL.appendEntry e >>= fun _ => Act.each done WAL.appendEntry) v = _
        rw [Act.bind_run hv1, hdone]
      · refine ⟨?_, fun _ => hstop.fault hclean.strays⟩
        rw [hstop.strays, hs, hclean.strays]

end entries

/-! ### The truncation -/

section truncation
variable {w : WAL} {m m' : SegmentManager} {id off index : ℕ} {place : IndexEntry} {d : Files}

/-- The segments up to a place. -/
def cutTo (id off : ℕ) (m : SegmentManager) : SegmentManager := (m.truncate id off).removeSegmentsAfter id

theorem keep_keep (n : ℕ) (rs : List Record) : Segment.keep n (Segment.keep n rs) = Segment.keep n rs := by
  induction rs generalizing n with
  | nil => rfl
  | cons r rs ih =>
      cases n with
      | zero => rfl
      | succ n => exact congrArg (r :: ·) (ih _)

/-- Only the segments matter. -/
theorem cutTo_congr (h : m.segments = m'.segments) : cutTo id off m = cutTo id off m' := by
  unfold cutTo SegmentManager.removeSegmentsAfter SegmentManager.truncate
  rw [h]

theorem cutTo_truncate : cutTo id off (m.truncate id off) = cutTo id off m := by
  have htwice : (m.truncate id off).truncate id off = m.truncate id off := by
    unfold SegmentManager.truncate
    rw [List.map_map]
    congr 1
    refine List.map_congr_left fun s _ => ?_
    dsimp only [Function.comp]
    by_cases hs : s.segmentId = id
    · have hagain : (s.truncate off).segmentId = id := hs
      simp only [hs, hagain, if_true]
      exact congrArg (fun rs => ({ s with records := rs } : Segment)) (keep_keep _ _)
    · simp only [hs, if_false]
  unfold cutTo
  rw [htwice]

/-- The segments that the unlinks leave: those that were gone through had larger ids. -/
theorem unlinkAfter_split (failing : Option ℕ) (id : ℕ) (l : List Segment) :
    ∃ gone, l = gone ++ (Files.unlinkAfter failing id l).1 ∧ ∀ s ∈ gone, id < s.segmentId := by
  induction l with
  | nil => exact ⟨[], rfl, fun s hs => by cases hs⟩
  | cons s l ih =>
      unfold Files.unlinkAfter
      split_ifs with hle
      · exact ⟨[], rfl, fun t ht => by cases ht⟩
      · exact ⟨[], rfl, fun t ht => by cases ht⟩
      · obtain ⟨gone, hl, hgone⟩ := ih
        refine ⟨s :: gone, congrArg (s :: ·) hl, fun t ht => ?_⟩
        rcases List.mem_cons.mp ht with rfl | ht
        · exact not_le.mp hle
        · exact hgone t ht

/-- Without a failure all larger ids are gone. -/
theorem unlinkAfter_done {failing : Option ℕ} {l : List Segment}
    (h : (Files.unlinkAfter failing id l).2 = false) :
    (Files.unlinkAfter failing id l).1 = l.dropWhile fun s => decide (id < s.segmentId) := by
  induction l with
  | nil => rfl
  | cons s l ih =>
      unfold Files.unlinkAfter at h ⊢
      rw [List.dropWhile_cons]
      by_cases hle : s.segmentId ≤ id
      · rw [if_pos hle, if_neg (by simpa using hle)]
      · rw [if_neg hle] at h ⊢
        rw [if_pos (decide_eq_true (not_le.mp hle))]
        split_ifs at h ⊢
        exact ih h

/-- Segments on their way from `m` to `cutTo id off m`. -/
structure Cut (id off : ℕ) (m m' : SegmentManager) : Prop where
  same : cutTo id off m' = cutTo id off m
  held : id ∈ m'.ids

theorem Cut.truncate (h : Cut id off m m') : Cut id off m (m'.truncate id off) :=
  ⟨cutTo_truncate.trans h.same, by rw [SegmentManager.ids_truncate]; exact h.held⟩

/-- Segments with larger ids may go. -/
theorem Cut.remove (h : Cut id off m m') {left : List Segment} {gone : List Segment}
    (hsplit : m'.segments.reverse = gone ++ left) (hgone : ∀ s ∈ gone, id < s.segmentId) (current : ℕ) :
    Cut id off m ⟨left.reverse, current⟩ := by
  have hsegs : m'.segments = left.reverse ++ gone.reverse := by
    rw [← List.reverse_append, ← hsplit, List.reverse_reverse]
  refine ⟨?_, ?_⟩
  · rw [← h.same]
    have hids : ∀ s : Segment, (if s.segmentId = id then s.truncate off else s).segmentId = s.segmentId := by
      intro s
      split <;> rfl
    have hdrop : ∀ t ∈ (gone.map fun s => if s.segmentId = id then s.truncate off else s),
        decide (id < t.segmentId) = true := by
      intro t ht
      obtain ⟨s, hs, rfl⟩ := List.mem_map.mp ht
      rw [hids]
      exact decide_eq_true (hgone s hs)
    unfold cutTo SegmentManager.removeSegmentsAfter SegmentManager.truncate
    dsimp only
    rw [hsegs, List.map_append]
    unfold List.rdropWhile
    rw [List.reverse_append, List.map_reverse, List.map_reverse, List.reverse_reverse, List.reverse_reverse,
      List.dropWhile_append_of_pos hdrop]
  · have hmem := h.held
    unfold SegmentManager.ids at hmem ⊢
    rw [hsegs, List.map_append, List.mem_append] at hmem
    rcases hmem with hmem | hmem
    · exact hmem
    · obtain ⟨s, hs, rfl⟩ := List.mem_map.mp hmem
      exact absurd (hgone s (List.mem_reverse.mp hs)) (lt_irrefl _)

/-- A log whose suffix is being truncated. -/
structure Cutting (w : WAL) (place : IndexEntry) (d : Files) : Prop where
  wal : d.wal = { w with segmentManager := d.wal.segmentManager }
  cut : Cut place.segmentId place.offset w.segmentManager d.wal.segmentManager
  strays : d.strays = []
  tail : ∀ i, d.tail i = 0

/-- The log after the truncation. -/
def truncated (w : WAL) (place : IndexEntry) (index : ℕ) : WAL :=
  { w with
    segmentManager := cutTo place.segmentId place.offset w.segmentManager
    entries := w.entries.take (index - w.firstIndex)
    walIndex := w.walIndex.truncateFrom index }

theorem isNone_get (h : id ∈ m.ids) : (m.get id).isNone = false := by
  obtain ⟨s, hs, rfl⟩ := List.mem_map.mp h
  rw [Option.isNone_eq_false_iff]
  unfold SegmentManager.get
  rw [List.find?_isSome]
  exact ⟨s, hs, beq_self_eq_true _⟩

theorem twp_removeSegmentsAfter (h : Cutting w place d) (failing : Option ℕ) :
    (Files.removeSegmentsAfter failing place.segmentId).twp
      (fun _ d' => Cutting w place d' ∧
        d'.wal.segmentManager = d.wal.segmentManager.removeSegmentsAfter place.segmentId)
      (fun _ d' => Cutting w place d' ∧ failing ≠ none) d := by
  obtain ⟨gone, hsplit, hgone⟩ := unlinkAfter_split failing place.segmentId d.wal.segmentManager.segments.reverse
  have hafter : ∀ current, Cutting w place (d.setSegments
      ⟨(Files.unlinkAfter failing place.segmentId d.wal.segmentManager.segments.reverse).1.reverse,
        current⟩) := by
    intro current
    refine ⟨?_, h.cut.remove hsplit hgone current, h.strays, h.tail⟩
    show ({ d.wal with segmentManager := _ } : WAL) = _
    rw [h.wal]
    rfl
  unfold Files.removeSegmentsAfter
  rw [Act.twp_bind, Act.twp_get]
  dsimp only
  rw [Act.twp_bind, Act.twp_modify, Act.twp_ite]
  constructor
  · intro hstop
    rw [Act.twp_throw]
    refine ⟨hafter _, ?_⟩
    rintro rfl
    -- without a failing unlink none stops
    have hnone : ∀ l : List Segment, (Files.unlinkAfter none place.segmentId l).2 = false := by
      intro l
      induction l with
      | nil => rfl
      | cons s l ih =>
          unfold Files.unlinkAfter
          split_ifs with hle hfail
          · rfl
          · cases hfail
          · exact ih
    rw [hnone] at hstop
    cases hstop
  · intro hgo
    rw [Act.twp_modify]
    refine ⟨hafter _, ?_⟩
    show SegmentManager.mk _ _ = _
    rw [unlinkAfter_done (Bool.eq_false_iff.mpr hgo)]
    rfl

/-- The suffix is truncated as without failures, or it stays on its way. -/
theorem twp_truncateSuffixFrom (hlook : w.walIndex.lookup index = some place) (h : Cutting w place d)
    (f : Option CutFault) : (Files.truncateSuffixFrom f index).twp
      (fun _ d' => Clean (truncated w place index) d') (fun _ d' => Cutting w place d' ∧ f ≠ none) d := by
  have hindex : d.wal.walIndex = w.walIndex := by rw [h.wal]
  unfold Files.truncateSuffixFrom
  rw [Act.twp_bind, Act.twp_get, hindex, hlook]
  dsimp only
  rw [isNone_get h.cut.held, if_neg Bool.false_ne_true, Act.twp_ite]
  refine ⟨fun hf => ⟨h, by simp [hf]⟩, fun _ => ?_⟩
  rw [Act.twp_bind, Act.twp_modify, Act.twp_ite]
  have hcut : Cutting w place { d.setSegments (d.wal.segmentManager.truncate place.segmentId place.offset) with
      tail := Function.update d.tail place.segmentId 0 } := by
    refine ⟨?_, h.cut.truncate, h.strays, fun i => ?_⟩
    · show ({ d.wal with segmentManager := _ } : WAL) = _
      rw [h.wal]
      rfl
    · dsimp only
      by_cases hi : i = place.segmentId
      · rw [hi, Function.update_self]
      · rw [Function.update_of_ne hi]
        exact h.tail i
  refine ⟨fun hf => ⟨hcut, by simp [hf]⟩, fun _ => ?_⟩
  rw [Act.twp_bind]
  refine Act.twp_mono (twp_removeSegmentsAfter hcut (Files.unlinked f))
    (fun _ d1 h1 => ?_) fun _ d' hd => ⟨hd.1, ?_⟩
  · obtain ⟨h1, hsegs⟩ := h1
    rw [Act.twp_ite]
    refine ⟨fun hf => ⟨h1, by simp [hf]⟩, fun _ => ?_⟩
    rw [Act.twp_ite]
    refine ⟨fun hf => ⟨h1, by simp [hf]⟩, fun _ => ?_⟩
    rw [Act.twp_modify]
    refine ⟨?_, h1.strays, h1.tail⟩
    show ({ d1.wal with entries := _, walIndex := _ } : WAL) = _
    have hmanager : d1.wal.segmentManager = cutTo place.segmentId place.offset w.segmentManager :=
      hsegs.trans h.cut.same
    rw [h1.wal, hmanager]
    rfl
  · rintro rfl
    exact hd.2 rfl

end truncation

/-! ### Attempts -/

/-- What the entries of every log satisfy. -/
structure Sound (w : WAL) : Prop where
  placed : w.Placed
  numbered : w.Numbered
  snapshot : w.snapshotMetadata.index < w.firstIndex

theorem Sound.of_same {w : WAL} {s : MemoryStorage} (h : Same w s) : Sound w :=
  ⟨h.placed, h.numbered, h.snapshot_lt⟩

section stored
variable {v v' : WAL} {k : ℕ} {e : Entry} {es stored done : List Entry}

theorem Sound.last_eq (h : Sound v) : v.lastIndex + 1 = v.firstIndex + v.entries.length :=
  WAL.lastIndex_of_numbered h.numbered h.snapshot

theorem skipEqual_setSegments (v : WAL) (m : SegmentManager) (es : List Entry) :
    ({ v with segmentManager := m } : WAL).skipEqual es = v.skipEqual es := by
  induction es with
  | nil => rfl
  | cons e es ih =>
      unfold WAL.skipEqual
      rw [ih]
      rfl

/-- What is stored already, at the end of the log, is skipped. -/
theorem skipEqual_stored (h : Sound v) (hes : Log.Consecutive (v.firstIndex + k) (stored ++ e :: es))
    (hdrop : v.entries.drop k = stored) (hk : k ≤ v.entries.length) :
    v.skipEqual (stored ++ e :: es) = .ok (e :: es) := by
  have hlast := h.last_eq
  induction stored generalizing k with
  | nil =>
      have hlen := List.drop_eq_nil_iff.mp hdrop
      have hidx : e.index = v.firstIndex + k := hes.1
      unfold WAL.skipEqual
      exact if_neg (by omega)
  | cons a stored ih =>
      have hlt : k < v.entries.length := by
        by_contra hge
        rw [List.drop_of_length_le (not_lt.mp hge)] at hdrop
        cases hdrop
      rw [List.drop_eq_getElem_cons hlt] at hdrop
      obtain ⟨ha, hdrop⟩ := List.cons.inj hdrop
      have hidx : a.index = v.firstIndex + k := hes.1
      have hoff : a.index - v.firstIndex = k := by omega
      show v.skipEqual (a :: (stored ++ e :: es)) = _
      unfold WAL.skipEqual
      rw [if_pos (by omega), hoff, List.getElem?_eq_getElem hlt, ha]
      dsimp only
      rw [if_pos rfl]
      refine ih ?_ hdrop hlt
      rw [← Nat.add_assoc]
      exact hes.2

theorem each_append (l l' : List Entry) (f : Entry → Act Err WAL Unit) (v : WAL) :
    Act.each (l ++ l') f v = (Act.each l f >>= fun _ => Act.each l' f) v := by
  induction l generalizing v with
  | nil => rfl
  | cons a l ih =>
      show Act.andThen (f a) (fun _ => Act.each (l ++ l') f) v =
        Act.andThen (Act.andThen (f a) fun _ => Act.each l f) (fun _ => Act.each l' f) v
      unfold Act.andThen
      cases f a v with
      | ok _ v' => exact ih v'
      | err _ _ => rfl
      | panic => rfl

theorem each_ok_append (hdone : Act.each done WAL.appendEntry v = .ok () v') :
    Act.each (done ++ es) WAL.appendEntry v = Act.each es WAL.appendEntry v' := by
  rw [each_append, Act.bind_run hdone]

/-- What was written had a length that fits. -/
theorem fits_of_each (hrun : Act.each es WAL.appendEntry v = .ok () v') : ∀ e ∈ es, (Record.entry e).Fits := by
  induction es generalizing v with
  | nil => exact fun e he => by cases he
  | cons a es ih =>
      have hbind : (WAL.appendEntry a >>= fun _ => Act.each es WAL.appendEntry) v = .ok () v' := hrun
      by_cases hfit : (Record.entry a).Fits
      · cases hrun1 : WAL.appendEntry a v with
        | ok u v1 =>
            rw [Act.bind_run hrun1] at hbind
            intro e he
            rcases List.mem_cons.mp he with rfl | he
            · exact hfit
            · exact ih hbind e he
        | err x v1 =>
            rw [Act.bind_run_err hrun1] at hbind
            cases hbind
        | panic =>
            have hpanic : (WAL.appendEntry a >>= fun _ => Act.each es WAL.appendEntry) v = .panic := by
              show Act.andThen _ _ _ = _
              unfold Act.andThen
              rw [hrun1]
            rw [hpanic] at hbind
            cases hbind
      · have hthrow : WAL.writeRecord (.entry a) v = .err .messageTooLarge v := by
          unfold WAL.writeRecord
          rw [if_neg hfit]
          rfl
        have hentry : WAL.appendEntry a v = .err .messageTooLarge v := by
          unfold WAL.appendEntry
          exact Act.bind_run_err hthrow
        rw [Act.bind_run_err hentry] at hbind
        cases hbind

/-- Entries written after the last one leave a log with them at its end. -/
theorem Sound.each (h : Sound v) (hes : Log.Consecutive (v.firstIndex + v.entries.length) done)
    (hrun : Act.each done WAL.appendEntry v = .ok () v') :
    Sound v' ∧ v' = { v with
      segmentManager := v'.segmentManager, walIndex := v'.walIndex, entries := v.entries ++ done } := by
  obtain ⟨v1, hrun1, hplaced, heq⟩ := WAL.each_appendEntry_ok h.placed hes (fits_of_each hrun)
  rw [hrun] at hrun1
  cases hrun1
  refine ⟨⟨hplaced, ?_, ?_⟩, heq⟩
  · rw [heq]
    exact Log.Consecutive.append h.numbered hes
  · rw [heq]
    exact h.snapshot

end stored

/-- What is needed to know about an append that writes: `common` is skipped, and the entries from `first` on are
written after the stored ones, which are truncated where they reach further. -/
structure Writes (w : WAL) (k : ℕ) (common : List Entry) (first : Entry) (rest : List Entry)
    (w1 wF : WAL) : Prop where
  sound : Sound w
  numbered : Log.Consecutive (w.firstIndex + k) (common ++ first :: rest)
  stored : w.entries.take (k + common.length) = w.entries.take k ++ common
  bound : k + common.length ≤ w.entries.length
  skip : w.skipEqual (common ++ first :: rest) = .ok (first :: rest)
  commit : first.index ≤ w.lastIndex → w.hardState.commit < first.index
  cut : Act.when (first.index ≤ w.lastIndex) (WAL.truncateSuffixFrom first.index) w = .ok () w1
  write : Act.each (first :: rest) WAL.appendEntry w1 = .ok () wF

/-- An append that succeeds writes nothing, or it writes what is left of the batch. -/
theorem writes_of_append {w wF : WAL} {batch : List Entry} (hw : Sound w)
    (hrun : WAL.append batch w = .ok () wF) :
    (wF = w ∧ ∀ f (d : Files), d.wal = w → Files.append f batch d = .ok () d) ∨
      ∃ k common first rest w1, batch = common ++ first :: rest ∧
        (∀ e, batch.head? = some e → e.index = w.firstIndex + k) ∧ Writes w k common first rest w1 wF := by
  cases batch with
  | nil =>
      cases hrun
      exact .inl ⟨rfl, fun f d _ => rfl⟩
  | cons b bs =>
      have hlast := hw.last_eq
      unfold WAL.append at hrun
      dsimp only at hrun
      rw [Act.bind_run (Act.get_run _)] at hrun
      split_ifs at hrun with hcons hfirst hgap
      · cases hrun
      · cases hrun
      · obtain ⟨k, hk⟩ : ∃ k, b.index = w.firstIndex + k := ⟨b.index - w.firstIndex, by omega⟩
        rw [hk] at hcons
        obtain ⟨common, rest, hskip, hsplit, hstored, hbound⟩ := WAL.skipEqual_ok hlast hcons (by omega)
        rw [Act.bind_run (Act.query_run (f := fun w : WAL => w.skipEqual (b :: bs)) hskip)] at hrun
        cases rest with
        | nil =>
            cases hrun
            refine .inl ⟨rfl, fun f d hd => ?_⟩
            unfold Files.append
            dsimp only
            rw [Act.bind_run (Act.get_run _), hd, hskip, if_neg (by rw [hk]; exact not_not.mpr hcons),
              if_neg hfirst,
              if_neg hgap]
            rfl
        | cons first rest =>
            dsimp only at hrun
            unfold WAL.appendFrom at hrun
            rw [Act.bind_run (Act.get_run _)] at hrun
            split_ifs at hrun with hcommit
            · cases hrun
            · refine .inr ⟨k, common, first, rest, ?_⟩
              cases hcut : Act.when (first.index ≤ w.lastIndex) (WAL.truncateSuffixFrom first.index) w with
              | err e w1 =>
                  rw [Act.bind_run_err hcut] at hrun
                  cases hrun
              | panic =>
                  have hpanic : (Act.when (first.index ≤ w.lastIndex) (WAL.truncateSuffixFrom first.index) >>= fun _ =>
                      Act.get >>= fun w : WAL => if first.index ≠ w.lastIndex + 1 then Act.throw .fatal
                        else Act.each (first :: rest) WAL.appendEntry) w = .panic := by
                    show Act.andThen _ _ _ = _
                    unfold Act.andThen
                    rw [hcut]
                  have hfalse := hpanic.symm.trans hrun
                  cases hfalse
              | ok u w1 =>
                  rw [Act.bind_run hcut, Act.bind_run (Act.get_run _)] at hrun
                  split_ifs at hrun with hnext
                  · cases hrun
                  · rw [hsplit] at hskip hcons
                    refine ⟨w1, hsplit, fun e he => ?_, hw, hcons, hstored, hbound, hskip, fun hle => ?_,
                      hcut, hrun⟩
                    · cases he
                      exact hk
                    · by_contra hge
                      exact hcommit ⟨hle, not_lt.mp hge⟩
      · cases hrun

section attempts
variable {w w1 wF : WAL} {k : ℕ} {common rest es batch : List Entry} {first e : Entry} {d d' : Files}

/-- The log between two attempts: its suffix is being truncated, or the next entry waits. -/
inductive Between (w : WAL) (first : Entry) (rest : List Entry) (w1 : WAL) (d : Files) : Prop
  | cutting {place : IndexEntry} (hle : first.index ≤ w.lastIndex)
      (hlook : w.walIndex.lookup first.index = some place) (h : Cutting w place d)
  | writing {done : List Entry} {e : Entry} {es : List Entry} {v : WAL} (hsplit : first :: rest = done ++ e :: es)
      (hdone : Act.each done WAL.appendEntry w1 = .ok () v) (h : Pending v (.entry e) d)

namespace Writes

theorem first_index (h : Writes w k common first rest w1 wF) :
    first.index = w.firstIndex + (k + common.length) := by
  have hdrop := Log.Consecutive.drop h.numbered common.length
  rw [List.drop_left] at hdrop
  rw [← Nat.add_assoc]
  exact hdrop.1

/-- The log from which on entries are written. -/
theorem sound_cut (h : Writes w k common first rest w1 wF) :
    Sound w1 ∧ w1 = { w with
      segmentManager := w1.segmentManager, walIndex := w1.walIndex
      entries := w.entries.take (k + common.length) } := by
  have hlast := h.sound.last_eq
  have hidx := h.first_index
  have hbound := h.bound
  obtain ⟨w2, hcut, hplaced, heq⟩ : ∃ w2, Act.when (first.index ≤ w.lastIndex) (WAL.truncateSuffixFrom first.index) w =
      .ok () w2 ∧ w.WithEntries (w.entries.take (k + common.length)) w2 := by
    unfold Act.when
    by_cases hle : first.index ≤ w.lastIndex
    · rw [if_pos hle, hidx]
      exact WAL.truncateSuffixFrom_ok h.sound.placed (by omega)
    · rw [if_neg hle, List.take_of_length_le (by omega)]
      exact ⟨w, rfl, h.sound.placed, rfl⟩
  rw [h.cut] at hcut
  cases hcut
  refine ⟨⟨hplaced, ?_, ?_⟩, heq⟩
  · rw [heq]
    exact Log.Consecutive.take h.sound.numbered _
  · rw [heq]
    exact h.sound.snapshot

theorem length_cut (h : Writes w k common first rest w1 wF) : w1.firstIndex + w1.entries.length = first.index := by
  rw [h.sound_cut.2, h.first_index]
  dsimp only
  rw [List.length_take, min_eq_left h.bound]

theorem numbered_rest (h : Writes w k common first rest w1 wF) :
    Log.Consecutive first.index (first :: rest) := by
  have hdrop := Log.Consecutive.drop h.numbered common.length
  rw [List.drop_left, Nat.add_assoc, ← h.first_index] at hdrop
  exact hdrop

theorem sound_done (h : Writes w k common first rest w1 wF) : Sound wF := by
  refine (h.sound_cut.1.each ?_ h.write).1
  rw [h.length_cut]
  exact h.numbered_rest

/-- Before the first attempt. -/
theorem between (h : Writes w k common first rest w1 wF) (hd : Clean w d) : Between w first rest w1 d := by
  by_cases hle : first.index ≤ w.lastIndex
  · have hlast := h.sound.last_eq
    have hidx := h.first_index
    have hlt : k + common.length < w.walIndex.entries.length := by
      rw [h.sound.placed.length]
      omega
    have hlook := h.sound.placed.lookup (k + common.length)
    rw [List.getElem?_eq_getElem hlt, ← hidx] at hlook
    refine .cutting hle hlook ⟨?_, ⟨?_, ?_⟩, hd.strays, hd.tail⟩
    · rw [hd.wal]
    · rw [hd.wal]
    · rw [hd.wal]
      exact h.sound.placed.held _ (List.getElem_mem hlt)
  · have hcut := h.cut
    unfold Act.when at hcut
    rw [if_neg hle] at hcut
    cases hcut
    have hnil : first :: rest = [] ++ first :: rest := rfl
    exact .writing hnil rfl (hd.pending _)

end Writes

/-- Appends keep a log sound. -/
theorem Sound.append (hw : Sound w) (hrun : WAL.append batch w = .ok () wF) : Sound wF := by
  rcases writes_of_append hw hrun with ⟨rfl, -⟩ | ⟨k, common, first, rest, w1, -, -, hwrites⟩
  · exact hw
  · exact hwrites.sound_done

theorem Pending.wal_eq {v : WAL} {r : Record} (h : Pending v r d) :
    d.wal = { v with segmentManager := d.wal.segmentManager } := by
  rcases h.wal with heq | heq
  · rw [heq]
  · rw [heq]
    unfold rolled
    split
    · rfl
    · split_ifs <;> rfl

/-- The entries in memory between two attempts. -/
theorem Between.entries (h : Between w first rest w1 d) (hw : Writes w k common first rest w1 wF) :
    d.wal.entries = w.entries ∨ ∃ j, d.wal.entries = w.entries.take k ++ (common ++ first :: rest).take j := by
  cases h with
  | cutting hle hlook h =>
      left
      rw [h.wal]
  | writing hsplit hdone h =>
      rename_i done e es v
      right
      have hnumbered := hw.numbered_rest
      rw [hsplit, ← hw.length_cut] at hnumbered
      have hv := (hw.sound_cut.1.each (Log.Consecutive.of_isPrefix hnumbered (List.prefix_append _ _)) hdone).2
      refine ⟨(common ++ done).length, ?_⟩
      rw [h.wal_eq, hv]
      dsimp only
      rw [hw.sound_cut.2]
      dsimp only
      rw [hw.stored, hsplit, ← List.append_assoc common, List.take_left, List.append_assoc]

/-- An append of a batch that it accepts goes on with what is left of it. -/
theorem twp_append_of {Q : Unit → Files → Prop} {E : RetryErr → Files → Prop} {f : Option Fault}
    (hes : Log.Consecutive (d.wal.firstIndex + k) batch) (hk : d.wal.firstIndex + k ≤ d.wal.lastIndex + 1)
    (hskip : d.wal.skipEqual batch = .ok (e :: es)) (h : (Files.appendFrom f e es).twp Q E d) :
    (Files.append f batch).twp Q E d := by
  cases batch with
  | nil => cases hskip
  | cons b bs =>
      have hidx := hes.1
      have hcons : Log.Consecutive b.index (b :: bs) := by
        rw [hidx]
        exact hes
      unfold Files.append
      dsimp only
      rw [Act.twp_bind, Act.twp_get, if_neg (not_not.mpr hcons), if_neg (by omega), if_neg (by omega), hskip]
      exact h

/-- An attempt appends the batch as without failures, or leaves the log between two attempts. -/
theorem twp_append (hw : Writes w k common first rest w1 wF) (h : Between w first rest w1 d)
    (f : Option Fault) :
    (Files.append f (common ++ first :: rest)).twp (fun _ d' => Clean wF d' ∧ d.strays = [])
      (fun _ d' => Between w first rest w1 d' ∧ Stopped f d d') d := by
  have hfits := fits_of_each hw.write
  have hnumbered := hw.numbered_rest
  have hlast := hw.sound.last_eq
  have hidx := hw.first_index
  have hbound := hw.bound
  cases h with
  | cutting hle hlook h =>
      rename_i place
      have hfirst : d.wal.firstIndex = w.firstIndex := by rw [h.wal]
      have hlastd : d.wal.lastIndex = w.lastIndex := by
        rw [h.wal]
        rfl
      have hcommit : d.wal.hardState = w.hardState := by rw [h.wal]
      have hskip : d.wal.skipEqual (common ++ first :: rest) = .ok (first :: rest) := by
        rw [h.wal, skipEqual_setSegments]
        exact hw.skip
      refine twp_append_of (by rw [hfirst]; exact hw.numbered) (by omega) hskip ?_
      have hlt := hw.commit hle
      unfold Files.appendFrom Act.when
      rw [Act.twp_bind, Act.twp_get, hlastd, hcommit, if_neg (by omega), if_pos hle, Act.twp_bind]
      refine Act.twp_mono (twp_truncateSuffixFrom hlook h _) (fun _ d1 h1 => ?_) fun _ d' hd => ?_
      · have hw1 : w1 = truncated w place first.index := by
          have hcut := hw.cut
          unfold Act.when WAL.truncateSuffixFrom at hcut
          rw [if_pos hle, Act.bind_run (Act.get_run _), hlook] at hcut
          dsimp only at hcut
          rw [isNone_get (hw.sound.placed.held _ ?_), if_neg Bool.false_ne_true] at hcut
          · cases hcut
            rfl
          · unfold WALIndex.lookup at hlook
            split_ifs at hlook
            exact List.mem_of_getElem? hlook
        rw [← hw1] at h1
        have hlast1 := hw.sound_cut.1.last_eq
        have hlen1 := hw.length_cut
        rw [Act.twp_bind, Act.twp_get, h1.wal, if_neg (by omega)]
        refine Act.twp_mono (twp_each hw.sound_cut.1.placed (by rw [hlen1]; exact hnumbered) hfits hw.write
          (fun x _ => h1.pending _) fun _ => h1) (fun _ d' hd => ⟨hd.1, h.strays⟩) fun _ d' hd => ?_
        obtain ⟨⟨done, x, xs, v, hsplit, hdone, hpend⟩, hstop⟩ := hd
        refine ⟨.writing hsplit hdone hpend, ?_, fun _ => hstop.fault h1.strays⟩
        rw [hstop.strays, h1.strays, h.strays]
      · obtain ⟨hcut, hf⟩ := hd
        refine ⟨.cutting hle hlook hcut, ?_, fun _ hnone => hf (by rw [hnone]; rfl)⟩
        rw [hcut.strays, h.strays]
        refine ⟨fun _ => ⟨rfl, fun g hg => ?_⟩, fun _ => rfl⟩
        -- the fault is one of the truncation
        rintro ⟨i, r, rfl, -⟩
        rw [hg] at hf
        exact hf rfl
  | writing hsplit hdone h =>
      rename_i done x xs v
      rw [hsplit, ← hw.length_cut] at hnumbered
      obtain ⟨hsound, hv⟩ := hw.sound_cut.1.each (Log.Consecutive.of_isPrefix hnumbered (List.prefix_append _ _)) hdone
      have hlen : v.firstIndex + v.entries.length = first.index + done.length := by
        rw [hv, ← hw.length_cut]
        dsimp only
        rw [List.length_append, Nat.add_assoc]
      have hnext : Log.Consecutive (v.firstIndex + v.entries.length) (x :: xs) := by
        have hdrop := Log.Consecutive.drop hnumbered done.length
        rw [List.drop_left, hw.length_cut] at hdrop
        rw [hlen]
        exact hdrop
      have hfirst : v.firstIndex = w.firstIndex := by
        rw [hv, hw.sound_cut.2]
      have hlastv := hsound.last_eq
      have hxidx := hnext.1
      have hlastd : d.wal.lastIndex = v.lastIndex := by
        rw [h.wal_eq]
        rfl
      have hentries : v.entries.drop k = common ++ done := by
        rw [hv]
        dsimp only
        rw [hw.sound_cut.2]
        dsimp only
        have hlenk : (w.entries.take k).length = k := by
          rw [List.length_take]
          omega
        rw [hw.stored, List.append_assoc]
        exact List.drop_left' hlenk
      have hsplit' : common ++ first :: rest = (common ++ done) ++ x :: xs := by
        rw [hsplit, List.append_assoc]
      have hnum := hw.numbered
      rw [hsplit', ← hfirst] at hnum
      have hskip : d.wal.skipEqual (common ++ first :: rest) = .ok (x :: xs) := by
        rw [h.wal_eq, skipEqual_setSegments, hsplit']
        exact skipEqual_stored hsound hnum hentries (by omega)
      have hfirstd : d.wal.firstIndex = v.firstIndex := by rw [h.wal_eq]
      refine twp_append_of (by rw [hsplit', hfirstd]; exact hnum) (by omega) hskip ?_
      have hrest : Act.each (x :: xs) WAL.appendEntry v = .ok () wF := by
        have hwrite := hw.write
        rwa [hsplit, each_ok_append hdone] at hwrite
      unfold Files.appendFrom Act.when
      rw [Act.twp_bind, Act.twp_get, hlastd, if_neg (by omega), if_neg (by omega), Act.twp_bind, Act.twp_pure,
        Act.twp_bind, Act.twp_get, hlastd, if_neg (by omega)]
      refine Act.twp_mono (twp_each hsound.placed hnext
        (fun y hy => hfits y (by rw [hsplit]; exact List.mem_append_right _ hy)) hrest ?_ fun hnil => ?_)
        (fun _ d' hd => hd) fun _ d' hd => ?_
      · intro y hy
        cases hy
        exact h
      · cases hnil
      · obtain ⟨⟨done', y, ys, v', hsplit2, hdone', hpend⟩, hstop⟩ := hd
        have hsplit3 : first :: rest = (done ++ done') ++ y :: ys := by
          rw [hsplit, hsplit2, List.append_assoc]
        have hdone3 : Act.each (done ++ done') WAL.appendEntry w1 = .ok () v' := by
          rw [each_ok_append hdone]
          exact hdone'
        exact ⟨.writing hsplit3 hdone3 hpend, hstop⟩

end attempts

/-- The files of a log before the first attempt. -/
def Files.of (w : WAL) : Files := { wal := w }

section retries
variable {w w1 wF : WAL} {k : ℕ} {common rest batch : List Entry} {first : Entry} {d d' : Files}
    {fs : List Fault}

/-- After any number of failing attempts. -/
theorem between_attempts (hw : Writes w k common first rest w1 wF) (h : Between w first rest w1 d)
    (hfs : Files.Attempts (common ++ first :: rest) d fs d') :
    Between w first rest w1 d' ∧ (d'.strays = [] ↔ d.strays = [] ∧ ∀ f ∈ fs, ¬ f.Stays) := by
  generalize hbatch : common ++ first :: rest = batch at hfs
  induction hfs with
  | nil d => exact ⟨h, by simp⟩
  | cons hfail hrest ih =>
      rename_i d d1 d2 f fs e
      rw [← hbatch] at hfail
      rcases Act.twp_cases (twp_append hw h (some f)) with ⟨u, d3, hrun, -⟩ | ⟨e', d3, hrun, hbetween, hstop⟩
      · rw [hrun] at hfail
        cases hfail
      · rw [hrun] at hfail
        cases hfail
        obtain ⟨hlast, hstrays⟩ := ih hbetween
        refine ⟨hlast, ?_⟩
        rw [hstrays, hstop.strays, and_assoc]
        simp

/-- An append that is possible without failures is tried any number of times, and a call of the file system fails
each time.  Then no attempt runs into the assertion of the segments; the entries in memory are the old
ones, or the shared ones and a prefix of the batch; and the next attempt writes what an append without
failures writes, unless the file of a new segment has stayed in the directory. -/
theorem append_retried (hw : Sound w) (hrun : WAL.append batch w = .ok () wF)
    (hfs : Files.Attempts batch (.of w) fs d) :
    (∀ f, Files.append f batch d ≠ .panic) ∧
    (d.wal.entries = w.entries ∨ ∃ e j, batch.head? = some e ∧
      d.wal.entries = w.entries.take (e.index - w.firstIndex) ++ batch.take j) ∧
    ((∃ d', Files.append none batch d = .ok () d' ∧ d'.wal = wF ∧ ∀ i, d'.tail i = 0) ↔
      ∀ f ∈ fs, ¬ f.Stays) := by
  rcases writes_of_append hw hrun with ⟨rfl, hnoop⟩ | ⟨k, common, first, rest, w1, rfl, hhead, hwrites⟩
  · cases hfs with
    | nil =>
        refine ⟨fun f => ?_, .inl rfl, ?_⟩
        · rw [hnoop f _ rfl]
          exact fun hpanic => by cases hpanic
        · exact ⟨fun _ f hf => absurd hf List.not_mem_nil, fun _ => ⟨.of wF, hnoop none _ rfl, rfl,
          fun _ => rfl⟩⟩
    | cons hfail hrest =>
        rw [hnoop _ _ rfl] at hfail
        cases hfail
  · have hclean : Clean w (.of w) := ⟨rfl, rfl, fun _ => rfl⟩
    obtain ⟨hbetween, hstrays⟩ := between_attempts hwrites (hwrites.between hclean) hfs
    have hstrays : d.strays = [] ↔ ∀ f ∈ fs, ¬ f.Stays := by
      rw [hstrays]
      exact and_iff_right hclean.strays
    refine ⟨fun f => ?_, ?_, ?_⟩
    · rcases Act.twp_cases (twp_append hwrites hbetween f) with ⟨u, d1, hok, -⟩ | ⟨e, d1, herr, -⟩
      · rw [hok]
        exact fun hpanic => by cases hpanic
      · rw [herr]
        exact fun hpanic => by cases hpanic
    · rcases hbetween.entries hwrites with hold | ⟨j, hnew⟩
      · exact .inl hold
      · obtain ⟨e, he⟩ : ∃ e, (common ++ first :: rest).head? = some e := by
          cases common with
          | nil => exact ⟨first, rfl⟩
          | cons c cs => exact ⟨c, rfl⟩
        refine .inr ⟨e, j, he, ?_⟩
        rw [hnew, hhead e he, Nat.add_sub_cancel_left]
    · rw [← hstrays]
      rcases Act.twp_cases (twp_append hwrites hbetween none) with
        ⟨u, d1, hok, hdone, hs⟩ | ⟨e, d1, herr, -, hstop⟩
      · exact ⟨fun _ => hs, fun _ => ⟨d1, hok, hdone.wal, hdone.tail⟩⟩
      · constructor
        · rintro ⟨d2, hok, -⟩
          rw [herr] at hok
          cases hok
        · exact fun hs => absurd rfl (hstop.fault hs)

end retries

/-! ### Three entries, the last two replaced -/

/-- Three entries, each in a segment of its own. -/
def stored : List Entry := [{ index := 1, term := 1 }, { index := 2, term := 1 }, { index := 3, term := 1 }]

/-- The last two in a later term. -/
def replacing : List Entry := [{ index := 2, term := 2 }, { index := 3, term := 2 }]

section examples
variable {ε σ : Type}

/-- The state after a success. -/
def returned : Outcome ε σ Unit → Option σ
  | .ok _ s => some s
  | _ => none

/-- The state after an error. -/
def failed : Outcome ε σ Unit → Option σ
  | .err _ s => some s
  | _ => none

/-- The state after this error. -/
def failedWith [DecidableEq ε] (e : ε) : Outcome ε σ Unit → Option σ
  | .err e' s => if e' = e then some s else none
  | _ => none

theorem of_returned {x : Outcome ε σ Unit} {s : σ} (h : returned x = some s) : x = .ok () s := by
  cases x <;> cases h
  rfl

theorem of_failed {x : Outcome ε σ Unit} {s : σ} (h : failed x = some s) : ∃ e, x = .err e s := by
  cases x <;> cases h
  exact ⟨_, rfl⟩

theorem of_failedWith [DecidableEq ε] {e : ε} {x : Outcome ε σ Unit} {s : σ} (h : failedWith e x = some s) :
    x = .err e s := by
  unfold failedWith at h
  split at h
  · split_ifs at h with he
    cases h
    rw [he]
  · cases h

theorem attempts_of_foldlM {batch : List Entry} {fs : List Fault} {d d' : Files}
    (h : fs.foldlM (fun d f => failed (Files.append (some f) batch d)) d = some d') : Files.Attempts batch d fs d' := by
  induction fs generalizing d with
  | nil =>
      cases h
      exact .nil _
  | cons f fs ih =>
      rw [List.foldlM_cons] at h
      obtain ⟨d1, hfail, hrest⟩ := Option.bind_eq_some_iff.mp h
      obtain ⟨e, he⟩ := of_failed hfail
      exact .cons he (ih hrest)

/-- An unlink, a write and the header of a new segment fail. -/
theorem append_retried_replacing : ∃ w wF d d', WAL.append stored (WAL.empty 64) = .ok () w ∧
    WAL.append replacing w = .ok () wF ∧
    Files.Attempts replacing (.of w) [.cut (.unlink 3), .record 2 (.write 5), .record 3 (.header false)] d ∧
    Files.append none replacing d = .ok () d' ∧ d'.wal = wF := by
  have hruns : ((returned (WAL.append stored (WAL.empty 64))).bind fun w =>
      (returned (WAL.append replacing w)).bind fun _ =>
        List.foldlM (fun d f => failed (Files.append (some f) replacing d)) (Files.of w)
          [.cut (.unlink 3), .record 2 (.write 5), .record 3 (.header false)]).isSome = true :=
            by decide +kernel
  obtain ⟨d, hd⟩ := Option.isSome_iff_exists.mp hruns
  obtain ⟨w, hw, hd⟩ := Option.bind_eq_some_iff.mp hd
  obtain ⟨wF, hwF, hd⟩ := Option.bind_eq_some_iff.mp hd
  have hstored := of_returned hw
  have hsound : Sound w := Sound.append (.of_same (Same.empty 64)) hstored
  obtain ⟨-, -, hiff⟩ := append_retried hsound (of_returned hwF) (attempts_of_foldlM hd)
  obtain ⟨d', hd', hwal, -⟩ := hiff.mpr (by
    rintro f hf ⟨i, g, rfl, hleaves⟩
    simp only [List.mem_cons, List.not_mem_nil, or_false, Fault.record.injEq, reduceCtorEq, false_or] at hf
    rcases hf with ⟨-, rfl⟩ | ⟨-, rfl⟩ <;> cases hleaves)
  exact ⟨w, wF, d, d', hstored, of_returned hwF, attempts_of_foldlM hd, hd', hwal⟩

/-- The creation of a segment fails although the file is there: with nothing failing any more, the batch is still
not appended. -/
theorem append_not_retried : ∃ w wF d d', Sound w ∧ WAL.append replacing w = .ok () wF ∧
    Files.Attempts replacing (.of w) [.record 3 (.create true)] d ∧
    Files.append none replacing d = .err .openFailed d' := by
  have hruns : ((returned (WAL.append stored (WAL.empty 64))).bind fun w =>
      (returned (WAL.append replacing w)).bind fun _ =>
        (List.foldlM (fun d f => failed (Files.append (some f) replacing d)) (Files.of w)
          [.record 3 (.create true)]).bind fun d =>
            failedWith .openFailed (Files.append none replacing d)).isSome = true := by decide +kernel
  obtain ⟨d', hd'⟩ := Option.isSome_iff_exists.mp hruns
  obtain ⟨w, hw, hd'⟩ := Option.bind_eq_some_iff.mp hd'
  obtain ⟨wF, hwF, hd'⟩ := Option.bind_eq_some_iff.mp hd'
  obtain ⟨d, hd, hd'⟩ := Option.bind_eq_some_iff.mp hd'
  have hsound : Sound w := Sound.append (.of_same (Same.empty 64)) (of_returned hw)
  exact ⟨w, wF, d, d', hsound, of_returned hwF, attempts_of_foldlM hd, of_failedWith hd'⟩

end examples

end AppendRetry

end Raftz
