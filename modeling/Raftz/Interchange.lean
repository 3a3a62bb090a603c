import Raftz.Wal

/-! # The two storages compared

The same writes are made to a write-ahead log and to a memory storage, both
started empty.  `Same` relates the two: the entries, the position of the last
snapshot, the hard state, the configuration and the membership are the same,
and every entry of the log has its place in an existing segment (`Placed`).
Every write keeps it, and related storages answer every read alike, as long as
no batch repeats stored entries and ends below the last one: the log keeps the
entries beyond such a batch, the memory storage drops them. -/

open Base

namespace Raftz

namespace SegmentManager

/-! ### Segment ids -/

/-- The ids of the segments. -/
def ids (m : SegmentManager) : List ℕ := m.segments.map Segment.segmentId

/-- Ascending ids, the last one being written. -/
structure Ordered (m : SegmentManager) : Prop where
  sorted : m.ids.Pairwise (· < ·)
  last : m.ids.getLast? = some m.currentSegmentId

variable {m : SegmentManager}

theorem ids_rollToNew (i : ℕ) : (m.rollToNew i).ids = m.ids ++ [m.currentSegmentId + 1] := by
  unfold rollToNew ids
  rw [List.map_append]
  rfl

theorem ids_removeSegmentsBefore (k : ℕ) :
    (m.removeSegmentsBefore k).ids = m.ids.filter fun i => decide (k ≤ i) := by
  unfold removeSegmentsBefore ids
  rw [List.filter_map]
  rfl

theorem ids_truncate (k o : ℕ) : (m.truncate k o).ids = m.ids := by
  unfold truncate ids
  rw [List.map_map]
  refine List.map_congr_left fun s _ => ?_
  simp only [Function.comp]
  split <;> rfl

theorem ids_removeSegmentsAfter_isPrefix (k : ℕ) : (m.removeSegmentsAfter k).ids <+: m.ids := by
  unfold removeSegmentsAfter ids
  exact (List.rdropWhile_prefix _ _).map _

theorem mem_ids_removeSegmentsAfter {k i : ℕ} (hi : i ∈ m.ids) (hk : i ≤ k) :
    i ∈ (m.removeSegmentsAfter k).ids := by
  unfold removeSegmentsAfter ids
  obtain ⟨s, hs, rfl⟩ := List.mem_map.mp hi
  refine List.mem_map_of_mem ?_
  -- Only segments with larger ids are dropped.
  rw [List.rdropWhile, List.mem_reverse]
  have hmem : s ∈ m.segments.reverse := List.mem_reverse.mpr hs
  generalize m.segments.reverse = l at hmem
  induction l with
  | nil => cases hmem
  | cons a l ih =>
      rw [List.dropWhile_cons]
      split
      · rename_i hlt
        rcases List.mem_cons.mp hmem with rfl | hmem
        · simp only [decide_eq_true_eq] at hlt
          omega
        · exact ih hmem
      · exact hmem

theorem ids_append (r : Record) : (m.append r).ids = m.ids := by
  unfold append getCurrent ids
  split
  · rfl
  · rename_i s hs
    obtain ⟨ys, hys⟩ := List.getLast?_eq_some_iff.mp hs
    rw [hys, List.dropLast_concat]
    simp

namespace Ordered

theorem le_current (h : m.Ordered) {i : ℕ} (hi : i ∈ m.ids) : i ≤ m.currentSegmentId := by
  obtain ⟨ys, hys⟩ := List.getLast?_eq_some_iff.mp h.last
  have hsorted := h.sorted
  rw [hys] at hi hsorted
  rcases List.mem_append.mp hi with hi | hi
  · exact ((List.pairwise_append.mp hsorted).2.2 i hi _ (List.mem_singleton_self _)).le
  · rw [List.mem_singleton.mp hi]

theorem current_mem (h : m.Ordered) : m.currentSegmentId ∈ m.ids := List.mem_of_getLast? h.last

theorem getCurrent (h : m.Ordered) : ∃ s, m.getCurrent = some s ∧ s.segmentId = m.currentSegmentId := by
  have hlast := h.last
  unfold ids at hlast
  rw [List.getLast?_map] at hlast
  exact Option.map_eq_some_iff.mp hlast

theorem rollToNew (h : m.Ordered) (i : ℕ) : (m.rollToNew i).Ordered where
  sorted := by
    rw [ids_rollToNew]
    refine List.pairwise_append.mpr ⟨h.sorted, List.pairwise_singleton _ _, ?_⟩
    intro a ha b hb
    rw [List.mem_singleton.mp hb]
    exact Nat.lt_succ_of_le (h.le_current ha)
  last := by
    rw [ids_rollToNew]
    simp [SegmentManager.rollToNew]

theorem append (h : m.Ordered) (r : Record) : (m.append r).Ordered where
  sorted := by
    rw [ids_append]
    exact h.sorted
  last := by
    rw [ids_append, h.last]
    unfold SegmentManager.append
    split <;> rfl

theorem truncate (h : m.Ordered) (k o : ℕ) : (m.truncate k o).Ordered where
  sorted := by
    rw [ids_truncate]
    exact h.sorted
  last := by
    rw [ids_truncate]
    exact h.last

theorem removeSegmentsBefore (h : m.Ordered) {k : ℕ} (hk : k ≤ m.currentSegmentId) :
    (m.removeSegmentsBefore k).Ordered where
  sorted := by
    rw [ids_removeSegmentsBefore]
    exact h.sorted.filter _
  last := by
    obtain ⟨ys, hys⟩ := List.getLast?_eq_some_iff.mp h.last
    rw [ids_removeSegmentsBefore, hys, List.filter_append]
    simp [SegmentManager.removeSegmentsBefore, hk]

theorem removeSegmentsAfter (h : m.Ordered) {k : ℕ} (hk : k ∈ m.ids) :
    (m.removeSegmentsAfter k).Ordered where
  sorted := h.sorted.sublist (ids_removeSegmentsAfter_isPrefix k).sublist
  last := by
    have hmem := mem_ids_removeSegmentsAfter hk le_rfl
    unfold SegmentManager.removeSegmentsAfter ids at hmem ⊢
    obtain ⟨s, hs, -⟩ := List.mem_map.mp hmem
    rw [List.getLast?_map]
    cases hlast : (List.rdropWhile (fun s => decide (k < s.segmentId)) m.segments).getLast? with
    | none => rw [List.getLast?_eq_none_iff.mp hlast] at hs; cases hs
    | some t => simp [hlast]

end Ordered

end SegmentManager

namespace WAL

/-! ### Every entry has a place -/

/-- The index has the term and the segment of every entry. -/
structure Placed (w : WAL) : Prop where
  ordered : w.segmentManager.Ordered
  first : w.walIndex.firstIndex = w.firstIndex
  pos : 0 < w.firstIndex
  terms : w.walIndex.entries.map IndexEntry.term = w.entries.map Entry.term
  held : ∀ x ∈ w.walIndex.entries, x.segmentId ∈ w.segmentManager.ids
  sorted : w.walIndex.entries.Pairwise fun x y => x.segmentId ≤ y.segmentId

variable {w : WAL}

namespace Placed

theorem length (h : w.Placed) : w.walIndex.entries.length = w.entries.length := by
  have := congrArg List.length h.terms
  simpa using this

theorem nil_iff (h : w.Placed) : w.walIndex.entries = [] ↔ w.entries = [] := by
  rw [← List.length_eq_zero_iff, ← List.length_eq_zero_iff, h.length]

/-- An entry has a place, and no other index has one. -/
theorem lookup (h : w.Placed) (k : ℕ) :
    w.walIndex.lookup (w.firstIndex + k) = w.walIndex.entries[k]? := by
  unfold WALIndex.lookup WALIndex.lastIndex
  rw [h.first]
  by_cases hnil : w.walIndex.entries = []
  · simp [hnil]
  · have hlen : 0 < w.walIndex.entries.length := List.length_pos_iff.mpr hnil
    simp only [hnil, if_false, false_or, Nat.add_sub_cancel_left]
    split
    · rename_i hk
      rw [List.getElem?_eq_none_iff.mpr (by omega)]
    · rfl

theorem term (h : w.Placed) (k : ℕ) :
    w.walIndex.term (w.firstIndex + k) = w.entries[k]?.map Entry.term := by
  unfold WALIndex.term
  rw [h.lookup, ← List.getElem?_map, h.terms, List.getElem?_map]

end Placed

/-- Writing a record touches the segments only, and names the one that is written. -/
theorem writeRecord_ok (h : w.segmentManager.Ordered) {r : Record} (hr : r.Fits) :
    ∃ p m, writeRecord r w = .ok p { w with segmentManager := m } ∧ m.Ordered ∧
      (∀ i ∈ w.segmentManager.ids, i ∈ m.ids) ∧ p.segmentId ∈ m.ids ∧
      ∀ i ∈ m.ids, i ≤ p.segmentId := by
  -- The manager after the roll, whether or not there was one.
  have key : ∀ (w : WAL), w.segmentManager.Ordered →
      ∃ s, w.segmentManager.getCurrent = some s ∧ (w.segmentManager.append r).Ordered ∧
        (∀ i ∈ w.segmentManager.ids, i ∈ (w.segmentManager.append r).ids) ∧
        s.segmentId ∈ (w.segmentManager.append r).ids ∧
        ∀ i ∈ (w.segmentManager.append r).ids, i ≤ s.segmentId := by
    intro w h
    obtain ⟨s, hs, hid⟩ := h.getCurrent
    rw [SegmentManager.ids_append]
    refine ⟨s, hs, h.append r, fun i hi => hi, ?_, ?_⟩
    · rw [hid]
      exact h.current_mem
    · intro i hi
      rw [hid]
      exact h.le_current hi
  obtain ⟨cur, hcur, -⟩ := h.getCurrent
  have hsome : ∀ (s : Segment) (w : WAL), (Act.orPanic (some s) : Act Err WAL Segment) w = .ok s w :=
    fun _ _ => rfl
  unfold writeRecord
  rw [if_pos hr, Act.bind_run (Act.get_run _), hcur, Act.bind_run (hsome cur w)]
  by_cases hfull : w.segmentSize < cur.writeOffset + r.size ∧ Segment.headerSize < cur.writeOffset
  · have hroll := h.rollToNew (w.nextFirstIndex cur)
    obtain ⟨s, hs, ho, hkeep, hmem, hle⟩ := key
      { w with segmentManager := w.segmentManager.rollToNew (w.nextFirstIndex cur) } hroll
    have hwhen : Act.when (w.segmentSize < cur.writeOffset + r.size ∧
        Segment.headerSize < cur.writeOffset)
        (Act.modify fun w : WAL => { w with
          segmentManager := w.segmentManager.rollToNew (w.nextFirstIndex cur) }) w =
        (.ok () { w with
          segmentManager := w.segmentManager.rollToNew (w.nextFirstIndex cur) } :
          Outcome Err WAL Unit) := by
      unfold Act.when
      rw [if_pos hfull]
      rfl
    rw [Act.bind_run hwhen, Act.bind_run (Act.get_run _), hs, Act.bind_run (hsome s _)]
    refine ⟨⟨s.segmentId, s.writeOffset, r.size, 0⟩, _, rfl, ho, ?_, hmem, hle⟩
    intro i hi
    refine hkeep i ?_
    dsimp only
    rw [SegmentManager.ids_rollToNew]
    exact List.mem_append_left _ hi
  · obtain ⟨s, hs, ho, hkeep, hmem, hle⟩ := key w h
    have hwhen : Act.when (w.segmentSize < cur.writeOffset + r.size ∧
        Segment.headerSize < cur.writeOffset)
        (Act.modify fun w : WAL => { w with
          segmentManager := w.segmentManager.rollToNew (w.nextFirstIndex cur) }) w =
        (.ok () w : Outcome Err WAL Unit) := by
      unfold Act.when
      rw [if_neg hfull]
      rfl
    rw [Act.bind_run hwhen, Act.bind_run (Act.get_run _), hs, Act.bind_run (hsome s _)]
    exact ⟨⟨s.segmentId, s.writeOffset, r.size, 0⟩, _, rfl, ho, hkeep, hmem, hle⟩

/-- What a write of entries leaves: new entries with their places, and everything else as before. -/
def WithEntries (w : WAL) (es : List Entry) (w' : WAL) : Prop :=
  w'.Placed ∧ w' = { w with
    segmentManager := w'.segmentManager, walIndex := w'.walIndex, entries := es }

theorem appendEntry_ok (h : w.Placed) {e : Entry} (hi : e.index = w.firstIndex + w.entries.length)
    (hr : (Record.entry e).Fits) :
    ∃ w', appendEntry e w = .ok () w' ∧ w.WithEntries (w.entries ++ [e]) w' := by
  obtain ⟨p, m, hw, ho, hkeep, hmem, hle⟩ := writeRecord_ok h.ordered hr
  unfold appendEntry
  rw [Act.bind_run hw]
  have hins : w.walIndex.insert e.index { p with term := e.term } =
      .ok { w.walIndex with entries := w.walIndex.entries ++ [{ p with term := e.term }] } := by
    unfold WALIndex.insert
    rw [if_neg]
    rw [h.first, h.length, hi, ne_eq, not_not]
  rw [Act.bind_run (Act.query_run (s := { w with segmentManager := m })
    (f := fun w : WAL => w.walIndex.insert e.index { p with term := e.term }) hins)]
  refine ⟨_, rfl, ⟨ho, h.first, h.pos, ?_, ?_, ?_⟩, rfl⟩
  · dsimp only
    rw [List.map_append, List.map_append, h.terms]
    rfl
  · intro x hx
    rcases List.mem_append.mp hx with hx | hx
    · exact hkeep _ (h.held x hx)
    · rw [List.mem_singleton.mp hx]
      exact hmem
  · refine List.pairwise_append.mpr ⟨h.sorted, List.pairwise_singleton _ _, ?_⟩
    intro x hx y hy
    rw [List.mem_singleton.mp hy]
    exact hle _ (hkeep _ (h.held x hx))

theorem each_appendEntry_ok (h : w.Placed) {es : List Entry}
    (hes : Log.Consecutive (w.firstIndex + w.entries.length) es)
    (hr : ∀ e ∈ es, (Record.entry e).Fits) :
    ∃ w', Act.each es appendEntry w = .ok () w' ∧ w.WithEntries (w.entries ++ es) w' := by
  induction es generalizing w with
  | nil => exact ⟨w, rfl, h, by simp⟩
  | cons e es ih =>
      obtain ⟨w1, hw1, hp1, heq1⟩ := appendEntry_ok h hes.1 (hr e List.mem_cons_self)
      have hentries : w1.entries = w.entries ++ [e] := by rw [heq1]
      have hfirst : w1.firstIndex = w.firstIndex := by rw [heq1]
      have hnext : Log.Consecutive (w1.firstIndex + w1.entries.length) es := by
        rw [hentries, hfirst, List.length_append]
        exact hes.2
      obtain ⟨w2, hw2, hp2, heq2⟩ := ih hp1 hnext fun e' he' => hr e' (List.mem_cons_of_mem _ he')
      refine ⟨w2, ?_, hp2, ?_⟩
      · show (appendEntry e >>= fun _ => Act.each es appendEntry) w = _
        rw [Act.bind_run hw1, hw2]
      · rw [heq2, hentries, heq1]
        simp

theorem truncateFrom_eq (h : w.Placed) {k : ℕ} (hk : k < w.entries.length) :
    w.walIndex.truncateFrom (w.firstIndex + k) = ⟨w.walIndex.entries.take k, w.firstIndex⟩ := by
  have hlen := h.length
  have hnil : w.walIndex.entries ≠ [] := by
    rw [ne_eq, ← List.length_eq_zero_iff]
    omega
  unfold WALIndex.truncateFrom WALIndex.lastIndex
  rw [if_neg hnil, h.first]
  have hin : ¬ (w.walIndex.entries = [] ∨
      w.firstIndex + w.walIndex.entries.length - 1 < w.firstIndex + k) := by
    rintro (hn | hlt)
    · exact hnil hn
    · omega
  rw [if_neg hin]
  split
  · have hk0 : k = 0 := by omega
    rw [hk0, List.take_zero]
  · rw [Nat.add_sub_cancel_left]

/-- Entries that exist can be truncated. -/
theorem truncateSuffixFrom_ok (h : w.Placed) {k : ℕ} (hk : k < w.entries.length) :
    ∃ w', truncateSuffixFrom (w.firstIndex + k) w = .ok () w' ∧
      w.WithEntries (w.entries.take k) w' := by
  have hk' : k < w.walIndex.entries.length := by rw [h.length]; exact hk
  obtain ⟨x, hx⟩ : ∃ x, w.walIndex.entries[k]? = some x :=
    ⟨_, List.getElem?_eq_getElem hk'⟩
  have hxmem : x ∈ w.walIndex.entries := List.mem_of_getElem? hx
  have hxid := h.held x hxmem
  have hseg : (w.segmentManager.get x.segmentId).isNone = false := by
    obtain ⟨s, hs, hid⟩ := List.mem_map.mp hxid
    unfold SegmentManager.get
    rw [Option.isNone_eq_false_iff, List.find?_isSome]
    exact ⟨s, hs, by simp [hid]⟩
  unfold truncateSuffixFrom
  rw [Act.bind_run (Act.get_run _), h.lookup, hx]
  dsimp only
  rw [hseg, if_neg Bool.false_ne_true]
  refine ⟨_, rfl, ⟨?_, ?_, h.pos, ?_, ?_, ?_⟩, ?_⟩
  · refine SegmentManager.Ordered.removeSegmentsAfter (h.ordered.truncate _ _) ?_
    rw [SegmentManager.ids_truncate]
    exact hxid
  · dsimp only
    rw [truncateFrom_eq h hk]
  · dsimp only
    rw [truncateFrom_eq h hk, Nat.add_sub_cancel_left, List.map_take, List.map_take, h.terms]
  · dsimp only
    rw [truncateFrom_eq h hk]
    intro y hy
    refine SegmentManager.mem_ids_removeSegmentsAfter ?_ ?_
    · rw [SegmentManager.ids_truncate]
      exact h.held y (List.mem_of_mem_take hy)
    · -- The places before the cut are in segments up to the one that is cut.
      obtain ⟨j, hj, rfl⟩ := List.getElem_of_mem hy
      rw [List.length_take] at hj
      rw [List.getElem_take]
      have hxk : w.walIndex.entries[k] = x := by
        rw [List.getElem?_eq_getElem hk'] at hx
        exact Option.some.inj hx
      rw [← hxk]
      exact List.pairwise_iff_getElem.mp h.sorted j k (by omega) hk' (by omega)
  · dsimp only
    rw [truncateFrom_eq h hk]
    exact h.sorted.sublist (List.take_sublist _ _)
  · dsimp only
    rw [Nat.add_sub_cancel_left]

/-- The entries are numbered from the first index on. -/
def Numbered (w : WAL) : Prop := Log.Consecutive w.firstIndex w.entries

theorem lastIndex_of_numbered (hn : w.Numbered) (hsnap : w.snapshotMetadata.index < w.firstIndex) :
    w.lastIndex + 1 = w.firstIndex + w.entries.length := by
  unfold lastIndex
  by_cases hne : w.entries = []
  · rw [hne]
    simp only [List.getLast?_nil, List.length_nil]
    omega
  · have hlen : 0 < w.entries.length := List.length_pos_iff.mpr hne
    rw [List.getLast?_eq_getElem?, List.getElem?_eq_getElem (by omega : w.entries.length - 1 < _)]
    have hidx : w.entries[w.entries.length - 1].index = w.firstIndex + (w.entries.length - 1) :=
      Log.consecutive_iff.mp hn (w.entries.length - 1) (by omega)
    dsimp only
    omega

/-- The part of a batch that is skipped repeats stored entries. -/
theorem skipEqual_ok {es : List Entry} {k : ℕ}
    (hlast : w.lastIndex + 1 = w.firstIndex + w.entries.length)
    (hes : Log.Consecutive (w.firstIndex + k) es) (hk : k ≤ w.entries.length) :
    ∃ common rest, w.skipEqual es = .ok rest ∧ es = common ++ rest ∧
      w.entries.take (k + common.length) = w.entries.take k ++ common ∧
      k + common.length ≤ w.entries.length := by
  induction es generalizing k with
  | nil => exact ⟨[], [], rfl, rfl, by simp, by simpa using hk⟩
  | cons e es ih =>
      unfold skipEqual
      by_cases hle : e.index ≤ w.lastIndex
      · have hidx := hes.1
        have hlt : k < w.entries.length := by omega
        have hoff : e.index - w.firstIndex = k := by omega
        rw [if_pos hle, hoff, List.getElem?_eq_getElem hlt]
        dsimp only
        by_cases heq : w.entries[k] = e
        · rw [if_pos heq]
          have hes' : Log.Consecutive (w.firstIndex + (k + 1)) es := by
            rw [← Nat.add_assoc]
            exact hes.2
          obtain ⟨common, rest, hskip, hsplit, htake, hbound⟩ := ih hes' hlt
          refine ⟨e :: common, rest, hskip, by rw [hsplit]; rfl, ?_, ?_⟩
          · have hsum : k + (e :: common).length = k + 1 + common.length := by
              rw [List.length_cons]
              omega
            rw [hsum, htake, List.take_add_one, List.getElem?_eq_getElem hlt, heq]
            simp
          · rw [List.length_cons]
            omega
        · rw [if_neg heq]
          exact ⟨[], e :: es, rfl, rfl, by simp, by simpa using hk⟩
      · rw [if_neg hle]
        exact ⟨[], e :: es, rfl, rfl, by simp, by simpa using hk⟩

/-- What is left of a batch replaces the stored entries from its first index on. -/
theorem appendFrom_ok (h : w.Placed) (hn : w.Numbered)
    (hsnap : w.snapshotMetadata.index < w.firstIndex) {e : Entry} {es : List Entry} {k : ℕ}
    (hes : Log.Consecutive (w.firstIndex + k) (e :: es)) (hk : k ≤ w.entries.length)
    (hcommit : w.hardState.commit < e.index) (hr : ∀ x ∈ e :: es, (Record.entry x).Fits) :
    ∃ w', appendFrom e es w = .ok () w' ∧ w.WithEntries (w.entries.take k ++ e :: es) w' := by
  have hlast := lastIndex_of_numbered hn hsnap
  have hidx := hes.1
  -- The state after the truncation, whether or not there was something to cut.
  obtain ⟨w1, hcut, hp1, heq1⟩ : ∃ w1, Act.when (e.index ≤ w.lastIndex)
      (truncateSuffixFrom e.index) w = .ok () w1 ∧ w.WithEntries (w.entries.take k) w1 := by
    unfold Act.when
    by_cases hle : e.index ≤ w.lastIndex
    · rw [if_pos hle, hidx]
      exact truncateSuffixFrom_ok h (by omega)
    · rw [if_neg hle]
      have hkl : k = w.entries.length := by omega
      refine ⟨w, rfl, h, ?_⟩
      rw [hkl, List.take_length]
  have hentries : w1.entries = w.entries.take k := by rw [heq1]
  have hfirst : w1.firstIndex = w.firstIndex := by rw [heq1]
  have hlast1 : w1.lastIndex + 1 = w1.firstIndex + w1.entries.length := by
    refine lastIndex_of_numbered ?_ ?_
    · unfold Numbered
      rw [hentries, hfirst]
      exact Log.Consecutive.take hn k
    · rw [heq1]
      exact hsnap
  have hlen1 : w1.entries.length = k := by
    rw [hentries, List.length_take]
    omega
  have hnext : Log.Consecutive (w1.firstIndex + w1.entries.length) (e :: es) := by
    rw [hlen1, hfirst]
    exact hes
  obtain ⟨w2, hw2, hp2, heq2⟩ := each_appendEntry_ok hp1 hnext hr
  refine ⟨w2, ?_, hp2, ?_⟩
  · unfold appendFrom
    rw [Act.bind_run (Act.get_run _), if_neg (by omega), Act.bind_run hcut, Act.bind_run (Act.get_run _),
      if_neg (by omega), hw2]
  · rw [heq2, hentries, heq1]

/-- A batch that is accepted replaces the stored entries from its first index on, unless it repeats
entries that are followed by others. -/
theorem append_ok (h : w.Placed) (hn : w.Numbered)
    (hsnap : w.snapshotMetadata.index < w.firstIndex) {e : Entry} {es : List Entry} {k : ℕ}
    (hes : Log.Consecutive (w.firstIndex + k) (e :: es)) (hk : k ≤ w.entries.length)
    (hcommit : w.hardState.commit < e.index) (hr : ∀ x ∈ e :: es, (Record.entry x).Fits)
    (hnew : e :: es <+: w.entries.drop k → w.entries.length ≤ k + (e :: es).length) :
    ∃ w', append (e :: es) w = .ok () w' ∧ w.WithEntries (w.entries.take k ++ e :: es) w' := by
  have hlast := lastIndex_of_numbered hn hsnap
  have hidx := hes.1
  have hcons : Log.Consecutive e.index (e :: es) := by
    rw [hidx]
    exact hes
  obtain ⟨common, rest, hskip, hsplit, htake, hbound⟩ := skipEqual_ok hlast hes hk
  unfold append
  dsimp only
  rw [Act.bind_run (Act.get_run _), if_neg (not_not.mpr hcons), if_neg (by omega), if_neg (by omega),
    Act.bind_run (Act.query_run (f := fun w : WAL => w.skipEqual (e :: es)) hskip)]
  cases rest with
  | nil =>
      rw [List.append_nil] at hsplit
      rw [← hsplit] at htake hbound
      refine ⟨w, rfl, h, ?_⟩
      have hall : w.entries.length ≤ k + (e :: es).length := by
        refine hnew (List.prefix_iff_eq_take.mpr ?_)
        rw [List.take_add] at htake
        exact (List.append_cancel_left htake).symm
      rw [← htake, List.take_of_length_le hall]
  | cons f rs =>
      dsimp only
      have hf : Log.Consecutive (w.firstIndex + (k + common.length)) (f :: rs) := by
        have hdrop := Log.Consecutive.drop hes common.length
        rw [hsplit, List.drop_left] at hdrop
        rw [← Nat.add_assoc]
        exact hdrop
      have hfidx := hf.1
      obtain ⟨w', hw', hwith⟩ := appendFrom_ok h hn hsnap hf hbound (by omega) fun x hx =>
        hr x (by rw [hsplit]; exact List.mem_append_right _ hx)
      refine ⟨w', hw', ?_⟩
      rw [htake, List.append_assoc, ← hsplit] at hwith
      exact hwith

/-- Forgetting a prefix of the entries forgets their places. -/
theorem Placed.compactMemory (h : w.Placed) {k : ℕ} (hpos : 0 < k) :
    (w.compactMemory (w.firstIndex + k)).Placed := by
  have hlen := h.length
  have htrunc : w.walIndex.truncateBefore (w.firstIndex + k) =
      ⟨w.walIndex.entries.drop k, w.firstIndex + k⟩ := by
    unfold WALIndex.truncateBefore WALIndex.lastIndex
    rw [h.first, if_neg (by omega)]
    by_cases hnil : w.walIndex.entries = []
    · rw [if_pos (Or.inl hnil), hnil, List.drop_nil]
    · rw [if_neg hnil]
      split
      · rename_i hc
        have hall : w.walIndex.entries.length ≤ k := by
          rcases hc with hc | hc
          · exact absurd hc hnil
          · omega
        rw [List.drop_of_length_le hall]
      · rw [Nat.add_sub_cancel_left]
  unfold WAL.compactMemory
  rw [htrunc, Nat.add_sub_cancel_left]
  refine ⟨h.ordered, rfl, by have := h.pos; dsimp only; omega, ?_, ?_, ?_⟩
  · dsimp only
    rw [List.map_drop, List.map_drop, h.terms]
  · exact fun x hx => h.held x (List.mem_of_mem_drop hx)
  · exact h.sorted.sublist (List.drop_sublist _ _)

/-- The clean-up touches the segments only, and keeps those that hold entries. -/
theorem Placed.cleanup (h : w.Placed) :
    ∃ m, w.cleanupCompactedSegments = .ok { w with segmentManager := m } ∧
      ({ w with segmentManager := m } : WAL).Placed := by
  unfold cleanupCompactedSegments
  split
  · rename_i hnil
    have hplaces := h.nil_iff.mpr hnil
    split
    · exact ⟨_, rfl, h⟩
    · refine ⟨_, rfl, h.ordered.removeSegmentsBefore le_rfl, h.first, h.pos, h.terms, ?_, h.sorted⟩
      intro x hx
      rw [hplaces] at hx
      cases hx
  · rename_i hne
    have hlen : 0 < w.walIndex.entries.length := by
      rw [h.length]
      exact List.length_pos_iff.mpr hne
    have hlook := h.lookup 0
    rw [Nat.add_zero, List.getElem?_eq_getElem hlen] at hlook
    rw [hlook]
    dsimp only
    split
    · exact ⟨_, rfl, h⟩
    · have hmem : w.walIndex.entries[0] ∈ w.walIndex.entries := List.getElem_mem hlen
      refine ⟨_, rfl, h.ordered.removeSegmentsBefore (h.ordered.le_current (h.held _ hmem)), h.first,
        h.pos, h.terms, ?_, h.sorted⟩
      intro x hx
      rw [SegmentManager.ids_removeSegmentsBefore]
      refine List.mem_filter.mpr ⟨h.held x hx, decide_eq_true ?_⟩
      obtain ⟨j, hj, rfl⟩ := List.getElem_of_mem hx
      rcases Nat.eq_zero_or_pos j with rfl | hpos
      · exact le_rfl
      · exact List.pairwise_iff_getElem.mp h.sorted 0 j hlen hj hpos

end WAL

/-! ### The same writes to both -/

/-- A write to a storage. -/
inductive Write
  | append (es : List Entry)
  | setHardState (hs : HardState)
  | setConfState (cs : ConfState)
  | setMembershipState (cs : ConfState) (m : ClusterMembership) (membershipIndex : ℕ)
  | migrateLegacyMembership (current : ClusterMembership) (membershipIndex : ℕ)
      (snapshotMembership : Option ClusterMembership)
  | applySnapshot (snap : Snapshot)
  | applyLocalSnapshot (snap : Snapshot)

/-- A write to the log. -/
def WAL.perform : Write → Act Err WAL Unit
  | .append es => WAL.append es
  | .setHardState hs => WAL.saveHardState hs
  | .setConfState cs => WAL.saveConfState cs
  | .setMembershipState cs m i => WAL.saveMembershipState cs m i
  | .migrateLegacyMembership m i h => WAL.migrateLegacyMembership m i h
  | .applySnapshot snap => WAL.applySnapshot snap
  | .applyLocalSnapshot snap => WAL.applyLocalSnapshot snap

/-- A write to the memory storage. -/
def MemoryStorage.perform (s : MemoryStorage) : Write → Except Err MemoryStorage
  | .append es => s.mayAppend es
  | .setHardState hs => WritableStorage.setHardState s hs
  | .setConfState cs => WritableStorage.setConfState s cs
  | .setMembershipState cs m i => s.setMembershipState cs m i
  | .migrateLegacyMembership m i h => s.migrateLegacyMembership m i h
  | .applySnapshot snap => s.applySnapshot snap
  | .applyLocalSnapshot snap => s.applyLocalSnapshot snap

/-- The log after a write, successful or not; nothing after an abort. -/
def WAL.after (w : WAL) (x : Write) : Option WAL :=
  match WAL.perform x w with
  | .ok _ w' => some w'
  | .err _ w' => some w'
  | .panic => none

/-- The memory storage after a write, successful or not. -/
def MemoryStorage.after (s : MemoryStorage) (x : Write) : MemoryStorage :=
  match s.perform x with
  | .ok s' => s'
  | .error _ => s

namespace Write

/-- The writes the two storages are compared on: batches start within the log and above the commit
index, received snapshots are new, and own snapshots are at a committed position of the log. -/
def Allowed (s : MemoryStorage) : Write → Prop
  | .append es => ∀ e ∈ es.head?, Log.Consecutive e.index es ∧ s.firstIndex ≤ e.index ∧
      e.index ≤ s.lastIndex + 1 ∧ s.raftState.hardState.commit < e.index
  | .applySnapshot snap => s.raftState.hardState.commit < snap.metadata.index ∧
      s.snapshotData.metadata.index < snap.metadata.index
  | .applyLocalSnapshot snap => s.firstIndex ≤ snap.metadata.index ∧
      snap.metadata.index ≤ s.raftState.hardState.commit ∧
      s.term snap.metadata.index = .ok snap.metadata.term
  | _ => True

/-- What is written can be encoded: lengths take four bytes. -/
def Fits : Write → Prop
  | .append es => ∀ e ∈ es, (Record.entry e).Fits
  | .setConfState cs => (Record.confState cs).Fits
  | .setMembershipState cs _ _ => (Record.confState cs).Fits
  | .migrateLegacyMembership m _ _ => (encodeMembership m).isOk = true
  | _ => True

/-- A batch of entries that are all stored already, and followed by others. -/
def Repeats (s : MemoryStorage) : Write → Prop
  | .append es => ∃ e ∈ es.head?, es <+: s.entries.drop (e.index - s.firstIndex) ∧
      e.index + es.length ≤ s.lastIndex
  | _ => False

instance (s : MemoryStorage) : (x : Write) → Decidable (x.Allowed s)
  | .append es => inferInstanceAs (Decidable (∀ e ∈ es.head?, _))
  | .applySnapshot _ => inferInstanceAs (Decidable (_ ∧ _))
  | .applyLocalSnapshot _ => inferInstanceAs (Decidable (_ ∧ _ ∧ _))
  | .setHardState _ => isTrue trivial
  | .setConfState _ => isTrue trivial
  | .setMembershipState _ _ _ => isTrue trivial
  | .migrateLegacyMembership _ _ _ => isTrue trivial

instance : (x : Write) → Decidable x.Fits
  | .append es => inferInstanceAs (Decidable (∀ e ∈ es, _))
  | .setConfState _ => inferInstanceAs (Decidable (_ < _))
  | .setMembershipState _ _ _ => inferInstanceAs (Decidable (_ < _))
  | .migrateLegacyMembership _ _ _ => inferInstanceAs (Decidable (_ = true))
  | .setHardState _ => isTrue trivial
  | .applySnapshot _ => isTrue trivial
  | .applyLocalSnapshot _ => isTrue trivial

instance (s : MemoryStorage) : (x : Write) → Decidable (x.Repeats s)
  | .append es => inferInstanceAs (Decidable (∃ e ∈ es.head?, _))
  | .setHardState _ => isFalse id
  | .setConfState _ => isFalse id
  | .setMembershipState _ _ _ => isFalse id
  | .migrateLegacyMembership _ _ _ => isFalse id
  | .applySnapshot _ => isFalse id
  | .applyLocalSnapshot _ => isFalse id

end Write

/-- The log and the memory storage hold the same. -/
structure Same (w : WAL) (s : MemoryStorage) : Prop where
  placed : w.Placed
  contiguous : s.log.Contiguous
  entries : w.entries = s.entries
  first : w.firstIndex = s.snapshotData.metadata.index + 1
  index : w.snapshotMetadata.index = s.snapshotData.metadata.index
  term : w.snapshotMetadata.term = s.snapshotData.metadata.term
  snapshot : w.snapshot = s.localSnapshot
  hardState : w.hardState = s.raftState.hardState
  confState : w.confState = s.raftState.confState
  membership : w.clusterMembership = s.raftState.clusterMembership
  ready : s.triggerLogUnavailable = false

/-- The two storages answer every read of the log alike.  A read of no entries of an empty memory
storage is left out: there the code aborts. -/
structure Agree (w : WAL) (s : MemoryStorage) : Prop where
  first : w.firstIndex = s.firstIndex
  last : w.lastIndex = s.lastIndex
  term : ∀ i, w.term i = s.term i
  entries : ∀ low high m c, low ≤ high → s.firstIndex ≤ low → high ≤ s.lastIndex + 1 →
    ¬ s.readPanics low high → w.readEntries low high m = s.readEntries low high m c

namespace Same

variable {w : WAL} {s : MemoryStorage}

theorem firstIndex (h : Same w s) : w.firstIndex = s.firstIndex := by
  rw [h.first, MemoryStorage.firstIndex_eq_base h.contiguous]
  rfl

theorem numbered (h : Same w s) : w.Numbered := by
  unfold WAL.Numbered
  rw [h.first, h.entries]
  exact h.contiguous

theorem snapshot_lt (h : Same w s) : w.snapshotMetadata.index < w.firstIndex := by
  rw [h.index, h.first]
  exact Nat.lt_succ_self _

theorem last_eq (h : Same w s) : w.lastIndex + 1 = w.firstIndex + w.entries.length :=
  WAL.lastIndex_of_numbered h.numbered h.snapshot_lt

theorem lastIndex (h : Same w s) : w.lastIndex = s.lastIndex := by
  have hlast := h.last_eq
  rw [h.first, h.entries] at hlast
  rw [MemoryStorage.lastIndex_eq_last h.contiguous]
  show _ = s.snapshotData.metadata.index + s.entries.length
  omega

/-- Storages that hold the same answer alike. -/
theorem agree (h : Same w s) : Agree w s where
  first := h.firstIndex
  last := h.lastIndex
  term i := by
    unfold WAL.term MemoryStorage.term
    rw [h.index, h.term, ← h.firstIndex, ← h.lastIndex]
    have hlast := h.last_eq
    split
    · rfl
    · split
      · rfl
      · rename_i hge
        obtain ⟨k, rfl⟩ := Nat.exists_eq_add_of_le (not_lt.mp hge)
        rw [h.placed.term, Nat.add_sub_cancel_left]
        by_cases hk : k < w.entries.length
        · rw [if_neg (by omega), List.getElem?_eq_getElem hk, List.getD_eq_getElem?_getD, ← h.entries,
            List.getElem?_eq_getElem hk]
          rfl
        · rw [if_pos (by omega), List.getElem?_eq_none_iff.mpr (not_lt.mp hk)]
          rfl
  entries low high m c hle hlo hhi hpanic := by
    have hne : s.entries ≠ [] := fun hnil => hpanic ⟨hnil, hlo, hhi⟩
    unfold WAL.readEntries MemoryStorage.readEntries
    rw [h.entries, if_neg hne, h.firstIndex, h.lastIndex, if_neg (by omega), if_neg (by omega),
      if_neg (by omega), if_neg (by omega), h.ready, if_neg (by simp)]

/-! ### Every write keeps them the same -/

theorem append (h : Same w s) {e : Entry} {es : List Entry}
    (ha : (Write.append (e :: es)).Allowed s) (hf : (Write.append (e :: es)).Fits)
    (hn : ¬ (Write.append (e :: es)).Repeats s) :
    ∃ w' s', WAL.append (e :: es) w = .ok () w' ∧ s.mayAppend (e :: es) = .ok s' ∧ Same w' s' ∧
      w'.entries = w.entries.take (e.index - w.firstIndex) ++ e :: es ∧
      w'.firstIndex = w.firstIndex := by
  obtain ⟨hcons, hlo, hhi, hcommit⟩ := ha e rfl
  have hlast := h.last_eq
  rw [← h.firstIndex] at hlo
  rw [← h.lastIndex] at hhi
  obtain ⟨k, hk⟩ := Nat.exists_eq_add_of_le hlo
  have hoff : e.index - w.firstIndex = k := by omega
  have hmem : s.mayAppend (e :: es) = .ok { s with entries := s.entries.take k ++ e :: es } := by
    unfold MemoryStorage.mayAppend
    dsimp only
    rw [← h.firstIndex, ← h.lastIndex, if_neg (by omega), if_neg (by omega), hoff]
  obtain ⟨w', hw', hp, heq⟩ := WAL.append_ok h.placed h.numbered h.snapshot_lt
    (by rw [← hk]; exact hcons) (by omega) (by rw [h.hardState]; exact hcommit) hf (by
      intro hpre
      by_contra hlt
      refine hn ⟨e, rfl, ?_, ?_⟩
      · rw [← h.firstIndex, hoff, ← h.entries]
        exact hpre
      · rw [← h.lastIndex]
        omega)
  refine ⟨w', _, hw', hmem, ?_, by rw [hoff, heq], by rw [heq]⟩
  have hcont := (MemoryStorage.mayAppend_ok h.contiguous hmem fun x hx => by
    cases hx
    exact hcons).1
  rw [h.entries] at heq
  rw [heq] at hp ⊢
  exact ⟨hp, hcont, rfl, h.first, h.index, h.term, h.snapshot, h.hardState, h.confState,
    h.membership, h.ready⟩

/-- Writing a record that is not an entry keeps the log. -/
theorem of_writeRecord (h : Same w s) {m : SegmentManager} (hm : m.Ordered)
    (hkeep : ∀ i ∈ w.segmentManager.ids, i ∈ m.ids) : Same { w with segmentManager := m } s :=
  { h with
    placed := ⟨hm, h.placed.first, h.placed.pos, h.placed.terms,
      fun x hx => hkeep _ (h.placed.held x hx), h.placed.sorted⟩ }

theorem setHardState (h : Same w s) (hs : HardState) :
    ∃ w', WAL.saveHardState hs w = .ok () w' ∧
      Same w' { s with raftState := { s.raftState with hardState := hs } } := by
  have hfits : (Record.hardState hs).Fits := by simp [Record.size, Record.payloadSize]
  obtain ⟨p, m, hw, hm, hkeep, -, -⟩ := WAL.writeRecord_ok h.placed.ordered hfits
  unfold WAL.saveHardState
  rw [Act.bind_run hw]
  refine ⟨_, rfl, ?_⟩
  have h' := h.of_writeRecord hm hkeep
  exact { h' with
    placed := ⟨h'.placed.ordered, h'.placed.first, h'.placed.pos, h'.placed.terms,
      h'.placed.held, h'.placed.sorted⟩
    contiguous := h'.contiguous, hardState := rfl }

theorem setConfState (h : Same w s) {cs : ConfState} (hf : (Record.confState cs).Fits) :
    ∃ w', WAL.saveConfState cs w = .ok () w' ∧
      Same w' { s with raftState := { s.raftState with confState := cs } } := by
  obtain ⟨p, m, hw, hm, hkeep, -, -⟩ := WAL.writeRecord_ok h.placed.ordered hf
  unfold WAL.saveConfState
  rw [Act.bind_run hw]
  refine ⟨_, rfl, ?_⟩
  have h' := h.of_writeRecord hm hkeep
  exact { h' with
    placed := ⟨h'.placed.ordered, h'.placed.first, h'.placed.pos, h'.placed.terms,
      h'.placed.held, h'.placed.sorted⟩
    contiguous := h'.contiguous, confState := rfl }

theorem setMembershipState (h : Same w s) {cs : ConfState} {m : ClusterMembership} {i : ℕ}
    (hf : (Record.confState cs).Fits) :
    ∃ w', w.after (.setMembershipState cs m i) = some w' ∧
      Same w' (s.after (.setMembershipState cs m i)) := by
  unfold WAL.after MemoryStorage.after WAL.perform MemoryStorage.perform WAL.saveMembershipState
    MemoryStorage.setMembershipState
  dsimp only
  by_cases hv : (m.validate cs).isOk = true
  · obtain ⟨p, sm, hw, hm, hkeep, -, -⟩ := WAL.writeRecord_ok h.placed.ordered hf
    rw [if_pos hv, Act.bind_run hw]
    rw [ensure_of hv]
    refine ⟨_, rfl, ?_⟩
    have h' := h.of_writeRecord hm hkeep
    exact { h' with
      placed := ⟨h'.placed.ordered, h'.placed.first, h'.placed.pos, h'.placed.terms,
        h'.placed.held, h'.placed.sorted⟩
      contiguous := h'.contiguous, confState := rfl, membership := rfl }
  · rw [if_neg hv]
    rw [ensure_of_not hv]
    exact ⟨w, rfl, h⟩

/-- A snapshot has a membership exactly when it carries bytes for one. -/
theorem decodeSnapshotMembership_none {snap : Snapshot}
    (h : decodeSnapshotMembership snap = .ok none) : snap.membership = [] := by
  unfold decodeSnapshotMembership at h
  split at h
  · assumption
  · split at h
    · cases h
    · split at h
      · cases h
      · cases h

/-- Both storages want the same of a snapshot's membership. -/
theorem snapshotMembership (h : Same w s) (snap : Snapshot) :
    w.snapshotMembership snap = s.snapshotMembership snap := by
  unfold WAL.snapshotMembership MemoryStorage.snapshotMembership
  rw [h.membership]
  cases hd : decodeSnapshotMembership snap with
  | error e =>
      have hb : snap.membership ≠ [] := by
        intro hb
        unfold decodeSnapshotMembership at hd
        rw [if_pos hb] at hd
        cases hd
      rw [if_neg fun hc => hb hc.1]
      rfl
  | ok m =>
      show (ensure _ _ >>= fun _ => pure m) = _
      unfold ensure
      cases m with
      | none =>
          have hb := decodeSnapshotMembership_none hd
          by_cases hn : s.raftState.clusterMembership = none
          · rw [if_pos fun hc => hc.2 hn, if_neg fun hc => hc.2 hn]
            rfl
          · rw [if_neg fun hc => hc ⟨rfl, hn⟩, if_pos ⟨hb, hn⟩]
            rfl
      | some m =>
          have hb : snap.membership ≠ [] := by
            intro hb
            unfold decodeSnapshotMembership at hd
            rw [if_pos hb] at hd
            cases hd
          rw [if_pos fun hc => Option.some_ne_none m hc.1, if_neg fun hc => hb hc.1]
          rfl

/-- The place of the first entry above a stored position is known. -/
theorem firstSegmentIdFor (h : Same w s) {i : ℕ} (hi : w.firstIndex ≤ i) :
    ∃ id, w.firstSegmentIdFor i = .ok id := by
  unfold WAL.firstSegmentIdFor
  split
  · rename_i hle
    obtain ⟨k, rfl⟩ := Nat.exists_eq_add_of_le hi
    have hlast := h.last_eq
    have hk : k < w.walIndex.entries.length := by
      rw [h.placed.length]
      omega
    rw [h.placed.lookup, List.getElem?_eq_getElem hk]
    exact ⟨_, rfl⟩
  · exact ⟨_, rfl⟩

theorem applySnapshot (h : Same w s) {snap : Snapshot} (ha : (Write.applySnapshot snap).Allowed s) :
    ∃ w', w.after (.applySnapshot snap) = some w' ∧ Same w' (s.after (.applySnapshot snap)) := by
  obtain ⟨hcommit, hidx⟩ := ha
  have hfirst : s.firstIndex ≤ snap.metadata.index := by
    rw [← h.firstIndex, h.first]
    exact hidx
  unfold WAL.after MemoryStorage.after WAL.perform MemoryStorage.perform WAL.applySnapshot
    MemoryStorage.applySnapshot
  dsimp only
  rw [Act.bind_run (Act.get_run _), if_neg (by rw [h.index]; omega), ensure_of hfirst]
  cases hm : s.snapshotMembership snap with
  | error e =>
      rw [← h.snapshotMembership] at hm
      rw [Act.bind_run_err (Act.query_run_err (f := fun w : WAL => w.snapshotMembership snap) hm)]
      exact ⟨w, rfl, h⟩
  | ok m =>
      rw [← h.snapshotMembership] at hm
      rw [Act.bind_run (Act.query_run (f := fun w : WAL => w.snapshotMembership snap) hm)]
      refine ⟨_, rfl, ⟨?_, trivial, rfl, rfl, rfl, rfl, ?_, ?_, rfl, rfl, h.ready⟩⟩
      · exact ⟨(h.placed.ordered.rollToNew _).removeSegmentsBefore le_rfl, rfl, Nat.succ_pos _, rfl,
          fun x hx => absurd hx List.not_mem_nil, List.Pairwise.nil⟩
      · show some snap = MemoryStorage.localSnapshot _
        unfold MemoryStorage.localSnapshot
        have hne : snap.metadata.index ≠ 0 := by omega
        exact (if_neg hne).symm
      · show ({ w.hardState with
          term := max w.hardState.term snap.metadata.term
          commit := max w.hardState.commit snap.metadata.index } : HardState) = _
        rw [h.hardState, Nat.max_eq_right hcommit.le]
        rfl

theorem applyLocalSnapshot (h : Same w s) {snap : Snapshot}
    (ha : (Write.applyLocalSnapshot snap).Allowed s) :
    ∃ w', w.after (.applyLocalSnapshot snap) = some w' ∧
      Same w' (s.after (.applyLocalSnapshot snap)) := by
  obtain ⟨hfirst, -, hterm⟩ := ha
  have hf := h.firstIndex
  have hl := h.lastIndex
  have hlast := h.last_eq
  have hbase := h.first
  have hidx := h.index
  have hle : snap.metadata.index ≤ s.lastIndex := by
    by_contra hgt
    unfold MemoryStorage.term at hterm
    rw [if_neg (by omega), if_neg (by omega), if_pos (by omega)] at hterm
    cases hterm
  obtain ⟨k, hk⟩ : ∃ k, snap.metadata.index + 1 = w.firstIndex + k :=
    Nat.exists_eq_add_of_le (by omega)
  have hcompact : s.compact (snap.metadata.index + 1) =
      .ok { s with entries := s.entries.drop k } := by
    unfold MemoryStorage.compact
    rw [if_neg (by omega), if_neg (by omega), ← hf, hk, Nat.add_sub_cancel_left]
  obtain ⟨id, hid⟩ := h.firstSegmentIdFor (i := snap.metadata.index + 1) (by omega)
  -- What the memory storage does, for either outcome of the membership check.
  have hmem : s.applyLocalSnapshot snap = (s.snapshotMembership snap >>= fun m => .ok { s with
      entries := s.entries.drop k
      raftState := {
        hardState := { s.raftState.hardState with
          term := max s.raftState.hardState.term snap.metadata.term
          commit := max s.raftState.hardState.commit snap.metadata.index }
        confState := snap.metadata.confState
        clusterMembership := m
        membershipIndex := if m = none then 0 else snap.metadata.index }
      snapshotData := snap }) := by
    unfold MemoryStorage.applyLocalSnapshot
    rw [ensure_of hfirst]
    cases hm : s.snapshotMembership snap with
    | error e => rfl
    | ok m =>
        show (s.compact (snap.metadata.index + 1) >>= fun s => _) = _
        rw [hcompact]
        rfl
  unfold WAL.after MemoryStorage.after WAL.perform MemoryStorage.perform WAL.applyLocalSnapshot
  dsimp only
  rw [Act.bind_run (Act.get_run _), if_neg (by omega), if_neg (by omega),
    Act.bind_run (Act.query_run (f := fun w : WAL => w.term snap.metadata.index)
      ((h.agree.term _).trans hterm)), if_neg (not_not.mpr rfl)]
  cases hm : s.snapshotMembership snap with
  | error e =>
      rw [hm] at hmem
      rw [hmem]
      rw [← h.snapshotMembership] at hm
      rw [Act.bind_run_err (Act.query_run_err (f := fun w : WAL => w.snapshotMembership snap) hm)]
      exact ⟨w, rfl, h⟩
  | ok m =>
      rw [hm] at hmem
      have hcont := (MemoryStorage.applyLocalSnapshot_eq h.contiguous hmem).1
      rw [hmem]
      rw [← h.snapshotMembership] at hm
      rw [Act.bind_run (Act.query_run (f := fun w : WAL => w.snapshotMembership snap) hm),
        Act.bind_run (Act.query_run (f := fun w : WAL =>
          w.firstSegmentIdFor (snap.metadata.index + 1)) hid)]
      have hadopt : (w.adopt snap m).Placed :=
        ⟨h.placed.ordered, h.placed.first, h.placed.pos, h.placed.terms, h.placed.held,
          h.placed.sorted⟩
      have hplaced : ((w.adopt snap m).compactMemory (snap.metadata.index + 1)).Placed := by
        rw [hk]
        exact hadopt.compactMemory (by omega)
      obtain ⟨sm, hclean, hcplaced⟩ := hplaced.cleanup
      have hmod : ∀ (f : WAL → WAL) (w : WAL), (Act.modify f : Act Err WAL Unit) w = .ok () (f w) :=
        fun _ _ => rfl
      rw [Act.bind_run (hmod _ _), hmod, hclean]
      refine ⟨_, rfl, ⟨hcplaced, hcont, ?_, rfl, rfl, rfl, ?_, ?_, rfl, rfl, h.ready⟩⟩
      · show w.entries.drop (snap.metadata.index + 1 - w.firstIndex) = s.entries.drop k
        rw [hk, Nat.add_sub_cancel_left, h.entries]
      · show some snap = MemoryStorage.localSnapshot _
        unfold MemoryStorage.localSnapshot
        have hne : snap.metadata.index ≠ 0 := by omega
        exact (if_neg hne).symm
      · show ({ w.hardState with
          term := max w.hardState.term snap.metadata.term
          commit := max w.hardState.commit snap.metadata.index } : HardState) = _
        rw [h.hardState]
        rfl

/-- Giving a snapshot its membership leaves its position. -/
theorem historicalSnapshot_metadata {historical : Option ClusterMembership} {snap : Option Snapshot}
    (hh : historicalSnapshot s.localSnapshot historical = .ok snap) :
    (snap.getD s.snapshotData).metadata = s.snapshotData.metadata ∧
      snap.or s.localSnapshot =
        ({ s with snapshotData := snap.getD s.snapshotData } : MemoryStorage).localSnapshot := by
  unfold historicalSnapshot at hh
  split at hh
  · rename_i sn m hsn
    unfold MemoryStorage.localSnapshot at hsn
    split at hsn
    · cases hsn
    · rename_i hne
      cases hsn
      cases he : encodeMembership m with
      | error e =>
          rw [he] at hh
          cases hh
      | ok bs =>
          rw [he] at hh
          cases hh
          refine ⟨rfl, ?_⟩
          exact (if_neg hne).symm
  · cases hh
    exact ⟨rfl, rfl⟩

theorem migrateLegacyMembership (h : Same w s) {current : ClusterMembership} {i : ℕ}
    {historical : Option ClusterMembership}
    (hf : (Write.migrateLegacyMembership current i historical).Fits) :
    ∃ w', w.after (.migrateLegacyMembership current i historical) = some w' ∧
      Same w' (s.after (.migrateLegacyMembership current i historical)) := by
  obtain ⟨bs, hbs⟩ : ∃ bs, encodeMembership current = .ok bs := by
    have hf' : (encodeMembership current).isOk = true := hf
    cases he : encodeMembership current with
    | ok bs => exact ⟨bs, rfl⟩
    | error e =>
        rw [he] at hf'
        cases hf'
  obtain ⟨id, hid⟩ := h.firstSegmentIdFor (i := w.firstIndex) le_rfl
  unfold WAL.after MemoryStorage.after WAL.perform MemoryStorage.perform WAL.migrateLegacyMembership
    MemoryStorage.migrateLegacyMembership
  dsimp only
  rw [Act.bind_run (Act.get_run _), h.membership]
  by_cases hn : s.raftState.clusterMembership = none
  · rw [if_neg (not_not.mpr hn), ensure_of hn]
    have hval : ∀ x, validateLegacyMembershipMigration current i w.hardState w.confState w.snapshot
        historical = x ↔ validateLegacyMembershipMigration current i s.raftState.hardState
          s.raftState.confState s.localSnapshot historical = x := by
      intro x
      rw [h.hardState, h.confState, h.snapshot]
    cases hv : validateLegacyMembershipMigration current i s.raftState.hardState
        s.raftState.confState s.localSnapshot historical with
    | error e =>
        rw [Act.bind_run_err (Act.query_run_err (f := fun w : WAL =>
          validateLegacyMembershipMigration current i w.hardState w.confState w.snapshot historical)
          ((hval _).mpr hv))]
        exact ⟨w, rfl, h⟩
    | ok u =>
        rw [Act.bind_run (Act.query_run (f := fun w : WAL =>
          validateLegacyMembershipMigration current i w.hardState w.confState w.snapshot historical)
          ((hval _).mpr hv))]
        cases hh : historicalSnapshot s.localSnapshot historical with
        | error e =>
            have hh' := hh
            rw [← h.snapshot] at hh'
            rw [Act.bind_run_err (Act.query_run_err (f := fun w : WAL =>
              historicalSnapshot w.snapshot historical) hh')]
            exact ⟨w, rfl, h⟩
        | ok snap =>
            have hh' := hh
            rw [← h.snapshot] at hh'
            rw [Act.bind_run (Act.query_run (f := fun w : WAL =>
                historicalSnapshot w.snapshot historical) hh'),
              Act.bind_run (Act.query_run (f := fun w : WAL => w.firstSegmentIdFor w.firstIndex) hid),
              Act.bind_run (Act.query_run (f := fun _ : WAL => encodeMembership current) hbs)]
            obtain ⟨hmeta, hlocal⟩ := historicalSnapshot_metadata hh
            refine ⟨_, rfl, ⟨⟨h.placed.ordered, h.placed.first, h.placed.pos, h.placed.terms,
              h.placed.held, h.placed.sorted⟩, ?_, h.entries, ?_, ?_, ?_, ?_, h.hardState,
              h.confState, rfl, h.ready⟩⟩
            · show Log.Consecutive ((snap.getD s.snapshotData).metadata.index + 1) s.entries
              rw [hmeta]
              exact h.contiguous
            · show w.firstIndex = (snap.getD s.snapshotData).metadata.index + 1
              rw [hmeta]
              exact h.first
            · show w.snapshotMetadata.index = (snap.getD s.snapshotData).metadata.index
              rw [hmeta]
              exact h.index
            · show w.snapshotMetadata.term = (snap.getD s.snapshotData).metadata.term
              rw [hmeta]
              exact h.term
            · show snap.or w.snapshot = MemoryStorage.localSnapshot _
              rw [h.snapshot, hlocal]
              rfl
  · rw [if_pos hn, ensure_of_not hn]
    exact ⟨w, rfl, h⟩

/-- **Every write keeps the two storages the same.** -/
theorem after (h : Same w s) {x : Write} (ha : x.Allowed s) (hf : x.Fits) (hr : ¬ x.Repeats s) :
    ∃ w', w.after x = some w' ∧ Same w' (s.after x) := by
  cases x with
  | append es =>
      cases es with
      | nil => exact ⟨w, rfl, h⟩
      | cons e es =>
          obtain ⟨w', s', hw, hs, hsame, -⟩ := h.append ha hf hr
          unfold WAL.after MemoryStorage.after WAL.perform MemoryStorage.perform
          dsimp only
          rw [hw, hs]
          exact ⟨w', rfl, hsame⟩
  | setHardState hs =>
      obtain ⟨w', hw, hsame⟩ := h.setHardState hs
      unfold WAL.after WAL.perform
      dsimp only
      rw [hw]
      exact ⟨w', rfl, hsame⟩
  | setConfState cs =>
      obtain ⟨w', hw, hsame⟩ := h.setConfState hf
      unfold WAL.after WAL.perform
      dsimp only
      rw [hw]
      exact ⟨w', rfl, hsame⟩
  | setMembershipState cs m i => exact h.setMembershipState hf
  | migrateLegacyMembership m i historical => exact h.migrateLegacyMembership hf
  | applySnapshot snap => exact h.applySnapshot ha
  | applyLocalSnapshot snap => exact h.applyLocalSnapshot ha

/-- Empty storages hold the same. -/
theorem empty (size : ℕ) : Same (WAL.empty size) {} where
  placed :=
    ⟨⟨List.pairwise_singleton _ _, rfl⟩, rfl, Nat.one_pos, rfl,
      fun _ hx => absurd hx List.not_mem_nil, List.Pairwise.nil⟩
  contiguous := trivial
  entries := rfl
  first := rfl
  index := rfl
  term := rfl
  snapshot := rfl
  hardState := rfl
  confState := rfl
  membership := rfl
  ready := rfl

end Same

/-! ### Runs -/

/-- Every write satisfies `P` in the state it meets. -/
def Along (P : MemoryStorage → Write → Prop) : List Write → MemoryStorage → Prop
  | [], _ => True
  | x :: xs, s => P s x ∧ Along P xs (s.after x)

instance instDecidableAlong {P : MemoryStorage → Write → Prop} [∀ s x, Decidable (P s x)] :
    (xs : List Write) → (s : MemoryStorage) → Decidable (Along P xs s)
  | [], _ => isTrue trivial
  | x :: xs, s => @instDecidableAnd _ _ _ (instDecidableAlong xs (s.after x))

/-- The log after a number of writes. -/
def WAL.play (xs : List Write) (w : WAL) : Option WAL := xs.foldlM WAL.after w

/-- The memory storage after a number of writes. -/
def MemoryStorage.play (xs : List Write) (s : MemoryStorage) : MemoryStorage :=
  xs.foldl MemoryStorage.after s

theorem Same.play {w : WAL} {s : MemoryStorage} (h : Same w s) {xs : List Write}
    (ha : Along Write.Allowed xs s) (hc : Along (fun s x => x.Fits ∧ ¬ x.Repeats s) xs s) :
    ∃ w', WAL.play xs w = some w' ∧ Same w' (s.play xs) := by
  induction xs generalizing w s with
  | nil => exact ⟨w, rfl, h⟩
  | cons x xs ih =>
      obtain ⟨w1, hw1, h1⟩ := h.after ha.1 hc.1.1 hc.1.2
      obtain ⟨w2, hw2, h2⟩ := ih h1 ha.2 hc.2
      refine ⟨w2, ?_, h2⟩
      unfold WAL.play
      rw [List.foldlM_cons, hw1]
      exact hw2

/-- **The storages are interchangeable.**  Started empty and given the same writes, none of which
repeats stored entries that are followed by others, the write-ahead log and the memory storage
answer every read alike, and a further batch leaves in the log the entries below it followed by
exactly the batch. -/
theorem storages_interchangeable (size : ℕ) {xs : List Write} (ha : Along Write.Allowed xs {})
    (hc : Along (fun s x => x.Fits ∧ ¬ x.Repeats s) xs {}) :
    ∃ w, WAL.play xs (WAL.empty size) = some w ∧ Agree w (MemoryStorage.play xs {}) ∧
      ∀ e es, (Write.append (e :: es)).Allowed (MemoryStorage.play xs {}) →
        (Write.append (e :: es)).Fits →
        ¬ (Write.append (e :: es)).Repeats (MemoryStorage.play xs {}) →
        ∃ w', WAL.append (e :: es) w = .ok () w' ∧
          w'.entries = w.entries.take (e.index - w.firstIndex) ++ e :: es ∧
          w'.lastIndex + 1 = e.index + (e :: es).length := by
  obtain ⟨w, hw, h⟩ := (Same.empty size).play ha hc
  refine ⟨w, hw, h.agree, ?_⟩
  intro e es hallowed hfits hrepeats
  obtain ⟨w', s', hw', -, h', hentries, hfirst⟩ := h.append hallowed hfits hrepeats
  refine ⟨w', hw', hentries, ?_⟩
  have hlast := h.last_eq
  obtain ⟨-, hlo, hhi, -⟩ := hallowed e rfl
  rw [← h.firstIndex] at hlo
  rw [← h.lastIndex] at hhi
  rw [h'.last_eq, hentries, hfirst, List.length_append, List.length_take]
  omega

/-- Two entries, the second rewritten in a later term, and a snapshot of the first. -/
def rewritten : List Write :=
  [.append [{ index := 1, term := 1 }, { index := 2, term := 1 }],
    .setHardState { term := 2, commit := 1 },
    .append [{ index := 2, term := 2 }],
    .applyLocalSnapshot { metadata := { index := 1, term := 1 } }]

theorem storages_interchangeable_rewritten :
    ∃ w, WAL.play rewritten (WAL.empty 64) = some w ∧
      Agree w (MemoryStorage.play rewritten {}) := by
  obtain ⟨w, hw, h, -⟩ := @storages_interchangeable 64 rewritten (by decide +kernel)
    (by decide +kernel)
  exact ⟨w, hw, h⟩

/-- Two entries, and the first one again. -/
def replayed : List Write :=
  [.append [{ index := 1, term := 1 }, { index := 2, term := 1 }],
    .append [{ index := 1, term := 1 }]]

/-- The log keeps the second entry, the memory storage drops it. -/
theorem storages_diverge_replayed : Along Write.Allowed replayed {} ∧
    Along (fun _ x => x.Fits) replayed {} ∧
    ∃ w, WAL.play replayed (WAL.empty (64 * 1024 * 1024)) = some w ∧
      ¬ Agree w (MemoryStorage.play replayed {}) := by
  refine ⟨by decide +kernel, by decide +kernel, ?_⟩
  have hlast : (WAL.play replayed (WAL.empty (64 * 1024 * 1024))).map WAL.lastIndex = some 2 := by
    decide +kernel
  obtain ⟨w, hw, h2⟩ := Option.map_eq_some_iff.mp hlast
  refine ⟨w, hw, fun hagree => ?_⟩
  have h1 : (MemoryStorage.play replayed {}).lastIndex = 1 := by decide +kernel
  have := hagree.last
  omega

end Raftz
