import Raftz.RaftLog

/-! # The combined log is one log

`RaftLog.log` is the log that the storage and the unstable buffer describe
together, and `RaftLog.WF` the invariant under which they do: the buffer starts
inside or right after the stored log (or after a pending snapshot), and the
cursors `persisted`, `applied` and `committed` lie within it.

Under this invariant no position query fails, and every query and every write
of `RaftLog` is the corresponding operation on `log`. -/

open Base

namespace Raftz

namespace Log

/-- Term at an index, 0 outside the log. -/
def term (l : Log) (i : ℕ) : ℕ := (l.termAt i).getD 0

theorem term_of_termAt {l : Log} {i t : ℕ} (h : l.termAt i = some t) : l.term i = t := by
  unfold term
  rw [h]
  rfl

theorem termAt_eq_some_term {l : Log} {i : ℕ} (h1 : l.base ≤ i) (h2 : i ≤ l.last) :
    l.termAt i = some (l.term i) := by
  obtain ⟨t, ht⟩ := exists_termAt h1 h2
  rw [ht, term_of_termAt ht]

theorem term_of_not_mem {l : Log} {i : ℕ} (h : i < l.base ∨ l.last < i) : l.term i = 0 := by
  unfold term
  have : (l.termAt i).isSome = false := by
    rw [Bool.eq_false_iff, Ne, termAt_isSome_iff]
    omega
  rw [Option.isSome_eq_false_iff, Option.isNone_iff_eq_none] at this
  rw [this]
  rfl

end Log

/-- `l'` is `l` with a leader's entries merged in: `l` itself when it holds them all, else `l` up to
the first conflict (which is not committed) followed by the entries from there. -/
inductive Log.Merged (l : Log) (committed : ℕ) (ents : List Entry) : Log → Prop
  | same (h : ∀ e ∈ ents, l.termAt e.index = some e.term) : Merged l committed ents l
  | spliced (pre : List Entry) (e : Entry) (post : List Entry) (hents : ents = pre ++ e :: post)
      (hpre : ∀ e' ∈ pre, l.termAt e'.index = some e'.term)
      (hne : l.termAt e.index ≠ some e.term) (hc : committed < e.index)
      (hl : e.index ≤ l.last + 1) : Merged l committed ents (l.splice e.index (e :: post))

namespace RaftLog

variable {σ : Type} [LawfulStorage σ]

/-- The stored log. -/
def storeLog (l : RaftLog σ) : Log := (LawfulStorage.view l.store).log

/-- The log of storage and buffer together. -/
def log (l : RaftLog σ) : Log :=
  match l.unstable.snapshot with
  | some s => ⟨s.metadata.index, s.metadata.term, l.unstable.entries⟩
  | none => l.storeLog.splice l.unstable.offset l.unstable.entries

/-- Storage and buffer fit together, and the cursors lie within the log. -/
structure WF (l : RaftLog σ) : Prop where
  valid : LawfulStorage.Valid l.store
  entries : Log.Consecutive l.unstable.offset l.unstable.entries
  snapshot : ∀ s, l.unstable.snapshot = some s → l.unstable.offset = s.metadata.index + 1
  stored : l.unstable.snapshot = none →
    l.storeLog.base < l.unstable.offset ∧ l.unstable.offset ≤ l.storeLog.last + 1
  drained : l.unstable.snapshot = none → l.unstable.entries = [] →
    l.unstable.offset = l.storeLog.last + 1
  base_le : l.log.base ≤ l.committed
  committed_le : l.committed ≤ l.log.last
  persisted_lt : l.persisted < l.unstable.offset
  applied_le : l.applied ≤ l.committed

section queries
variable {l : RaftLog σ}

theorem log_of_snapshot {s : Snapshot} (h : l.unstable.snapshot = some s) :
    l.log = ⟨s.metadata.index, s.metadata.term, l.unstable.entries⟩ := by
  unfold log
  rw [h]

theorem log_of_none (h : l.unstable.snapshot = none) :
    l.log = l.storeLog.splice l.unstable.offset l.unstable.entries := by
  unfold log
  rw [h]

theorem WF.base_lt_offset (h : l.WF) : l.log.base < l.unstable.offset := by
  cases hs : l.unstable.snapshot with
  | some s =>
      rw [log_of_snapshot hs, h.snapshot s hs]
      exact Nat.lt_succ_self _
  | none =>
      rw [log_of_none hs]
      exact (h.stored hs).1

/-- The last index is the end of the buffer. -/
theorem WF.last_eq (h : l.WF) : l.log.last + 1 = l.unstable.offset + l.unstable.entries.length := by
  cases hs : l.unstable.snapshot with
  | some s =>
      rw [log_of_snapshot hs, h.snapshot s hs]
      unfold Log.last
      dsimp only
      omega
  | none =>
      obtain ⟨h1, h2⟩ := h.stored hs
      rw [log_of_none hs, Log.last_splice h1 h2]
      omega

theorem WF.contiguous (h : l.WF) : l.log.Contiguous := by
  cases hs : l.unstable.snapshot with
  | some s =>
      rw [log_of_snapshot hs]
      show Log.Consecutive (s.metadata.index + 1) _
      rw [← h.snapshot s hs]
      exact h.entries
  | none =>
      obtain ⟨h1, h2⟩ := h.stored hs
      rw [log_of_none hs]
      exact (LawfulStorage.contiguous h.valid).splice h1 h2 h.entries

/-- Above the offset the log is the buffer. -/
theorem WF.entryAt_ge (h : l.WF) {i : ℕ} (hi : l.unstable.offset ≤ i) :
    l.log.entryAt i = l.unstable.entries[i - l.unstable.offset]? := by
  cases hs : l.unstable.snapshot with
  | some s =>
      have ho := h.snapshot s hs
      rw [log_of_snapshot hs, Log.entryAt_of_gt (by dsimp only; omega)]
      dsimp only
      congr 1
      omega
  | none =>
      obtain ⟨h1, h2⟩ := h.stored hs
      rw [log_of_none hs, Log.entryAt_splice_ge h1 h2 hi]

/-- Below the offset the log is the stored log. -/
theorem WF.entryAt_lt (h : l.WF) (hs : l.unstable.snapshot = none) {i : ℕ}
    (hi : i < l.unstable.offset) : l.log.entryAt i = l.storeLog.entryAt i := by
  rw [log_of_none hs, Log.entryAt_splice_lt (h.stored hs).2 hi]

theorem WF.termAt_lt (h : l.WF) (hs : l.unstable.snapshot = none) {i : ℕ}
    (hi : i < l.unstable.offset) : l.log.termAt i = l.storeLog.termAt i := by
  rw [log_of_none hs, Log.termAt_splice_lt (h.stored hs).2 hi]

theorem WF.firstIndex_eq (h : l.WF) : l.firstIndex = l.log.base + 1 := by
  unfold firstIndex Unstable.maybeFirstIndex
  cases hs : l.unstable.snapshot with
  | some s =>
      rw [log_of_snapshot hs]
      rfl
  | none =>
      rw [log_of_none hs]
      dsimp only [Option.map_none]
      rw [LawfulStorage.firstIndex_eq h.valid]
      rfl

theorem WF.lastIndex_eq (h : l.WF) : l.lastIndex = l.log.last := by
  have hlast := h.last_eq
  unfold lastIndex Unstable.maybeLastIndex
  cases he : l.unstable.entries with
  | cons e es =>
      rw [he, List.length_cons] at hlast
      dsimp only [List.isEmpty_cons, List.length_cons]
      simp only [Bool.false_eq_true, if_false]
      omega
  | nil =>
      rw [he, List.length_nil] at hlast
      cases hs : l.unstable.snapshot with
      | some s =>
          have ho := h.snapshot s hs
          simp only [List.isEmpty_nil, if_true, Option.map_some]
          omega
      | none =>
          have ho := h.drained hs he
          simp only [List.isEmpty_nil, if_true, Option.map_none]
          rw [LawfulStorage.lastIndex_eq h.valid]
          show l.storeLog.last = _
          omega

theorem WF.maybeLastIndex_eq (h : l.WF) (hne : l.unstable.entries ≠ []) :
    l.unstable.maybeLastIndex = some l.log.last := by
  have hlast := h.last_eq
  unfold Unstable.maybeLastIndex
  have hpos : 0 < l.unstable.entries.length := List.length_pos_iff.mpr hne
  rw [if_neg (by simpa using hne)]
  congr 1
  omega

/-- No term query fails. -/
theorem WF.term_eq (h : l.WF) (i : ℕ) : l.term i = .ok (l.log.term i) := by
  have hlast := h.last_eq
  have hoff := h.base_lt_offset
  unfold term
  rw [h.firstIndex_eq, h.lastIndex_eq, wrapPred_succ]
  split
  · rename_i hout
    rw [Log.term_of_not_mem hout]
  · rename_i hin
    have h1 : l.log.base ≤ i := by omega
    have h2 : i ≤ l.log.last := by omega
    rcases Nat.lt_or_ge i l.unstable.offset with hi | hi
    · cases hs : l.unstable.snapshot with
      | some s =>
          have ho := h.snapshot s hs
          have hb : l.log.base = s.metadata.index := by rw [log_of_snapshot hs]
          have hi' : i = s.metadata.index := by omega
          have hu : l.unstable.maybeTerm i = some s.metadata.term := by
            unfold Unstable.maybeTerm
            rw [if_pos hi, hs]
            exact if_pos hi'
          rw [hu]
          dsimp only
          rw [Log.term_of_termAt (t := s.metadata.term)]
          rw [log_of_snapshot hs, hi']
          exact Log.termAt_base
      | none =>
          have hu : l.unstable.maybeTerm i = none := by
            unfold Unstable.maybeTerm
            rw [if_pos hi, hs]
          rw [hu]
          dsimp only
          obtain ⟨hb, hbl⟩ := h.stored hs
          have hbase : l.storeLog.base = l.log.base := by
            rw [log_of_none hs]
            rfl
          have hl2 : i ≤ l.storeLog.last := by omega
          obtain ⟨t, ht, htt⟩ := LawfulStorage.term_eq h.valid (i := i) (by
            show l.storeLog.base ≤ i
            omega) hl2
          rw [ht, Log.term_of_termAt (t := t)]
          rw [h.termAt_lt hs hi]
          exact htt
    · have hne : l.unstable.entries ≠ [] := by
        intro he
        rw [he, List.length_nil] at hlast
        omega
      have hu : l.unstable.maybeTerm i = (l.unstable.entries[i - l.unstable.offset]?).map Entry.term := by
        unfold Unstable.maybeTerm
        rw [if_neg (by omega), h.maybeLastIndex_eq hne]
        dsimp only
        rw [if_neg (by omega)]
      obtain ⟨e, he⟩ := Log.exists_entryAt (l := l.log) (i := i) (by omega) h2
      have hget := he
      rw [h.entryAt_ge hi] at hget
      rw [hu, hget]
      dsimp only [Option.map_some]
      rw [Log.term_of_termAt (Log.termAt_of_entryAt he)]

theorem WF.lastTerm_eq (h : l.WF) : l.lastTerm = .ok (l.log.term l.log.last) := by
  unfold lastTerm
  rw [h.lastIndex_eq, h.term_eq]

theorem WF.matchTerm_eq (h : l.WF) (i t : ℕ) :
    l.matchTerm i t = .ok (decide (l.log.termAt i = some t)) := by
  unfold matchTerm
  rw [h.firstIndex_eq, h.lastIndex_eq, wrapPred_succ]
  split
  · rename_i hout
    congr 1
    rw [eq_comm, decide_eq_false_iff_not]
    intro ht
    have := Log.termAt_isSome_iff.mp (by rw [ht]; rfl : (l.log.termAt i).isSome = true)
    omega
  · rename_i hin
    rw [h.term_eq, Log.termAt_eq_some_term (l := l.log) (i := i) (by omega) (by omega)]
    simp [beq_eq_decide]

theorem WF.commitInfo_eq (h : l.WF) :
    l.commitInfo = .ok (l.committed, l.log.term l.committed) := by
  unfold commitInfo
  rw [h.term_eq]

theorem WF.isUpToDate_eq (h : l.WF) (i t : ℕ) :
    l.isUpToDate i t = .ok (decide (l.log.term l.log.last < t ∨
      (t = l.log.term l.log.last ∧ l.log.last ≤ i))) := by
  unfold isUpToDate
  rw [h.lastTerm_eq, h.lastIndex_eq]
  simp [beq_eq_decide]

/-- A conflict search ends at the first entry that the log does not hold. -/
theorem WF.findConflict_eq (h : l.WF) (ents : List Entry) :
    ∃ c, l.findConflict ents = .ok c ∧
      ((c = 0 ∧ ∀ e ∈ ents, l.log.termAt e.index = some e.term) ∨
        ∃ pre e post, ents = pre ++ e :: post ∧ c = e.index ∧
          (∀ e' ∈ pre, l.log.termAt e'.index = some e'.term) ∧
          l.log.termAt e.index ≠ some e.term) := by
  induction ents with
  | nil => exact ⟨0, rfl, Or.inl ⟨rfl, by simp⟩⟩
  | cons e es ih =>
      unfold findConflict
      rw [h.matchTerm_eq]
      by_cases hm : l.log.termAt e.index = some e.term
      · rw [decide_eq_true hm]
        obtain ⟨c, hc, hcase⟩ := ih
        refine ⟨c, hc, ?_⟩
        rcases hcase with ⟨h0, hall⟩ | ⟨pre, e', post, rfl, rfl, hpre, hne⟩
        · refine Or.inl ⟨h0, ?_⟩
          intro e' he'
          rcases List.mem_cons.mp he' with rfl | he'
          · exact hm
          · exact hall e' he'
        · refine Or.inr ⟨e :: pre, e', post, rfl, rfl, ?_, hne⟩
          intro e'' he''
          rcases List.mem_cons.mp he'' with rfl | he''
          · exact hm
          · exact hpre e'' he''
      · rw [decide_eq_false hm]
        exact ⟨e.index, rfl, Or.inr ⟨[], e, es, rfl, rfl, by simp, hm⟩⟩

end queries

/-! ### Reads that may fail -/

section reads
variable {l : RaftLog σ}

theorem mustCheckOutOfBounds_ok (h : l.WF) {lo hi : ℕ}
    (hc : l.mustCheckOutOfBounds lo hi = .ok ()) :
    lo ≤ hi ∧ l.log.base < lo ∧ hi ≤ l.log.last + 1 := by
  have hbl := Log.base_le_last (l := l.log)
  unfold mustCheckOutOfBounds at hc
  rw [h.firstIndex_eq, h.lastIndex_eq] at hc
  split at hc
  · cases hc
  · split at hc
    · cases hc
    · split at hc
      · cases hc
      · omega

/-- A slice of the log is a piece of the stored log followed by a piece of the buffer. -/
theorem WF.slice_stored (h : l.WF) (hs : l.unstable.snapshot = none) {lo hi : ℕ}
    (hlo : l.log.base < lo) (hlh : lo ≤ hi) (hho : hi ≤ l.unstable.offset) :
    l.log.slice lo hi = l.storeLog.slice lo hi := by
  have hb : l.log.base = l.storeLog.base := by
    rw [log_of_none hs]
    rfl
  refine List.ext_getElem? fun k => ?_
  rw [Log.slice_prefix_getElem? hlo, Log.slice_prefix_getElem? (by omega)]
  split
  · exact h.entryAt_lt hs (by omega)
  · rfl

theorem WF.slice_buffer (h : l.WF) {lo hi : ℕ} (hlo : l.unstable.offset ≤ lo) :
    l.log.slice lo hi = (l.unstable.entries.drop (lo - l.unstable.offset)).take (hi - lo) := by
  have hoff := h.base_lt_offset
  refine List.ext_getElem? fun k => ?_
  rw [Log.slice_prefix_getElem? (by omega), List.getElem?_take]
  split
  · rw [h.entryAt_ge (by omega), List.getElem?_drop]
    congr 1
    omega
  · rfl

theorem slice_append {l : Log} {lo mid hi : ℕ} (hlo : l.base < lo) (h1 : lo ≤ mid) (h2 : mid ≤ hi)
    (hmid : mid ≤ l.last + 1) : l.slice lo hi = l.slice lo mid ++ l.slice mid hi := by
  refine List.ext_getElem? fun k => ?_
  have hlen : (l.slice lo mid).length = mid - lo := Log.length_slice hlo hmid
  rw [Log.slice_prefix_getElem? hlo]
  rcases Nat.lt_or_ge k (mid - lo) with hk | hk
  · rw [List.getElem?_append_left (by omega), Log.slice_prefix_getElem? hlo, if_pos (by omega),
      if_pos hk]
  · rw [List.getElem?_append_right (by omega), hlen, Log.slice_prefix_getElem? (by omega)]
    have : mid + (k - (mid - lo)) = lo + k := by omega
    rw [this]
    by_cases hk' : k < hi - lo
    · rw [if_pos hk', if_pos (by omega)]
    · rw [if_neg hk', if_neg (by omega)]

theorem slice_unstable {u : Unstable} {lo hi : ℕ} {es : List Entry} (h : u.slice lo hi = some es) :
    es = (u.entries.drop (lo - u.offset)).take (hi - lo) := by
  unfold Unstable.slice at h
  split at h <;> cases h
  rfl

/-- What a slice returns is a prefix of the log from `lo` on, and nothing changes. -/
theorem WF.wp_slice (h : l.WF) {lo hi : ℕ} {m : Option ℕ} {c : GetEntriesContext} :
    (slice lo hi m c).wp
      (fun es l' => l' = l ∧ es <+: l.log.slice lo hi ∧ l.log.base < lo ∧ hi ≤ l.log.last + 1)
      (fun _ l' => l' = l) l := by
  unfold slice
  rw [Act.wp_bind, Act.wp_query]
  refine ⟨fun _ hc => ?_, fun _ _ => rfl⟩
  obtain ⟨hlh, hlo, hhi⟩ := mustCheckOutOfBounds_ok h hc
  have hoff := h.base_lt_offset
  rw [Act.wp_ite]
  refine ⟨fun _ => ⟨rfl, List.nil_prefix, hlo, hhi⟩, fun hne => ?_⟩
  rw [Act.wp_bind, Act.wp_get, Act.wp_ite]
  refine ⟨fun hlow => ?_, fun hlow => ?_⟩
  · -- the part below the offset comes from the storage, so no snapshot is pending
    have hs : l.unstable.snapshot = none := by
      cases hs : l.unstable.snapshot with
      | none => rfl
      | some s =>
          have ho := h.snapshot s hs
          rw [log_of_snapshot hs] at hlo
          dsimp only at hlo
          omega
    unfold storeEntries
    rw [Act.wp_bind, Act.wp_catchErr, Act.wp_query]
    refine ⟨fun ents he => ?_, fun e _ => ?_⟩
    · obtain ⟨_, hpre⟩ := LawfulStorage.entries_ok h.valid he
      have hpre : ents <+: l.storeLog.slice lo (min hi l.unstable.offset) := hpre
      rw [← h.slice_stored hs hlo (by omega) (by omega)] at hpre
      have hlast := h.last_eq
      have hsplit : l.log.slice lo hi = l.log.slice lo (min hi l.unstable.offset) ++
          l.log.slice (min hi l.unstable.offset) hi :=
        slice_append hlo (by omega) (by omega) (by omega)
      have hlen : (l.log.slice lo (min hi l.unstable.offset)).length =
          min hi l.unstable.offset - lo := Log.length_slice hlo (by omega)
      rw [Act.wp_ite]
      refine ⟨fun _ => ⟨rfl, ?_, hlo, hhi⟩, fun hfull => ?_⟩
      · rw [hsplit]
        exact hpre.trans (List.prefix_append _ _)
      · have heq : ents = l.log.slice lo (min hi l.unstable.offset) :=
          hpre.eq_of_length_le (by omega)
        rw [Act.wp_ite]
        refine ⟨fun hgt => ?_, fun hgt => ⟨rfl, ?_, hlo, hhi⟩⟩
        · rw [Act.wp_bind, Act.wp_orPanic]
          intro rest hrest
          refine ⟨rfl, (limitSize_isPrefix _ _).trans ?_, hlo, hhi⟩
          have hmin : min hi l.unstable.offset = l.unstable.offset := by omega
          rw [slice_unstable hrest, heq, hsplit, hmin, Nat.max_eq_right (by omega),
            h.slice_buffer le_rfl]
        · refine (limitSize_isPrefix _ _).trans ?_
          rw [heq, hsplit]
          exact List.prefix_append _ _
    · split
      · exact Act.wp_panic
      · exact rfl
  · rw [Act.wp_bind, Act.wp_orPanic]
    intro rest hrest
    refine ⟨rfl, (limitSize_isPrefix _ _).trans ?_, hlo, hhi⟩
    rw [slice_unstable hrest, Nat.max_eq_left (by omega), h.slice_buffer (by omega)]

theorem WF.wp_getEntries (h : l.WF) {idx : ℕ} {m : Option ℕ} {c : GetEntriesContext} :
    (getEntries idx m c).wp
      (fun es l' => l' = l ∧ es <+: l.log.slice idx (l.log.last + 1) ∧
        (es ≠ [] → l.log.base < idx ∧ idx ≤ l.log.last))
      (fun _ l' => l' = l) l := by
  unfold getEntries
  rw [Act.wp_bind, Act.wp_get, h.lastIndex_eq, Act.wp_ite]
  refine ⟨fun _ => ⟨rfl, List.nil_prefix, fun hn => absurd rfl hn⟩, fun hle => ?_⟩
  refine Act.wp_mono h.wp_slice ?_ fun _ _ h => h
  rintro es l' ⟨hl, hpre, hlo, _⟩
  exact ⟨hl, hpre, fun _ => ⟨hlo, by omega⟩⟩

theorem WF.wp_nextEntriesSince (h : l.WF) {since : ℕ} {m : Option ℕ} :
    (nextEntriesSince since m).wp
      (fun o l' => l' = l ∧ ∀ es ∈ o, l.hasNextEntriesSince since = true ∧
        es <+: l.log.slice (max (since + 1) (l.log.base + 1)) (l.appliedIndexUpperBound + 1))
      (fun _ l' => l' = l) l := by
  unfold nextEntriesSince
  rw [Act.wp_bind, Act.wp_get, Act.wp_ite]
  refine ⟨fun hn => ?_, fun _ => ⟨rfl, fun es hes => by cases hes⟩⟩
  rw [Act.wp_bind]
  refine Act.wp_mono h.wp_slice ?_ fun _ _ h => h
  rintro es l' ⟨hl, hpre, _, _⟩
  refine ⟨hl, ?_⟩
  rintro es' ⟨⟩
  rw [h.firstIndex_eq] at hpre
  exact ⟨hn, hpre⟩

/-- A scan that finds nothing has seen every entry of the range. -/
theorem WF.wp_scan (h : l.WF) {p : Entry → Bool} {hi page : ℕ} {c : GetEntriesContext}
    (fuel : ℕ) (lo : ℕ) :
    (scan p hi page c fuel lo).wp
      (fun found l' => l' = l ∧ (found = false → hi ≤ lo + fuel →
        ∀ i e, lo ≤ i → i < hi → l.log.entryAt i = some e → p e = false))
      (fun _ l' => l' = l) l := by
  induction fuel generalizing lo with
  | zero =>
      refine ⟨rfl, fun _ hle i e h1 h2 _ => ?_⟩
      omega
  | succ fuel ih =>
      unfold scan
      rw [Act.wp_ite]
      refine ⟨fun hlt => ?_, fun hge => ⟨rfl, fun _ _ i e h1 h2 _ => by omega⟩⟩
      rw [Act.wp_bind]
      refine Act.wp_mono h.wp_slice ?_ fun _ _ h => h
      rintro got l' ⟨rfl, hpre, hlo, _⟩
      rw [Act.wp_ite]
      refine ⟨fun _ => rfl, fun hne => ?_⟩
      rw [Act.wp_ite]
      refine ⟨fun _ => ⟨rfl, fun hf => by cases hf⟩, fun hany => ?_⟩
      refine Act.wp_mono (ih (lo + got.length)) ?_ fun _ _ h => h
      rintro found l'' ⟨rfl, hrest⟩
      refine ⟨rfl, fun hf hle i e h1 h2 he => ?_⟩
      have hpos : 0 < got.length := by
        rw [List.length_pos_iff]
        intro hnil
        rw [hnil] at hne
        exact hne rfl
      rcases Nat.lt_or_ge i (lo + got.length) with hi' | hi'
      · -- the entry lies in the page just read
        have hget : got[i - lo]? = some e := by
          have hk : i - lo < got.length := by omega
          have := hpre.getElem hk
          rw [List.getElem?_eq_getElem hk, this]
          have hs : (l''.log.slice lo hi)[i - lo]? = if i - lo < hi - lo then
              l''.log.entryAt (lo + (i - lo)) else none := Log.slice_prefix_getElem? hlo
          rw [if_pos (by omega), show lo + (i - lo) = i by omega, he] at hs
          obtain ⟨hk', hs⟩ := List.getElem?_eq_some_iff.mp hs
          rw [hs]
        have hmem : e ∈ got := List.mem_of_getElem? hget
        rw [Bool.not_eq_true, List.any_eq_false] at hany
        simpa using hany e hmem
      · exact hrest hf (by omega) i e hi' h2 he

end reads

/-! ### Cursors -/

section cursors
variable {l : RaftLog σ}

@[simp] theorem log_setCommitted (i : ℕ) : ({ l with committed := i } : RaftLog σ).log = l.log := rfl
@[simp] theorem log_setPersisted (i : ℕ) : ({ l with persisted := i } : RaftLog σ).log = l.log := rfl
@[simp] theorem log_setApplied (i : ℕ) : ({ l with applied := i } : RaftLog σ).log = l.log := rfl
@[simp] theorem log_setLimit (i : ℕ) :
    ({ l with maxApplyUnpersistedLogLimit := i } : RaftLog σ).log = l.log := rfl

theorem WF.setCommitted (h : l.WF) {i : ℕ} (h1 : l.committed ≤ i) (h2 : i ≤ l.log.last) :
    ({ l with committed := i } : RaftLog σ).WF :=
  { h with
    base_le := h.base_le.trans h1
    committed_le := h2
    applied_le := h.applied_le.trans h1 }

theorem WF.setPersisted (h : l.WF) {i : ℕ} (hi : i < l.unstable.offset) :
    ({ l with persisted := i } : RaftLog σ).WF := { h with persisted_lt := hi }

theorem WF.setApplied (h : l.WF) {i : ℕ} (hi : i ≤ l.committed) :
    ({ l with applied := i } : RaftLog σ).WF := { h with applied_le := hi }

theorem WF.setLimit (h : l.WF) (i : ℕ) :
    ({ l with maxApplyUnpersistedLogLimit := i } : RaftLog σ).WF := { h with }

theorem WF.wp_commitTo (h : l.WF) (i : ℕ) :
    (commitTo i).wp
      (fun _ l' => (i ≤ l.committed ∧ l' = l) ∨
        (l.committed < i ∧ i ≤ l.log.last ∧ l' = { l with committed := i }))
      (fun _ l' => l' = l) l := by
  unfold commitTo
  rw [Act.wp_bind, Act.wp_get, h.lastIndex_eq, Act.wp_ite]
  refine ⟨fun _ => rfl, fun _ => ?_⟩
  rw [Act.wp_ite]
  refine ⟨fun hle => Or.inl ⟨hle, rfl⟩, fun hgt => ?_⟩
  rw [Act.wp_ite]
  exact ⟨fun _ => rfl, fun hle => Or.inr ⟨by omega, by omega, rfl⟩⟩

theorem WF.wp_maybeCommit (h : l.WF) (i t : ℕ) :
    (maybeCommit i t).wp
      (fun b l' => (b = false ∧ l' = l) ∨
        (b = true ∧ l.committed < i ∧ i ≤ l.log.last ∧ l.log.termAt i = some t ∧
          l' = { l with committed := i }))
      (fun _ l' => l' = l) l := by
  unfold maybeCommit
  rw [Act.wp_bind, Act.wp_get, Act.wp_ite]
  refine ⟨fun hlt => ?_, fun _ => Or.inl ⟨rfl, rfl⟩⟩
  rw [Act.wp_bind, Act.wp_query]
  refine ⟨fun t' ht' => ?_, fun e he => ?_⟩
  · rw [h.term_eq] at ht'
    cases ht'
    rw [Act.wp_ite]
    refine ⟨fun ht => ?_, fun _ => Or.inl ⟨rfl, rfl⟩⟩
    rw [Act.wp_bind]
    refine Act.wp_mono (h.wp_commitTo i) ?_ fun _ _ h => h
    rintro _ l' (⟨hle, _⟩ | ⟨h1, h2, rfl⟩)
    · omega
    · refine Or.inr ⟨rfl, h1, h2, ?_, rfl⟩
      rw [← ht]
      exact Log.termAt_eq_some_term (by have := h.base_le; omega) h2
  · exact absurd (he.symm.trans (h.term_eq i)) (by simp)

theorem WF.wp_maybePersist (h : l.WF) (i t : ℕ) :
    (maybePersist i t).wp
      (fun b l' => (b = false ∧ l' = l) ∨
        (b = true ∧ l.persisted < i ∧ i < l.unstable.offset ∧
          (∀ s, l.unstable.snapshot = some s → i < s.metadata.index) ∧
          l.storeLog.termAt i = some t ∧ l' = { l with persisted := i }))
      (fun _ l' => l' = l) l := by
  unfold maybePersist
  rw [Act.wp_bind, Act.wp_get, Act.wp_ite]
  refine ⟨fun hlt => ?_, fun _ => Or.inl ⟨rfl, rfl⟩⟩
  rw [Act.wp_bind, Act.wp_query]
  refine ⟨fun t' ht' => ?_, fun e _ => rfl⟩
  rw [Act.wp_ite]
  refine ⟨fun ht => ?_, fun _ => Or.inl ⟨rfl, rfl⟩⟩
  subst ht
  have hsnap : ∀ s, l.unstable.snapshot = some s → i < s.metadata.index := by
    intro s hs
    rw [hs] at hlt
    exact hlt.2
  have hoff : i < l.unstable.offset := by
    cases hs : l.unstable.snapshot with
    | none =>
        rw [hs] at hlt
        exact hlt.2
    | some s =>
        have := hsnap s hs
        have := h.snapshot s hs
        omega
  have hterm : l.storeLog.termAt i = some t' := by
    rcases Nat.lt_or_ge i l.storeLog.base with hb | hb
    · rw [LawfulStorage.term_of_lt h.valid hb] at ht'
      cases ht'
    · rcases Nat.lt_or_ge l.storeLog.last i with hl | hl
      · rw [LawfulStorage.term_of_gt h.valid hl] at ht'
        cases ht'
      · obtain ⟨t, ht, htt⟩ := LawfulStorage.term_eq h.valid hb hl
        rw [ht] at ht'
        cases ht'
        exact htt
  exact Or.inr ⟨rfl, hlt.1, hoff, hsnap, hterm, rfl⟩

omit [LawfulStorage σ] in
theorem wp_maybePersistSnapshot (i : ℕ) :
    (maybePersistSnapshot i).wp
      (fun b l' => (b = false ∧ l' = l) ∨
        (b = true ∧ l.persisted < i ∧ i ≤ l.committed ∧ i < l.unstable.offset ∧
          l' = { l with persisted := i }))
      (fun _ l' => l' = l) l := by
  unfold maybePersistSnapshot
  rw [Act.wp_bind, Act.wp_get, Act.wp_ite]
  refine ⟨fun _ => Or.inl ⟨rfl, rfl⟩, fun hlt => ?_⟩
  rw [Act.wp_bind, Act.wp_assert]
  intro h1
  rw [Act.wp_bind, Act.wp_assert]
  intro h2
  exact Or.inr ⟨rfl, by omega, of_decide_eq_true h1, of_decide_eq_true h2, rfl⟩

omit [LawfulStorage σ] in
theorem wp_appliedTo (i : ℕ) :
    (appliedTo i).wp
      (fun _ l' => (i = 0 ∧ l' = l) ∨
        (i ≤ l.committed ∧ l.applied ≤ i ∧ l' = { l with applied := i }))
      (fun _ l' => l' = l) l := by
  unfold appliedTo
  rw [Act.wp_ite]
  refine ⟨fun h0 => Or.inl ⟨h0, rfl⟩, fun _ => ?_⟩
  rw [Act.wp_bind, Act.wp_get, Act.wp_bind, Act.wp_assert]
  intro hc
  have hc := of_decide_eq_true hc
  exact Or.inr ⟨hc.1, hc.2, rfl⟩

theorem WF.wp_restore (h : l.WF) (snap : Snapshot) :
    (restore snap).wp
      (fun _ l' => l'.WF ∧ l.committed ≤ snap.metadata.index ∧
        l'.log = ⟨snap.metadata.index, snap.metadata.term, []⟩ ∧
        l' = { l with
          unstable := l.unstable.restore snap
          persisted := min l.persisted l.committed
          committed := snap.metadata.index })
      (fun _ l' => l' = l) l := by
  unfold restore
  rw [Act.wp_bind, Act.wp_get, Act.wp_ite]
  refine ⟨fun _ => rfl, fun _ => ?_⟩
  rw [Act.wp_ite]
  refine ⟨fun _ => rfl, fun hge => ?_⟩
  have hge : l.committed ≤ snap.metadata.index := by omega
  refine ⟨?_, hge, rfl, rfl⟩
  exact {
    valid := h.valid
    entries := trivial
    snapshot := by
      rintro s ⟨⟩
      rfl
    stored := fun hn => by cases hn
    drained := fun hn => by cases hn
    base_le := le_rfl
    committed_le := le_rfl
    persisted_lt := Nat.lt_succ_of_le ((min_le_right _ _).trans hge)
    applied_le := h.applied_le.trans hge }

end cursors

/-! ### Appending -/

section append
variable {l : RaftLog σ}

/-- Non-decreasing terms starting at `t`. -/
def TermsFrom : ℕ → List Entry → Prop
  | _, [] => True
  | t, e :: es => t ≤ e.term ∧ TermsFrom e.term es

theorem validTail_iff {e : Entry} {es : List Entry} :
    validTail e es = true ↔ Log.Consecutive (e.index + 1) es ∧ TermsFrom e.term es := by
  induction es generalizing e with
  | nil => simp [validTail, Log.Consecutive, TermsFrom]
  | cons e' es ih =>
      unfold validTail Log.Consecutive TermsFrom
      simp only [Bool.and_eq_true, beq_iff_eq, decide_eq_true_eq, ih]
      constructor
      · rintro ⟨⟨h1, h2⟩, h3, h4⟩
        rw [h1] at h3
        exact ⟨⟨h1, h3⟩, h2, h4⟩
      · rintro ⟨⟨h1, h3⟩, h2, h4⟩
        refine ⟨⟨h1, h2⟩, ?_, h4⟩
        rw [h1]
        exact h3

theorem validateAppend_ok (h : l.WF) {e : Entry} {es : List Entry}
    (hv : l.validateAppend e es = .ok ()) :
    l.committed < e.index ∧ e.index ≤ l.log.last + 1 ∧ Log.Consecutive e.index (e :: es) ∧
      TermsFrom (l.log.term (e.index - 1)) (e :: es) := by
  have hb := h.base_le
  unfold validateAppend at hv
  rw [h.lastIndex_eq, h.firstIndex_eq] at hv
  split at hv
  · cases hv
  split at hv
  · cases hv
  split at hv
  · cases hv
  split at hv
  · cases hv
  rename_i h1 _ h2
  rw [if_pos (by omega), h.term_eq] at hv
  dsimp only at hv
  split at hv
  · cases hv
  rename_i h3
  split at hv
  · rename_i hvt
    obtain ⟨hcons, hterms⟩ := validTail_iff.mp hvt
    exact ⟨by omega, by omega, ⟨rfl, hcons⟩, by omega, hterms⟩
  · cases hv

/-- In each case the buffer keeps the entries below the new ones, and its snapshot. -/
theorem truncateAndAppend_eq {u u' : Unstable} {e : Entry} {es : List Entry}
    (h : u.truncateAndAppend (e :: es) = some u') :
    u'.snapshot = u.snapshot ∧ u'.offset = min u.offset e.index ∧
      u'.entries = u.entries.take (e.index - u.offset) ++ e :: es ∧
      e.index ≤ u.offset + u.entries.length := by
  unfold Unstable.truncateAndAppend at h
  dsimp only at h
  split at h
  · rename_i ha
    cases h
    refine ⟨rfl, by dsimp only; omega, ?_, by omega⟩
    rw [List.take_of_length_le (by omega)]
  · split at h
    · rename_i ha
      cases h
      refine ⟨rfl, by dsimp only; omega, ?_, by omega⟩
      rw [Nat.sub_eq_zero_of_le ha, List.take_zero, List.nil_append]
    · split at h
      · cases h
        exact ⟨rfl, by dsimp only; omega, rfl, by omega⟩
      · cases h

theorem consecutive_truncateAndAppend {u u' : Unstable} {e : Entry} {es : List Entry}
    (hu : Log.Consecutive u.offset u.entries) (h : u.truncateAndAppend (e :: es) = some u')
    (hc : Log.Consecutive e.index (e :: es)) : Log.Consecutive u'.offset u'.entries := by
  obtain ⟨_, hoff, hents, hle⟩ := truncateAndAppend_eq h
  rw [hoff, hents]
  rcases Nat.lt_or_ge e.index u.offset with hlt | hge
  · rw [Nat.sub_eq_zero_of_le hlt.le, List.take_zero, List.nil_append, Nat.min_eq_right hlt.le]
    exact hc
  · rw [Nat.min_eq_left hge]
    refine Log.Consecutive.append (hu.take _) ?_
    rw [List.length_take]
    have : u.offset + min (e.index - u.offset) u.entries.length = e.index := by omega
    rw [this]
    exact hc

/-- The buffer after an append holds the spliced log. -/
theorem WF.truncateAndAppend (h : l.WF) {e : Entry} {es : List Entry} {u : Unstable}
    (hu : l.unstable.truncateAndAppend (e :: es) = some u) (h1 : l.committed < e.index)
    (h2 : e.index ≤ l.log.last + 1) (hc : Log.Consecutive e.index (e :: es)) {p : ℕ}
    (hp : p ≤ l.persisted) (hpe : p < e.index) :
    ({ l with persisted := p, unstable := u } : RaftLog σ).WF ∧
      ({ l with persisted := p, unstable := u } : RaftLog σ).log = l.log.splice e.index (e :: es) := by
  have hlast := h.last_eq
  have hbase := h.base_le
  have hoff := h.base_lt_offset
  have hplt := h.persisted_lt
  obtain ⟨hs, hoffeq, hents, _⟩ := truncateAndAppend_eq hu
  have hsn : ∀ s, l.unstable.snapshot = some s → u.offset = l.unstable.offset := by
    intro s hs'
    have := h.snapshot s hs'
    have : l.log.base = s.metadata.index := by rw [log_of_snapshot hs']
    omega
  have hne : u.entries ≠ [] := by simp [hents]
  have hpo : p < u.offset := by omega
  have hcons : Log.Consecutive u.offset u.entries := consecutive_truncateAndAppend h.entries hu hc
  have hlog : ({ l with persisted := p, unstable := u } : RaftLog σ).log =
      l.log.splice e.index (e :: es) := by
    cases hsn' : l.unstable.snapshot with
    | some s =>
        have ho := h.snapshot s hsn'
        rw [log_of_snapshot (s := s) (by rw [← hsn']; exact hs), log_of_snapshot hsn', hents]
        unfold Log.splice
        dsimp only
        congr 3
        omega
    | none =>
        have hl : l.log = l.storeLog.splice l.unstable.offset l.unstable.entries := log_of_none hsn'
        obtain ⟨hst1, hst2⟩ := h.stored hsn'
        rw [log_of_none (by rw [← hsn']; exact hs), hl]
        show l.storeLog.splice u.offset u.entries = _
        unfold Log.splice
        dsimp only
        rw [hents, hoffeq, ← List.append_assoc]
        congr 2
        have hb : l.log.base = l.storeLog.base := by rw [hl]; rfl
        have hlen : (l.storeLog.entries.take (l.unstable.offset - l.storeLog.base - 1)).length =
            l.unstable.offset - l.storeLog.base - 1 := by
          rw [List.length_take]
          unfold Log.last at hst2
          omega
        rw [List.take_append, hlen, List.take_take]
        congr 2
        · omega
        · omega
  refine ⟨?_, hlog⟩
  have hlast' : (l.log.splice e.index (e :: es)).last = e.index - 1 + (e :: es).length :=
    Log.last_splice (by omega) h2
  exact {
    valid := h.valid
    entries := hcons
    snapshot := by
      intro s hs'
      have hs'' : l.unstable.snapshot = some s := by rw [← hs]; exact hs'
      show u.offset = _
      rw [hsn s hs'', h.snapshot s hs'']
    stored := by
      intro hn
      have hn' : l.unstable.snapshot = none := by rw [← hs]; exact hn
      have hb : l.log.base = l.storeLog.base := by rw [log_of_none hn']; rfl
      have := h.stored hn'
      show l.storeLog.base < u.offset ∧ u.offset ≤ l.storeLog.last + 1
      omega
    drained := fun _ he => absurd he hne
    base_le := by
      rw [hlog]
      exact h.base_le
    committed_le := by
      rw [hlog, hlast']
      show l.committed ≤ _
      rw [List.length_cons]
      omega
    persisted_lt := hpo
    applied_le := h.applied_le }

/-- Appending splices the entries into the log. -/
theorem WF.wp_append (h : l.WF) (ents : List Entry) :
    (append ents).wp
      (fun _ l' => (ents = [] ∧ l' = l) ∨ ∃ e es u, ents = e :: es ∧ l'.WF ∧
        l.committed < e.index ∧ e.index ≤ l.log.last + 1 ∧ Log.Consecutive e.index ents ∧
        TermsFrom (l.log.term (e.index - 1)) ents ∧ l'.log = l.log.splice e.index ents ∧
        u.snapshot = l.unstable.snapshot ∧
        l' = { l with persisted := min l.persisted (e.index - 1), unstable := u })
      (fun _ l' => l' = l) l := by
  cases ents with
  | nil => exact Or.inl ⟨rfl, rfl⟩
  | cons e es =>
      unfold append
      rw [Act.wp_bind, Act.wp_query]
      refine ⟨fun _ hv => ?_, fun _ _ => rfl⟩
      obtain ⟨h1, h2, h3, h4⟩ := validateAppend_ok h hv
      rw [Act.wp_bind, Act.wp_get, Act.wp_bind, Act.wp_orPanic]
      intro u hu
      rw [Act.wp_bind, Act.wp_modify, Act.wp_gets]
      obtain ⟨hwf, hlog⟩ := h.truncateAndAppend hu h1 h2 h3 (p := min l.persisted (e.index - 1))
        (min_le_left _ _) (by omega)
      exact Or.inr ⟨e, es, u, rfl, hwf, h1, h2, h3, h4, hlog, (truncateAndAppend_eq hu).1, rfl⟩

theorem contiguousAfter_iff {idx : ℕ} {ents : List Entry} :
    contiguousAfter idx ents = true ↔ Log.Consecutive (idx + 1) ents := by
  induction ents generalizing idx with
  | nil => simp [contiguousAfter, Log.Consecutive]
  | cons e es ih => simp [contiguousAfter, Log.Consecutive, ih]

theorem consecutive_append_iff {i : ℕ} {es fs : List Entry} :
    Log.Consecutive i (es ++ fs) ↔ Log.Consecutive i es ∧ Log.Consecutive (i + es.length) fs := by
  constructor
  · intro h
    refine ⟨h.of_isPrefix (List.prefix_append es fs), ?_⟩
    have := h.drop es.length
    rwa [List.drop_left] at this
  · exact fun h => h.1.append h.2

/-- The result of merging a leader's entries. -/
structure MergeSpec (l : RaftLog σ) (idx term committed : ℕ) (ents : List Entry)
    (res : MaybeAppendResult) (l' : RaftLog σ) : Prop where
  wf : l'.WF
  termAt : l.log.termAt idx = some term
  lastIndex : res.lastIndex = idx + ents.length
  consecutive : Log.Consecutive (idx + 1) ents
  merged : l.log.Merged l.committed ents l'.log
  committed : l'.committed = max l.committed (min committed res.lastIndex)
  lastIndex_le : res.lastIndex ≤ l'.log.last
  persisted_le : l'.persisted ≤ l.persisted
  persisted_ge : min l.persisted l.committed ≤ l'.persisted
  stable : ∀ i ≤ l'.persisted, l'.log.entryAt i = l.log.entryAt i
  snapshot : l'.unstable.snapshot = l.unstable.snapshot
  store : l'.store = l.store
  applied : l'.applied = l.applied
  limit : l'.maxApplyUnpersistedLogLimit = l.maxApplyUnpersistedLogLimit

/-- What `appendConflict` leaves: the merged log, everything else as it was. -/
theorem WF.wp_appendConflict (h : l.WF) {idx c : ℕ} {ents : List Entry}
    (hcons : Log.Consecutive (idx + 1) ents) (hidx : idx ≤ l.log.last)
    (hc : l.findConflict ents = .ok c) :
    (appendConflict idx c ents).wp
      (fun _ l' => l'.WF ∧ l.log.Merged l.committed ents l'.log ∧ idx + ents.length ≤ l'.log.last ∧
        l'.persisted ≤ l.persisted ∧ min l.persisted l.committed ≤ l'.persisted ∧
        (∀ i ≤ l'.persisted, l'.log.entryAt i = l.log.entryAt i) ∧
        l'.unstable.snapshot = l.unstable.snapshot ∧ l'.committed = l.committed ∧
        l'.store = l.store ∧ l'.applied = l.applied ∧
        l'.maxApplyUnpersistedLogLimit = l.maxApplyUnpersistedLogLimit)
      (fun _ l' => l' = l) l := by
  obtain ⟨c', hc', hcase⟩ := h.findConflict_eq ents
  rw [hc] at hc'
  cases hc'
  unfold appendConflict
  rw [Act.wp_bind, Act.wp_get, Act.wp_ite]
  refine ⟨fun h0 => ?_, fun hne0 => ?_⟩
  · -- no conflict: the log holds all the entries
    have hall : ∀ e ∈ ents, l.log.termAt e.index = some e.term := by
      rcases hcase with ⟨_, hall⟩ | ⟨pre, e, post, rfl, he, _, _⟩
      · exact hall
      · have := (consecutive_append_iff.mp hcons).2.1
        omega
    refine ⟨h, .same hall, ?_, le_rfl, min_le_left _ _, fun _ _ => rfl, rfl, rfl, rfl, rfl, rfl⟩
    rcases List.eq_nil_or_concat ents with rfl | ⟨front, e, rfl⟩
    · simpa using hidx
    · rw [List.concat_eq_append] at hcons
      have he := (consecutive_append_iff.mp hcons).2.1
      have hterm := hall e (by simp)
      have := (Log.termAt_isSome_iff.mp (by rw [hterm]; rfl : (l.log.termAt e.index).isSome = true)).2
      simp only [List.concat_eq_append, List.length_append, List.length_singleton]
      omega
  · rw [Act.wp_ite]
    refine ⟨fun _ => rfl, fun hgt => ?_⟩
    rcases hcase with ⟨h0, _⟩ | ⟨pre, e, post, rfl, he, hpre, hne⟩
    · exact absurd h0 hne0
    have hei := (consecutive_append_iff.mp hcons).2.1
    have hdrop : (pre ++ e :: post).drop (c - (idx + 1)) = e :: post := by
      have : c - (idx + 1) = pre.length := by omega
      rw [this, List.drop_left]
    rw [Act.wp_bind, hdrop]
    refine Act.wp_mono (h.wp_append (e :: post)) ?_ fun _ _ h => h
    rintro _ l' (⟨hnil, _⟩ | ⟨e', es', u, heq, hwf, h1, h2, _, _, hlog, hsnap, rfl⟩)
    · cases hnil
    · cases heq
      have hb := h.base_le
      refine ⟨hwf, ?_, ?_, min_le_left _ _, ?_, ?_, hsnap, rfl, rfl, rfl, rfl⟩
      · rw [hlog]
        exact .spliced pre e post rfl hpre hne h1 h2
      · rw [hlog, Log.last_splice (by omega) h2, List.length_append]
        omega
      · show min l.persisted l.committed ≤ min l.persisted (e.index - 1)
        omega
      · intro i hi
        have hi : i ≤ min l.persisted (e.index - 1) := hi
        rw [hlog, Log.entryAt_splice_lt h2 (by omega)]

theorem WF.wp_maybeAppend (h : l.WF) (idx term committed : ℕ) (ents : List Entry) :
    (maybeAppend idx term committed ents).wp
      (fun res l' => (res.termMatched = false ∧ l' = l) ∨
        (res.termMatched = true ∧ MergeSpec l idx term committed ents res l'))
      (fun _ l' => l' = l ∨ ∃ res, MergeSpec l idx term 0 ents res l') l := by
  unfold maybeAppend
  rw [Act.wp_bind, Act.wp_query]
  refine ⟨fun b hb => ?_, fun _ _ => Or.inl rfl⟩
  rw [h.matchTerm_eq] at hb
  cases hb
  rw [Act.wp_ite]
  refine ⟨fun _ => Or.inl ⟨rfl, rfl⟩, fun hm => ?_⟩
  have hm : l.log.termAt idx = some term := by simpa using hm
  have hidx := (Log.termAt_isSome_iff.mp (by rw [hm]; rfl : (l.log.termAt idx).isSome = true)).2
  rw [Act.wp_ite]
  refine ⟨fun _ => Or.inl rfl, fun _ => ?_⟩
  rw [Act.wp_ite]
  refine ⟨fun _ => Or.inl rfl, fun _ => ?_⟩
  rw [Act.wp_ite]
  refine ⟨fun _ => Or.inl rfl, fun hcont => ?_⟩
  have hcons := contiguousAfter_iff.mp (by simpa using hcont)
  rw [Act.wp_bind, Act.wp_query]
  refine ⟨fun c hc => ?_, fun _ _ => Or.inl rfl⟩
  rw [Act.wp_bind]
  refine Act.wp_mono (h.wp_appendConflict hcons hidx hc) ?_ fun _ _ h => Or.inl h
  rintro _ l' ⟨hwf, hmerged, hlast, hp1, hp2, hst, hsnap, hcom, hstore, happ, hlim⟩
  rw [Act.wp_bind]
  refine Act.wp_mono (hwf.wp_commitTo _) ?_ ?_
  · rintro _ l'' hcase
    refine Or.inr ⟨rfl, ?_⟩
    rcases hcase with ⟨hle, rfl⟩ | ⟨hlt, hle, rfl⟩
    · exact {
        wf := hwf
        termAt := hm
        lastIndex := rfl
        consecutive := hcons
        merged := hmerged
        committed := by
          dsimp only
          omega
        lastIndex_le := hlast
        persisted_le := hp1
        persisted_ge := hp2
        stable := hst
        snapshot := hsnap
        store := hstore
        applied := happ
        limit := hlim }
    · exact {
        wf := hwf.setCommitted hlt.le hle
        termAt := hm
        lastIndex := rfl
        consecutive := hcons
        merged := hmerged
        committed := by
          dsimp only
          omega
        lastIndex_le := hlast
        persisted_le := hp1
        persisted_ge := hp2
        stable := hst
        snapshot := hsnap
        store := hstore
        applied := happ
        limit := hlim }
  · rintro _ l'' rfl
    exact Or.inr ⟨⟨true, 0, idx + ents.length⟩, {
      wf := hwf
      termAt := hm
      lastIndex := rfl
      consecutive := hcons
      merged := hmerged
      committed := by
        dsimp only
        omega
      lastIndex_le := hlast
      persisted_le := hp1
      persisted_ge := hp2
      stable := hst
      snapshot := hsnap
      store := hstore
      applied := happ
      limit := hlim }⟩

end append

/-! ### Writing to the storage -/

section writes
variable {l : RaftLog σ}

/-- A storage that holds the whole log may replace the old one. -/
theorem WF.setStore (h : l.WF) {s : σ} (hv : LawfulStorage.Valid s)
    (hs : (LawfulStorage.view s).log = l.log) :
    ({ l with store := s } : RaftLog σ).WF ∧ ({ l with store := s } : RaftLog σ).log = l.log := by
  have hstore : ({ l with store := s } : RaftLog σ).storeLog = l.log := hs
  have hlast := h.last_eq
  have hlog : ({ l with store := s } : RaftLog σ).log = l.log := by
    cases hsnap : l.unstable.snapshot with
    | some snap =>
        exact (log_of_snapshot (l := { l with store := s }) hsnap).trans (log_of_snapshot hsnap).symm
    | none =>
        rw [log_of_none (l := { l with store := s }) hsnap, hstore, log_of_none (l := l) hsnap]
        exact Log.splice_splice (h.stored hsnap).2
  refine ⟨?_, hlog⟩
  exact {
    valid := hv
    entries := h.entries
    snapshot := h.snapshot
    stored := fun hn => by
      rw [hstore]
      exact ⟨h.base_lt_offset, by show l.unstable.offset ≤ _; omega⟩
    drained := fun hn he => by
      rw [hstore]
      show l.unstable.offset = _
      have : l.unstable.entries.length = 0 := by rw [show l.unstable.entries = [] from he]; rfl
      omega
    base_le := by
      rw [hlog]
      exact h.base_le
    committed_le := by
      rw [hlog]
      exact h.committed_le
    persisted_lt := h.persisted_lt
    applied_le := h.applied_le }

/-- A storage that holds the same log may replace the old one. -/
theorem WF.driftStore (h : l.WF) {s : σ} (hv : LawfulStorage.Valid s)
    (hs : (LawfulStorage.view s).log = l.storeLog) :
    ({ l with store := s } : RaftLog σ).WF ∧ ({ l with store := s } : RaftLog σ).log = l.log := by
  have hstore : ({ l with store := s } : RaftLog σ).storeLog = l.storeLog := hs
  have hlog : ({ l with store := s } : RaftLog σ).log = l.log := by
    unfold log
    rw [hstore]
  exact ⟨{
    valid := hv
    entries := h.entries
    snapshot := h.snapshot
    stored := fun hn => hstore ▸ h.stored hn
    drained := fun hn he => hstore ▸ h.drained hn he
    base_le := hlog ▸ h.base_le
    committed_le := hlog ▸ h.committed_le
    persisted_lt := h.persisted_lt
    applied_le := h.applied_le }, hlog⟩

/-- A storage compacted below the commit index and the buffer may replace the old one. -/
theorem WF.compactStore (h : l.WF) {s : σ} {i t : ℕ} (hv : LawfulStorage.Valid s)
    (hs : (LawfulStorage.view s).log = l.storeLog.compact i t) (hb : l.storeLog.base ≤ i)
    (hi : i ≤ l.storeLog.last) (hc : i ≤ l.committed) (ho : i < l.unstable.offset) :
    ({ l with store := s } : RaftLog σ).WF ∧ ({ l with store := s } : RaftLog σ).log =
      if l.unstable.snapshot = none then l.log.compact i t else l.log := by
  have hstore : ({ l with store := s } : RaftLog σ).storeLog = l.storeLog.compact i t := hs
  have hlog : ({ l with store := s } : RaftLog σ).log =
      if l.unstable.snapshot = none then l.log.compact i t else l.log := by
    cases hsnap : l.unstable.snapshot with
    | some snap =>
        rw [if_neg (by simp)]
        exact (log_of_snapshot (l := { l with store := s }) hsnap).trans (log_of_snapshot hsnap).symm
    | none =>
        rw [if_pos rfl, log_of_none (l := { l with store := s }) hsnap, hstore,
          log_of_none (l := l) hsnap]
        exact Log.compact_splice hb ho (h.stored hsnap).2
  have hlast : (if l.unstable.snapshot = none then l.log.compact i t else l.log).last =
      l.log.last := by
    split
    · rename_i hsnap
      have hbase : l.log.base = l.storeLog.base := by
        rw [log_of_none hsnap]
        rfl
      exact Log.last_compact (by omega) (by have := h.committed_le; omega)
    · rfl
  refine ⟨?_, hlog⟩
  exact {
    valid := hv
    entries := h.entries
    snapshot := h.snapshot
    stored := fun hn => by
      rw [hstore, Log.last_compact hb hi]
      exact ⟨ho, (h.stored hn).2⟩
    drained := fun hn he => by
      rw [hstore, Log.last_compact hb hi]
      exact h.drained hn he
    base_le := by
      rw [hlog]
      split
      · exact hc
      · exact h.base_le
    committed_le := by
      rw [hlog, hlast]
      exact h.committed_le
    persisted_lt := h.persisted_lt
    applied_le := h.applied_le }

/-- The snapshot is in the storage, and nothing else. -/
theorem WF.dropSnapshot (h : l.WF) {s : Snapshot} (hs : l.unstable.snapshot = some s)
    (hstore : l.storeLog = ⟨s.metadata.index, s.metadata.term, []⟩) :
    ({ l with unstable := { l.unstable with snapshot := none } } : RaftLog σ).WF ∧
      ({ l with unstable := { l.unstable with snapshot := none } } : RaftLog σ).log = l.log := by
  have hoff := h.snapshot s hs
  have hlog : ({ l with unstable := { l.unstable with snapshot := none } } : RaftLog σ).log =
      l.log := by
    rw [log_of_none (l := { l with unstable := { l.unstable with snapshot := none } }) rfl,
      log_of_snapshot hs]
    show l.storeLog.splice l.unstable.offset l.unstable.entries = _
    rw [hstore]
    unfold Log.splice
    simp
  refine ⟨?_, hlog⟩
  exact {
    valid := h.valid
    entries := h.entries
    snapshot := fun s hs => by cases hs
    stored := fun _ => by
      show l.storeLog.base < l.unstable.offset ∧ l.unstable.offset ≤ l.storeLog.last + 1
      rw [hstore, hoff]
      exact ⟨Nat.lt_succ_self _, le_rfl⟩
    drained := fun _ _ => by
      show l.unstable.offset = l.storeLog.last + 1
      rw [hstore, hoff]
      rfl
    base_le := hlog ▸ h.base_le
    committed_le := hlog ▸ h.committed_le
    persisted_lt := h.persisted_lt
    applied_le := h.applied_le }

/-- The storage holds a log that ends where the buffer ends. -/
theorem WF.dropEntries (h : l.WF) (hb : l.storeLog.base = l.log.base)
    (hl : l.storeLog.last = l.log.last) :
    ({ l with unstable := { offset := l.log.last + 1 } } : RaftLog σ).WF ∧
      ({ l with unstable := { offset := l.log.last + 1 } } : RaftLog σ).log = l.storeLog := by
  have hlog : ({ l with unstable := { offset := l.log.last + 1 } } : RaftLog σ).log =
      l.storeLog := by
    rw [log_of_none (l := { l with unstable := { offset := l.log.last + 1 } }) rfl]
    show l.storeLog.splice (l.log.last + 1) [] = _
    rw [← hl, Log.splice_last]
  have hbase : l.storeLog.base ≤ l.storeLog.last := Log.base_le_last
  refine ⟨?_, hlog⟩
  exact {
    valid := h.valid
    entries := trivial
    snapshot := fun s hs => by cases hs
    stored := fun _ => by
      show l.storeLog.base < l.log.last + 1 ∧ l.log.last + 1 ≤ l.storeLog.last + 1
      omega
    drained := fun _ _ => by
      show l.log.last + 1 = l.storeLog.last + 1
      rw [hl]
    base_le := by
      rw [hlog, hb]
      exact h.base_le
    committed_le := by
      rw [hlog, hl]
      exact h.committed_le
    persisted_lt := by
      have h1 := h.persisted_lt
      have h2 := h.last_eq
      show l.persisted < l.log.last + 1
      omega
    applied_le := h.applied_le }

end writes

end RaftLog

/-! ### Merged logs -/

namespace Log.Merged

variable {l l' : Log} {committed idx : ℕ} {ents : List Entry}

/-- Nothing changes up to the position where the entries start. -/
theorem entryAt_le (h : l.Merged committed ents l') (hcons : Consecutive (idx + 1) ents) {i : ℕ}
    (hi : i ≤ idx) : l'.entryAt i = l.entryAt i := by
  cases h with
  | same _ => rfl
  | spliced pre e post hents _ _ _ hl =>
      subst hents
      have he := (RaftLog.consecutive_append_iff.mp hcons).2.1
      exact entryAt_splice_lt hl (by omega)

theorem base_eq (h : l.Merged committed ents l') : l'.base = l.base := by
  cases h <;> rfl

theorem baseTerm_eq (h : l.Merged committed ents l') : l'.baseTerm = l.baseTerm := by
  cases h <;> rfl

theorem termAt_le (h : l.Merged committed ents l') (hcons : Consecutive (idx + 1) ents) {i : ℕ}
    (hi : i ≤ idx) : l'.termAt i = l.termAt i := by
  unfold termAt
  rw [h.entryAt_le hcons hi, h.base_eq, h.baseTerm_eq]

/-- The merged log holds the entries. -/
theorem holds (h : l.Merged committed ents l') (hb : l.base ≤ committed)
    (hcons : Consecutive (idx + 1) ents) : ∀ e ∈ ents, l'.termAt e.index = some e.term := by
  cases h with
  | same h => exact h
  | spliced pre e post hents hpre hne hc hl =>
      subst hents
      obtain ⟨hcp, hce⟩ := RaftLog.consecutive_append_iff.mp hcons
      intro a ha
      rcases List.mem_append.mp ha with ha | ha
      · obtain ⟨k, hk, rfl⟩ := List.getElem_of_mem ha
        have hk' : pre[k].index = idx + 1 + k := consecutive_iff.mp hcp k hk
        rw [termAt_splice_lt hl (by have := hce.1; omega)]
        exact hpre _ ha
      · obtain ⟨k, hk, rfl⟩ := List.getElem_of_mem ha
        have hk' : (e :: post)[k].index = idx + 1 + pre.length + k := consecutive_iff.mp hce k hk
        have he := hce.1
        refine termAt_of_entryAt ?_
        rw [entryAt_splice_ge (by omega) hl (by omega), List.getElem?_eq_some_iff]
        have hidx : (e :: post)[k].index - e.index = k := by omega
        exact ⟨by omega, by simp only [hidx]⟩

end Log.Merged

end Raftz
