import Raftz.LogView

/-! # Reads of the combined log

`RaftLog` over the memory storage, driven by its own operations and by the
writes of the layer above it.  A `Session` is the combined log together with
what its driver has written to the storage; a `Step` is one call.  An entry
batch may be declared stable once the storage has appended the very entries of
the buffer, a snapshot once the storage has installed it.

The buffer may overlap a stored log that has been compacted, and the stored log
may hold entries that the buffer has replaced.  Nevertheless every read shows
one contiguous log (`Shows`), whatever the boundary: the size limit, applied
first to the stored part of a range and then to the whole, cuts the range where
it would cut it as a whole. -/

open Base

namespace Raftz

/-! ### The size limit on a range read in two parts -/

theorem limitRest_append_of_cut {cap total : ℕ} {es fs : List Entry}
    (h : (limitRest cap total es).length < es.length) :
    limitRest cap total (es ++ fs) = limitRest cap total es := by
  induction es generalizing total with
  | nil => simp [limitRest] at h
  | cons e es ih =>
      rw [List.cons_append]
      unfold limitRest at h ⊢
      split
      · rfl
      · rename_i hfit
        rw [if_neg hfit, List.length_cons, List.length_cons] at h
        rw [ih (by omega)]

/-- What does not fit in the first part is not made up for by the second. -/
theorem limitSize_append_of_cut {max : Option ℕ} {es fs : List Entry}
    (h : (limitSize es max).length < es.length) : limitSize (es ++ fs) max = limitSize es max := by
  match es, max with
  | [], _ => simp [limitSize] at h
  | [e], _ => simp [limitSize] at h
  | e :: e' :: es, none => simp [limitSize] at h
  | e :: e' :: es, some cap =>
      simp only [List.cons_append, limitSize] at h ⊢
      split
      · rename_i hcap
        rw [if_pos hcap] at h
        exact absurd h (lt_irrefl _)
      · rename_i hcap
        rw [if_neg hcap, List.length_cons, List.length_cons] at h
        rw [← List.cons_append, limitRest_append_of_cut (by simpa using h)]

theorem MemoryStorage.readEntries_eq {s : MemoryStorage} (h : s.log.Contiguous)
    (ha : s.triggerLogUnavailable = false) {lo hi : ℕ} {m : Option ℕ} {c : GetEntriesContext}
    (hlo : s.log.base < lo) (hhi : hi ≤ s.log.last + 1) :
    s.readEntries lo hi m c = .ok (limitSize (s.log.slice lo hi) m) := by
  unfold readEntries
  rw [firstIndex_eq_base h, lastIndex_eq_last h, if_neg (by omega), if_neg (by omega),
    if_neg (by simp [ha])]
  unfold Log.slice
  rw [Nat.sub_sub]
  rfl

namespace RaftLog

/-- Every read shows the log `a`. -/
structure Shows (l : RaftLog MemoryStorage) (a : Log) : Prop where
  contiguous : a.Contiguous
  firstIndex : l.firstIndex = a.base + 1
  lastIndex : l.lastIndex = a.last
  term (i : ℕ) : l.term i = .ok (a.term i)
  slice (lo hi : ℕ) (m : Option ℕ) (c : GetEntriesContext) : lo ≤ hi → a.base < lo →
    hi ≤ a.last + 1 → RaftLog.slice lo hi m c l = .ok (limitSize (a.slice lo hi) m) l

section slice
variable {l : RaftLog MemoryStorage} {a : Log}

theorem mustCheckOutOfBounds_eq (hf : l.firstIndex = a.base + 1) (hl : l.lastIndex = a.last)
    {lo hi : ℕ} (hlh : lo ≤ hi) (hlo : a.base < lo) (hhi : hi ≤ a.last + 1) :
    l.mustCheckOutOfBounds lo hi = .ok () := by
  unfold mustCheckOutOfBounds
  rw [hf, hl, if_neg (by omega), if_neg (by omega), if_neg (by omega)]

theorem storeEntries_eq (hv : l.store.log.Contiguous)
    (ha : l.store.triggerLogUnavailable = false) {lo hi : ℕ} {m : Option ℕ} {c : GetEntriesContext}
    (hlo : l.store.log.base < lo) (hhi : hi ≤ l.store.log.last + 1) :
    storeEntries lo hi m c l = .ok (limitSize (l.store.log.slice lo hi) m) l := by
  have hread : Act.query (fun l : RaftLog MemoryStorage => Storage.entries l.store lo hi m c) l =
      .ok (limitSize (l.store.log.slice lo hi) m) l :=
    Act.query_run (MemoryStorage.readEntries_eq hv ha hlo hhi)
  exact Act.catchErr_run hread

theorem unstable_slice_eq {u : Unstable} {lo hi : ℕ} (hlh : lo ≤ hi) (hlo : u.offset ≤ lo)
    (hhi : hi ≤ u.offset + u.entries.length) :
    u.slice lo hi = some ((u.entries.drop (lo - u.offset)).take (hi - lo)) :=
  if_pos ⟨hlh, hlo, hhi⟩

/-- A range is read as a whole: the part below the offset from the storage, the rest from the
buffer, cut at the size limit. -/
theorem slice_run (hf : l.firstIndex = a.base + 1) (hl : l.lastIndex = a.last)
    (hend : a.last + 1 = l.unstable.offset + l.unstable.entries.length)
    (hbuf : ∀ lo hi, a.base < lo → l.unstable.offset ≤ lo →
      a.slice lo hi = (l.unstable.entries.drop (lo - l.unstable.offset)).take (hi - lo))
    (hsto : ∀ lo hi m c, a.base < lo → lo < l.unstable.offset → lo ≤ hi → hi ≤ l.unstable.offset →
      storeEntries lo hi m c l = .ok (limitSize (a.slice lo hi) m) l)
    {lo hi : ℕ} {m : Option ℕ} {c : GetEntriesContext} (hlh : lo ≤ hi) (hlo : a.base < lo)
    (hhi : hi ≤ a.last + 1) : RaftLog.slice lo hi m c l = .ok (limitSize (a.slice lo hi) m) l := by
  unfold RaftLog.slice
  have hcheck : Act.query (fun l : RaftLog MemoryStorage => l.mustCheckOutOfBounds lo hi) l =
      .ok () l := Act.query_run (mustCheckOutOfBounds_eq hf hl hlh hlo hhi)
  rw [Act.bind_run hcheck]
  by_cases heq : lo = hi
  · subst heq
    rw [if_pos rfl]
    have : a.slice lo lo = [] := by simp [Log.slice]
    rw [this]
    rfl
  rw [if_neg heq, Act.bind_run (Act.get_run l)]
  by_cases hlow : lo < l.unstable.offset
  · rw [if_pos hlow, Act.bind_run (hsto lo (min hi l.unstable.offset) m c hlo hlow (by omega)
      (by omega))]
    have hsplit : a.slice lo hi = a.slice lo (min hi l.unstable.offset) ++
        a.slice (min hi l.unstable.offset) hi :=
      slice_append hlo (by omega) (by omega) (by omega)
    have hlen : (a.slice lo (min hi l.unstable.offset)).length = min hi l.unstable.offset - lo :=
      Log.length_slice hlo (by omega)
    by_cases hcut : (limitSize (a.slice lo (min hi l.unstable.offset)) m).length <
        min hi l.unstable.offset - lo
    · rw [if_pos hcut, hsplit, limitSize_append_of_cut (by omega)]
      rfl
    · -- the whole stored part fits
      have hall : limitSize (a.slice lo (min hi l.unstable.offset)) m =
          a.slice lo (min hi l.unstable.offset) :=
        (limitSize_isPrefix _ _).eq_of_length_le (by omega)
      rw [if_neg hcut, hall]
      by_cases hgt : l.unstable.offset < hi
      · rw [if_pos hgt, unstable_slice_eq (by omega) (by omega) (by omega)]
        have hmin : min hi l.unstable.offset = l.unstable.offset := by omega
        have hmax : max lo l.unstable.offset = l.unstable.offset := by omega
        rw [hmin] at hsplit
        rw [hmin, hmax, ← hbuf _ _ (by omega) le_rfl, hsplit]
        rfl
      · have hmin : min hi l.unstable.offset = hi := by omega
        rw [if_neg hgt, hmin]
        rfl
  · have hmax : max lo l.unstable.offset = lo := by omega
    rw [if_neg hlow, hmax, unstable_slice_eq hlh (by omega) (by omega),
      ← hbuf lo hi hlo (by omega)]
    rfl

end slice

/-- With the buffer above the base of the stored log, the reads show the spliced log. -/
theorem WF.shows {l : RaftLog MemoryStorage} (h : l.WF)
    (ha : l.store.triggerLogUnavailable = false) : l.Shows l.log where
  contiguous := h.contiguous
  firstIndex := h.firstIndex_eq
  lastIndex := h.lastIndex_eq
  term := h.term_eq
  slice lo hi m c hlh hlo hhi := by
    refine slice_run h.firstIndex_eq h.lastIndex_eq h.last_eq (fun _ _ _ h' => h.slice_buffer h') ?_
      hlh hlo hhi
    intro lo hi m c hlo hlt hlh hle
    have hs : l.unstable.snapshot = none := by
      cases hs : l.unstable.snapshot with
      | none => rfl
      | some s =>
          have := h.snapshot s hs
          rw [log_of_snapshot hs] at hlo
          dsimp only at hlo
          omega
    have hstore : l.storeLog = l.store.log := rfl
    have hb : l.log.base = l.store.log.base := by
      rw [log_of_none hs]
      rfl
    have hlast := (h.stored hs).2
    rw [hstore] at hlast
    rw [h.slice_stored hs hlo hlh hle, hstore]
    exact storeEntries_eq h.valid ha (by omega) (by omega)

/-! ### Driven by calls -/

/-- A log with what its driver has written: the entries that the storage appended last, and whether
it has installed the pending snapshot. -/
structure Session where
  log : RaftLog MemoryStorage
  written : List Entry := []
  installed : Bool := false

/-- The log a call leaves behind unless it aborts. -/
def leaves {α : Type} (x : Act Err (RaftLog MemoryStorage) α) (l : RaftLog MemoryStorage) :
    Option (RaftLog MemoryStorage) :=
  match x l with
  | .ok _ l' => some l'
  | .err _ l' => some l'
  | .panic => none

/-- One call on the log or on its storage. -/
inductive Step : Session → Session → Prop
  | append (ents : List Entry) {s : Session} {l : RaftLog MemoryStorage}
      (h : leaves (append ents) s.log = some l) : Step s { s with log := l }
  | maybeAppend (idx term committed : ℕ) (ents : List Entry) {s : Session} {l : RaftLog MemoryStorage}
      (h : leaves (maybeAppend idx term committed ents) s.log = some l) : Step s { s with log := l }
  | commitTo (i : ℕ) {s : Session} {l : RaftLog MemoryStorage}
      (h : leaves (commitTo i) s.log = some l) : Step s { s with log := l }
  | maybeCommit (i term : ℕ) {s : Session} {l : RaftLog MemoryStorage}
      (h : leaves (maybeCommit i term) s.log = some l) : Step s { s with log := l }
  | appliedTo (i : ℕ) {s : Session} {l : RaftLog MemoryStorage}
      (h : leaves (appliedTo i) s.log = some l) : Step s { s with log := l }
  | restore (snap : Snapshot) {s : Session} {l : RaftLog MemoryStorage}
      (h : RaftLog.restore snap s.log = .ok () l) : Step s { s with log := l, installed := false }
  /-- The storage appends the entries of the buffer. -/
  | write {s : Session} {m : MemoryStorage}
      (h : s.log.store.mayAppend s.log.unstable.entries = .ok m) :
      Step s { s with log := { s.log with store := m }, written := s.log.unstable.entries }
  /-- The storage installs the pending snapshot. -/
  | install {s : Session} {snap : Snapshot} {m : MemoryStorage}
      (hs : s.log.unstable.snapshot = some snap) (h : s.log.store.applySnapshot snap = .ok m) :
      Step s { log := { s.log with store := m }, written := [], installed := true }
  | stableEntries (i term : ℕ) {s : Session} {l : RaftLog MemoryStorage}
      (hw : s.written = s.log.unstable.entries)
      (h : RaftLog.stableEntries i term s.log = .ok () l) : Step s { s with log := l }
  | stableSnapshot (i : ℕ) {s : Session} {l : RaftLog MemoryStorage} (hw : s.installed = true)
      (h : RaftLog.stableSnapshot i s.log = .ok () l) : Step s { s with log := l, installed := false }
  /-- The storage is compacted to a snapshot of the state machine. -/
  | localSnapshot {s : Session} {snap : Snapshot} {m : MemoryStorage}
      (ha : snap.metadata.index ≤ s.log.applied)
      (h : s.log.store.applyLocalSnapshot snap = .ok m) :
      Step s { s with log := { s.log with store := m } }

/-- The buffer continues the stored log, unless a snapshot is pending that is not installed. -/
def Session.Stored (s : Session) : Prop := s.log.unstable.snapshot = none ∨ s.installed = true

/-- Above its base, the stored log ends with the entries. -/
def EndsWith (a : Log) (ents : List Entry) : Prop :=
  ∀ e ∈ ents.head?, a.last + 1 = e.index + ents.length ∧
    ∀ i, e.index ≤ i → a.base < i → a.entryAt i = ents[i - e.index]?

/-- Buffer, storage and cursors fit together. -/
structure Session.Inv (s : Session) : Prop where
  valid : s.log.store.log.Contiguous
  available : s.log.store.triggerLogUnavailable = false
  entries : Log.Consecutive s.log.unstable.offset s.log.unstable.entries
  snapshot : ∀ snap, s.log.unstable.snapshot = some snap →
    s.log.unstable.offset = snap.metadata.index + 1 ∧ snap.metadata.index ≤ s.log.committed
  stored : s.Stored → s.log.store.log.base ≤ s.log.committed ∧
    s.log.unstable.offset ≤ s.log.store.log.last + 1 ∧
    (s.log.unstable.entries = [] → s.log.unstable.offset = s.log.store.log.last + 1)
  committed_lt : s.log.committed < s.log.unstable.offset + s.log.unstable.entries.length
  persisted_lt : s.log.persisted < s.log.unstable.offset
  applied_le : s.log.applied ≤ s.log.committed
  written : EndsWith s.log.store.log s.written

namespace Session

variable {s : Session}

/-! ### What the reads show -/

theorem Inv.lastIndex_eq (h : s.Inv) :
    s.log.lastIndex + 1 = s.log.unstable.offset + s.log.unstable.entries.length := by
  unfold RaftLog.lastIndex Unstable.maybeLastIndex
  cases he : s.log.unstable.entries with
  | cons e es =>
      simp only [List.isEmpty_cons, Bool.false_eq_true, if_false, List.length_cons]
      omega
  | nil =>
      cases hs : s.log.unstable.snapshot with
      | some snap =>
          have := (h.snapshot snap hs).1
          simp only [List.isEmpty_nil, if_true, Option.map_some, List.length_nil]
          omega
      | none =>
          have hoff := (h.stored (Or.inl hs)).2.2 he
          simp only [List.isEmpty_nil, if_true, Option.map_none, List.length_nil]
          show s.log.store.lastIndex + 1 = _
          rw [MemoryStorage.lastIndex_eq_last h.valid]
          omega

/-- With the buffer above the base of the stored log, or a snapshot in front of it. -/
theorem Inv.wf (h : s.Inv) (hb : s.log.unstable.snapshot = none →
    s.log.store.log.base < s.log.unstable.offset) : s.log.WF := by
  have hlt := h.committed_lt
  cases hs : s.log.unstable.snapshot with
  | some snap =>
      obtain ⟨hoff, hc⟩ := h.snapshot snap hs
      have hlog : s.log.log = ⟨snap.metadata.index, snap.metadata.term, s.log.unstable.entries⟩ :=
        log_of_snapshot hs
      exact {
        valid := h.valid
        entries := h.entries
        snapshot := fun s' hs' => (h.snapshot s' hs').1
        stored := fun hn => by rw [hs] at hn; cases hn
        drained := fun hn => by rw [hs] at hn; cases hn
        base_le := by
          rw [hlog]
          exact hc
        committed_le := by
          rw [hlog]
          show s.log.committed ≤ snap.metadata.index + s.log.unstable.entries.length
          omega
        persisted_lt := h.persisted_lt
        applied_le := h.applied_le }
  | none =>
      obtain ⟨hbase, hlast, hdr⟩ := h.stored (Or.inl hs)
      have hlog : s.log.log = s.log.store.log.splice s.log.unstable.offset s.log.unstable.entries :=
        log_of_none hs
      exact {
        valid := h.valid
        entries := h.entries
        snapshot := fun s' hs' => (h.snapshot s' hs').1
        stored := fun _ => ⟨hb hs, hlast⟩
        drained := fun _ he => hdr he
        base_le := by
          rw [hlog]
          exact hbase
        committed_le := by
          rw [hlog, Log.last_splice (hb hs) hlast]
          omega
        persisted_lt := h.persisted_lt
        applied_le := h.applied_le }

/-- The log of a buffer that reaches below the base of the stored log. -/
def buffered (l : RaftLog MemoryStorage) : Log :=
  ⟨l.store.log.base, ((l.unstable.entries[l.store.log.base - l.unstable.offset]?).getD {}).term,
    l.unstable.entries.drop (l.store.log.base + 1 - l.unstable.offset)⟩

section buffered

/-- The buffer reaches below the base of the stored log. -/
structure Inv.Overlaps (s : Session) : Prop where
  inv : s.Inv
  snapshot : s.log.unstable.snapshot = none
  offset_le : s.log.unstable.offset ≤ s.log.store.log.base

namespace Inv.Overlaps

variable (h : Overlaps s)

include h

theorem last_eq :
    (buffered s.log).last + 1 = s.log.unstable.offset + s.log.unstable.entries.length := by
  have hbase := (h.inv.stored (Or.inl h.snapshot)).1
  have hlt := h.inv.committed_lt
  have hoff := h.offset_le
  unfold buffered Log.last
  simp only [List.length_drop]
  omega

theorem contiguous : (buffered s.log).Contiguous := by
  have hoff := h.offset_le
  have hcons := h.inv.entries.drop (s.log.store.log.base + 1 - s.log.unstable.offset)
  have hi : s.log.unstable.offset + (s.log.store.log.base + 1 - s.log.unstable.offset) =
      s.log.store.log.base + 1 := by omega
  rwa [hi] at hcons

theorem firstIndex_eq : s.log.firstIndex = (buffered s.log).base + 1 := by
  unfold RaftLog.firstIndex Unstable.maybeFirstIndex
  rw [h.snapshot]
  exact MemoryStorage.firstIndex_eq_base h.inv.valid

theorem lastIndex_eq : s.log.lastIndex = (buffered s.log).last := by
  have h1 := h.inv.lastIndex_eq
  have h2 := h.last_eq
  omega

theorem entryAt_eq {i : ℕ} (hi : (buffered s.log).base < i) :
    (buffered s.log).entryAt i = s.log.unstable.entries[i - s.log.unstable.offset]? := by
  have hoff := h.offset_le
  have hb : s.log.store.log.base < i := hi
  rw [Log.entryAt_of_gt hi]
  unfold buffered
  dsimp only
  rw [List.getElem?_drop]
  congr 1
  omega

theorem slice_eq {lo hi : ℕ} (hlo : (buffered s.log).base < lo) :
    (buffered s.log).slice lo hi =
      (s.log.unstable.entries.drop (lo - s.log.unstable.offset)).take (hi - lo) := by
  have hoff := h.offset_le
  have hb : s.log.store.log.base < lo := hlo
  refine List.ext_getElem? fun k => ?_
  rw [Log.slice_prefix_getElem? hlo, List.getElem?_take]
  split
  · rw [h.entryAt_eq (by omega), List.getElem?_drop]
    congr 1
    omega
  · rfl

/-- The buffer knows every term, also the one at the base. -/
theorem maybeTerm_eq {i : ℕ} (h1 : (buffered s.log).base ≤ i) (h2 : i ≤ (buffered s.log).last) :
    s.log.unstable.maybeTerm i = some ((buffered s.log).term i) := by
  have hoff := h.offset_le
  have hlast := h.last_eq
  have hb : s.log.store.log.base ≤ i := h1
  have hk : i - s.log.unstable.offset < s.log.unstable.entries.length := by omega
  have hne : s.log.unstable.entries.isEmpty = false := by
    rw [List.isEmpty_eq_false_iff, ← List.length_pos_iff]
    omega
  unfold Unstable.maybeTerm Unstable.maybeLastIndex
  rw [if_neg (by omega), hne]
  simp only [Bool.false_eq_true, if_false]
  rw [if_neg (by omega), List.getElem?_eq_getElem hk, Option.map_some, Option.some_inj, eq_comm]
  rcases Nat.lt_or_ge (buffered s.log).base i with hi | hi
  · have he := h.entryAt_eq hi
    rw [List.getElem?_eq_getElem hk] at he
    exact Log.term_of_termAt (Log.termAt_of_entryAt he)
  · have hi : i = (buffered s.log).base := le_antisymm hi h1
    subst hi
    rw [Log.term_of_termAt Log.termAt_base]
    show ((s.log.unstable.entries[(buffered s.log).base - s.log.unstable.offset]?).getD {}).term = _
    rw [List.getElem?_eq_getElem hk]
    rfl

/-- The reads show the buffer. -/
theorem shows : s.log.Shows (buffered s.log) where
  contiguous := h.contiguous
  firstIndex := h.firstIndex_eq
  lastIndex := h.lastIndex_eq
  term i := by
    unfold RaftLog.term
    rw [h.firstIndex_eq, h.lastIndex_eq, wrapPred_succ]
    split
    · rename_i hout
      rw [Log.term_of_not_mem hout]
    · rename_i hin
      rw [h.maybeTerm_eq (by omega) (by omega)]
  slice lo hi m c hlh hlo hhi := by
    refine slice_run h.firstIndex_eq h.lastIndex_eq h.last_eq (fun _ _ hlo _ => h.slice_eq hlo) ?_
      hlh hlo hhi
    intro lo hi m c hlo hlt
    have hoff := h.offset_le
    have hb : s.log.store.log.base < lo := hlo
    omega

end Inv.Overlaps

end buffered

/-- In every such state the reads show one log. -/
theorem Inv.shows (h : s.Inv) : ∃ a, s.log.Shows a := by
  by_cases hb : s.log.unstable.snapshot = none → s.log.store.log.base < s.log.unstable.offset
  · exact ⟨_, (h.wf hb).shows h.available⟩
  · obtain ⟨hs, hb⟩ := Classical.not_imp.mp hb
    exact ⟨_, Inv.Overlaps.shows ⟨h, hs, Nat.le_of_not_lt hb⟩⟩

/-! ### What the calls keep -/

theorem validateAppend_bounds {l : RaftLog MemoryStorage} {e : Entry} {es : List Entry}
    (hv : l.validateAppend e es = .ok ()) :
    l.committed < e.index ∧ e.index ≤ l.lastIndex + 1 ∧ Log.Consecutive e.index (e :: es) := by
  have htail : ∀ {c : Bool}, (if c = true then Except.ok () else Except.error Err.fatal) =
      Except.ok () → c = true := by
    intro c hc
    by_contra hn
    rw [if_neg hn] at hc
    cases hc
  unfold validateAppend at hv
  split at hv
  · cases hv
  split at hv
  · cases hv
  split at hv
  · cases hv
  split at hv
  · cases hv
  refine ⟨by omega, by omega, rfl, (validTail_iff.mp ?_).1⟩
  split at hv
  · exact htail hv
  · cases hv
  · split at hv
    · cases hv
    · exact htail hv

theorem Inv.wp_append (h : s.Inv) (ents : List Entry) :
    (RaftLog.append ents).wp (fun _ l => ({ s with log := l } : Session).Inv)
      (fun _ l => ({ s with log := l } : Session).Inv) s.log := by
  cases ents with
  | nil => exact h
  | cons e es =>
      unfold RaftLog.append
      rw [Act.wp_bind, Act.wp_query]
      refine ⟨fun _ hv => ?_, fun _ _ => h⟩
      obtain ⟨hc, hl, hcons⟩ := validateAppend_bounds hv
      rw [h.lastIndex_eq] at hl
      rw [Act.wp_bind, Act.wp_get, Act.wp_bind, Act.wp_orPanic]
      intro u hu
      rw [Act.wp_bind, Act.wp_modify, Act.wp_gets]
      obtain ⟨hs, hoff, hents, -⟩ := truncateAndAppend_eq hu
      have hlen : u.offset + u.entries.length = e.index + (es.length + 1) := by
        rw [hoff, hents, List.length_append, List.length_take, List.length_cons]
        omega
      exact {
        valid := h.valid
        available := h.available
        entries := consecutive_truncateAndAppend h.entries hu hcons
        snapshot := by
          intro snap hsnap
          rw [show u.snapshot = some snap from hsnap] at hs
          obtain ⟨h1, h2⟩ := h.snapshot snap hs.symm
          show u.offset = _ ∧ _
          exact ⟨by omega, h2⟩
        stored := by
          intro hst
          have hst : u.snapshot = none ∨ s.installed = true := hst
          rw [hs] at hst
          obtain ⟨h1, h2, -⟩ := h.stored hst
          refine ⟨h1, ?_, fun hnil => ?_⟩
          · show u.offset ≤ s.log.store.log.last + 1
            omega
          · rw [show u.entries = [] from hnil] at hents
            simp at hents
        committed_lt := by
          show s.log.committed < u.offset + u.entries.length
          omega
        persisted_lt := by
          have := h.persisted_lt
          show min s.log.persisted (e.index - 1) < u.offset
          omega
        applied_le := h.applied_le
        written := h.written }

theorem Inv.wp_commitTo (h : s.Inv) (i : ℕ) :
    (RaftLog.commitTo i).wp (fun _ l => ({ s with log := l } : Session).Inv)
      (fun _ l => ({ s with log := l } : Session).Inv) s.log := by
  unfold RaftLog.commitTo
  rw [Act.wp_bind, Act.wp_get, Act.wp_ite]
  refine ⟨fun _ => h, fun _ => ?_⟩
  rw [Act.wp_ite]
  refine ⟨fun _ => h, fun hgt => ?_⟩
  rw [Act.wp_ite]
  refine ⟨fun _ => h, fun hle => ?_⟩
  have hlast := h.lastIndex_eq
  have hgt : s.log.committed ≤ i := by omega
  exact { h with
    snapshot := fun snap hs => ⟨(h.snapshot snap hs).1, (h.snapshot snap hs).2.trans hgt⟩
    stored := fun hst => ⟨(h.stored hst).1.trans hgt, (h.stored hst).2⟩
    committed_lt := by
      show i < _
      dsimp only
      omega
    applied_le := h.applied_le.trans hgt }

theorem Inv.wp_maybeCommit (h : s.Inv) (i t : ℕ) :
    (RaftLog.maybeCommit i t).wp (fun _ l => ({ s with log := l } : Session).Inv)
      (fun _ l => ({ s with log := l } : Session).Inv) s.log := by
  unfold RaftLog.maybeCommit
  rw [Act.wp_bind, Act.wp_get, Act.wp_ite]
  refine ⟨fun _ => ?_, fun _ => h⟩
  rw [Act.wp_bind, Act.wp_query]
  refine ⟨fun _ _ => ?_, fun _ _ => h⟩
  rw [Act.wp_ite]
  refine ⟨fun _ => ?_, fun _ => h⟩
  rw [Act.wp_bind]
  exact Act.wp_mono (h.wp_commitTo i) (fun _ _ h => h) fun _ _ h => h

theorem Inv.wp_maybeAppend (h : s.Inv) (idx term committed : ℕ) (ents : List Entry) :
    (RaftLog.maybeAppend idx term committed ents).wp
      (fun _ l => ({ s with log := l } : Session).Inv)
      (fun _ l => ({ s with log := l } : Session).Inv) s.log := by
  unfold RaftLog.maybeAppend
  rw [Act.wp_bind, Act.wp_query]
  refine ⟨fun _ _ => ?_, fun _ _ => h⟩
  rw [Act.wp_ite]
  refine ⟨fun _ => h, fun _ => ?_⟩
  rw [Act.wp_ite]
  refine ⟨fun _ => h, fun _ => ?_⟩
  rw [Act.wp_ite]
  refine ⟨fun _ => h, fun _ => ?_⟩
  rw [Act.wp_ite]
  refine ⟨fun _ => h, fun _ => ?_⟩
  rw [Act.wp_bind, Act.wp_query]
  refine ⟨fun c _ => ?_, fun _ _ => h⟩
  have happend : (appendConflict idx c ents).wp (fun _ l => ({ s with log := l } : Session).Inv)
      (fun _ l => ({ s with log := l } : Session).Inv) s.log := by
    unfold appendConflict
    rw [Act.wp_bind, Act.wp_get, Act.wp_ite]
    refine ⟨fun _ => h, fun _ => ?_⟩
    rw [Act.wp_ite]
    refine ⟨fun _ => h, fun _ => ?_⟩
    rw [Act.wp_bind]
    exact Act.wp_mono (h.wp_append _) (fun _ _ h => h) fun _ _ h => h
  rw [Act.wp_bind]
  refine Act.wp_mono happend ?_ fun _ _ h => h
  intro _ l hl
  rw [Act.wp_bind]
  exact Act.wp_mono (hl.wp_commitTo _) (fun _ _ h => h) fun _ _ h => h

theorem Inv.wp_appliedTo (h : s.Inv) (i : ℕ) :
    (RaftLog.appliedTo i).wp (fun _ l => ({ s with log := l } : Session).Inv)
      (fun _ l => ({ s with log := l } : Session).Inv) s.log := by
  refine Act.wp_mono (RaftLog.wp_appliedTo i) ?_ ?_
  · rintro _ l (⟨-, rfl⟩ | ⟨hle, -, rfl⟩)
    · exact h
    · exact { h with applied_le := hle }
  · rintro _ l rfl
    exact h

/-- A pending snapshot replaces the buffer. -/
theorem Inv.restore (h : s.Inv) {snap : Snapshot} {l : RaftLog MemoryStorage}
    (hr : RaftLog.restore snap s.log = .ok () l) :
    ({ s with log := l, installed := false } : Session).Inv := by
  have hwp : (RaftLog.restore snap).wp (fun _ l => s.log.committed ≤ snap.metadata.index ∧
      l = { s.log with
        unstable := s.log.unstable.restore snap
        persisted := min s.log.persisted s.log.committed
        committed := snap.metadata.index }) (fun _ _ => True) s.log := by
    unfold RaftLog.restore
    rw [Act.wp_bind, Act.wp_get, Act.wp_ite]
    refine ⟨fun _ => trivial, fun _ => ?_⟩
    rw [Act.wp_ite]
    exact ⟨fun _ => trivial, fun hge => ⟨by omega, rfl⟩⟩
  obtain ⟨hge, rfl⟩ := Act.wp_ok hwp hr
  exact {
    valid := h.valid
    available := h.available
    entries := trivial
    snapshot := by
      rintro s' ⟨⟩
      exact ⟨rfl, le_rfl⟩
    stored := by rintro (hn | hn) <;> cases hn
    committed_lt := Nat.lt_succ_self _
    persisted_lt := by
      show min s.log.persisted s.log.committed < snap.metadata.index + 1
      omega
    applied_le := h.applied_le.trans hge
    written := h.written }

/-- The stored log ends with what has been appended to it. -/
theorem endsWith_splice {a : Log} {e : Entry} {es : List Entry} (h1 : a.base < e.index)
    (h2 : e.index ≤ a.last + 1) : EndsWith (a.splice e.index (e :: es)) (e :: es) := by
  intro e' he'
  cases he'
  refine ⟨?_, fun i hi _ => Log.entryAt_splice_ge h1 h2 hi⟩
  rw [Log.last_splice h1 h2]
  omega

theorem endsWith_compact {a : Log} {ents : List Entry} {i t : ℕ} (h : EndsWith a ents)
    (h1 : a.base ≤ i) (h2 : i ≤ a.last) : EndsWith (a.compact i t) ents := by
  intro e he
  obtain ⟨hlast, hat⟩ := h e he
  refine ⟨by rw [Log.last_compact h1 h2, hlast], fun j hj hb => ?_⟩
  have hb : i < j := hb
  rw [Log.entryAt_compact h1 hb]
  exact hat j hj (by omega)

theorem Inv.write (h : s.Inv) {m : MemoryStorage}
    (hw : s.log.store.mayAppend s.log.unstable.entries = .ok m) :
    ({ s with log := { s.log with store := m }, written := s.log.unstable.entries } : Session).Inv := by
  have hlt := h.committed_lt
  have hhead : ∀ e ∈ s.log.unstable.entries.head?, Log.Consecutive e.index s.log.unstable.entries ∧
      e.index = s.log.unstable.offset := by
    intro e he
    have hcons := h.entries
    cases hents : s.log.unstable.entries with
    | nil =>
        rw [hents] at he
        cases he
    | cons e' es =>
        rw [hents] at he hcons
        cases he
        have := hcons.1
        rw [this]
        exact ⟨hcons, rfl⟩
  obtain ⟨hv, hview, hpos⟩ := MemoryStorage.mayAppend_ok h.valid hw fun e he => (hhead e he).1
  have havail : m.triggerLogUnavailable = false := by
    have hkeep := h.available
    unfold MemoryStorage.mayAppend at hw
    split at hw
    · cases hw
      exact hkeep
    · split at hw
      · cases hw
      · split at hw
        · cases hw
        · cases hw
          exact hkeep
  cases hents : s.log.unstable.entries with
  | nil =>
      rw [hents] at hw
      cases hw
      exact { h with written := fun e he => by cases he }
  | cons e es =>
      rw [hents] at hhead hview hpos hlt
      obtain ⟨-, hidx⟩ := hhead e rfl
      obtain ⟨h1, h2⟩ := hpos e rfl
      have hlog : m.log = s.log.store.log.splice e.index (e :: es) := congrArg StoreView.log hview
      have hlast := @Log.last_splice _ _ (e :: es) h1 h2
      have hbase : m.log.base = s.log.store.log.base := by rw [hlog]; rfl
      rw [List.length_cons] at hlast hlt
      exact {
        valid := hv
        available := havail
        entries := h.entries
        snapshot := h.snapshot
        stored := fun hst => by
          obtain ⟨hb, -, -⟩ := h.stored hst
          refine ⟨?_, ?_, fun hnil => ?_⟩
          · show m.log.base ≤ s.log.committed
            rw [hbase]
            exact hb
          · show s.log.unstable.offset ≤ m.log.last + 1
            rw [hlog]
            omega
          · rw [show s.log.unstable.entries = [] from hnil] at hents
            cases hents
        committed_lt := h.committed_lt
        persisted_lt := h.persisted_lt
        applied_le := h.applied_le
        written := by
          show EndsWith m.log (e :: es)
          rw [hlog]
          exact endsWith_splice h1 h2 }

theorem Inv.install (h : s.Inv) {snap : Snapshot} {m : MemoryStorage}
    (hs : s.log.unstable.snapshot = some snap) (hm : s.log.store.applySnapshot snap = .ok m) :
    ({ log := { s.log with store := m }, written := [], installed := true } : Session).Inv := by
  obtain ⟨hoff, hc⟩ := h.snapshot snap hs
  unfold MemoryStorage.applySnapshot at hm
  obtain ⟨_, -, hm⟩ := bind_eq_ok.mp hm
  obtain ⟨_, -, hm⟩ := bind_eq_ok.mp hm
  cases hm
  exact {
    valid := trivial
    available := h.available
    entries := h.entries
    snapshot := h.snapshot
    stored := fun _ => by
      show snap.metadata.index ≤ s.log.committed ∧ s.log.unstable.offset ≤ snap.metadata.index + 1 ∧
        (s.log.unstable.entries = [] → s.log.unstable.offset = snap.metadata.index + 1)
      exact ⟨hc, by omega, fun _ => hoff⟩
    committed_lt := h.committed_lt
    persisted_lt := h.persisted_lt
    applied_le := h.applied_le
    written := fun e he => by cases he }

theorem Inv.localSnapshot (h : s.Inv) {snap : Snapshot} {m : MemoryStorage}
    (ha : snap.metadata.index ≤ s.log.applied)
    (hm : s.log.store.applyLocalSnapshot snap = .ok m) :
    ({ s with log := { s.log with store := m } } : Session).Inv := by
  obtain ⟨hv, hview, hb, hl⟩ := MemoryStorage.applyLocalSnapshot_eq h.valid hm
  have hlog : m.log = s.log.store.log.compact snap.metadata.index snap.metadata.term :=
    congrArg StoreView.log hview
  have hlast : m.log.last = s.log.store.log.last := by
    rw [hlog]
    exact Log.last_compact hb.le hl
  have havail : m.triggerLogUnavailable = false := by
    unfold MemoryStorage.applyLocalSnapshot at hm
    obtain ⟨_, -, hm⟩ := bind_eq_ok.mp hm
    obtain ⟨_, -, hm⟩ := bind_eq_ok.mp hm
    obtain ⟨s1, hc, hm⟩ := bind_eq_ok.mp hm
    obtain ⟨rfl, -⟩ := MemoryStorage.compact_ok h.valid hc hb
    cases hm
    exact h.available
  exact {
    valid := hv
    available := havail
    entries := h.entries
    snapshot := h.snapshot
    stored := fun hst => by
      have hbase : m.log.base = snap.metadata.index := by rw [hlog]; rfl
      have happ := h.applied_le
      show m.log.base ≤ s.log.committed ∧ s.log.unstable.offset ≤ m.log.last + 1 ∧
        (s.log.unstable.entries = [] → s.log.unstable.offset = m.log.last + 1)
      rw [hbase, hlast]
      exact ⟨by omega, (h.stored hst).2⟩
    committed_lt := h.committed_lt
    persisted_lt := h.persisted_lt
    applied_le := h.applied_le
    written := by
      show EndsWith m.log s.written
      rw [hlog]
      exact endsWith_compact h.written hb.le hl }

/-- The buffer is emptied when the storage ends with it. -/
theorem Inv.stableEntries (h : s.Inv) {i t : ℕ} {l : RaftLog MemoryStorage}
    (hw : s.written = s.log.unstable.entries) (hr : RaftLog.stableEntries i t s.log = .ok () l) :
    ({ s with log := l } : Session).Inv := by
  have hwp : (RaftLog.stableEntries i t).wp (fun _ l => s.log.unstable.snapshot = none ∧
      s.log.unstable.entries ≠ [] ∧ l = { s.log with
        unstable := { s.log.unstable with
          offset := s.log.unstable.offset + s.log.unstable.entries.length, entries := [] } })
      (fun _ _ => True) s.log := by
    unfold RaftLog.stableEntries
    rw [Act.wp_bind, Act.wp_get, Act.wp_bind, Act.wp_orPanic]
    intro u hu
    rw [Act.wp_modify]
    unfold Unstable.stableEntries at hu
    split at hu
    · rename_i tail hsnap htail
      split at hu
      · cases hu
        have hne : s.log.unstable.entries ≠ [] := by
          intro hnil
          rw [hnil] at htail
          cases htail
        have hpos := List.length_pos_iff.mpr hne
        have hidx : tail.index + 1 = s.log.unstable.offset + s.log.unstable.entries.length := by
          rw [List.getLast?_eq_getElem?, List.getElem?_eq_some_iff] at htail
          obtain ⟨hk, rfl⟩ := htail
          have hat : s.log.unstable.entries[s.log.unstable.entries.length - 1].index =
              s.log.unstable.offset + (s.log.unstable.entries.length - 1) :=
            Log.consecutive_iff.mp h.entries _ hk
          show s.log.unstable.entries[s.log.unstable.entries.length - 1].index + 1 = _
          omega
        rw [hidx]
        exact ⟨hsnap, hne, rfl⟩
      · cases hu
    · cases hu
  obtain ⟨hs, hne, rfl⟩ := Act.wp_ok hwp hr
  obtain ⟨e, es, hents⟩ := List.exists_cons_of_ne_nil hne
  have hidx : e.index = s.log.unstable.offset := by
    have hcons := h.entries
    rw [hents] at hcons
    exact hcons.1
  have hend := (h.written e (by rw [hw, hents]; rfl)).1
  rw [hw, hidx] at hend
  exact {
    valid := h.valid
    available := h.available
    entries := trivial
    snapshot := fun snap hsnap => by
      rw [show s.log.unstable.snapshot = some snap from hsnap] at hs
      cases hs
    stored := fun _ => ⟨(h.stored (Or.inl hs)).1, hend.ge, fun _ => hend.symm⟩
    committed_lt := h.committed_lt
    persisted_lt := h.persisted_lt.trans_le (Nat.le_add_right _ _)
    applied_le := h.applied_le
    written := h.written }

theorem Inv.stableSnapshot (h : s.Inv) {i : ℕ} {l : RaftLog MemoryStorage}
    (hi : s.installed = true) (hr : RaftLog.stableSnapshot i s.log = .ok () l) :
    ({ s with log := l, installed := false } : Session).Inv := by
  have hwp : (RaftLog.stableSnapshot i).wp (fun _ l => l = { s.log with
      unstable := { s.log.unstable with snapshot := none } }) (fun _ _ => True) s.log := by
    unfold RaftLog.stableSnapshot
    rw [Act.wp_bind, Act.wp_get, Act.wp_bind, Act.wp_orPanic]
    intro u hu
    rw [Act.wp_modify]
    unfold Unstable.stableSnapshot at hu
    split at hu
    · split at hu
      · cases hu
        rfl
      · cases hu
    · cases hu
  cases Act.wp_ok hwp hr
  exact {
    valid := h.valid
    available := h.available
    entries := h.entries
    snapshot := fun snap hsnap => by cases hsnap
    stored := fun _ => h.stored (Or.inr hi)
    committed_lt := h.committed_lt
    persisted_lt := h.persisted_lt
    applied_le := h.applied_le
    written := h.written }

/-! ### Runs -/

theorem of_leaves {α : Type} {x : Act Err (RaftLog MemoryStorage) α} {P : RaftLog MemoryStorage → Prop}
    {l l' : RaftLog MemoryStorage} (hwp : x.wp (fun _ l => P l) (fun _ l => P l) l)
    (h : leaves x l = some l') : P l' := by
  unfold leaves at h
  cases hx : x l with
  | ok a l'' =>
      rw [hx] at h
      cases h
      exact Act.wp_ok hwp hx
  | err e l'' =>
      rw [hx] at h
      cases h
      exact Act.wp_err hwp hx
  | panic =>
      rw [hx] at h
      cases h

/-- One call keeps buffer and storage together. -/
theorem Inv.step {s s' : Session} (h : s.Inv) (hstep : Step s s') : s'.Inv := by
  cases hstep with
  | append ents hl => exact of_leaves (h.wp_append ents) hl
  | maybeAppend idx term committed ents hl =>
      exact of_leaves (h.wp_maybeAppend idx term committed ents) hl
  | commitTo i hl => exact of_leaves (h.wp_commitTo i) hl
  | maybeCommit i term hl => exact of_leaves (h.wp_maybeCommit i term) hl
  | appliedTo i hl => exact of_leaves (h.wp_appliedTo i) hl
  | restore snap hl => exact h.restore hl
  | write hm => exact h.write hm
  | install hs hm => exact h.install hs hm
  | stableEntries i term hw hl => exact h.stableEntries hw hl
  | stableSnapshot i hi hl => exact h.stableSnapshot hi hl
  | localSnapshot ha hm => exact h.localSnapshot ha hm

theorem Inv.init {m : MemoryStorage} (hm : m.log.Contiguous)
    (ha : m.triggerLogUnavailable = false) {limit : ℕ} {l : RaftLog MemoryStorage}
    (hl : RaftLog.init m limit = .ok l) : ({ log := l } : Session).Inv := by
  unfold RaftLog.init at hl
  obtain ⟨last, hlast, hl⟩ := bind_eq_ok.mp hl
  obtain ⟨first, hfirst, hl⟩ := bind_eq_ok.mp hl
  have hlast : Except.ok m.lastIndex = Except.ok last := hlast
  have hfirst : Except.ok m.firstIndex = Except.ok first := hfirst
  rw [MemoryStorage.lastIndex_eq_last hm] at hlast
  rw [MemoryStorage.firstIndex_eq_base hm] at hfirst
  cases hlast
  cases hfirst
  rw [wrapPred_succ] at hl
  cases hl
  have hbl := Log.base_le_last (l := m.log)
  exact {
    valid := hm
    available := ha
    entries := trivial
    snapshot := fun snap hs => by cases hs
    stored := fun _ => ⟨le_rfl, le_rfl, fun _ => rfl⟩
    committed_lt := Nat.lt_succ_of_le hbl
    persisted_lt := Nat.lt_succ_self _
    applied_le := le_rfl
    written := fun e he => by cases he }

/-- At every moment the reads show one contiguous log. -/
theorem one_log {m : MemoryStorage} (hm : m.log.Contiguous)
    (ha : m.triggerLogUnavailable = false) {limit : ℕ} {l : RaftLog MemoryStorage}
    (hl : RaftLog.init m limit = .ok l) {s : Session}
    (hrun : Relation.ReflTransGen Step { log := l } s) : ∃ a, s.log.Shows a := by
  have hinv : s.Inv := by
    induction hrun with
    | refl => exact Inv.init hm ha hl
    | tail _ hstep ih => exact ih.step hstep
  exact hinv.shows

/-- The buffer replaces an entry that the storage still holds. -/
theorem one_log_replaced : ∃ a,
    ({ store := { entries := [{ term := 1, index := 1 }, { term := 1, index := 2 }] },
       unstable := { entries := [{ term := 2, index := 2 }], offset := 2 },
       committed := 0, persisted := 0, applied := 0, maxApplyUnpersistedLogLimit := 0 } :
      RaftLog MemoryStorage).Shows a := by
  have hrun : Relation.ReflTransGen Step
      { log := { store := {}, unstable := { offset := 1 }, committed := 0, persisted := 0,
                 applied := 0, maxApplyUnpersistedLogLimit := 0 } }
      { log := { store := { entries := [{ term := 1, index := 1 }, { term := 1, index := 2 }] },
                 unstable := { entries := [{ term := 2, index := 2 }], offset := 2 },
                 committed := 0, persisted := 0, applied := 0, maxApplyUnpersistedLogLimit := 0 },
        written := [{ term := 1, index := 1 }, { term := 1, index := 2 }] } :=
    .tail (.tail (.tail (.tail .refl
      (.append [{ term := 1, index := 1 }, { term := 1, index := 2 }] rfl)) (.write rfl))
      (.stableEntries 2 1 rfl rfl)) (.append [{ term := 2, index := 2 }] rfl)
  exact @one_log {} trivial rfl 0 _ rfl _ hrun

end Session

end RaftLog

end Raftz
