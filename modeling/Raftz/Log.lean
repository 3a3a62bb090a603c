import Mathlib.Data.List.GetD
import Mathlib.Data.List.Infix
import Raftz.Types

/-! # Logs

The abstract log a storage and a node's combined view describe: the index and
term of the last compacted entry (`base`, `baseTerm`) and the entries above it.
A log is well formed when its entries carry consecutive indexes from `base + 1`
and non-decreasing terms.

The operations are those the code performs on it: reading a slice, replacing
the tail (`splice`), discarding a prefix (`compact`). -/

namespace Raftz

/-- A log whose entries up to `base` have been compacted into a snapshot of term `baseTerm`. -/
structure Log where
  base : ℕ := 0
  baseTerm : ℕ := 0
  entries : List Entry := []
  deriving DecidableEq, Repr, Inhabited

namespace Log

variable (l : Log)

/-- Index of the last entry (of the base if there is none). -/
def last : ℕ := l.base + l.entries.length

/-- The entry at an index. -/
def entryAt (i : ℕ) : Option Entry :=
  if i ≤ l.base then none else l.entries[i - l.base - 1]?

/-- The term at an index, the base included. -/
def termAt (i : ℕ) : Option ℕ :=
  if i = l.base then some l.baseTerm else (l.entryAt i).map Entry.term

/-- The term of the last entry. -/
def lastTerm : ℕ := (l.termAt l.last).getD 0

/-- The entries with index in `[lo, hi)`. -/
def slice (lo hi : ℕ) : List Entry := (l.entries.drop (lo - l.base - 1)).take (hi - lo)

/-- Keep the entries below index `i` and continue with `es`. -/
def splice (i : ℕ) (es : List Entry) : Log :=
  { l with entries := l.entries.take (i - l.base - 1) ++ es }

/-- Discard the entries up to index `i`, whose term is `t`. -/
def compact (i t : ℕ) : Log := ⟨i, t, l.entries.drop (i - l.base)⟩

/-- Consecutive indexes starting at `i`. -/
def Consecutive : ℕ → List Entry → Prop
  | _, [] => True
  | i, e :: es => e.index = i ∧ Consecutive (i + 1) es

/-- The entries carry consecutive indexes from the base on. -/
def Contiguous : Prop := Consecutive (l.base + 1) l.entries

instance decidableConsecutive : ∀ i es, Decidable (Consecutive i es)
  | _, [] => isTrue trivial
  | i, e :: es => by
      unfold Consecutive
      exact @instDecidableAnd _ _ _ (decidableConsecutive (i + 1) es)

/-! ### Consecutive entries -/

theorem consecutive_iff {i : ℕ} {es : List Entry} :
    Consecutive i es ↔ ∀ k (h : k < es.length), (es.get ⟨k, h⟩).index = i + k := by
  induction es generalizing i with
  | nil => simp [Consecutive]
  | cons e es ih =>
      unfold Consecutive
      rw [ih]
      constructor
      · rintro ⟨he, h⟩ k hk
        cases k with
        | zero => exact he
        | succ k =>
            have := h k (by simpa using hk)
            simp only [List.get_eq_getElem, List.getElem_cons_succ] at this ⊢
            omega
      · intro h
        refine ⟨h 0 (by simp), fun k hk => ?_⟩
        have := h (k + 1) (by simpa using hk)
        simp only [List.get_eq_getElem, List.getElem_cons_succ] at this ⊢
        omega

theorem Consecutive.append {i : ℕ} {es fs : List Entry} (h : Consecutive i es)
    (h' : Consecutive (i + es.length) fs) : Consecutive i (es ++ fs) := by
  induction es generalizing i with
  | nil => simpa using h'
  | cons e es ih =>
      refine ⟨h.1, ih h.2 ?_⟩
      rw [List.length_cons] at h'
      have : i + 1 + es.length = i + (es.length + 1) := by omega
      rwa [this]

theorem Consecutive.take {i : ℕ} {es : List Entry} (h : Consecutive i es) (n : ℕ) :
    Consecutive i (es.take n) := by
  induction es generalizing i n with
  | nil => simpa using h
  | cons e es ih =>
      cases n with
      | zero => trivial
      | succ n => exact ⟨h.1, ih h.2 n⟩

theorem Consecutive.drop {i : ℕ} {es : List Entry} (h : Consecutive i es) (n : ℕ) :
    Consecutive (i + n) (es.drop n) := by
  induction es generalizing i n with
  | nil => simp [Consecutive]
  | cons e es ih =>
      cases n with
      | zero => simpa using h
      | succ n =>
          have := ih h.2 n
          rw [List.drop_succ_cons]
          have hn : i + 1 + n = i + (n + 1) := by omega
          rwa [hn] at this

theorem Consecutive.mem_bounds {i : ℕ} {es : List Entry} (h : Consecutive i es) {e : Entry}
    (he : e ∈ es) : i ≤ e.index ∧ e.index < i + es.length := by
  obtain ⟨⟨k, hk⟩, rfl⟩ := List.get_of_mem he
  have := consecutive_iff.mp h k hk
  omega

theorem Consecutive.of_isPrefix {i : ℕ} {es fs : List Entry} (h : Consecutive i fs)
    (hp : es <+: fs) : Consecutive i es := by
  rw [List.prefix_iff_eq_take.mp hp]
  exact h.take _

/-! ### Positions -/

variable {l}

theorem entryAt_of_le {i : ℕ} (h : i ≤ l.base) : l.entryAt i = none := if_pos h

theorem entryAt_of_gt {i : ℕ} (h : l.base < i) : l.entryAt i = l.entries[i - l.base - 1]? :=
  if_neg (by omega)

theorem entryAt_isSome_iff {i : ℕ} : (l.entryAt i).isSome ↔ l.base < i ∧ i ≤ l.last := by
  unfold last
  rcases Nat.lt_or_ge l.base i with h | h
  · rw [entryAt_of_gt h, isSome_getElem?]
    omega
  · rw [entryAt_of_le h]
    simp
    omega

theorem entryAt_bounds {i : ℕ} {e : Entry} (h : l.entryAt i = some e) :
    l.base < i ∧ i ≤ l.last := entryAt_isSome_iff.mp (by rw [h]; rfl)

theorem exists_entryAt {i : ℕ} (h1 : l.base < i) (h2 : i ≤ l.last) : ∃ e, l.entryAt i = some e :=
  Option.isSome_iff_exists.mp (entryAt_isSome_iff.mpr ⟨h1, h2⟩)

theorem Contiguous.index_eq (hc : l.Contiguous) {i : ℕ} {e : Entry} (h : l.entryAt i = some e) :
    e.index = i := by
  obtain ⟨h1, h2⟩ := entryAt_bounds h
  rw [entryAt_of_gt h1, List.getElem?_eq_some_iff] at h
  obtain ⟨hk, rfl⟩ := h
  have hidx : l.entries[i - l.base - 1].index = l.base + 1 + (i - l.base - 1) :=
    consecutive_iff.mp hc _ hk
  omega

theorem termAt_base : l.termAt l.base = some l.baseTerm := if_pos rfl

theorem termAt_of_entryAt {i : ℕ} {e : Entry} (h : l.entryAt i = some e) :
    l.termAt i = some e.term := by
  have hb := (entryAt_bounds h).1
  unfold termAt
  rw [if_neg (by omega), h]
  rfl

theorem termAt_of_ne_base {i : ℕ} (h : i ≠ l.base) : l.termAt i = (l.entryAt i).map Entry.term :=
  if_neg h

theorem termAt_isSome_iff {i : ℕ} : (l.termAt i).isSome ↔ l.base ≤ i ∧ i ≤ l.last := by
  rcases eq_or_ne i l.base with rfl | h
  · rw [termAt_base]
    simp [last]
  · rw [termAt_of_ne_base h, Option.isSome_map, entryAt_isSome_iff]
    omega

theorem exists_termAt {i : ℕ} (h1 : l.base ≤ i) (h2 : i ≤ l.last) : ∃ t, l.termAt i = some t :=
  Option.isSome_iff_exists.mp (termAt_isSome_iff.mpr ⟨h1, h2⟩)

theorem base_le_last : l.base ≤ l.last := Nat.le_add_right _ _

/-! ### Slices -/

theorem slice_prefix_getElem? {lo hi k : ℕ} (hlo : l.base < lo) :
    (l.slice lo hi)[k]? = if k < hi - lo then l.entryAt (lo + k) else none := by
  unfold slice
  rw [List.getElem?_take]
  split
  · rw [entryAt_of_gt (by omega), List.getElem?_drop]
    congr 1
    omega
  · rfl

theorem length_slice {lo hi : ℕ} (hlo : l.base < lo) (hhi : hi ≤ l.last + 1) :
    (l.slice lo hi).length = hi - lo := by
  unfold slice last at *
  rw [List.length_take, List.length_drop]
  omega

theorem Contiguous.slice (hc : l.Contiguous) {lo : ℕ} (hlo : l.base < lo) (hi : ℕ) :
    Consecutive lo (l.slice lo hi) := by
  have h := (Consecutive.drop hc (lo - l.base - 1)).take (hi - lo)
  have : l.base + 1 + (lo - l.base - 1) = lo := by omega
  rwa [this] at h

/-! ### Splicing -/

theorem last_splice {i : ℕ} {es : List Entry} (h1 : l.base < i) (h2 : i ≤ l.last + 1) :
    (l.splice i es).last = i - 1 + es.length := by
  unfold splice last at *
  dsimp only
  rw [List.length_append, List.length_take]
  omega

theorem entryAt_splice_lt {i j : ℕ} {es : List Entry} (h2 : i ≤ l.last + 1) (hj : j < i) :
    (l.splice i es).entryAt j = l.entryAt j := by
  rcases Nat.lt_or_ge l.base j with hb | hb
  · rw [entryAt_of_gt hb]
    have : (l.splice i es).base < j := hb
    rw [entryAt_of_gt this]
    show (l.entries.take (i - l.base - 1) ++ es)[j - l.base - 1]? = _
    unfold last at h2
    rw [List.getElem?_append_left (by rw [List.length_take]; omega),
      List.getElem?_take_of_lt (by omega)]
  · rw [entryAt_of_le hb]
    exact entryAt_of_le (l := l.splice i es) hb

theorem entryAt_splice_ge {i j : ℕ} {es : List Entry} (h1 : l.base < i) (h2 : i ≤ l.last + 1)
    (hj : i ≤ j) : (l.splice i es).entryAt j = es[j - i]? := by
  have : (l.splice i es).base < j := lt_of_lt_of_le h1 hj
  rw [entryAt_of_gt this]
  show (l.entries.take (i - l.base - 1) ++ es)[j - l.base - 1]? = _
  unfold last at h2
  have hlen : (l.entries.take (i - l.base - 1)).length = i - l.base - 1 := by
    rw [List.length_take]
    omega
  rw [List.getElem?_append_right (by omega), hlen]
  congr 1
  omega

theorem termAt_splice_lt {i j : ℕ} {es : List Entry} (h2 : i ≤ l.last + 1) (hj : j < i) :
    (l.splice i es).termAt j = l.termAt j := by
  unfold termAt
  rw [entryAt_splice_lt h2 hj]
  rfl

theorem Contiguous.splice (hc : l.Contiguous) {i : ℕ} {es : List Entry} (h1 : l.base < i)
    (h2 : i ≤ l.last + 1) (hes : Consecutive i es) : (l.splice i es).Contiguous := by
  refine Consecutive.append (hc.take (i - l.base - 1)) ?_
  unfold last at h2
  have : l.base + 1 + (l.entries.take (i - l.base - 1)).length = i := by
    rw [List.length_take]
    omega
  show Consecutive (l.base + 1 + _) es
  rwa [this]

/-- Continuing after the last entry with nothing changes nothing. -/
theorem splice_last : l.splice (l.last + 1) [] = l := by
  unfold splice last
  have : l.base + l.entries.length + 1 - l.base - 1 = l.entries.length := by omega
  rw [this, List.take_length, List.append_nil]

/-- Replacing the tail a second time by the same entries changes nothing. -/
theorem splice_splice {i : ℕ} {es : List Entry} (h : i ≤ l.last + 1) :
    (l.splice i es).splice i es = l.splice i es := by
  have hlen : (l.entries.take (i - l.base - 1)).length = i - l.base - 1 := by
    unfold last at h
    rw [List.length_take]
    omega
  unfold splice
  dsimp only
  congr 2
  rw [List.take_append_of_le_length hlen.ge, List.take_of_length_le hlen.le]

/-! ### Compaction -/

theorem compact_splice {i j t : ℕ} {es : List Entry} (h1 : l.base ≤ i) (h2 : i < j)
    (h3 : j ≤ l.last + 1) : (l.compact i t).splice j es = (l.splice j es).compact i t := by
  unfold last at h3
  unfold compact splice
  dsimp only
  congr 1
  have hlen : (l.entries.take (j - l.base - 1)).length = j - l.base - 1 := by
    rw [List.length_take]
    omega
  rw [List.drop_append_of_le_length (by omega), List.drop_take]
  congr 2
  omega

theorem last_compact {i t : ℕ} (h1 : l.base ≤ i) (h2 : i ≤ l.last) : (l.compact i t).last = l.last := by
  unfold compact last at *
  dsimp only
  rw [List.length_drop]
  omega

theorem entryAt_compact {i t j : ℕ} (h1 : l.base ≤ i) (hj : i < j) :
    (l.compact i t).entryAt j = l.entryAt j := by
  have hb : (l.compact i t).base < j := hj
  rw [entryAt_of_gt hb, entryAt_of_gt (by omega)]
  show (l.entries.drop (i - l.base))[j - i - 1]? = _
  rw [List.getElem?_drop]
  congr 1
  omega

theorem Contiguous.compact (hc : l.Contiguous) {i t : ℕ} (h1 : l.base ≤ i) :
    (l.compact i t).Contiguous := by
  have h := Consecutive.drop hc (i - l.base)
  have : l.base + 1 + (i - l.base) = i + 1 := by omega
  rwa [this] at h

end Log

end Raftz
