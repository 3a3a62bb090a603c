import Raftz.Base.Ring
import Raftz.Progress

/-! # The in-flight window is a bounded queue

`Inflights` keeps the indexes in flight in a ring whose slots are written
lazily, grow with the capacity and shrink only once the ring has drained.
`Window` says what the ring is for: a list of indexes, oldest first, a bound
and the bound that waits for the list to drain.

A `Ring` is an `Inflights` together with the size of its storage
(`buffer.capacity` of the source, of which `Inflights` only records whether it
is zero).  The invariant `Inflights.Coherent` is what one operation needs and
leaves; with it every operation of the ring is the operation of the window
(`Ring.exec_refines`), its assertions hold, and the slots it reads and writes
exist. -/

open Base

namespace Raftz

/-- What is done to the in-flight window of a peer. -/
inductive WindowOp
  | add (inflight : ℕ)
  | freeTo (upTo : ℕ)
  | freeFirstOne
  | setCapacity (incoming : ℕ)
  | reset
  deriving DecidableEq, Repr

/-- A bounded queue of indexes: the oldest comes first, and `pending` replaces `bound` once the
queue is empty. -/
structure Window where
  items : List ℕ
  bound : ℕ
  pending : Option ℕ
  deriving DecidableEq, Repr

namespace Window

/-- The empty queue of a given bound. -/
def init (bound : ℕ) : Window := ⟨[], bound, none⟩

/-- No index may be added. -/
def Full (w : Window) : Prop :=
  w.items.length = w.bound ∨ ∃ cap ∈ w.pending, cap ≤ w.items.length

instance (w : Window) : Decidable w.Full := by
  unfold Full
  cases w.pending with
  | none => exact decidable_of_iff (w.items.length = w.bound) (by simp)
  | some cap => exact decidable_of_iff (w.items.length = w.bound ∨ cap ≤ w.items.length) (by simp)

/-- An empty queue takes the pending bound. -/
def settle (w : Window) : Window :=
  if w.items = [] then ⟨[], w.pending.getD w.bound, none⟩ else w

/-- Remove the longest prefix of indexes up to `upTo`. -/
def freeTo (w : Window) (upTo : ℕ) : Window :=
  { w with items := w.items.dropWhile (· ≤ upTo) }.settle

/-- What an operation does to the queue; only `add` to a full queue is not allowed. -/
def exec (w : Window) : WindowOp → Option Window
  | .add n => if w.Full then none else some { w with items := w.items ++ [n] }
  | .freeTo n => some (w.freeTo n)
  | .freeFirstOne => some (match w.items with
    | [] => w
    | n :: _ => w.freeTo n)
  | .setCapacity c => some (if w.bound ≤ c then { w with bound := c, pending := none }
    else { w with pending := some c }.settle)
  | .reset => some { w with items := [] }.settle

/-- Do the operations of a list in order. -/
def run (w : Window) : List WindowOp → Option Window
  | [] => some w
  | op :: ops => (w.exec op).bind fun w' => w'.run ops

end Window

namespace Inflights

/-- The indexes of the ring, read from the start. -/
def contents (f : Inflights) : List ℕ := Ring.read f.buffer f.capacity f.start f.count

/-- The queue that the ring implements. -/
def window (f : Inflights) : Window := ⟨f.contents, f.capacity, f.incomingCapacity⟩

/-- The slots that the scan of `freeTo` reads. -/
def scanSlots (f : Inflights) (upTo : ℕ) : ℕ → ℕ → List ℕ
  | 0, _ => []
  | n + 1, idx => idx :: if upTo < f.buffer.getD idx 0 then []
      else f.scanSlots upTo n (if f.capacity ≤ idx + 1 then idx + 1 - f.capacity else idx + 1)

/-- The slots that `freeTo` reads. -/
def freeSlots (f : Inflights) (upTo : ℕ) : List ℕ :=
  if f.count = 0 then []
  else f.start :: if upTo < f.buffer.getD f.start 0 then [] else f.scanSlots upTo f.count f.start

/-- The slots that an operation reads or writes. -/
def slots (f : Inflights) : WindowOp → List ℕ
  | .add _ => [Ring.slot f.capacity f.start f.count]
  | .freeTo n => f.freeSlots n
  | .freeFirstOne => if 0 < f.count then f.start :: f.freeSlots (f.buffer.getD f.start 0) else []
  | .setCapacity c =>
      -- only growth of a wrapped ring copies the slots
      if f.capacity < c ∧ f.capacity < f.start + f.count then
        List.range' f.start (f.capacity - f.start)
          ++ List.range (f.count - (f.capacity - f.start))
      else []
  | .reset => []

/-- What an operation of the ring needs and leaves. -/
structure Coherent (f : Inflights) : Prop where
  count_le : f.count ≤ f.capacity
  start_lt : f.start = 0 ∨ f.start < f.capacity
  buffer_le : f.buffer.length ≤ f.capacity
  filled : f.start + f.count ≤ f.buffer.length ∨ f.buffer.length = f.capacity
  pending_lt : ∀ cap ∈ f.incomingCapacity, cap < f.capacity ∧ 0 < f.count
  fresh : f.allocated = false → f.buffer = [] ∧ f.count = 0 ∧ f.start = 0

variable {f : Inflights}

@[simp] theorem length_contents (f : Inflights) : f.contents.length = f.count := by
  simp [contents]

@[simp] theorem contents_eq_nil : f.contents = [] ↔ f.count = 0 := by
  rw [← List.length_eq_zero_iff, length_contents]

/-- A drained ring implements the empty queue. -/
theorem window_of_drained (hc : f.count = 0) :
    f.window = ⟨[], f.capacity, f.incomingCapacity⟩ := by
  rw [window, contents_eq_nil.mpr hc]

namespace Coherent

theorem init (capacity : ℕ) : (Inflights.init capacity).Coherent := by
  constructor <;> simp [Inflights.init]

theorem start_lt_capacity (h : f.Coherent) (hc : 0 < f.count) : f.start < f.capacity := by
  have := h.count_le
  have := h.start_lt
  omega

theorem start_le_length (h : f.Coherent) : f.start ≤ f.buffer.length := by
  have := h.start_lt
  have := h.filled
  omega

/-- Every element has its slot. -/
theorem slot_lt_length (h : f.Coherent) {i : ℕ} (hi : i < f.count) :
    Ring.slot f.capacity f.start i < f.buffer.length := by
  have hc := h.count_le
  have hs := h.start_lt_capacity (by omega)
  have hlt := Ring.slot_lt hs (i := i) (by omega)
  rcases h.filled with hf | hf
  · have := h.buffer_le
    rw [Ring.slot_of_lt (by omega)]
    omega
  · omega

/-- The oldest index heads the contents. -/
theorem contents_cons (h : f.Coherent) (hc : 0 < f.count) :
    ∃ rest, f.contents = f.buffer.getD f.start 0 :: rest := by
  have hs := h.start_lt_capacity hc
  have hn := h.count_le
  obtain ⟨n, hn'⟩ : ∃ n, f.count = n + 1 := ⟨f.count - 1, by omega⟩
  exact ⟨Ring.read f.buffer f.capacity (Ring.slot f.capacity f.start 1) n, by
    rw [contents, hn', Ring.read_succ _ hs (by omega)]; rfl⟩

end Coherent

/-! ### `full` and `add` -/

theorem full_iff (f : Inflights) : f.full = true ↔ f.window.Full := by
  cases h : f.incomingCapacity <;> simp [full, window, Window.Full, h]

theorem slot_eq_next (f : Inflights) :
    (if f.capacity ≤ f.start + f.count then f.start + f.count - f.capacity
      else f.start + f.count) = Ring.slot f.capacity f.start f.count := rfl

/-- An index is added to a ring that is not full. -/
theorem add_spec (h : f.Coherent) (hf : ¬ f.window.Full) (n : ℕ) :
    ∃ f', f.add n = some f' ∧ f'.Coherent ∧ f'.allocated = true ∧
      f'.window = { f.window with items := f.contents ++ [n] } ∧
      Ring.slot f.capacity f.start f.count < f'.buffer.length := by
  have hfull : f.full = false := by
    rw [← Bool.not_eq_true, full_iff]
    exact hf
  have hlt : f.count < f.capacity := by
    have hne : f.count ≠ f.capacity := by
      intro he
      exact hf (.inl (by simp [window, he]))
    have := h.count_le
    omega
  have hs : f.start < f.capacity := by
    have := h.start_lt
    omega
  have hready : ¬ (f.allocated = false ∧
      ¬ (f.count = 0 ∧ f.start = 0 ∧ f.incomingCapacity = none)) := by
    rintro ⟨ha, hn⟩
    obtain ⟨-, hc, hs0⟩ := h.fresh ha
    refine hn ⟨hc, hs0, ?_⟩
    cases hp : f.incomingCapacity with
    | none => rfl
    | some cap =>
        have := (h.pending_lt cap hp).2
        omega
  have hnext : Ring.slot f.capacity f.start f.count ≤ f.buffer.length := by
    have hsl := Ring.slot_lt hs (i := f.count) (by omega)
    rcases h.filled with hl | hl
    · unfold Ring.slot
      split <;> omega
    · omega
  have hpend : ∀ cap ∈ f.incomingCapacity, cap < f.capacity ∧ 0 < f.count + 1 :=
    fun cap hcap => ⟨(h.pending_lt cap hcap).1, by omega⟩
  have hb := h.buffer_le
  simp only [add, hfull, hready, slot_eq_next, Bool.false_eq_true, if_false,
    Nat.not_lt.mpr hnext]
  by_cases he : Ring.slot f.capacity f.start f.count = f.buffer.length
  · -- the slot is written for the first time: the ring has not wrapped
    have hslot : Ring.slot f.capacity f.start f.count = f.start + f.count := by
      apply Ring.slot_of_lt
      have hsl := Ring.slot_lt hs (i := f.count) (by omega)
      rcases h.filled with hl | hl <;> unfold Ring.slot at he hsl <;> split at he <;> omega
    have hin : ∀ i < f.count, Ring.slot f.capacity f.start i < f.buffer.length :=
      fun i hi => h.slot_lt_length hi
    refine ⟨_, if_pos he, ?_, rfl, ?_, by simp [he]⟩
    · have hsl := Ring.slot_lt hs (i := f.count) (by omega)
      exact ⟨by simp; omega, .inr hs, by simp; omega, .inl (by simp; omega), hpend, by simp⟩
    · simp [window, contents, Ring.read_append he hin]
  · have hlen : Ring.slot f.capacity f.start f.count < f.buffer.length := by omega
    refine ⟨_, if_neg he, ?_, rfl, ?_, by simpa using hlen⟩
    · have hfl := h.filled
      refine ⟨by simp; omega, .inr hs, by simpa using hb, ?_, hpend, by simp⟩
      simp only [List.length_set]
      unfold Ring.slot at hlen
      split at hlen <;> omega
    · simp [window, contents, Ring.read_set hlt hlen]

/-! ### `freeTo` -/

/-- The scan drops the longest prefix of indexes up to `upTo`, and stops at the next one. -/
theorem freeScan_spec (f : Inflights) (upTo : ℕ) {n i idx : ℕ} (hs : idx < f.capacity)
    (hn : n ≤ f.capacity) :
    ∃ k ≤ n, f.freeScan upTo n i idx = (i + k, Ring.slot f.capacity idx k) ∧
      (Ring.read f.buffer f.capacity idx n).dropWhile (· ≤ upTo)
        = (Ring.read f.buffer f.capacity idx n).drop k := by
  induction n generalizing i idx with
  | zero => exact ⟨0, Nat.le_refl 0, by simp [freeScan, hs], by simp⟩
  | succ n ih =>
      have hread := Ring.read_succ f.buffer hs (n := n) (by omega)
      simp only [freeScan]
      split
      · rename_i hlt
        refine ⟨0, by omega, by simp [hs], ?_⟩
        rw [hread, List.dropWhile_cons_of_neg, List.drop_zero]
        simpa using hlt
      · rename_i hle
        have hnext : Ring.slot f.capacity idx 1 < f.capacity := Ring.slot_lt hs (by omega)
        obtain ⟨k, hk, hscan, hdrop⟩ := ih (i := i + 1) hnext (by omega)
        refine ⟨k + 1, by omega, ?_, ?_⟩
        · have hidx : (if f.capacity ≤ idx + 1 then idx + 1 - f.capacity else idx + 1)
              = Ring.slot f.capacity idx 1 := rfl
          rw [hidx, hscan, Ring.slot_slot hs (by omega), Nat.add_assoc, Nat.add_comm 1 k]
        · rw [hread, List.dropWhile_cons_of_pos, hdrop, List.drop_succ_cons]
          simpa using hle

/-- The slots scanned are slots of elements. -/
theorem scanSlots_lt (f : Inflights) (upTo : ℕ) {n idx : ℕ} (hs : idx < f.capacity)
    (hn : n ≤ f.capacity) {j : ℕ} (hj : j ∈ f.scanSlots upTo n idx) :
    ∃ i < n, j = Ring.slot f.capacity idx i := by
  induction n generalizing idx with
  | zero => simp [scanSlots] at hj
  | succ n ih =>
      simp only [scanSlots, List.mem_cons] at hj
      rcases hj with rfl | hj
      · exact ⟨0, by omega, by simp [hs]⟩
      · split at hj
        · simp at hj
        · obtain ⟨i, hi, rfl⟩ := ih (Ring.slot_lt hs (i := 1) (by omega)) (by omega) hj
          exact ⟨i + 1, by omega, by rw [← Nat.add_comm 1 i]; exact Ring.slot_slot hs (by omega)⟩

theorem freeSlots_lt (h : f.Coherent) {upTo j : ℕ} (hj : j ∈ f.freeSlots upTo) :
    j < f.buffer.length := by
  unfold freeSlots at hj
  split at hj
  · simp at hj
  · rename_i hc
    have hs := h.start_lt_capacity (by omega)
    rcases List.mem_cons.mp hj with rfl | hj
    · simpa [hs] using h.slot_lt_length (i := 0) (by omega)
    · split at hj
      · simp at hj
      · obtain ⟨i, hi, rfl⟩ := f.scanSlots_lt upTo hs h.count_le hj
        exact h.slot_lt_length hi

/-- The ring without its first `k` elements, `k < count` while a bound is pending. -/
theorem Coherent.advance (h : f.Coherent) {k : ℕ} (hc : 0 < f.count) (hk : k ≤ f.count)
    (hpend : f.incomingCapacity = none ∨ k < f.count) :
    ({ f with count := f.count - k, start := Ring.slot f.capacity f.start k } : Inflights).Coherent := by
  have hs := h.start_lt_capacity hc
  have hn := h.count_le
  have hb := h.buffer_le
  have hslot := Ring.slot_lt hs (i := k) (by omega)
  refine ⟨by simp; omega, .inr hslot, hb, ?_, ?_, ?_⟩
  · simp only
    rcases h.filled with hl | hl
    · unfold Ring.slot
      split <;> omega
    · exact .inr hl
  · intro cap hcap
    rcases hpend with hnone | hlt
    · simp [hnone] at hcap
    · exact ⟨(h.pending_lt cap hcap).1, by simp; omega⟩
  · intro ha
    have := (h.fresh ha).2.1
    omega

theorem contents_advance (h : f.Coherent) {k : ℕ} (hc : 0 < f.count) (hk : k ≤ f.count) :
    ({ f with count := f.count - k, start := Ring.slot f.capacity f.start k } : Inflights).contents
      = f.contents.drop k :=
  (Ring.drop_read f.buffer (h.start_lt_capacity hc) hk h.count_le).symm

/-- `freeTo` drops the longest prefix of indexes up to `upTo`, and a ring that drains takes the
pending bound. -/
theorem freeTo_spec (h : f.Coherent) (upTo : ℕ) :
    (f.freeTo upTo).Coherent ∧ (f.freeTo upTo).window = f.window.freeTo upTo := by
  unfold freeTo Window.freeTo
  by_cases hc : f.count = 0
  · have hp : f.incomingCapacity = none := by
      cases hp : f.incomingCapacity with
      | none => rfl
      | some cap =>
          have := (h.pending_lt cap hp).2
          omega
    simp [hc, h, window, Window.settle, contents, hp]
  · obtain ⟨rest, hrest⟩ := h.contents_cons (by omega)
    by_cases hlt : upTo < f.buffer.getD f.start 0
    · have hdrop : f.contents.dropWhile (· ≤ upTo) = f.contents := by
        rw [hrest, List.dropWhile_cons_of_neg]
        simpa using hlt
      simp only [hlt, or_true, if_true, h, true_and]
      simp [window, Window.settle, hdrop, hc]
    · have hpos : 0 < f.count := by omega
      obtain ⟨k, hk, hscan, hdrop⟩ :=
        f.freeScan_spec upTo (i := 0) (h.start_lt_capacity hpos) h.count_le
      have hcont := contents_advance h hpos hk
      rw [← contents] at hdrop
      simp only [hc, hlt, or_self, if_false, hscan, Nat.zero_add]
      by_cases hall : f.count - k = 0
      · have hnil : f.contents.dropWhile (· ≤ upTo) = [] := by
          rw [hdrop, List.drop_eq_nil_iff, length_contents]
          omega
        simp only [hall, if_true]
        cases hp : f.incomingCapacity with
        | none =>
            have hadv := h.advance hpos hk (.inl hp)
            simp only [hall, hp] at hadv hcont ⊢
            refine ⟨hadv, ?_⟩
            rw [window_of_drained rfl]
            simp [window, Window.settle, hnil, hp]
        | some cap =>
            refine ⟨by constructor <;> simp, ?_⟩
            rw [window_of_drained rfl]
            simp [window, Window.settle, hnil, hp]
      · have hne : f.contents.dropWhile (· ≤ upTo) ≠ [] := by
          rw [hdrop, Ne, List.drop_eq_nil_iff, length_contents]
          omega
        have hadv := h.advance hpos hk (.inr (by omega))
        simp only [hall, if_false]
        refine ⟨hadv, ?_⟩
        simp only [window, Window.settle, hne, if_false, Window.mk.injEq, and_self, and_true]
        rw [hcont, hdrop]

/-- `freeTo` keeps the storage unless the ring drains under a pending bound. -/
theorem freeTo_storage (f : Inflights) (upTo : ℕ) :
    (∃ cap, f.incomingCapacity = some cap ∧ 0 < f.count ∧
      f.freeTo upTo = { capacity := cap, allocated := decide (0 < cap) }) ∨
    ((f.freeTo upTo).allocated = f.allocated ∧ (f.freeTo upTo).capacity = f.capacity ∧
      (0 < f.count → (f.freeTo upTo).count = 0 → f.incomingCapacity = none)) := by
  unfold freeTo
  split
  · exact .inr ⟨rfl, rfl, by omega⟩
  · rename_i hstop
    have hpos : 0 < f.count := by omega
    simp only
    split
    · cases hp : f.incomingCapacity with
      | none => exact .inr ⟨rfl, rfl, fun _ _ => rfl⟩
      | some cap => exact .inl ⟨cap, rfl, hpos, rfl⟩
    · rename_i hrest
      exact .inr ⟨rfl, rfl, fun _ h0 => absurd h0 hrest⟩

/-! ### `setCapacity` and `reset` -/

/-- The ring copied by growth: its two runs laid end to end. -/
theorem setCapacity_spec (h : f.Coherent) (incoming : ℕ) :
    ∃ f', f.setCapacity incoming = some f' ∧ f'.Coherent ∧
      f.window.exec (.setCapacity incoming) = some f'.window := by
  have hn := h.count_le
  have hb := h.buffer_le
  have hst := h.start_lt
  have hfl := h.filled
  unfold setCapacity
  simp only [Window.exec, window]
  by_cases heq : f.capacity = incoming
  · refine ⟨_, if_pos heq, ⟨hn, hst, hb, hfl, by simp, h.fresh⟩, ?_⟩
    simp [heq, contents]
  by_cases hlt : f.capacity < incoming
  · simp only [heq, hlt, if_true, if_false, Nat.le_of_lt hlt]
    by_cases hflat : f.start + f.count ≤ f.capacity
    · refine ⟨_, if_pos hflat, ⟨by simp; omega, by simp; omega, by simp; omega, ?_, by simp,
        h.fresh⟩, ?_⟩
      · simp only
        omega
      · simp [contents, Ring.read_grow f.buffer hflat (Nat.le_of_lt hlt)]
    · have hlen : f.buffer.length = f.capacity := by omega
      have hs : f.start < f.capacity := by omega
      refine ⟨_, by rw [if_neg hflat, if_pos hlen.symm], ⟨by simp; omega, by simp, ?_, ?_, by simp,
        by simp⟩, ?_⟩
      · simp
        omega
      · simp
        omega
      · simp only [contents, Option.some.injEq, Window.mk.injEq, and_self, and_true]
        exact (Ring.read_unroll hs hlen (by omega) hn (Nat.le_of_lt hlt)).symm
  · have hge : ¬ f.capacity ≤ incoming := by omega
    simp only [heq, hlt, hge, if_false]
    by_cases hc : f.count = 0
    · simp only [hc, if_true]
      by_cases ha : f.allocated = true
      · refine ⟨_, if_pos ha, ?_, by simp [Window.settle, contents, hc]⟩
        constructor <;> simp
      · obtain ⟨hnil, -, hs⟩ := h.fresh (by simpa using ha)
        refine ⟨_, if_neg ha, ?_, by simp [Window.settle, contents, hc]⟩
        constructor <;> simp [hnil]
    · refine ⟨_, if_neg hc, ⟨hn, hst, hb, hfl, ?_, h.fresh⟩, ?_⟩
      · simp
        omega
      · simp [Window.settle, hc]
        rfl

theorem reset_spec (f : Inflights) :
    f.reset.Coherent ∧ f.window.exec .reset = some f.reset.window := by
  refine ⟨?_, by simp [Window.exec, Window.settle, window, reset, contents]⟩
  constructor <;> simp [reset]

/-- `freeFirstOne` is `freeTo` the oldest index. -/
theorem freeFirstOne_spec (h : f.Coherent) :
    f.freeFirstOne.Coherent ∧ f.window.exec .freeFirstOne = some f.freeFirstOne.window := by
  unfold freeFirstOne Window.exec
  by_cases hc : 0 < f.count
  · obtain ⟨rest, hrest⟩ := h.contents_cons hc
    have hfree := freeTo_spec h (f.buffer.getD f.start 0)
    have hitems : f.window.items = f.buffer.getD f.start 0 :: rest := hrest
    simp only [hc, if_true, hitems]
    exact ⟨hfree.1, congrArg some hfree.2.symm⟩
  · have hnil : f.window.items = [] := by
      simp only [window, contents_eq_nil]
      omega
    simp only [hc, if_false, hnil]
    exact ⟨h, trivial⟩

end Inflights

/-- The in-flight ring and the size of its storage. -/
structure StoredInflights where
  inflights : Inflights
  bufferCapacity : ℕ
  deriving DecidableEq, Repr

namespace StoredInflights

/-- An empty ring without storage. -/
def init (capacity : ℕ) : StoredInflights := ⟨Inflights.init capacity, 0⟩

/-- A `freeTo` that drains the ring under a pending bound reserves that bound afresh. -/
def freed (r : StoredInflights) (f : Inflights) : StoredInflights :=
  ⟨f, if 0 < r.inflights.count ∧ f.count = 0 then r.inflights.incomingCapacity.getD r.bufferCapacity
    else r.bufferCapacity⟩

/-- The storage after `setCapacity`. -/
def resized (r : StoredInflights) (incoming : ℕ) : ℕ :=
  if r.inflights.capacity = incoming then r.bufferCapacity
  else if r.inflights.capacity < incoming then
    if r.inflights.start + r.inflights.count ≤ r.inflights.capacity then
      if 0 < r.bufferCapacity then max r.bufferCapacity incoming else r.bufferCapacity
    else incoming
  else if r.inflights.count = 0 then
    if 0 < r.bufferCapacity then incoming else r.bufferCapacity
  else r.bufferCapacity

/-- What an operation does; `none` when the source panics or an assertion of it fails, among them
that a slot appended by `add` fits the storage. -/
def exec (r : StoredInflights) : WindowOp → Option StoredInflights
  | .add n =>
      let reserved := if r.bufferCapacity = 0 then r.inflights.capacity else r.bufferCapacity
      (r.inflights.add n).bind fun f =>
        if f.buffer.length ≤ reserved then some ⟨f, reserved⟩ else none
  | .freeTo n => some (r.freed (r.inflights.freeTo n))
  | .freeFirstOne => some (r.freed r.inflights.freeFirstOne)
  | .setCapacity c => (r.inflights.setCapacity c).map fun f => ⟨f, r.resized c⟩
  | .reset => some ⟨r.inflights.reset, 0⟩

/-- Do the operations of a list in order. -/
def run (r : StoredInflights) : List WindowOp → Option StoredInflights
  | [] => some r
  | op :: ops => (r.exec op).bind fun r' => r'.run ops

/-- The ring is sound and its storage, once reserved, holds every slot. -/
structure Sound (r : StoredInflights) : Prop where
  ring : r.inflights.Coherent
  allocated : r.inflights.allocated = decide (0 < r.bufferCapacity)
  reserved : 0 < r.bufferCapacity → r.inflights.capacity ≤ r.bufferCapacity

theorem Sound.init (capacity : ℕ) : (StoredInflights.init capacity).Sound :=
  ⟨Inflights.Coherent.init capacity, rfl, by simp [StoredInflights.init]⟩

variable {r : StoredInflights}

theorem freed_sound (h : r.Sound) (upTo : ℕ) : (r.freed (r.inflights.freeTo upTo)).Sound := by
  have hs := (Inflights.freeTo_spec h.ring upTo).1
  rcases r.inflights.freeTo_storage upTo with ⟨cap, hp, hpos, heq⟩ | ⟨ha, hc, hnone⟩
  · refine ⟨hs, ?_, ?_⟩ <;> simp [freed, heq, hp, hpos]
  · have hcap : (r.freed (r.inflights.freeTo upTo)).bufferCapacity = r.bufferCapacity := by
      unfold freed
      simp only
      split
      · rename_i hdrained
        rw [hnone hdrained.1 hdrained.2, Option.getD_none]
      · rfl
    refine ⟨hs, ?_, ?_⟩
    · rw [hcap]
      exact ha.trans h.allocated
    · rw [hcap]
      exact fun hpos => hc.trans_le (h.reserved hpos)

/-- `resized` is the storage that `setCapacity` reserves. -/
theorem resized_sound (h : r.Sound) {c : ℕ} {f : Inflights}
    (hf : r.inflights.setCapacity c = some f) : (⟨f, r.resized c⟩ : StoredInflights).Sound := by
  obtain ⟨f', hf', hs, -⟩ := Inflights.setCapacity_spec h.ring c
  obtain rfl : f' = f := Option.some.inj (hf'.symm.trans hf)
  have ha := h.allocated
  have hr := h.reserved
  suffices hst : f'.allocated = decide (0 < r.resized c) ∧
      (0 < r.resized c → f'.capacity ≤ r.resized c) from ⟨hs, hst.1, hst.2⟩
  clear hs hf'
  unfold Inflights.setCapacity at hf
  unfold resized
  by_cases heq : r.inflights.capacity = c
  · simp only [heq, if_true, Option.some.injEq] at hf ⊢
    subst hf
    exact ⟨ha, by simpa [heq] using hr⟩
  by_cases hlt : r.inflights.capacity < c
  · by_cases hflat : r.inflights.start + r.inflights.count ≤ r.inflights.capacity
    · simp only [heq, hlt, hflat, if_true, if_false, Option.some.injEq] at hf ⊢
      subst hf
      by_cases hpos : 0 < r.bufferCapacity
      · simp only [hpos, if_true, ha, decide_true]
        exact ⟨by simp [hpos], by simp⟩
      · simp [hpos, ha]
    · simp only [heq, hlt, hflat, if_true, if_false] at hf ⊢
      split at hf
      · obtain rfl := Option.some.inj hf
        exact ⟨by simp; omega, by simp⟩
      · cases hf
  · simp only [heq, hlt, if_false] at hf ⊢
    by_cases hc : r.inflights.count = 0
    · by_cases hpos : 0 < r.bufferCapacity
      · simp only [hc, hpos, ha, decide_true, if_true, Option.some.injEq] at hf ⊢
        subst hf
        simp
      · simp only [hc, hpos, ha, decide_false, if_true, if_false, Bool.false_eq_true,
          Option.some.injEq] at hf ⊢
        subst hf
        simp
    · simp only [hc, if_false, Option.some.injEq] at hf ⊢
      subst hf
      exact ⟨ha, hr⟩

theorem add_refines (h : r.Sound) (hfull : ¬ r.inflights.window.Full) (n : ℕ) :
    ∃ r', r.exec (.add n) = some r' ∧ r'.Sound ∧
      r'.inflights.window = { r.inflights.window with items := r.inflights.contents ++ [n] } ∧
      Ring.slot r.inflights.capacity r.inflights.start r.inflights.count
        < r'.inflights.buffer.length := by
  obtain ⟨f', hadd, hs, ha, hwin, hslot⟩ := Inflights.add_spec h.ring hfull n
  have hcap : f'.capacity = r.inflights.capacity := congrArg Window.bound hwin
  have hcount := hs.count_le
  have hlen : 0 < f'.buffer.length := by omega
  have hb := hs.buffer_le
  have hr := h.reserved
  by_cases hzero : r.bufferCapacity = 0
  · refine ⟨⟨f', r.inflights.capacity⟩, ?_, ⟨hs, ?_, ?_⟩, hwin, hslot⟩
    · simp only [exec, hadd, hzero, Option.bind_some, if_true]
      exact if_pos (by omega)
    · simp only [ha, true_eq_decide_iff]
      omega
    · exact fun _ => Nat.le_of_eq hcap
  · refine ⟨⟨f', r.bufferCapacity⟩, ?_, ⟨hs, ?_, ?_⟩, hwin, hslot⟩
    · simp only [exec, hadd, hzero, Option.bind_some, if_false]
      exact if_pos (by omega)
    · simp only [ha, true_eq_decide_iff]
      omega
    · exact fun hpos => hcap.trans_le (hr hpos)

/-- Every allowed operation succeeds, is the operation of the queue, and uses slots that exist. -/
theorem exec_refines (h : r.Sound) (op : WindowOp) {w : Window}
    (hw : r.inflights.window.exec op = some w) :
    ∃ r', r.exec op = some r' ∧ r'.Sound ∧ r'.inflights.window = w := by
  cases op with
  | add n =>
      simp only [Window.exec] at hw
      split at hw
      · cases hw
      · rename_i hfull
        obtain ⟨r', hadd, hs, hwin, -⟩ := add_refines h hfull n
        exact ⟨r', hadd, hs, hwin.trans (Option.some.inj hw)⟩
  | freeTo n =>
      exact ⟨_, rfl, freed_sound h n, (Inflights.freeTo_spec h.ring n).2.trans (Option.some.inj hw)⟩
  | freeFirstOne =>
      obtain ⟨-, hwin⟩ := Inflights.freeFirstOne_spec h.ring
      refine ⟨_, rfl, ?_, Option.some.inj (hwin.symm.trans hw)⟩
      unfold Inflights.freeFirstOne
      split
      · exact freed_sound h _
      · rename_i hc
        simpa [freed, hc] using h
  | setCapacity c =>
      obtain ⟨f', hset, -, hwin⟩ := Inflights.setCapacity_spec h.ring c
      refine ⟨⟨f', r.resized c⟩, by simp [exec, hset], resized_sound h hset, ?_⟩
      exact Option.some.inj (hwin.symm.trans hw)
  | reset =>
      obtain ⟨hs, hwin⟩ := r.inflights.reset_spec
      exact ⟨_, rfl, ⟨hs, rfl, by simp⟩, Option.some.inj (hwin.symm.trans hw)⟩

/-- What the queue does not allow, the ring refuses. -/
theorem exec_none (op : WindowOp) (hw : r.inflights.window.exec op = none) : r.exec op = none := by
  cases op with
  | add n =>
      have hfull : r.inflights.window.Full := by
        by_contra hfull
        simp [Window.exec, hfull] at hw
      simp [exec, Inflights.add, (Inflights.full_iff r.inflights).mpr hfull]
  | freeTo n => simp [Window.exec] at hw
  | freeFirstOne => simp [Window.exec] at hw
  | setCapacity c => simp [Window.exec] at hw
  | reset => simp [Window.exec] at hw

theorem exec_sound (h : r.Sound) {op : WindowOp} {r' : StoredInflights} (he : r.exec op = some r') :
    r'.Sound ∧ r.inflights.window.exec op = some r'.inflights.window := by
  cases hw : r.inflights.window.exec op with
  | none => simp [exec_none op hw] at he
  | some w =>
      obtain ⟨r'', he', hs, hwin⟩ := exec_refines h op hw
      obtain rfl : r'' = r' := Option.some.inj (he'.symm.trans he)
      exact ⟨hs, congrArg some hwin.symm⟩

theorem run_sound (h : r.Sound) {ops : List WindowOp} {r' : StoredInflights}
    (hr : r.run ops = some r') : r'.Sound := by
  induction ops generalizing r with
  | nil =>
      obtain rfl := Option.some.inj hr
      exact h
  | cons op ops ih =>
      obtain ⟨r₁, he, hrest⟩ := Option.bind_eq_some_iff.mp hr
      exact ih (exec_sound h he).1 hrest

/-- A run of the ring is the run of the queue. -/
theorem run_window (h : r.Sound) (ops : List WindowOp) :
    (r.run ops).map (·.inflights.window) = r.inflights.window.run ops := by
  induction ops generalizing r with
  | nil => rfl
  | cons op ops ih =>
      simp only [run, Window.run]
      cases hw : r.inflights.window.exec op with
      | none => simp [exec_none op hw]
      | some w =>
          obtain ⟨r₁, he, hs, rfl⟩ := exec_refines h op hw
          simp [he, ih hs]

/-- The slots an operation uses are slots of the ring, or the one that `add` appends. -/
theorem slots_lt (h : r.Sound) {op : WindowOp} {r' : StoredInflights} (he : r.exec op = some r')
    {j : ℕ} (hj : j ∈ r.inflights.slots op) :
    j < r.inflights.buffer.length ∨ (∃ n, op = .add n) ∧ j < r'.inflights.buffer.length := by
  cases op with
  | add n =>
      have hfull : ¬ r.inflights.window.Full := by
        intro hfull
        have hnone : r.exec (.add n) = none := exec_none _ (by simp [Window.exec, hfull])
        simp [hnone] at he
      obtain ⟨r'', he', -, -, hslot⟩ := add_refines h hfull n
      obtain rfl : r'' = r' := Option.some.inj (he'.symm.trans he)
      obtain rfl := List.mem_singleton.mp hj
      exact .inr ⟨⟨n, rfl⟩, hslot⟩
  | freeTo n => exact .inl (Inflights.freeSlots_lt h.ring hj)
  | freeFirstOne =>
      left
      simp only [Inflights.slots] at hj
      split at hj
      · rename_i hc
        rcases List.mem_cons.mp hj with rfl | hj
        · have hs := h.ring.start_lt_capacity hc
          simpa [hs] using h.ring.slot_lt_length hc
        · exact Inflights.freeSlots_lt h.ring hj
      · simp at hj
  | setCapacity c =>
      left
      simp only [Inflights.slots] at hj
      split at hj
      · rename_i hgrow
        have hlen := h.ring.filled
        have hle := h.ring.buffer_le
        have hn := h.ring.count_le
        simp only [List.mem_append, List.mem_range'_1, List.mem_range] at hj
        omega
      · simp at hj
  | reset => simp [Inflights.slots] at hj

/-- From any capacity and under any sequence of operations the ring is a bounded queue: the two
runs agree, with `add` refused exactly when the queue is full; in every state reached the elements
number at most the capacity and sit in slots that exist, and no assertion of an operation allowed
there fails, nor does it use a slot outside the ring. -/
theorem bounded_queue (capacity : ℕ) (ops : List WindowOp) :
    ((init capacity).run ops).map (·.inflights.window) = (Window.init capacity).run ops ∧
    ∀ r, (init capacity).run ops = some r →
      r.inflights.count ≤ r.inflights.capacity ∧
      (∀ i < r.inflights.count,
        Ring.slot r.inflights.capacity r.inflights.start i < r.inflights.buffer.length) ∧
      ∀ op, ((∃ n, op = .add n) → r.inflights.full = false) →
        ∃ r', r.exec op = some r' ∧ ∀ j ∈ r.inflights.slots op,
          j < r.inflights.buffer.length ∨ (∃ n, op = .add n) ∧ j < r'.inflights.buffer.length := by
  refine ⟨run_window (Sound.init capacity) ops, ?_⟩
  intro r hr
  have h := run_sound (Sound.init capacity) hr
  refine ⟨h.ring.count_le, fun i hi => h.ring.slot_lt_length hi, ?_⟩
  intro op hop
  have hallowed : ∃ w, r.inflights.window.exec op = some w := by
    cases op with
    | add n =>
        have hfull : ¬ r.inflights.window.Full := by
          rw [← Inflights.full_iff, hop ⟨n, rfl⟩]
          simp
        exact ⟨_, if_neg hfull⟩
    | freeTo n => exact ⟨_, rfl⟩
    | freeFirstOne => exact ⟨_, rfl⟩
    | setCapacity c => exact ⟨_, rfl⟩
    | reset => exact ⟨_, rfl⟩
  obtain ⟨w, hw⟩ := hallowed
  obtain ⟨r', he, -, -⟩ := exec_refines h op hw
  exact ⟨r', he, fun j hj => slots_lt h he hj⟩

end StoredInflights

end Raftz
