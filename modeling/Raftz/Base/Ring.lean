import Mathlib.Data.List.GetD
import Mathlib.Data.List.Range
import Mathlib.Tactic.Common

/-! # Reading a ring

A ring of capacity `cap` keeps its elements in a list of slots: the element at
distance `i` from the start sits in slot `start + i`, wrapped once at the
capacity.  The list of slots may be shorter than the capacity as long as the
ring has not wrapped.

`read` lists the elements from the start.  The lemmas say what pushing at the
end, dropping at the front, changing the capacity and unrolling the ring do to
that list. -/

namespace Base.Ring

/-- The slot at distance `i` from `start`. -/
def slot (cap start i : ℕ) : ℕ := if cap ≤ start + i then start + i - cap else start + i

@[simp] theorem slot_zero {cap start : ℕ} (h : start < cap) : slot cap start 0 = start := by
  simp [slot, h]

theorem slot_of_lt {cap start i : ℕ} (h : start + i < cap) : slot cap start i = start + i := by
  simp [slot, h]

theorem slot_lt {cap start i : ℕ} (hs : start < cap) (hi : i ≤ cap) : slot cap start i < cap := by
  unfold slot
  split <;> omega

theorem slot_slot {cap start i j : ℕ} (hs : start < cap) (h : i + j ≤ cap) :
    slot cap (slot cap start i) j = slot cap start (i + j) := by
  unfold slot
  split <;> split <;> split <;> omega

theorem slot_inj {cap start i j : ℕ} (hi : i < cap) (hj : j < cap)
    (h : slot cap start i = slot cap start j) : i = j := by
  unfold slot at h
  split at h <;> split at h <;> omega

variable {α : Type} [Inhabited α]

/-- The `n` elements from `start` on. -/
def read (xs : List α) (cap start n : ℕ) : List α :=
  (List.range n).map fun i => xs.getD (slot cap start i) default

@[simp] theorem length_read (xs : List α) (cap start n : ℕ) : (read xs cap start n).length = n := by
  simp [read]

@[simp] theorem read_zero (xs : List α) (cap start : ℕ) : read xs cap start 0 = [] := rfl

theorem read_congr {xs ys : List α} {cap cap' start start' n : ℕ}
    (h : ∀ i < n, xs.getD (slot cap start i) default = ys.getD (slot cap' start' i) default) :
    read xs cap start n = read ys cap' start' n := by
  unfold read
  apply List.map_congr_left
  intro i hi
  exact h i (List.mem_range.mp hi)

/-- The first element, and the rest read from the next slot. -/
theorem read_succ (xs : List α) {cap start n : ℕ} (hs : start < cap) (hn : n < cap) :
    read xs cap start (n + 1)
      = xs.getD start default :: read xs cap (slot cap start 1) n := by
  simp only [read, List.range_succ_eq_map, List.map_cons, List.map_map, slot_zero hs]
  congr 1
  apply List.map_congr_left
  intro i hi
  have hi' := List.mem_range.mp hi
  rw [Function.comp_apply, slot_slot hs (by omega), Nat.succ_eq_one_add]

/-- Dropping elements at the front moves the start. -/
theorem drop_read (xs : List α) {cap start n k : ℕ} (hs : start < cap) (hk : k ≤ n) (hn : n ≤ cap) :
    (read xs cap start n).drop k = read xs cap (slot cap start k) (n - k) := by
  induction k generalizing start n with
  | zero => simp [slot_zero hs]
  | succ k ih =>
      obtain ⟨m, rfl⟩ : ∃ m, n = m + 1 := ⟨n - 1, by omega⟩
      rw [read_succ xs hs (by omega), List.drop_succ_cons,
        ih (slot_lt hs (by omega)) (by omega) (by omega), slot_slot hs (by omega),
        Nat.add_sub_add_right, Nat.add_comm 1 k]

/-- Overwriting the slot after the last element appends to the ring. -/
theorem read_set {xs : List α} {cap start n : ℕ} (hn : n < cap)
    (hl : slot cap start n < xs.length) (a : α) :
    read (xs.set (slot cap start n) a) cap start (n + 1) = read xs cap start n ++ [a] := by
  unfold read
  rw [List.range_succ, List.map_append]
  congr 1
  · apply List.map_congr_left
    intro i hi
    have hi' := List.mem_range.mp hi
    have hne : slot cap start n ≠ slot cap start i := by
      intro h
      have := slot_inj hn (by omega) h
      omega
    simp [List.getD_eq_getElem?_getD, hne]
  · simp [List.getD_eq_getElem?_getD, hl]

/-- So does adding a slot, as long as the ring has not wrapped. -/
theorem read_append {xs : List α} {cap start n : ℕ} (hl : slot cap start n = xs.length)
    (hin : ∀ i < n, slot cap start i < xs.length) (a : α) :
    read (xs ++ [a]) cap start (n + 1) = read xs cap start n ++ [a] := by
  unfold read
  rw [List.range_succ, List.map_append]
  congr 1
  · apply List.map_congr_left
    intro i hi
    have := hin i (List.mem_range.mp hi)
    simp [List.getD_eq_getElem?_getD, List.getElem?_append_left this]
  · simp [List.getD_eq_getElem?_getD, hl]

/-- An unwrapped ring does not depend on its capacity. -/
theorem read_grow (xs : List α) {cap cap' start n : ℕ} (h : start + n ≤ cap) (hc : cap ≤ cap') :
    read xs cap start n = read xs cap' start n := by
  apply read_congr
  intro i hi
  rw [slot_of_lt (by omega), slot_of_lt (by omega)]

/-- The two runs of a wrapped ring, laid end to end, are its elements. -/
theorem read_unroll {xs : List α} {cap start n cap' : ℕ} (hs : start < cap) (hl : xs.length = cap)
    (hw : cap < start + n) (hn : n ≤ cap) (hc : cap ≤ cap') :
    read (xs.drop start ++ xs.take (n - (cap - start))) cap' 0 n = read xs cap start n := by
  apply read_congr
  intro i hi
  rw [slot_of_lt (by omega), Nat.zero_add]
  simp only [List.getD_eq_getElem?_getD]
  by_cases h : i < cap - start
  · rw [List.getElem?_append_left (by simp; omega), slot_of_lt (by omega), List.getElem?_drop]
  · have hslot : slot cap start i = i - (cap - start) := by
      unfold slot
      split <;> omega
    rw [List.getElem?_append_right (by simp; omega), List.length_drop, hl, hslot,
      List.getElem?_take_of_lt (by omega)]

end Base.Ring
