import Mathlib.Data.List.Basic
import Mathlib.Order.Nat
import Mathlib.Tactic.Common

/-! # A queue in a list of fixed capacity

A queue keeps its elements in a list that never grows beyond its capacity.  Elements are taken from
the front by moving the position `head`; the list is emptied when the last of them is taken, and
what has been taken is cut off when the list is full.

`pending` lists the elements that are left.  Each operation is described by what it does to that
list; `append` fails where the capacity does not suffice, and `append_eq` says that it does not
fail as long as fewer elements are left than the capacity. -/

namespace Base

structure FrontQueue (α : Type) where
  items : List α := []
  head : ℕ := 0
  capacity : ℕ

namespace FrontQueue

variable {α : Type} {q q' : FrontQueue α}

/-- What is left. -/
def pending (q : FrontQueue α) : List α := q.items.drop q.head

/-- Cut off what has been taken. -/
def compact (q : FrontQueue α) : FrontQueue α := { q with items := q.items.drop q.head, head := 0 }

/-- Leave out the first element. -/
def skip (q : FrontQueue α) : FrontQueue α := { q with head := q.head + 1 }

def clear (q : FrontQueue α) : FrontQueue α := { q with items := [], head := 0 }

/-- Make room in a full list. -/
def makeRoom (q : FrontQueue α) : FrontQueue α :=
  if 0 < q.head ∧ q.items.length = q.capacity then q.compact else q

/-- Add an element; none where there is no room. -/
def append (q : FrontQueue α) (x : α) : Option (FrontQueue α) :=
  if q.makeRoom.items.length < q.capacity then some { q.makeRoom with items := q.makeRoom.items ++ [x] } else none

/-- Take the first element. -/
def pop (q : FrontQueue α) : Option (α × FrontQueue α) :=
  (q.items[q.head]?).map fun x => (x, if q.head + 1 = q.items.length then q.clear else q.skip)

/-- The position is in the list, and the list within its capacity. -/
structure Fits (q : FrontQueue α) : Prop where
  head_le : q.head ≤ q.items.length
  le : q.items.length ≤ q.capacity

theorem length_pending (q : FrontQueue α) : q.pending.length = q.items.length - q.head := List.length_drop

theorem pending_skip (q : FrontQueue α) : q.skip.pending = q.pending.tail := by
  unfold pending skip
  rw [List.tail_drop]

theorem Fits.clear (q : FrontQueue α) : q.clear.Fits := ⟨Nat.le_refl 0, Nat.zero_le _⟩

theorem Fits.compact (h : q.Fits) : q.compact.Fits := by
  refine ⟨Nat.zero_le _, ?_⟩
  have hle := h.le
  have hlen : q.compact.items.length = q.items.length - q.head := List.length_drop
  show q.compact.items.length ≤ q.capacity
  omega

theorem Fits.skip (h : q.Fits) (hne : q.pending ≠ []) : q.skip.Fits := by
  have hlen := length_pending q
  have hpos := List.length_pos_iff.mpr hne
  refine ⟨?_, h.le⟩
  show q.head + 1 ≤ q.items.length
  omega

theorem Fits.makeRoom (h : q.Fits) : q.makeRoom.Fits := by
  unfold FrontQueue.makeRoom
  split
  · exact h.compact
  · exact h

@[simp] theorem pending_makeRoom (q : FrontQueue α) : q.makeRoom.pending = q.pending := by
  unfold makeRoom
  split <;> rfl

@[simp] theorem capacity_makeRoom (q : FrontQueue α) : q.makeRoom.capacity = q.capacity := by
  unfold makeRoom
  split <;> rfl

/-- A list that is still full afterwards is full of what is left. -/
theorem length_makeRoom (h : q.Fits) (hlt : q.pending.length < q.capacity) :
    q.makeRoom.items.length < q.capacity := by
  have hle := h.le
  have hhead := h.head_le
  have hlen := length_pending q
  unfold makeRoom
  split
  · exact hlt
  · rename_i hfull
    by_cases hz : 0 < q.head
    · exact lt_of_le_of_ne hle fun heq => hfull ⟨hz, heq⟩
    · omega

/-- There is room as long as fewer elements are left than the capacity. -/
theorem append_eq (h : q.Fits) (hlt : q.pending.length < q.capacity) (x : α) :
    ∃ q', q.append x = some q' ∧ q'.Fits ∧ q'.capacity = q.capacity ∧ q'.pending = q.pending ++ [x] := by
  have hroom := length_makeRoom h hlt
  have hfits := h.makeRoom
  refine ⟨_, if_pos hroom, ⟨?_, ?_⟩, capacity_makeRoom q, ?_⟩
  · show q.makeRoom.head ≤ (q.makeRoom.items ++ [x]).length
    rw [List.length_append]
    exact hfits.head_le.trans (Nat.le_add_right _ _)
  · show (q.makeRoom.items ++ [x]).length ≤ q.makeRoom.capacity
    rw [List.length_append, List.length_singleton, capacity_makeRoom]
    exact hroom
  · show (q.makeRoom.items ++ [x]).drop q.makeRoom.head = q.pending ++ [x]
    rw [List.drop_append_of_le_length hfits.head_le, ← pending_makeRoom q]
    rfl

theorem pop_eq_none : q.pop = none ↔ q.pending = [] := by
  unfold pop pending
  rw [Option.map_eq_none_iff, List.getElem?_eq_none_iff, List.drop_eq_nil_iff]

theorem pop_eq_some (h : q.Fits) {x : α} (hp : q.pop = some (x, q')) :
    q'.Fits ∧ q'.capacity = q.capacity ∧ q.pending = x :: q'.pending := by
  obtain ⟨y, hy, heq⟩ := Option.map_eq_some_iff.mp hp
  obtain ⟨hlt, hget⟩ := List.getElem?_eq_some_iff.mp hy
  have hpending : q.pending = y :: q.items.drop (q.head + 1) := by
    rw [← hget]
    exact List.drop_eq_getElem_cons hlt
  obtain ⟨rfl, rfl⟩ := Prod.mk.inj heq
  split
  · rename_i hlast
    refine ⟨.clear q, rfl, ?_⟩
    rw [hpending, hlast, List.drop_length]
    rfl
  · exact ⟨h.skip (by rw [hpending]; exact List.cons_ne_nil _ _), rfl, hpending⟩

end FrontQueue

end Base
