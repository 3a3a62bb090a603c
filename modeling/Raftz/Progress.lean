import Mathlib.Data.List.GetD
import Raftz.Base.Collections
import Raftz.Types

/-! # Replication progress

`Inflights` of `inflights.zig` (the ring buffer of in-flight append messages)
and `Progress` of `progress.zig` (how far a peer replicates the leader's log).
Methods that only change the record are functions on it; the two that can abort
(`Inflights.add` on a full ring and `Progress.updateState` in the snapshot
state) return `none` in that case. -/

open Base

namespace Raftz

/-- Ring buffer of in-flight entry indexes; `buffer` holds the slots ever written and `allocated`
records whether its storage has been reserved. -/
structure Inflights where
  start : ℕ := 0
  count : ℕ := 0
  buffer : List ℕ := []
  allocated : Bool := false
  capacity : ℕ
  incomingCapacity : Option ℕ := none
  deriving DecidableEq, Repr, Inhabited

namespace Inflights

/-- An empty ring. -/
def init (capacity : ℕ) : Inflights := { capacity := capacity }

/-- Adjust the capacity: growth takes effect at once, shrinking waits for the ring to drain. -/
def setCapacity (f : Inflights) (incoming : ℕ) : Option Inflights :=
  if f.capacity = incoming then some { f with incomingCapacity := none }
  else if f.capacity < incoming then
    if f.start + f.count ≤ f.capacity then
      some { f with capacity := incoming, incomingCapacity := none }
    else if f.capacity = f.buffer.length then
      some { f with
        buffer := f.buffer.drop f.start ++ f.buffer.take (f.count - (f.capacity - f.start))
        allocated := true
        start := 0
        capacity := incoming
        incomingCapacity := none }
    else none
  else if f.count = 0 then
    if f.allocated then
      some { f with
        capacity := incoming
        incomingCapacity := none
        start := 0
        buffer := []
        allocated := decide (0 < incoming) }
    else some { f with capacity := incoming, incomingCapacity := none, start := 0 }
  else some { f with incomingCapacity := some incoming }

/-- Drop every index and free the storage; a pending shrink takes effect. -/
def reset (f : Inflights) : Inflights where
  start := 0
  count := 0
  buffer := []
  allocated := false
  capacity := f.incomingCapacity.getD f.capacity
  incomingCapacity := none

/-- The scan of `freeTo`: how many slots are released and where the ring starts then. -/
def freeScan (f : Inflights) (upTo : ℕ) : ℕ → ℕ → ℕ → ℕ × ℕ
  | 0, i, idx => (i, idx)
  | n + 1, i, idx =>
      if upTo < f.buffer.getD idx 0 then (i, idx)
      else f.freeScan upTo n (i + 1)
        (if f.capacity ≤ idx + 1 then idx + 1 - f.capacity else idx + 1)

/-- Release all indexes up to and including `upTo`. -/
def freeTo (f : Inflights) (upTo : ℕ) : Inflights :=
  if f.count = 0 ∨ upTo < f.buffer.getD f.start 0 then f
  else
    let r := f.freeScan upTo f.count 0 f.start
    if f.count - r.1 = 0 then
      match f.incomingCapacity with
      | some cap => { f with
          start := 0
          count := 0
          capacity := cap
          buffer := []
          allocated := decide (0 < cap)
          incomingCapacity := none }
      | none => { f with count := 0, start := r.2 }
    else { f with count := f.count - r.1, start := r.2 }

/-- Release the oldest index. -/
def freeFirstOne (f : Inflights) : Inflights :=
  if 0 < f.count then f.freeTo (f.buffer.getD f.start 0) else f

/-- Is the ring at its (pending) capacity? -/
def full (f : Inflights) : Bool :=
  f.count == f.capacity || (match f.incomingCapacity with
    | some cap => decide (cap ≤ f.count)
    | none => false)

/-- Append an index; a full ring aborts. -/
def add (f : Inflights) (inflight : ℕ) : Option Inflights :=
  if f.full then none
  else if f.allocated = false ∧ ¬ (f.count = 0 ∧ f.start = 0 ∧ f.incomingCapacity = none) then none
  else
    let next := if f.capacity ≤ f.start + f.count then f.start + f.count - f.capacity
      else f.start + f.count
    if f.buffer.length < next then none
    else if next = f.buffer.length then
      some { f with buffer := f.buffer ++ [inflight], allocated := true, count := f.count + 1 }
    else
      some { f with buffer := f.buffer.set next inflight, allocated := true, count := f.count + 1 }

end Inflights

/-- Replication state of a peer. -/
inductive ProgressState
  | probe
  | replicate
  | snapshot
  deriving DecidableEq, Repr

/-- How closely a peer replicates the leader's log. -/
structure Progress where
  matched : ℕ := 0
  nextIdx : ℕ
  state : ProgressState := .probe
  paused : Bool := false
  pendingSnapshot : ℕ := 0
  pendingRequestSnapshot : ℕ := 0
  recentActive : Bool := false
  inflights : Inflights
  commitGroupId : ℕ := 0
  committedIndex : ℕ := 0
  deriving DecidableEq, Repr

namespace Progress

/-- A fresh progress. -/
def init (nextIdx maxInflight : ℕ) : Progress :=
  { nextIdx := nextIdx, inflights := Inflights.init maxInflight }

/-- Forget what is known about the peer. -/
def reset (p : Progress) (nextIdx : ℕ) : Progress :=
  { p with
    matched := 0
    nextIdx := nextIdx
    state := .probe
    paused := false
    pendingSnapshot := 0
    pendingRequestSnapshot := 0
    recentActive := false
    inflights := p.inflights.reset }

/-- Enter a state with an empty ring. -/
def resetState (p : Progress) (state : ProgressState) : Progress :=
  { p with paused := false, pendingSnapshot := 0, state := state, inflights := p.inflights.reset }

/-- Probe from the position after the match, or after a pending snapshot. -/
def becomeProbe (p : Progress) : Progress :=
  if p.state = .snapshot then
    { p.resetState .probe with nextIdx := max (p.matched + 1) (p.pendingSnapshot + 1) }
  else { p.resetState .probe with nextIdx := p.matched + 1 }

/-- Stream entries from the position after the match. -/
def becomeReplicate (p : Progress) : Progress :=
  { p.resetState .replicate with nextIdx := p.matched + 1 }

/-- Wait for a snapshot to be installed. -/
def becomeSnapshot (p : Progress) (snapshotIdx : ℕ) : Progress :=
  { p.resetState .snapshot with pendingSnapshot := snapshotIdx }

/-- Has the peer acknowledged the snapshot it was sent? -/
def isSnapshotCaughtUp (p : Progress) : Bool :=
  p.state == .snapshot && decide (p.pendingSnapshot ≤ p.matched)

/-- Let a paused probe send again (`resume_`). -/
def resume (p : Progress) : Progress := { p with paused := false }
/-- Hold back a probe. -/
def pause (p : Progress) : Progress := { p with paused := true }

/-- Raise the peer's known commit index. -/
def updateCommitted (p : Progress) (committedIndex : ℕ) : Progress :=
  if p.committedIndex < committedIndex then { p with committedIndex := committedIndex } else p

/-- Raise the match to `n`; the flag says whether it advanced. -/
def maybeUpdate (p : Progress) (n : ℕ) : Progress × Bool :=
  let q := if p.matched < n then { p with matched := n, paused := false } else p
  ((if q.nextIdx < n + 1 then { q with nextIdx := n + 1 } else q), decide (p.matched < n))

/-- The next entry to send follows `n`. -/
def optimisticUpdate (p : Progress) (n : ℕ) : Progress := { p with nextIdx := n + 1 }

/-- Bookkeeping after entries up to `last` have been sent. -/
def updateState (p : Progress) (last : ℕ) : Option Progress :=
  match p.state with
  | .probe => some p.pause
  | .replicate =>
      match p.inflights.add last with
      | some f => some { p.optimisticUpdate last with inflights := f }
      | none => none
  | .snapshot => none

/-- The snapshot could not be sent. -/
def snapshotFailure (p : Progress) : Progress := { p with pendingSnapshot := 0 }

/-- May nothing be sent to the peer? -/
def isPaused (p : Progress) : Bool :=
  match p.state with
  | .probe => p.paused
  | .replicate => p.inflights.full
  | .snapshot => true

/-- React to a rejection; the flag says whether something was adjusted. -/
def maybeDecTo (p : Progress) (rejected matchHint requestSnapshot : ℕ) : Progress × Bool :=
  if p.state = .replicate then
    if rejected < p.matched ∨ (rejected = p.matched ∧ requestSnapshot = invalidIndex) then (p, false)
    else if requestSnapshot = invalidIndex then ({ p with nextIdx := p.matched + 1 }, true)
    else ({ p with pendingRequestSnapshot := requestSnapshot }, true)
  else if (p.nextIdx = 0 ∨ p.nextIdx - 1 ≠ rejected) ∧ requestSnapshot = invalidIndex then (p, false)
  else if requestSnapshot = invalidIndex then
    ({ p with nextIdx := max (min rejected (matchHint + 1)) (p.matched + 1), paused := false }, true)
  else if p.pendingRequestSnapshot = invalidIndex then
    ({ p with pendingRequestSnapshot := requestSnapshot, paused := false }, true)
  else (p.resume, true)

end Progress

/-- Map of node id to progress. -/
abbrev ProgressMap := AList (fun _ : ℕ => Progress)

/-! ### Acknowledged indexes under the updates -/

namespace Progress

variable (p : Progress)

@[simp] theorem reset_matched (n : ℕ) : (p.reset n).matched = 0 := rfl
@[simp] theorem becomeReplicate_matched : p.becomeReplicate.matched = p.matched := rfl
@[simp] theorem becomeSnapshot_matched (i : ℕ) : (p.becomeSnapshot i).matched = p.matched := rfl
@[simp] theorem resume_matched : p.resume.matched = p.matched := rfl
@[simp] theorem pause_matched : p.pause.matched = p.matched := rfl
@[simp] theorem snapshotFailure_matched : p.snapshotFailure.matched = p.matched := rfl

@[simp] theorem becomeProbe_matched : p.becomeProbe.matched = p.matched := by
  unfold becomeProbe
  split <;> rfl

@[simp] theorem updateCommitted_matched (i : ℕ) : (p.updateCommitted i).matched = p.matched := by
  unfold updateCommitted
  split <;> rfl

@[simp] theorem updateCommitted_state (i : ℕ) : (p.updateCommitted i).state = p.state := by
  unfold updateCommitted
  split <;> rfl

@[simp] theorem updateCommitted_nextIdx (i : ℕ) : (p.updateCommitted i).nextIdx = p.nextIdx := by
  unfold updateCommitted
  split <;> rfl

theorem maybeUpdate_matched (n : ℕ) : (p.maybeUpdate n).1.matched = max p.matched n := by
  unfold maybeUpdate
  dsimp only
  split <;> split <;> simp_all <;> omega

@[simp] theorem maybeDecTo_matched (r h s : ℕ) : (p.maybeDecTo r h s).1.matched = p.matched := by
  unfold maybeDecTo
  split
  · split
    · rfl
    · split <;> rfl
  · split
    · rfl
    · split
      · rfl
      · split <;> rfl

/-- The rejection of the entry a probe asked about always moves the next index. -/
theorem maybeDecTo_probe {p : Progress} {rejected : ℕ} (hint : ℕ) (hs : p.state = .probe)
    (hn : p.nextIdx = rejected + 1) :
    ∃ q, p.maybeDecTo rejected hint invalidIndex = (q, true) ∧ q.state = .probe ∧ q.matched = p.matched ∧
      q.nextIdx = max (min rejected (hint + 1)) (p.matched + 1) := by
  refine ⟨{ p with nextIdx := max (min rejected (hint + 1)) (p.matched + 1), paused := false }, ?_, hs, rfl,
    rfl⟩
  unfold maybeDecTo
  rw [if_neg (by rw [hs]; decide), if_neg (by omega), if_pos rfl]

theorem updateState_matched {q : Progress} {last : ℕ} (h : p.updateState last = some q) :
    q.matched = p.matched := by
  unfold updateState at h
  split at h
  · cases h
    rfl
  · split at h
    · cases h
      rfl
    · cases h
  · cases h

end Progress

end Raftz
