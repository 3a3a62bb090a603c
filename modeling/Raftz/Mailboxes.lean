import Mathlib.Data.List.Nodup
import Raftz.Base.FrontQueue
import Raftz.Types

/-! # Mailboxes

Threads of the transport leave messages and events for the event loop in bounded queues: the
mailboxes of `inbound_mailbox.zig` and `multi_inbound_mailbox.zig` refuse what exceeds a number of
messages or of bytes, the queues of `peer_event_queue.zig` and `multi_peer_event_queue.zig` drop
the oldest event, and leave out an event that waits already.

Each operation holds a lock, so the operations of all threads come one after another.  An operation
that fails an assertion, or leaves the machine integers, is none. -/

open Base

namespace Raftz

namespace Mailboxes

/-- The largest machine integer. -/
def maxUsize : ℕ := 2 ^ 64 - 1

structure Limits where
  maxMessages : ℕ
  maxBytes : ℕ

def Limits.validate (l : Limits) : Bool := l.maxMessages ≠ 0 && l.maxBytes ≠ 0

/-- A queue of messages with their encoded sizes. -/
structure Mailbox (μ : Type) where
  inbox : FrontQueue (μ × ℕ)
  encodedBytes : ℕ := 0
  limits : Limits

/-- An inbound message for a group. -/
structure Envelope where
  groupId : ℕ
  message : Message

/-- What an operation on a mailbox reports. -/
inductive Reply (μ : Type)
  | accepted
  | backpressure
  | popped (message : Option μ)
  | can (answer : Bool)
  | cleared
  deriving DecidableEq

/-- An operation on a mailbox. -/
inductive Op (μ : Type)
  | push (message : μ) (encodedSize : ℕ)
  | pop
  | canAccept (encodedSize : ℕ)
  | clear

namespace Mailbox

variable {μ : Type}

/-- A mailbox whose list has been given a capacity; none for limits of zero. -/
def init (limits : Limits) (capacity : ℕ) : Option (Mailbox μ) :=
  if limits.validate = true then some { inbox := { capacity := capacity }, limits := limits } else none

def canAccept (b : Mailbox μ) (encodedSize : ℕ) : Bool :=
  decide (b.inbox.items.length - b.inbox.head < b.limits.maxMessages) &&
    decide (encodedSize ≤ b.limits.maxBytes - b.encodedBytes)

def push (b : Mailbox μ) (message : μ) (encodedSize : ℕ) : Option (Reply μ × Mailbox μ) :=
  if b.limits.maxMessages ≤ b.inbox.items.length - b.inbox.head ∨
      b.limits.maxBytes - b.encodedBytes < encodedSize then some (.backpressure, b)
  else (b.inbox.append (message, encodedSize)).bind fun inbox =>
    if b.encodedBytes + encodedSize ≤ maxUsize then
      some (.accepted, { b with inbox := inbox, encodedBytes := b.encodedBytes + encodedSize })
    else none

def pop (b : Mailbox μ) : Option (Reply μ × Mailbox μ) :=
  match b.inbox.pop with
  | none => some (.popped none, b)
  | some (item, inbox) =>
      if item.2 ≤ b.encodedBytes then
        some (.popped (some item.1), { b with inbox := inbox, encodedBytes := b.encodedBytes - item.2 })
      else none

def clear (b : Mailbox μ) : Mailbox μ := { b with inbox := b.inbox.clear, encodedBytes := 0 }

def exec (b : Mailbox μ) : Op μ → Option (Reply μ × Mailbox μ)
  | .push message encodedSize => b.push message encodedSize
  | .pop => b.pop
  | .canAccept encodedSize => some (.can (b.canAccept encodedSize), b)
  | .clear => some (.cleared, b.clear)

/-- Operations one after another, with what they report. -/
def run : List (Op μ) → Mailbox μ → Option (List (Reply μ) × Mailbox μ)
  | [], b => some ([], b)
  | op :: ops, b => (b.exec op).bind fun r => (run ops r.2).map fun s => (r.1 :: s.1, s.2)

end Mailbox

/-- The mailbox of a single group. -/
abbrev InboundMailbox := Mailbox Message

/-- The mailbox of a transport that groups share. -/
abbrev MultiInboundMailbox := Mailbox Envelope

/-! ### What a mailbox is for -/

section fifo
variable {μ : Type}

/-- The bytes of messages. -/
def bytesOf (items : List (μ × ℕ)) : ℕ := (items.map Prod.snd).sum

/-- The same operations on a list: a queue with two bounds. -/
def fifo (limits : Limits) (items : List (μ × ℕ)) : Op μ → Reply μ × List (μ × ℕ)
  | .push message encodedSize =>
      if items.length < limits.maxMessages ∧ bytesOf items + encodedSize ≤ limits.maxBytes then
        (.accepted, items ++ [(message, encodedSize)])
      else (.backpressure, items)
  | .pop => (.popped (items.head?.map Prod.fst), items.tail)
  | .canAccept encodedSize =>
      (.can (decide (items.length < limits.maxMessages ∧ bytesOf items + encodedSize ≤ limits.maxBytes)), items)
  | .clear => (.cleared, [])

def fifoRun (limits : Limits) : List (Op μ) → List (μ × ℕ) → List (Reply μ) × List (μ × ℕ)
  | [], items => ([], items)
  | op :: ops, items =>
      let r := fifo limits items op
      let s := fifoRun limits ops r.2
      (r.1 :: s.1, s.2)

end fifo

namespace Mailbox

variable {μ : Type}

/-- The mailbox holds these messages, within its limits. -/
structure Holds (b : Mailbox μ) (limits : Limits) (items : List (μ × ℕ)) : Prop where
  fits : b.inbox.Fits
  pending : b.inbox.pending = items
  room : limits.maxMessages ≤ b.inbox.capacity
  limits_eq : b.limits = limits
  bytes : b.encodedBytes = bytesOf items
  length_le : items.length ≤ limits.maxMessages
  bytes_le : bytesOf items ≤ limits.maxBytes

theorem Holds.push {b : Mailbox μ} {limits : Limits} {items : List (μ × ℕ)} (h : b.Holds limits items)
    (hmax : limits.maxBytes ≤ maxUsize) (message : μ) (encodedSize : ℕ) :
    ∃ b', b.push message encodedSize = some ((fifo limits items (.push message encodedSize)).1, b') ∧
      b'.Holds limits (fifo limits items (.push message encodedSize)).2 := by
  have hlen : b.inbox.items.length - b.inbox.head = items.length := by
    rw [← FrontQueue.length_pending, h.pending]
  have hbytes := h.bytes_le
  unfold Mailbox.push fifo
  dsimp only
  rw [hlen, h.limits_eq, h.bytes]
  by_cases hroom : items.length < limits.maxMessages ∧ bytesOf items + encodedSize ≤ limits.maxBytes
  · obtain ⟨hlt, hle⟩ := hroom
    have hcap : b.inbox.pending.length < b.inbox.capacity := by
      rw [h.pending]
      exact lt_of_lt_of_le hlt h.room
    obtain ⟨inbox, happ, hfits, hsame, hpending⟩ := FrontQueue.append_eq h.fits hcap (message, encodedSize)
    have hfree : ¬(limits.maxMessages ≤ items.length ∨ limits.maxBytes - bytesOf items < encodedSize) := by omega
    rw [if_neg hfree, if_pos (And.intro hlt hle), happ, Option.bind_some, if_pos (hle.trans hmax)]
    refine ⟨_, rfl, hfits, hpending.trans (by rw [h.pending]), hsame ▸ h.room, rfl, ?_, ?_, ?_⟩
    · show _ = bytesOf (items ++ [(message, encodedSize)])
      unfold bytesOf
      rw [List.map_append, List.sum_append]
      rfl
    · rw [List.length_append, List.length_singleton]
      exact hlt
    · unfold bytesOf at *
      rw [List.map_append, List.sum_append]
      exact hle
  · have hfull : limits.maxMessages ≤ items.length ∨ limits.maxBytes - bytesOf items < encodedSize := by omega
    rw [if_pos hfull, if_neg hroom]
    exact ⟨b, rfl, h⟩

theorem Holds.pop {b : Mailbox μ} {limits : Limits} {items : List (μ × ℕ)} (h : b.Holds limits items) :
    ∃ b', b.pop = some ((fifo limits items .pop).1, b') ∧ b'.Holds limits (fifo limits items .pop).2 := by
  unfold Mailbox.pop fifo
  dsimp only
  cases hp : b.inbox.pop with
  | none =>
      have hnil : items = [] := h.pending.symm.trans (FrontQueue.pop_eq_none.mp hp)
      subst hnil
      exact ⟨b, rfl, h⟩
  | some r =>
      obtain ⟨item, inbox⟩ := r
      obtain ⟨hfits, hsame, hpending⟩ := FrontQueue.pop_eq_some h.fits hp
      have hitems : items = item :: inbox.pending := h.pending.symm.trans hpending
      have hsum : bytesOf items = item.2 + bytesOf inbox.pending := by
        rw [hitems]
        rfl
      have hlen := h.length_le
      have hle := h.bytes_le
      have hbytes := h.bytes
      dsimp only
      rw [if_pos (by omega)]
      refine ⟨{ b with inbox := inbox, encodedBytes := b.encodedBytes - item.2 }, by rw [hitems]; rfl, hfits, ?_,
        hsame ▸ h.room, h.limits_eq, ?_, ?_, ?_⟩
      · rw [hitems]
        rfl
      · show b.encodedBytes - item.2 = _
        rw [hitems, List.tail_cons]
        omega
      · rw [List.length_tail]
        omega
      · rw [hitems, List.tail_cons]
        omega

/-- An operation does what it does on the list. -/
theorem Holds.exec {b : Mailbox μ} {limits : Limits} {items : List (μ × ℕ)} (h : b.Holds limits items)
    (hmax : limits.maxBytes ≤ maxUsize) (op : Op μ) :
    ∃ b', b.exec op = some ((fifo limits items op).1, b') ∧ b'.Holds limits (fifo limits items op).2 := by
  cases op with
  | push message encodedSize => exact h.push hmax message encodedSize
  | pop => exact h.pop
  | canAccept encodedSize =>
      refine ⟨b, ?_, h⟩
      have hlen : b.inbox.items.length - b.inbox.head = items.length := by
        rw [← FrontQueue.length_pending, h.pending]
      have hbytes := h.bytes_le
      have heq : b.canAccept encodedSize =
          decide (items.length < limits.maxMessages ∧ bytesOf items + encodedSize ≤ limits.maxBytes) := by
        unfold Mailbox.canAccept
        rw [hlen, h.limits_eq, h.bytes, Bool.decide_and]
        congr 2
        exact propext ⟨by omega, by omega⟩
      show some (Reply.can (b.canAccept encodedSize), b) = _
      rw [heq]
      rfl
  | clear =>
      exact ⟨b.clear, rfl, .clear _, rfl, h.room, h.limits_eq, rfl, Nat.zero_le _, Nat.zero_le _⟩

theorem Holds.run {b : Mailbox μ} {limits : Limits} {items : List (μ × ℕ)} (h : b.Holds limits items)
    (hmax : limits.maxBytes ≤ maxUsize) (ops : List (Op μ)) :
    ∃ b', Mailbox.run ops b = some ((fifoRun limits ops items).1, b') ∧
      b'.Holds limits (fifoRun limits ops items).2 := by
  induction ops generalizing b items with
  | nil => exact ⟨b, rfl, h⟩
  | cons op ops ih =>
      obtain ⟨b1, h1, hb1⟩ := h.exec hmax op
      obtain ⟨b2, h2, hb2⟩ := ih hb1
      refine ⟨b2, ?_, hb2⟩
      unfold Mailbox.run
      rw [h1, Option.bind_some, h2, Option.map_some]
      rfl

/-- **A mailbox is a bounded queue.**  Whatever threads do with a new mailbox, nothing fails, all replies are those
of a list with the two bounds, and the list is what the mailbox holds in the end. -/
theorem mailbox_bounded {limits : Limits} {capacity : ℕ} {b : Mailbox μ} (hb : Mailbox.init limits capacity = some b)
    (hroom : limits.maxMessages ≤ capacity) (hmax : limits.maxBytes ≤ maxUsize) (ops : List (Op μ)) :
    ∃ b', Mailbox.run ops b = some ((fifoRun limits ops []).1, b') ∧
      b'.inbox.pending = (fifoRun limits ops []).2 ∧ b'.inbox.pending.length ≤ limits.maxMessages ∧
      b'.encodedBytes = bytesOf b'.inbox.pending ∧ b'.encodedBytes ≤ limits.maxBytes := by
  obtain ⟨-, heq⟩ := Option.ite_none_right_eq_some.mp hb
  cases heq
  have hholds : Holds { inbox := { capacity := capacity }, limits := limits } limits ([] : List (μ × ℕ)) :=
    ⟨⟨Nat.le_refl 0, Nat.zero_le _⟩, rfl, hroom, rfl, rfl, Nat.zero_le _, Nat.zero_le _⟩
  obtain ⟨b', hrun, h⟩ := hholds.run hmax ops
  refine ⟨b', hrun, h.pending, ?_, ?_, ?_⟩
  · rw [h.pending]
    exact h.length_le
  · rw [h.pending]
    exact h.bytes
  · rw [h.bytes]
    exact h.bytes_le

/-- Two messages fill the mailbox, and the first leaves it. -/
theorem mailbox_bounded_two : ∃ b b' : Mailbox ℕ, Mailbox.init ⟨2, 12⟩ 4 = some b ∧
    Mailbox.run [.push 1 5, .push 2 7, .push 3 1, .pop] b =
      some ([.accepted, .accepted, .backpressure, .popped (some 1)], b') ∧ b'.inbox.pending = [(2, 7)] := by
  obtain ⟨b', hrun, hpending, -⟩ := @mailbox_bounded ℕ ⟨2, 12⟩ 4 _ rfl (by decide) (by decide)
    [.push 1 5, .push 2 7, .push 3 1, .pop]
  exact ⟨_, b', rfl, hrun, hpending⟩

end Mailbox

/-! ### Events -/

/-- What happened at a peer. -/
inductive PeerEventKind
  | unreachable
  | snapshotFailure
  | identityRejected
  deriving DecidableEq, Repr

structure PeerEvent where
  peerId : ℕ
  kind : PeerEventKind
  deriving DecidableEq, Repr

structure MultiPeerEvent where
  groupId : ℕ
  peerId : ℕ
  kind : PeerEventKind
  deriving DecidableEq, Repr

/-- A queue of events, each with the generation of the connection that it is about. -/
structure EventQueue (ε : Type) where
  items : FrontQueue (ε × ℕ)
  maxEvents : ℕ

/-- An operation on a queue of events. -/
inductive EventOp (ε : Type)
  | push (event : ε) (generation : ℕ)
  | pop
  | clear

/-- The queue of a single group, and that of a transport that groups share. -/
abbrev PeerEventQueue := EventQueue PeerEvent

abbrev MultiPeerEventQueue := EventQueue MultiPeerEvent

namespace EventQueue

variable {ε : Type} [DecidableEq ε]

omit [DecidableEq ε] in
/-- A queue whose list has been given a capacity; none for a bound of zero. -/
def init (maxEvents capacity : ℕ) : Option (EventQueue ε) :=
  if maxEvents = 0 then none else some { items := { capacity := capacity }, maxEvents := maxEvents }

omit [DecidableEq ε] in
/-- Drop the oldest event of a full queue. -/
def dropOldest (q : EventQueue ε) : FrontQueue (ε × ℕ) :=
  if q.items.items.length - q.items.head = q.maxEvents then q.items.skip else q.items

def push (q : EventQueue ε) (event : ε) (generation : ℕ) : Option (EventQueue ε) :=
  if (event, generation) ∈ q.items.pending then some q
  else (q.dropOldest.append (event, generation)).map fun items => { q with items := items }

omit [DecidableEq ε] in
def pop (q : EventQueue ε) : Option ε × EventQueue ε :=
  match q.items.pop with
  | none => (none, q)
  | some (item, items) => (some item.1, { q with items := items })

def exec (q : EventQueue ε) : EventOp ε → Option (Option ε × EventQueue ε)
  | .push event generation => (q.push event generation).map fun q' => (none, q')
  | .pop => some q.pop
  | .clear => some (none, { q with items := q.items.clear })

/-- Operations one after another, with the events that are taken. -/
def run : List (EventOp ε) → EventQueue ε → Option (List (Option ε) × EventQueue ε)
  | [], q => some ([], q)
  | op :: ops, q => (q.exec op).bind fun r => (run ops r.2).map fun s => (r.1 :: s.1, s.2)

end EventQueue

/-! ### What a queue of events is for -/

section latest
variable {ε : Type} [DecidableEq ε]

/-- The same operations on a list: the latest events, each of them once. -/
def latest (maxEvents : ℕ) (items : List (ε × ℕ)) : EventOp ε → Option ε × List (ε × ℕ)
  | .push event generation =>
      if (event, generation) ∈ items then (none, items)
      else (none, (if items.length = maxEvents then items.tail else items) ++ [(event, generation)])
  | .pop => (items.head?.map Prod.fst, items.tail)
  | .clear => (none, [])

def latestRun (maxEvents : ℕ) : List (EventOp ε) → List (ε × ℕ) → List (Option ε) × List (ε × ℕ)
  | [], items => ([], items)
  | op :: ops, items =>
      let r := latest maxEvents items op
      let s := latestRun maxEvents ops r.2
      (r.1 :: s.1, s.2)

end latest

namespace EventQueue

variable {ε : Type} [DecidableEq ε]

omit [DecidableEq ε] in
/-- The queue holds these events, within its bound, and none of them twice. -/
structure Holds (q : EventQueue ε) (maxEvents : ℕ) (items : List (ε × ℕ)) : Prop where
  fits : q.items.Fits
  pending : q.items.pending = items
  room : maxEvents ≤ q.items.capacity
  maxEvents_eq : q.maxEvents = maxEvents
  length_le : items.length ≤ maxEvents
  nodup : items.Nodup

theorem Holds.push {q : EventQueue ε} {maxEvents : ℕ} {items : List (ε × ℕ)} (h : q.Holds maxEvents items)
    (hpos : 0 < maxEvents) (event : ε) (generation : ℕ) :
    ∃ q', q.push event generation = some q' ∧
      q'.Holds maxEvents (latest maxEvents items (.push event generation)).2 := by
  have hlen : q.items.items.length - q.items.head = items.length := by
    rw [← FrontQueue.length_pending, h.pending]
  have hle := h.length_le
  unfold EventQueue.push latest
  dsimp only
  rw [h.pending]
  split
  · exact ⟨q, rfl, h⟩
  · rename_i hnew
    -- what is left when the oldest event of a full queue is gone
    have hrest : ∃ rest, q.dropOldest.Fits ∧ q.dropOldest.pending = rest ∧
        q.dropOldest.capacity = q.items.capacity ∧ rest.length < maxEvents ∧ rest.Nodup ∧
        (event, generation) ∉ rest ∧ rest = if items.length = maxEvents then items.tail else items := by
      unfold dropOldest
      rw [hlen, h.maxEvents_eq]
      split
      · rename_i hfull
        have hne : q.items.pending ≠ [] := by
          rw [h.pending]
          rintro rfl
          exact hpos.ne hfull
        have hnew' : (event, generation) ∉ items.tail := fun hmem => hnew (List.mem_of_mem_tail hmem)
        refine ⟨items.tail, h.fits.skip hne, ?_, rfl, ?_, h.nodup.tail, hnew', rfl⟩
        · rw [FrontQueue.pending_skip, h.pending]
        · rw [List.length_tail]
          omega
      · exact ⟨items, h.fits, h.pending, rfl, by omega, h.nodup, hnew, rfl⟩
    obtain ⟨rest, hfits, hpending, hsame, hlt, hnodup, hnotmem, heq⟩ := hrest
    have hcap : q.dropOldest.pending.length < q.dropOldest.capacity := by
      rw [hpending, hsame]
      exact lt_of_lt_of_le hlt h.room
    obtain ⟨items', happ, hfits', hsame', hpending'⟩ := FrontQueue.append_eq hfits hcap (event, generation)
    rw [happ, ← heq]
    refine ⟨_, rfl, hfits', ?_, ?_, h.maxEvents_eq, ?_, ?_⟩
    · rw [hpending', hpending]
    · rw [hsame', hsame]
      exact h.room
    · rw [List.length_append, List.length_singleton]
      exact hlt
    · exact List.Nodup.append hnodup (List.nodup_singleton _) (List.disjoint_singleton.mpr hnotmem)

theorem Holds.pop {q : EventQueue ε} {maxEvents : ℕ} {items : List (ε × ℕ)} (h : q.Holds maxEvents items) :
    q.pop.1 = (latest maxEvents items .pop).1 ∧ q.pop.2.Holds maxEvents (latest maxEvents items .pop).2 := by
  unfold EventQueue.pop latest
  dsimp only
  cases hp : q.items.pop with
  | none =>
      have hnil : items = [] := h.pending.symm.trans (FrontQueue.pop_eq_none.mp hp)
      subst hnil
      exact ⟨rfl, h⟩
  | some r =>
      obtain ⟨item, rest⟩ := r
      obtain ⟨hfits, hsame, hpending⟩ := FrontQueue.pop_eq_some h.fits hp
      have hitems : items = item :: rest.pending := h.pending.symm.trans hpending
      have hlen := h.length_le
      refine ⟨by rw [hitems]; rfl, hfits, ?_, hsame ▸ h.room, h.maxEvents_eq, ?_, h.nodup.tail⟩
      · rw [hitems]
        rfl
      · rw [List.length_tail]
        omega

/-- An operation does what it does on the list. -/
theorem Holds.exec {q : EventQueue ε} {maxEvents : ℕ} {items : List (ε × ℕ)} (h : q.Holds maxEvents items)
    (hpos : 0 < maxEvents) (op : EventOp ε) :
    ∃ q', q.exec op = some ((latest maxEvents items op).1, q') ∧ q'.Holds maxEvents (latest maxEvents items op).2 := by
  cases op with
  | push event generation =>
      obtain ⟨q', hpush, hq'⟩ := h.push hpos event generation
      refine ⟨q', ?_, hq'⟩
      show (q.push event generation).map _ = _
      rw [hpush, Option.map_some]
      unfold latest
      dsimp only
      split <;> rfl
  | pop => exact ⟨q.pop.2, congrArg some (Prod.ext h.pop.1 rfl), h.pop.2⟩
  | clear => exact ⟨_, rfl, .clear _, rfl, h.room, h.maxEvents_eq, Nat.zero_le _, .nil⟩

theorem Holds.run {q : EventQueue ε} {maxEvents : ℕ} {items : List (ε × ℕ)} (h : q.Holds maxEvents items)
    (hpos : 0 < maxEvents) (ops : List (EventOp ε)) :
    ∃ q', EventQueue.run ops q = some ((latestRun maxEvents ops items).1, q') ∧
      q'.Holds maxEvents (latestRun maxEvents ops items).2 := by
  induction ops generalizing q items with
  | nil => exact ⟨q, rfl, h⟩
  | cons op ops ih =>
      obtain ⟨q1, h1, hq1⟩ := h.exec hpos op
      obtain ⟨q2, h2, hq2⟩ := ih hq1
      refine ⟨q2, ?_, hq2⟩
      unfold EventQueue.run
      rw [h1, Option.bind_some, h2, Option.map_some]
      rfl

/-- **The latest events, each of them once.**  Whatever threads do with a new queue of events, nothing fails, the
events that are taken are those of a list that drops its oldest event when it is full, and no event waits
twice. -/
theorem events_bounded {maxEvents capacity : ℕ} {q : EventQueue ε} (hq : EventQueue.init maxEvents capacity = some q)
    (hroom : maxEvents ≤ capacity) (ops : List (EventOp ε)) :
    ∃ q', EventQueue.run ops q = some ((latestRun maxEvents ops []).1, q') ∧
      q'.items.pending = (latestRun maxEvents ops []).2 ∧ q'.items.pending.length ≤ maxEvents ∧
      q'.items.pending.Nodup := by
  obtain ⟨hpos, heq⟩ := Option.ite_none_left_eq_some.mp hq
  cases heq
  have hholds : Holds { items := { capacity := capacity }, maxEvents := maxEvents } maxEvents ([] : List (ε × ℕ)) :=
    ⟨⟨Nat.le_refl 0, Nat.zero_le _⟩, rfl, hroom, rfl, Nat.zero_le _, .nil⟩
  obtain ⟨q', hrun, h⟩ := hholds.run (Nat.pos_of_ne_zero hpos) ops
  refine ⟨q', hrun, h.pending, ?_, ?_⟩
  · rw [h.pending]
    exact h.length_le
  · rw [h.pending]
    exact h.nodup

/-- The third event drops the first; a repeated one is left out. -/
theorem events_bounded_two : ∃ q q' : EventQueue ℕ, EventQueue.init 2 4 = some q ∧
    EventQueue.run [.push 1 1, .push 2 1, .push 2 1, .push 3 1, .pop] q = some ([none, none, none, none, some 2], q') ∧
      q'.items.pending = [(3, 1)] := by
  obtain ⟨q', hrun, hpending, -⟩ := @events_bounded ℕ _ 2 4 _ rfl (by decide)
    [.push 1 1, .push 2 1, .push 2 1, .push 3 1, .pop]
  exact ⟨_, q', rfl, hrun, hpending⟩

end EventQueue

end Mailboxes

end Raftz
