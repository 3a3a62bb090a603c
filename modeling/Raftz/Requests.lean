import Mathlib.Data.List.AList
import Raftz.Base.Act
import Raftz.Types

/-! # Requests and their answers

A `Raftor` takes proposals and read requests from any thread, moves them through
two queues and a tracker, and answers each by a callback: `raftor.zig`,
`proposal_queue.zig` and `proposal_tracker.zig`, with the calls that
`ready_processor.zig` makes on the tracker.

A step of the system is one critical section under the lifecycle, a queue or the
tracker lock, or the invocation of one callback.  The event loop is one thread:
while it holds detached callbacks it invokes them before it goes on, but any
other thread may come in between.  Which section the event loop enters next, and
with which arguments, is left open.

Callbacks stand for the calls they were passed to: `calls` numbers the calls of
`propose` and `readIndex`, `accepted` and `refused` say how they returned. -/

open Base

namespace Raftz

namespace Requests

/-- Errors given to callers and callbacks. -/
inductive RequestErr
  | shuttingDown
  | proposalBackpressure
  | readIndexBackpressure
  | contextSequenceExhausted
  | outOfMemory
  | duplicateRequest
  | timeout
  | lostLeadership
  | raft (e : Err)
  deriving DecidableEq, Repr

/-- What a callback is given; a read has no response. -/
inductive RequestResult
  | ok (response : Option Bytes)
  | err (e : RequestErr)
  deriving DecidableEq, Repr

/-- A callback on its way to be invoked. -/
abbrev Answer : Type := ℕ × RequestResult

/-! ### Queues -/

/-- A proposal in its queue. -/
structure ProposalItem where
  data : Bytes
  ctx : Bytes
  callback : ℕ
  deriving DecidableEq, Repr

/-- A read request in its queue. -/
structure ReadIndexItem where
  ctx : Bytes
  callback : ℕ
  deriving DecidableEq, Repr

/-- A bounded queue. -/
structure Queue (α : Type) where
  maxItems : ℕ
  maxBytes : ℕ
  items : List α := []
  queuedBytes : ℕ := 0

namespace Queue
variable {α : Type}

/-- Append an item; `oom` is a failed allocation. -/
def push (q : Queue α) (itemBytes : ℕ) (item : α) (oom : Bool) (full : RequestErr) :
    Except RequestErr (Queue α) := do
  ensure (q.items.length < q.maxItems) full
  ensure (itemBytes ≤ q.maxBytes - q.queuedBytes) full
  ensure (oom = false) .outOfMemory
  return { q with items := q.items ++ [item], queuedBytes := q.queuedBytes + itemBytes }

/-- The first item and the rest. -/
def tryPop (q : Queue α) (itemBytes : α → ℕ) : Option (α × Queue α) :=
  match q.items with
  | [] => none
  | item :: items =>
      some (item, { q with items := items, queuedBytes := q.queuedBytes - itemBytes item })

/-- The queue once everything is taken. -/
def takeAll (q : Queue α) : Queue α := { q with items := [], queuedBytes := 0 }

end Queue

/-! ### The tracker -/

/-- A proposal that waits for its entry to be applied. -/
structure PendingProposal where
  callback : ℕ
  deadlineTick : ℕ
  deriving DecidableEq, Repr

/-- A read that waits for its index to be confirmed and applied. -/
structure PendingRead where
  callback : ℕ
  deadlineTick : ℕ
  readyIndex : Option ℕ := none
  deriving DecidableEq, Repr

/-- A hash map by context bytes. -/
abbrev ContextMap (α : Type) : Type := AList (fun _ : Bytes => α)

/-- The requests that have left their queue. -/
structure ProposalTracker where
  proposals : ContextMap PendingProposal := ∅
  reads : ContextMap PendingRead := ∅

/-- The tick at which a request times out. -/
def deadline (currentTick timeoutTicks : ℕ) : ℕ :=
  if timeoutTicks = 0 then maxU64 else min (currentTick + timeoutTicks) maxU64

namespace ProposalTracker

/-- Register a proposal. -/
def track (t : ProposalTracker) (ctx : Bytes) (callback currentTick timeoutTicks : ℕ) (oom : Bool) :
    Except RequestErr ProposalTracker := do
  ensure (ctx ∉ t.proposals) .duplicateRequest
  ensure (oom = false) .outOfMemory
  return { t with proposals := t.proposals.insert ctx ⟨callback, deadline currentTick timeoutTicks⟩ }

/-- Register a read. -/
def trackRead (t : ProposalTracker) (ctx : Bytes) (callback currentTick timeoutTicks : ℕ)
    (oom : Bool) : Except RequestErr ProposalTracker := do
  ensure (ctx ∉ t.reads) .duplicateRequest
  ensure (oom = false) .outOfMemory
  return { t with reads := t.reads.insert ctx ⟨callback, deadline currentTick timeoutTicks, none⟩ }

/-- A read is confirmed at an index. -/
def markReadReady (t : ProposalTracker) (ctx : Bytes) (index : ℕ) : ProposalTracker :=
  match t.reads.lookup ctx with
  | none => t
  | some p => { t with reads := t.reads.insert ctx { p with
      readyIndex := match p.readyIndex with
        | some current => some (max current index)
        | none => some index } }

/-- All callbacks, each with an error. -/
def detachAll (t : ProposalTracker) (proposalError readError : RequestErr) : List Answer :=
  (t.proposals.entries.map fun e => (e.2.callback, .err proposalError)) ++
    t.reads.entries.map fun e => (e.2.callback, .err readError)

end ProposalTracker

/-! ### The driver -/

/-- Where the driver stands. -/
inductive Lifecycle
  | active
  | stopping
  | stopped
  | terminating
  | terminal
  deriving DecidableEq, Repr

/-- Limits of the driver. -/
structure RaftorConfig where
  maxQueuedProposals : ℕ
  maxQueuedProposalBytes : ℕ
  maxQueuedReadIndexes : ℕ
  maxQueuedReadIndexBytes : ℕ
  proposalTimeoutTicks : ℕ
  readIndexTimeoutTicks : ℕ
  deriving DecidableEq, Repr

/-- What the locks protect, and the clock and applied index of the event loop. -/
structure Raftor where
  config : RaftorConfig
  proposalQueue : Queue ProposalItem
  readIndexQueue : Queue ReadIndexItem
  proposalTracker : ProposalTracker := {}
  lifecycle : Lifecycle := .active
  terminalError : Option RequestErr := none
  tickCount : ℕ := 0
  appliedIndex : ℕ := 0

/-- Bytes before the user's part of a context. -/
def headerSize : ℕ := 32

namespace Raftor

/-- A new driver. -/
def init (config : RaftorConfig) : Raftor where
  config := config
  proposalQueue := { maxItems := config.maxQueuedProposals, maxBytes := config.maxQueuedProposalBytes }
  readIndexQueue := {
    maxItems := config.maxQueuedReadIndexes, maxBytes := config.maxQueuedReadIndexBytes }

/-- Submit a proposal; `context` is what the context generator gives. -/
def propose (r : Raftor) (data : Bytes) (context : Except RequestErr Bytes) (oom : Bool)
    (callback : ℕ) : Except RequestErr Raftor := do
  ensure (data.length + headerSize ≤ r.config.maxQueuedProposalBytes) .proposalBackpressure
  let ctx ← context
  ensure (r.lifecycle = .active) .shuttingDown
  let q ← r.proposalQueue.push (data.length + ctx.length) ⟨data, ctx, callback⟩ oom
    .proposalBackpressure
  return { r with proposalQueue := q }

/-- Submit a read request; `suffix` is the user's part of its context. -/
def readIndex (r : Raftor) (suffix : Bytes) (context : Except RequestErr Bytes) (oom : Bool)
    (callback : ℕ) : Except RequestErr Raftor := do
  ensure (suffix.length + headerSize ≤ r.config.maxQueuedReadIndexBytes) .readIndexBackpressure
  let ctx ← context
  ensure (r.lifecycle = .active) .shuttingDown
  let q ← r.readIndexQueue.push ctx.length ⟨ctx, callback⟩ oom .readIndexBackpressure
  return { r with readIndexQueue := q }

/-- Every callback in the queues and the tracker, with the errors of a shutdown. -/
def detachRequests (r : Raftor) (proposalError readError : RequestErr) : List Answer :=
  (r.proposalQueue.items.map fun item => (item.callback, .err proposalError)) ++
    (r.readIndexQueue.items.map fun item => (item.callback, .err readError)) ++
    r.proposalTracker.detachAll proposalError readError

/-- The driver once its requests are detached. -/
def detached (r : Raftor) (lifecycle : Lifecycle) : Raftor :=
  { r with
    lifecycle := lifecycle
    proposalQueue := r.proposalQueue.takeAll
    readIndexQueue := r.readIndexQueue.takeAll
    proposalTracker := {} }

end Raftor

/-! ### The system -/

/-- The driver, the callbacks that the event loop and a shutdown have detached, those invoked so
far, and how the calls returned. -/
structure System where
  raftor : Raftor
  loop : List Answer := []
  shutdown : List Answer := []
  invoked : List Answer := []
  calls : ℕ := 0
  accepted : List ℕ := []
  refused : List ℕ := []

namespace System

/-- How a call returns. -/
def returned (s : System) (result : Except RequestErr Raftor) : System :=
  match result with
  | .ok r => { s with raftor := r, calls := s.calls + 1, accepted := s.accepted ++ [s.calls] }
  | .error _ => { s with calls := s.calls + 1, refused := s.refused ++ [s.calls] }

/-- One proposal of `drainIngress`. -/
def drainProposal (s : System) (oom : Bool) : System :=
  if s.raftor.lifecycle ≠ .active then s
  else
    match s.raftor.proposalQueue.tryPop fun item => item.data.length + item.ctx.length with
    | none => s
    | some (item, q) =>
        match s.raftor.proposalTracker.track item.ctx item.callback s.raftor.tickCount
            s.raftor.config.proposalTimeoutTicks oom with
        | .ok t => { s with raftor := { s.raftor with proposalQueue := q, proposalTracker := t } }
        | .error e => { s with
            raftor := { s.raftor with proposalQueue := q }, loop := [(item.callback, .err e)] }

/-- One read of `drainIngress`. -/
def drainRead (s : System) (oom : Bool) : System :=
  if s.raftor.lifecycle ≠ .active then s
  else
    match s.raftor.readIndexQueue.tryPop fun item => item.ctx.length with
    | none => s
    | some (item, q) =>
        match s.raftor.proposalTracker.trackRead item.ctx item.callback s.raftor.tickCount
            s.raftor.config.readIndexTimeoutTicks oom with
        | .ok t => { s with raftor := { s.raftor with readIndexQueue := q, proposalTracker := t } }
        | .error e => { s with
            raftor := { s.raftor with readIndexQueue := q }, loop := [(item.callback, .err e)] }

/-- Detach a proposal from the tracker, if it is there. -/
def answerProposal (s : System) (ctx : Bytes) (result : RequestResult) : System :=
  match s.raftor.proposalTracker.proposals.lookup ctx with
  | none => s
  | some p => { s with
      raftor := { s.raftor with proposalTracker := { s.raftor.proposalTracker with
        proposals := s.raftor.proposalTracker.proposals.erase ctx } }
      loop := [(p.callback, result)] }

/-- Detach a read from the tracker, if it is there. -/
def answerRead (s : System) (ctx : Bytes) (result : RequestResult) : System :=
  match s.raftor.proposalTracker.reads.lookup ctx with
  | none => s
  | some p => { s with
      raftor := { s.raftor with proposalTracker := { s.raftor.proposalTracker with
        reads := s.raftor.proposalTracker.reads.erase ctx } }
      loop := [(p.callback, result)] }

/-- The entry of a proposal is applied. -/
def complete (s : System) (ctx response : Bytes) : System :=
  s.answerProposal ctx (.ok (some response))

/-- A proposal fails. -/
def fail (s : System) (ctx : Bytes) (e : RequestErr) : System := s.answerProposal ctx (.err e)

/-- A read fails. -/
def failRead (s : System) (ctx : Bytes) (e : RequestErr) : System := s.answerRead ctx (.err e)

/-- A read is confirmed. -/
def markReadReady (s : System) (ctx : Bytes) (index : ℕ) : System :=
  { s with raftor := { s.raftor with
      proposalTracker := s.raftor.proposalTracker.markReadReady ctx index } }

/-- The node has lost the leadership: the tracker is emptied. -/
def checkLeadershipChange (s : System) : System :=
  { s with
    raftor := { s.raftor with proposalTracker := {} }
    loop := s.raftor.proposalTracker.detachAll (.raft .proposalDropped) .lostLeadership }

/-- The first section of `stop`. -/
def stop (s : System) : System :=
  if s.raftor.lifecycle = .active then
    { s with
      raftor := s.raftor.detached .stopping
      shutdown := s.raftor.detachRequests .shuttingDown .shuttingDown }
  else s

/-- The first section of `enterTerminal`. -/
def enterTerminal (s : System) (e : RequestErr) : System :=
  let r := { s.raftor with terminalError := some (s.raftor.terminalError.getD e) }
  if s.raftor.lifecycle = .active then
    { s with raftor := r.detached .terminating, shutdown := s.raftor.detachRequests e e }
  else { s with raftor := r }

/-- The last section of a shutdown, by the thread that took the requests. -/
def finishShutdown (s : System) : System :=
  match s.raftor.lifecycle with
  | .stopping => { s with raftor := { s.raftor with lifecycle := .stopped } }
  | .terminating => { s with raftor := { s.raftor with lifecycle := .terminal } }
  | _ => s

/-- One critical section, or the invocation of one callback. -/
inductive Step : System → System → Prop
  | propose {s : System} (data : Bytes) (context : Except RequestErr Bytes) (oom : Bool) :
      Step s (s.returned (s.raftor.propose data context oom s.calls))
  | readIndex {s : System} (suffix : Bytes) (context : Except RequestErr Bytes) (oom : Bool) :
      Step s (s.returned (s.raftor.readIndex suffix context oom s.calls))
  | tick {s : System} (idle : s.loop = []) :
      Step s { s with raftor := { s.raftor with tickCount := s.raftor.tickCount + 1 } }
  | drainProposal {s : System} (idle : s.loop = []) (oom : Bool) : Step s (s.drainProposal oom)
  | drainRead {s : System} (idle : s.loop = []) (oom : Bool) : Step s (s.drainRead oom)
  | complete {s : System} (idle : s.loop = []) (ctx response : Bytes) :
      Step s (s.complete ctx response)
  | fail {s : System} (idle : s.loop = []) (ctx : Bytes) (e : RequestErr) : Step s (s.fail ctx e)
  | failRead {s : System} (idle : s.loop = []) (ctx : Bytes) (e : RequestErr) :
      Step s (s.failRead ctx e)
  | apply {s : System} (idle : s.loop = []) (index : ℕ) :
      Step s { s with raftor := { s.raftor with appliedIndex := index } }
  | markReadReady {s : System} (idle : s.loop = []) (ctx : Bytes) (index : ℕ) :
      Step s (s.markReadReady ctx index)
  | completeReadyRead {s : System} (idle : s.loop = []) (ctx : Bytes) {p : PendingRead} {index : ℕ}
      (hp : s.raftor.proposalTracker.reads.lookup ctx = some p) (hi : p.readyIndex = some index)
      (hready : index ≤ s.raftor.appliedIndex) : Step s (s.answerRead ctx (.ok none))
  | expireProposal {s : System} (idle : s.loop = []) (ctx : Bytes) {p : PendingProposal}
      (hp : s.raftor.proposalTracker.proposals.lookup ctx = some p)
      (hexpired : p.deadlineTick ≤ s.raftor.tickCount) :
      Step s (s.answerProposal ctx (.err .timeout))
  | expireRead {s : System} (idle : s.loop = []) (ctx : Bytes) {p : PendingRead}
      (hp : s.raftor.proposalTracker.reads.lookup ctx = some p)
      (hexpired : p.deadlineTick ≤ s.raftor.tickCount) : Step s (s.answerRead ctx (.err .timeout))
  | checkLeadershipChange {s : System} (idle : s.loop = []) : Step s s.checkLeadershipChange
  | enterTerminal {s : System} (idle : s.loop = []) (e : RequestErr) : Step s (s.enterTerminal e)
  | stop {s : System} : Step s s.stop
  | invokeLoop {s : System} {a : Answer} {rest : List Answer} (h : s.loop = a :: rest) :
      Step s { s with loop := rest, invoked := s.invoked ++ [a] }
  | invokeShutdown {s : System} {a : Answer} {rest : List Answer} (h : s.shutdown = a :: rest) :
      Step s { s with shutdown := rest, invoked := s.invoked ++ [a] }
  | finishShutdown {s : System} (h : s.shutdown = []) : Step s s.finishShutdown

/-! ### Where the callbacks are -/

/-- The callbacks of the queues and the tracker. -/
def held (r : Raftor) : List ℕ :=
  r.proposalQueue.items.map ProposalItem.callback ++
    r.readIndexQueue.items.map ReadIndexItem.callback ++
    r.proposalTracker.proposals.entries.map (fun e => e.2.callback) ++
    r.proposalTracker.reads.entries.map fun e => e.2.callback

/-- Every callback that has not been lost, those invoked included. -/
def everywhere (s : System) : List ℕ :=
  held s.raftor ++ s.loop.map Prod.fst ++ s.shutdown.map Prod.fst ++ s.invoked.map Prod.fst

/-- Nothing is lost or doubled, and a shutdown leaves the queues and the tracker empty. -/
structure Inv (s : System) : Prop where
  balance : ∀ c, (everywhere s).count c = s.accepted.count c
  fresh : ∀ c ∈ s.accepted ++ s.refused, c < s.calls
  nodup : (s.accepted ++ s.refused).Nodup
  closed : s.raftor.lifecycle ≠ .active → held s.raftor = []
  batch : s.raftor.lifecycle = .active ∨ s.raftor.lifecycle = .stopped ∨
    s.raftor.lifecycle = .terminal → s.shutdown = []

section conservation
variable {s s' : System}

/-- Taking an entry out of a map takes its callback out. -/
theorem count_erase {α : Type} {m : ContextMap α} {ctx : Bytes} {a : α} (f : α → ℕ)
    (h : m.lookup ctx = some a) (c : ℕ) :
    (m.entries.map fun e => f e.2).count c =
      ((m.erase ctx).entries.map fun e => f e.2).count c + [f a].count c := by
  have hperm : ∀ l : List (Sigma fun _ : Bytes => α), l.dlookup ctx = some a →
      l.Perm (⟨ctx, a⟩ :: l.kerase ctx) := by
    intro l
    induction l with
    | nil =>
        intro hl
        cases hl
    | cons e l ih =>
        intro hl
        by_cases he : ctx = e.1
        · obtain ⟨k, b⟩ := e
          obtain rfl : ctx = k := he
          rw [List.dlookup_cons_eq] at hl
          cases hl
          have hrest : List.kerase ctx ((⟨ctx, a⟩ : Sigma fun _ : Bytes => α) :: l) = l :=
            List.kerase_cons_eq rfl
          rw [hrest]
        · rw [List.dlookup_cons_ne _ _ he] at hl
          rw [List.kerase_cons_ne he]
          exact ((ih hl).cons e).trans (List.Perm.swap _ _ _)
  have hcount := ((hperm m.entries h).map fun e => f e.2).count_eq c
  rw [List.map_cons, List.count_cons] at hcount
  rw [hcount, List.count_singleton]
  rfl

/-- Adding an entry adds its callback. -/
theorem count_insert {α : Type} {m : ContextMap α} {ctx : Bytes} {a : α} (f : α → ℕ)
    (h : ctx ∉ m) (c : ℕ) : ((m.insert ctx a).entries.map fun e => f e.2).count c =
      (m.entries.map fun e => f e.2).count c + [f a].count c := by
  rw [AList.entries_insert_of_notMem h, List.map_cons, List.count_cons, List.count_singleton]

/-- Changing an entry, but not its callback. -/
theorem count_replace {α : Type} {m : ContextMap α} {ctx : Bytes} {a b : α} (f : α → ℕ)
    (h : m.lookup ctx = some a) (hf : f b = f a) (c : ℕ) :
    ((m.insert ctx b).entries.map fun e => f e.2).count c =
      (m.entries.map fun e => f e.2).count c := by
  rw [count_erase f h c, AList.entries_insert, List.map_cons, List.count_cons, List.count_singleton,
    hf]
  rfl

theorem count_everywhere (c : ℕ) : (everywhere s).count c = (held s.raftor).count c +
    (s.loop.map Prod.fst).count c + (s.shutdown.map Prod.fst).count c +
    (s.invoked.map Prod.fst).count c := by
  unfold everywhere
  simp only [List.count_append]

theorem count_held (r : Raftor) (c : ℕ) : (held r).count c =
    (r.proposalQueue.items.map ProposalItem.callback).count c +
    (r.readIndexQueue.items.map ReadIndexItem.callback).count c +
    (r.proposalTracker.proposals.entries.map fun e => e.2.callback).count c +
    (r.proposalTracker.reads.entries.map fun e => e.2.callback).count c := by
  unfold held
  simp only [List.count_append]

/-- The callbacks detached from the tracker. -/
theorem detachAll_callbacks (t : ProposalTracker) (e e' : RequestErr) :
    (t.detachAll e e').map Prod.fst = (t.proposals.entries.map fun e => e.2.callback) ++
      t.reads.entries.map fun e => e.2.callback := by
  unfold ProposalTracker.detachAll
  simp [Function.comp_def]

/-- The callbacks detached by a shutdown. -/
theorem detachRequests_callbacks (r : Raftor) (e e' : RequestErr) :
    (r.detachRequests e e').map Prod.fst = held r := by
  unfold Raftor.detachRequests held
  rw [List.map_append, detachAll_callbacks]
  simp [Function.comp_def]

theorem detached_held (r : Raftor) (lifecycle : Lifecycle) : held (r.detached lifecycle) = [] := rfl

/-- A step that moves callbacks and leaves the calls and the lifecycle alone. -/
theorem Inv.move (hi : Inv s) (hcount : ∀ c, (everywhere s').count c = (everywhere s).count c)
    (hcalls : s'.calls = s.calls) (haccepted : s'.accepted = s.accepted)
    (hrefused : s'.refused = s.refused) (hlife : s'.raftor.lifecycle = s.raftor.lifecycle)
    (hshutdown : s.shutdown = [] → s'.shutdown = [])
    (hheld : held s.raftor = [] → held s'.raftor = []) : Inv s' := by
  refine ⟨fun c => ?_, ?_, ?_, fun hl => ?_, fun hl => ?_⟩
  · rw [hcount c, haccepted]
    exact hi.balance c
  · rw [haccepted, hrefused, hcalls]
    exact hi.fresh
  · rw [haccepted, hrefused]
    exact hi.nodup
  · rw [hlife] at hl
    exact hheld (hi.closed hl)
  · rw [hlife] at hl
    exact hshutdown (hi.batch hl)

end conservation

section steps
variable {s s' : System} {r r' : Raftor}

/-- An accepted item is the last of its queue. -/
theorem push_ok {α : Type} {q q' : Queue α} {itemBytes : ℕ} {item : α} {oom : Bool} {full : RequestErr}
    (h : q.push itemBytes item oom full = .ok q') : q'.items = q.items ++ [item] := by
  obtain ⟨_, -, h⟩ := bind_eq_ok.mp h
  obtain ⟨_, -, h⟩ := bind_eq_ok.mp h
  obtain ⟨_, -, h⟩ := bind_eq_ok.mp h
  cases h
  rfl

/-- A popped item is the first of its queue. -/
theorem tryPop_some {α : Type} {q q' : Queue α} {itemBytes : α → ℕ} {item : α}
    (h : q.tryPop itemBytes = some (item, q')) : q.items = item :: q'.items := by
  unfold Queue.tryPop at h
  split at h
  · cases h
  · rename_i hitems
    cases h
    exact hitems

/-- The driver takes one more callback. -/
structure Takes (r r' : Raftor) (callback : ℕ) : Prop where
  active : r.lifecycle = .active
  still : r'.lifecycle = .active
  held : ∀ c, (held r').count c = (System.held r).count c + [callback].count c

theorem propose_ok {data : Bytes} {context : Except RequestErr Bytes} {oom : Bool} {callback : ℕ}
    (h : r.propose data context oom callback = .ok r') : Takes r r' callback := by
  obtain ⟨_, -, h⟩ := bind_eq_ok.mp h
  obtain ⟨ctx, -, h⟩ := bind_eq_ok.mp h
  obtain ⟨_, hactive, h⟩ := bind_eq_ok.mp h
  obtain ⟨q, hpush, h⟩ := bind_eq_ok.mp h
  cases h
  have hactive := ensure_eq_ok.mp hactive
  refine ⟨hactive, hactive, fun c => ?_⟩
  rw [count_held, count_held]
  dsimp only
  rw [push_ok hpush, List.map_append, List.count_append]
  simp only [List.map_cons, List.map_nil]
  omega

theorem readIndex_ok {suffix : Bytes} {context : Except RequestErr Bytes} {oom : Bool} {callback : ℕ}
    (h : r.readIndex suffix context oom callback = .ok r') : Takes r r' callback := by
  obtain ⟨_, -, h⟩ := bind_eq_ok.mp h
  obtain ⟨ctx, -, h⟩ := bind_eq_ok.mp h
  obtain ⟨_, hactive, h⟩ := bind_eq_ok.mp h
  obtain ⟨q, hpush, h⟩ := bind_eq_ok.mp h
  cases h
  have hactive := ensure_eq_ok.mp hactive
  refine ⟨hactive, hactive, fun c => ?_⟩
  rw [count_held, count_held]
  dsimp only
  rw [push_ok hpush, List.map_append, List.count_append]
  simp only [List.map_cons, List.map_nil]
  omega

/-- A call returns. -/
theorem Inv.returned (hi : Inv s) {result : Except RequestErr Raftor}
    (h : ∀ r, result = .ok r → Takes s.raftor r s.calls) : Inv (s.returned result) := by
  have hnew : s.calls ∉ s.accepted ++ s.refused := fun hmem => Nat.lt_irrefl _ (hi.fresh _ hmem)
  rw [List.mem_append, not_or] at hnew
  have hfresh : ∀ {l : List ℕ}, l ⊆ s.accepted ++ s.refused ++ [s.calls] → ∀ c ∈ l, c < s.calls + 1 := by
    intro l hl c hc
    rcases List.mem_append.mp (hl hc) with hc | hc
    · exact Nat.lt_succ_of_lt (hi.fresh c hc)
    · rw [List.mem_singleton.mp hc]
      exact Nat.lt_succ_self _
  unfold System.returned
  split
  · rename_i r
    have ht := h r rfl
    have hperm : (s.accepted ++ [s.calls] ++ s.refused).Perm (s.accepted ++ s.refused ++ [s.calls]) := by
      rw [List.append_assoc, List.append_assoc]
      exact List.perm_append_comm.append_left _
    refine ⟨fun c => ?_, hfresh hperm.subset, ?_, fun hl => absurd ht.still hl, fun _ => ?_⟩
    · have hbalance := hi.balance c
      rw [count_everywhere] at hbalance ⊢
      rw [List.count_append]
      have hheld := ht.held c
      dsimp only
      omega
    · refine hperm.nodup_iff.mpr (List.nodup_append.mpr ⟨hi.nodup, List.nodup_singleton _, ?_⟩)
      intro a ha b hb heq
      rw [heq, List.mem_singleton.mp hb] at ha
      exact (List.mem_append.mp ha).elim hnew.1 hnew.2
    · exact hi.batch (Or.inl ht.active)
  · refine ⟨hi.balance, ?_, ?_, hi.closed, hi.batch⟩
    · exact hfresh (by rw [List.append_assoc]; exact List.Subset.refl _)
    · dsimp only
      rw [← List.append_assoc]
      refine List.nodup_append.mpr ⟨hi.nodup, List.nodup_singleton _, ?_⟩
      intro a ha b hb heq
      rw [heq, List.mem_singleton.mp hb] at ha
      exact (List.mem_append.mp ha).elim hnew.1 hnew.2

/-- One proposal moves from its queue to the tracker, or it is answered. -/
theorem Inv.drainProposal (hi : Inv s) (idle : s.loop = []) (oom : Bool) :
    Inv (s.drainProposal oom) := by
  unfold System.drainProposal
  split
  · exact hi
  · rename_i hactive
    have hactive : s.raftor.lifecycle = .active := not_not.mp hactive
    split
    · exact hi
    · rename_i item q hpop
      have hitems := tryPop_some hpop
      have hheld : held s.raftor ≠ [] := by
        unfold held
        rw [hitems]
        simp
      split
      · rename_i t htrack
        obtain ⟨_, hnew, htrack⟩ := bind_eq_ok.mp htrack
        obtain ⟨_, -, htrack⟩ := bind_eq_ok.mp htrack
        cases htrack
        refine hi.move (fun c => ?_) rfl rfl rfl rfl id fun h => absurd h hheld
        have hinsert := count_insert (a := ⟨item.callback, deadline s.raftor.tickCount
          s.raftor.config.proposalTimeoutTicks⟩) PendingProposal.callback (ensure_eq_ok.mp hnew) c
        rw [count_everywhere, count_everywhere, count_held, count_held, hitems]
        simp only [List.map_cons, List.count_cons, List.count_nil] at hinsert ⊢
        omega
      · refine hi.move (fun c => ?_) rfl rfl rfl rfl id fun h => absurd h hheld
        rw [count_everywhere, count_everywhere, count_held, count_held, hitems, idle]
        simp only [List.map_cons, List.map_nil, List.count_cons, List.count_nil]
        omega

/-- One read moves from its queue to the tracker, or it is answered. -/
theorem Inv.drainRead (hi : Inv s) (idle : s.loop = []) (oom : Bool) : Inv (s.drainRead oom) := by
  unfold System.drainRead
  split
  · exact hi
  · split
    · exact hi
    · rename_i item q hpop
      have hitems := tryPop_some hpop
      have hheld : held s.raftor ≠ [] := by
        unfold held
        rw [hitems]
        simp
      split
      · rename_i t htrack
        obtain ⟨_, hnew, htrack⟩ := bind_eq_ok.mp htrack
        obtain ⟨_, -, htrack⟩ := bind_eq_ok.mp htrack
        cases htrack
        refine hi.move (fun c => ?_) rfl rfl rfl rfl id fun h => absurd h hheld
        have hinsert := count_insert (a := ⟨item.callback, deadline s.raftor.tickCount
          s.raftor.config.readIndexTimeoutTicks, none⟩) PendingRead.callback (ensure_eq_ok.mp hnew) c
        rw [count_everywhere, count_everywhere, count_held, count_held, hitems]
        simp only [List.map_cons, List.count_cons, List.count_nil] at hinsert ⊢
        omega
      · refine hi.move (fun c => ?_) rfl rfl rfl rfl id fun h => absurd h hheld
        rw [count_everywhere, count_everywhere, count_held, count_held, hitems, idle]
        simp only [List.map_cons, List.map_nil, List.count_cons, List.count_nil]
        omega

/-- A map with an entry is not empty. -/
theorem entries_ne_nil {α : Type} {m : ContextMap α} {ctx : Bytes} {a : α}
    (h : m.lookup ctx = some a) : m.entries ≠ [] :=
  List.ne_nil_of_mem (AList.mem_lookup_iff.mp h)

theorem Inv.answerProposal (hi : Inv s) (idle : s.loop = []) {ctx : Bytes} {result : RequestResult} :
    Inv (s.answerProposal ctx result) := by
  unfold System.answerProposal
  split
  · exact hi
  · rename_i p hp
    refine hi.move (fun c => ?_) rfl rfl rfl rfl id fun h => ?_
    · have herase := count_erase PendingProposal.callback hp c
      rw [count_everywhere, count_everywhere, count_held, count_held, idle]
      simp only [List.map_cons, List.map_nil, List.count_cons, List.count_nil] at herase ⊢
      omega
    · unfold held at h
      simp only [List.append_eq_nil_iff, List.map_eq_nil_iff] at h
      exact absurd h.1.2 (entries_ne_nil hp)

theorem Inv.answerRead (hi : Inv s) (idle : s.loop = []) {ctx : Bytes} {result : RequestResult} :
    Inv (s.answerRead ctx result) := by
  unfold System.answerRead
  split
  · exact hi
  · rename_i p hp
    refine hi.move (fun c => ?_) rfl rfl rfl rfl id fun h => ?_
    · have herase := count_erase PendingRead.callback hp c
      rw [count_everywhere, count_everywhere, count_held, count_held, idle]
      simp only [List.map_cons, List.map_nil, List.count_cons, List.count_nil] at herase ⊢
      omega
    · unfold held at h
      simp only [List.append_eq_nil_iff, List.map_eq_nil_iff] at h
      exact absurd h.2 (entries_ne_nil hp)

theorem Inv.markReadReady (hi : Inv s) {ctx : Bytes} {index : ℕ} :
    Inv (s.markReadReady ctx index) := by
  unfold System.markReadReady ProposalTracker.markReadReady
  split
  · exact ⟨hi.balance, hi.fresh, hi.nodup, hi.closed, hi.batch⟩
  · rename_i p hp
    refine hi.move (fun c => ?_) rfl rfl rfl rfl id fun h => ?_
    · have hreplace : ∀ ready : Option ℕ,
          ((s.raftor.proposalTracker.reads.insert ctx { p with readyIndex := ready }).entries.map
            fun e => e.2.callback).count c =
          (s.raftor.proposalTracker.reads.entries.map fun e => e.2.callback).count c :=
        fun _ => count_replace PendingRead.callback hp rfl c
      rw [count_everywhere, count_everywhere, count_held, count_held]
      dsimp only
      rw [hreplace]
    · unfold held at h
      simp only [List.append_eq_nil_iff, List.map_eq_nil_iff] at h
      exact absurd h.2 (entries_ne_nil hp)

/-- The tracker is emptied into the hands of the event loop. -/
theorem Inv.checkLeadershipChange (hi : Inv s) (idle : s.loop = []) :
    Inv s.checkLeadershipChange := by
  refine hi.move (fun c => ?_) rfl rfl rfl rfl id fun h => ?_
  · unfold System.checkLeadershipChange
    rw [count_everywhere, count_everywhere, count_held, count_held, idle]
    dsimp only
    rw [detachAll_callbacks, List.count_append]
    simp only [AList.empty_entries, List.map_nil, List.count_nil]
    omega
  · unfold held at h ⊢
    simp only [List.append_eq_nil_iff, List.map_eq_nil_iff] at h
    unfold System.checkLeadershipChange
    simp [h.1.1.1, h.1.1.2]

/-- The requests are detached into the hands of a shutdown. -/
theorem Inv.detach (hi : Inv s) (hactive : s.raftor.lifecycle = .active) {terminalError : Option RequestErr}
    {lifecycle : Lifecycle} (hl : lifecycle = .stopping ∨ lifecycle = .terminating)
    (e e' : RequestErr) : Inv { s with
      raftor := Raftor.detached { s.raftor with terminalError := terminalError } lifecycle
      shutdown := s.raftor.detachRequests e e' } := by
  refine ⟨fun c => ?_, hi.fresh, hi.nodup, fun _ => detached_held _ _, fun h => ?_⟩
  · have hbalance := hi.balance c
    rw [count_everywhere, hi.batch (Or.inl hactive)] at hbalance
    rw [count_everywhere, detachRequests_callbacks, detached_held]
    simp only [List.map_nil, List.count_nil] at hbalance ⊢
    omega
  · have h : lifecycle = .active ∨ lifecycle = .stopped ∨ lifecycle = .terminal := h
    rcases hl with rfl | rfl <;> simp at h

theorem Inv.stop (hi : Inv s) : Inv s.stop := by
  unfold System.stop
  split
  · rename_i hactive
    exact hi.detach hactive (Or.inl rfl) _ _
  · exact hi

theorem Inv.enterTerminal (hi : Inv s) (e : RequestErr) : Inv (s.enterTerminal e) := by
  unfold System.enterTerminal
  dsimp only
  split
  · rename_i hactive
    exact hi.detach hactive (Or.inr rfl) _ _
  · exact ⟨hi.balance, hi.fresh, hi.nodup, hi.closed, hi.batch⟩

theorem Inv.finishShutdown (hi : Inv s) (h : s.shutdown = []) : Inv s.finishShutdown := by
  unfold System.finishShutdown
  split
  · rename_i hl
    exact ⟨hi.balance, hi.fresh, hi.nodup, fun _ => hi.closed (by rw [hl]; decide), fun _ => h⟩
  · rename_i hl
    exact ⟨hi.balance, hi.fresh, hi.nodup, fun _ => hi.closed (by rw [hl]; decide), fun _ => h⟩
  · exact hi

/-- Every step keeps the balance. -/
theorem Inv.step (hi : Inv s) (hs : Step s s') : Inv s' := by
  cases hs with
  | propose data context oom => exact hi.returned fun r hr => propose_ok hr
  | readIndex suffix context oom => exact hi.returned fun r hr => readIndex_ok hr
  | tick => exact ⟨hi.balance, hi.fresh, hi.nodup, hi.closed, hi.batch⟩
  | drainProposal idle oom => exact hi.drainProposal idle oom
  | drainRead idle oom => exact hi.drainRead idle oom
  | complete idle => exact hi.answerProposal idle
  | fail idle => exact hi.answerProposal idle
  | failRead idle => exact hi.answerRead idle
  | apply => exact ⟨hi.balance, hi.fresh, hi.nodup, hi.closed, hi.batch⟩
  | markReadReady => exact hi.markReadReady
  | completeReadyRead idle => exact hi.answerRead idle
  | expireProposal idle => exact hi.answerProposal idle
  | expireRead idle => exact hi.answerRead idle
  | checkLeadershipChange idle => exact hi.checkLeadershipChange idle
  | enterTerminal idle e => exact hi.enterTerminal e
  | stop => exact hi.stop
  | invokeLoop h =>
      refine hi.move (fun c => ?_) rfl rfl rfl rfl id id
      rw [count_everywhere, count_everywhere, h]
      simp only [List.map_append, List.count_append, List.map_cons, List.map_nil, List.count_cons,
        List.count_nil]
      omega
  | invokeShutdown h =>
      refine hi.move (fun c => ?_) rfl rfl rfl rfl (fun hnil => ?_) id
      · rw [count_everywhere, count_everywhere, h]
        simp only [List.map_append, List.count_append, List.map_cons, List.map_nil, List.count_cons,
          List.count_nil]
        omega
      · rw [h] at hnil
        cases hnil
  | finishShutdown h => exact hi.finishShutdown h

theorem Inv.init (config : RaftorConfig) : Inv { raftor := Raftor.init config } :=
  ⟨fun _ => rfl, fun _ hc => (by cases hc), List.nodup_nil, fun _ => rfl, fun _ => rfl⟩

end steps

/-! ### Answers -/

/-- The states that a new system can reach. -/
abbrev Reach (config : RaftorConfig) (s : System) : Prop :=
  Relation.ReflTransGen Step { raftor := Raftor.init config } s

/-- A shutdown has come to its end, and the event loop has invoked what it had detached. -/
structure Settled (s : System) : Prop where
  ended : s.raftor.lifecycle = .stopped ∨ s.raftor.lifecycle = .terminal
  idle : s.loop = []

/-- A callback that was accepted is in one place until it is invoked, no callback is invoked twice,
one that was refused is never invoked, and once a shutdown has come to its end and the event loop
holds no detached callback, each accepted callback has been invoked. -/
theorem answered_once {config : RaftorConfig} {s : System} (hs : Reach config s) :
    (∀ c ∈ s.accepted, (everywhere s).count c = 1) ∧
    (∀ c, (s.invoked.map Prod.fst).count c ≤ 1) ∧
    (∀ c ∈ s.refused, c ∉ everywhere s) ∧
    (Settled s → ∀ c ∈ s.accepted, (s.invoked.map Prod.fst).count c = 1) := by
  have hi : Inv s := by
    induction hs with
    | refl => exact Inv.init config
    | tail _ hstep ih => exact ih.step hstep
  have hnodup := List.nodup_append.mp hi.nodup
  have hone : ∀ c ∈ s.accepted, (everywhere s).count c = 1 := by
    intro c hc
    rw [hi.balance c]
    exact List.count_eq_one_of_mem hnodup.1 hc
  refine ⟨hone, fun c => ?_, fun c hc => ?_, fun hsettled c hc => ?_⟩
  · have hle := List.nodup_iff_count_le_one.mp hnodup.1 c
    have hbalance := hi.balance c
    rw [count_everywhere] at hbalance
    omega
  · rw [← List.count_eq_zero, hi.balance c, List.count_eq_zero]
    exact fun hacc => hnodup.2.2 c hacc c hc rfl
  · have hheld : held s.raftor = [] := hi.closed fun hactive => by
      rcases hsettled.ended with h | h <;> rw [hactive] at h <;> cases h
    have hcount := hone c hc
    rw [count_everywhere, hheld, hsettled.idle, hi.batch (Or.inr hsettled.ended)] at hcount
    simp only [List.map_nil, List.count_nil] at hcount
    omega

/-- One proposal or read at a time, with a timeout of one tick. -/
def smallConfig : RaftorConfig := ⟨1, 64, 1, 64, 1, 1⟩

/-- A proposal has left its queue, timed out, and been detached from the tracker when `stop` runs
from its first to its last section. -/
def stoppedEarly : System where
  raftor := { (Raftor.init smallConfig).detached .stopped with tickCount := 1 }
  loop := [(0, .err .timeout)]
  calls := 1
  accepted := [0]

theorem reach_stoppedEarly : Reach smallConfig stoppedEarly :=
  .tail (.tail (.tail (.tail (.tail (.tail .refl (.propose [1] (.ok [2]) false))
    (.drainProposal rfl false)) (.tick rfl)) (.expireProposal rfl [2] rfl (by decide)))
    .stop) (.finishShutdown rfl)

/-- The answer of that proposal is still to come, and it comes once. -/
theorem answered_once_stoppedEarly : (everywhere stoppedEarly).count 0 = 1 :=
  (answered_once reach_stoppedEarly).1 0 List.mem_cons_self

/-- `stop` does not wait for the callbacks that the event loop has detached. -/
theorem unanswered_after_stop : ∃ config s, Reach config s ∧ s.raftor.lifecycle = .stopped ∧
    ∃ c ∈ s.accepted, (s.invoked.map Prod.fst).count c = 0 :=
  ⟨smallConfig, stoppedEarly, reach_stoppedEarly, rfl, 0, List.mem_cons_self, rfl⟩

end System

end Requests

end Raftz
