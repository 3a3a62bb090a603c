import Raftz.Base.Collections
import Raftz.Types

/-! # The read-index queue

`ReadOnly` of `read_only.zig`: the pending read-index requests of a leader, in
the order of their registration, each with the acknowledgements it has
collected.  A request is identified by its context, the data of the first entry
of the request message. -/

open Base

namespace Raftz

/-- A read-index result waiting to be used. -/
structure ReadState where
  index : ℕ
  requestCtx : Bytes
  deriving DecidableEq, Repr

/-- A pending request, the commit index at its registration and the nodes that acknowledged it. -/
structure ReadIndexStatus where
  req : Message
  index : ℕ
  acks : IdSet
  deriving DecidableEq, Repr

/-- The contexts of the pending requests, oldest first, and their status by context. -/
structure ReadOnly where
  option : ReadOnlyOption
  queue : List Bytes := []
  pending : AList (fun _ : Bytes => ReadIndexStatus) := ∅
  deriving DecidableEq

namespace ReadOnly

/-- No pending request. -/
def init (option : ReadOnlyOption) : ReadOnly := { option := option }

/-- Register a request; a message without entries or with a pending context is ignored. -/
def addRequest (ro : ReadOnly) (index : ℕ) (req : Message) (selfId : ℕ) : ReadOnly :=
  match req.entries with
  | [] => ro
  | e :: _ =>
      if e.data ∈ ro.pending then ro
      else { ro with
        queue := ro.queue ++ [e.data]
        pending := ro.pending.insert e.data ⟨req, index, IdSet.add ∅ selfId⟩ }

/-- The context of the youngest request. -/
def lastPendingRequestCtx (ro : ReadOnly) : Option Bytes := ro.queue.getLast?

/-- Record an acknowledgement and return those of the request, if it is pending. -/
def recvACK (ro : ReadOnly) (id : ℕ) (ctx : Bytes) : ReadOnly × Option IdSet :=
  match ro.pending.lookup ctx with
  | none => (ro, none)
  | some st =>
      let acks := st.acks.add id
      ({ ro with pending := ro.pending.insert ctx { st with acks := acks } }, some acks)

/-- Release the requests up to and including `ctx`, oldest first. -/
def advance (ro : ReadOnly) (ctx : Bytes) : Except Err (ReadOnly × List ReadIndexStatus) :=
  if ctx ∈ ro.queue then
    let released := ro.queue.take (ro.queue.idxOf ctx + 1)
    if released.all (fun key => decide (key ∈ ro.pending)) then
      .ok ({ ro with
          queue := ro.queue.drop (ro.queue.idxOf ctx + 1)
          pending := released.foldl (fun m key => m.erase key) ro.pending },
        released.filterMap (fun key => ro.pending.lookup key))
    else .error .fatal
  else .ok (ro, [])

/-- How many requests a release takes from the queue. -/
def upTo (ro : ReadOnly) (ctx : Bytes) : ℕ := if ctx ∈ ro.queue then ro.queue.idxOf ctx + 1 else 0

end ReadOnly

end Raftz
