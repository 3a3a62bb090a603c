import Mathlib.Logic.Relation
import Raftz.LogView
import Raftz.Raft.Step

/-! # The protocol's view of a node

`Peer` is what the safety argument sees of a node: its term, vote and role, its
log as one list, its commit index, the votes and acknowledgements it has
collected, its pending reads and its queue of outbound messages.  Timers,
flow control and the split of the log into storage and buffer are gone.

`Micro` says once what a node can do to this state: every method of `raft.zig`
is a sequence of these steps (`Raftz.Raft.Reach`).  A step carries the guard
under which the code takes it, so that every invariant of the protocol is a
case analysis over it.

`honest` stands for the promise that no peer asks a leader for a snapshot
beyond the commit index of the leader's storage; only the steps that send a
snapshot mention it. -/

open Base

namespace Raftz

/-- What the protocol sees of a node. -/
structure Peer where
  id : ℕ
  voters : JointConfiguration
  term : ℕ
  vote : ℕ
  role : StateRole
  log : Log
  /-- Position and configuration of a received snapshot that is not in the storage yet. -/
  pending : Option SnapshotMetadata
  committed : ℕ
  persisted : ℕ
  applied : ℕ
  votes : ℕ → Option Bool
  matched : ℕ → ℕ
  pendingConf : ℕ
  reads : ReadOnly
  postponed : List Message
  readStates : List ReadState
  out : List Message
  store : StoreView

namespace Peer

variable (c : Peer)

/-- The message belongs to the current term (or to no term). -/
def Current (m : Message) : Prop := m.term = c.term ∨ m.term = 0

/-- No configuration change lies in `(lo, hi]`. -/
def NoConf (lo hi : ℕ) : Prop :=
  ∀ i e, lo < i → i ≤ hi → c.log.entryAt i = some e → e.isConf = false

/-- Everything up to here has been applied, or will be with the pending snapshot. -/
def settled : ℕ := max c.applied ((c.pending.map SnapshotMetadata.index).getD 0)

/-- The commit index is in the current term. -/
def InTerm : Prop := c.log.termAt c.committed = some c.term

/-- Start a term (or the current one again) with nothing collected. -/
def reset (t : ℕ) (M : ℕ → ℕ) : Peer :=
  { c with
    term := t
    vote := if c.term = t then c.vote else 0
    votes := fun _ => none
    matched := M
    pendingConf := 0
    reads := ReadOnly.init c.reads.option
    postponed := [] }

/-- Nothing is acknowledged except what the node itself has persisted. -/
def Cleared (M : ℕ → ℕ) : Prop := ∀ v, M v = 0 ∨ (v = c.id ∧ M v = c.persisted)

/-- Record a vote. -/
def tally (v : ℕ) (b : Bool) : Peer := { c with votes := Function.update c.votes v (some b) }

/-- Queue a message. -/
def post (msg : Message) : Peer := { c with out := c.out ++ [msg] }

end Peer

/-- The log holds everything an append message carries. -/
def Log.Holds (l : Log) (m : Message) : Prop :=
  l.termAt m.index = some m.logTerm ∧ Log.Consecutive (m.index + 1) m.entries ∧
    ∀ e ∈ m.entries, l.termAt e.index = some e.term

/-- The entries are a piece of the log that starts at index `j`. -/
def Log.Segment (l : Log) (j : ℕ) (es : List Entry) : Prop :=
  es ≠ [] → l.base < j ∧ es <+: l.slice j (l.last + 1)

/-- A log that ends at `(i, t)` is at least as up to date as this one. -/
def Log.UpToDate (l : Log) (i t : ℕ) : Prop :=
  l.term l.last < t ∨ (t = l.term l.last ∧ l.last ≤ i)

/-- The context that identifies a read request. -/
def readCtx (req : Message) : Bytes :=
  match req.entries with
  | e :: _ => e.data
  | [] => []

/-- A commit position as vote messages carry it. -/
def Message.CommitOf (msg : Message) (c : Peer) : Prop :=
  (msg.commit = 0 ∧ msg.commitTerm = 0) ∨
    (msg.commit = c.committed ∧ msg.commitTerm = c.log.term c.committed)

/-- Messages that can end in an election won. -/
def Message.MayElect (m : Message) : Prop :=
  m.msgType = .hup ∨ m.msgType = .timeoutNow ∨ m.msgType = .requestVoteResponse ∨
    m.msgType = .requestPreVoteResponse

/-- A message of a leader whose term is over. -/
def Message.Outdated (m : Message) (c : Peer) : Prop :=
  (m.msgType = .append ∨ m.msgType = .heartbeat) ∧ m.term ≠ 0 ∧ m.term < c.term

/-- The report that something has become durable; it has no sender. -/
def Message.IsReport (m : Message) : Prop := m.msgType = .beat ∧ m.sender = 0

/-- What a node may put into its queue while it processes `m`. -/
inductive Sends (honest : Prop) (m : Message) (c : Peer) : Message → Prop
  | append (msg : Message) (hr : c.role = .leader) (ht : msg.msgType = .append)
      (hs : msg.sender = c.id) (htm : msg.term = c.term) (hl : msg.logTerm = c.log.term msg.index)
      (he : c.log.Segment (msg.index + 1) msg.entries) (hc : msg.commit = c.committed) :
      Sends honest m c msg
  | snapshot (msg : Message) (s : Snapshot) (hr : c.role = .leader) (ht : msg.msgType = .snapshot)
      (hs : msg.sender = c.id) (htm : msg.term = c.term) (hsnap : msg.snapshot = some s)
      (hfrom : c.pending = some s.metadata ∨ (s.metadata.confState = c.store.confState ∧
        (honest → s.metadata.index ≤ c.store.hardState.commit ∧
          c.store.log.termAt s.metadata.index = some s.metadata.term))) :
      Sends honest m c msg
  | heartbeat (msg : Message) (hr : c.role = .leader) (ht : msg.msgType = .heartbeat)
      (hs : msg.sender = c.id) (htm : msg.term = c.term)
      (hc : msg.commit = min (c.matched msg.dest) c.committed)
      (hctx : msg.context = [] ∨ msg.context ∈ c.reads.queue) : Sends honest m c msg
  | appendResponse (msg : Message) (ht : msg.msgType = .appendResponse) (hs : msg.sender = c.id)
      (htm : msg.term = c.term)
      (hi : msg.reject = true ∨ (msg.index = 0 ∧ m.Outdated c) ∨ (c.Current m ∧ c.role = .follower ∧
        (((m.msgType = .append ∨ m.msgType = .snapshot) ∧ msg.index = c.committed) ∨
          (m.msgType = .append ∧ c.log.Holds m ∧ msg.index = m.index + m.entries.length)))) :
      Sends honest m c msg
  | heartbeatResponse (msg : Message) (hr : c.role = .follower) (hm : m.msgType = .heartbeat)
      (hcur : c.Current m) (ht : msg.msgType = .heartbeatResponse) (hs : msg.sender = c.id)
      (htm : msg.term = c.term) (hctx : msg.context = m.context) : Sends honest m c msg
  | requestVote (msg : Message) (hr : c.role = .candidate) (ht : msg.msgType = .requestVote)
      (hs : msg.sender = c.id) (htm : msg.term = c.term) (hd : msg.dest ≠ c.id)
      (hi : msg.index = c.log.last) (hl : msg.logTerm = c.log.term c.log.last)
      (hc : msg.CommitOf c) : Sends honest m c msg
  | requestPreVote (msg : Message) (hr : c.role = .preCandidate) (ht : msg.msgType = .requestPreVote)
      (hs : msg.sender = c.id) (htm : msg.term = c.term + 1) (hd : msg.dest ≠ c.id)
      (hi : msg.index = c.log.last) (hl : msg.logTerm = c.log.term c.log.last)
      (hc : msg.CommitOf c) : Sends honest m c msg
  | voteReject (msg : Message)
      (ht : msg.msgType = .requestVoteResponse ∨ msg.msgType = .requestPreVoteResponse)
      (hs : msg.sender = c.id) (htm : msg.term = c.term) (hrej : msg.reject = true)
      (hc : msg.CommitOf c) : Sends honest m c msg
  | preVoteGrant (msg : Message) (hm : m.msgType = .requestPreVote)
      (ht : msg.msgType = .requestPreVoteResponse) (hs : msg.sender = c.id)
      (htm : msg.term = m.term) (hrej : msg.reject = false) (hc : msg.commit = 0) :
      Sends honest m c msg
  | forward (msg : Message)
      (hm : m.msgType = .propose ∨ m.msgType = .readIndex ∨ m.msgType = .transferLeader)
      (ht : msg.msgType = m.msgType) (he : msg.entries = m.entries)
      (htm : msg.term = 0 ∨ msg.term = c.term) : Sends honest m c msg
  | timeoutNow (msg : Message) (hr : c.role = .leader) (ht : msg.msgType = .timeoutNow)
      (hs : msg.sender = c.id) (htm : msg.term = c.term) : Sends honest m c msg

/-- Why a node may raise its commit index to `i`. -/
inductive Commits (m : Message) (c : Peer) (i : ℕ) : Prop
  | append (hm : m.msgType = .append) (hr : c.role = .follower) (hcur : c.Current m)
      (hh : c.log.Holds m) (hc : i ≤ m.commit) (hl : i ≤ m.index + m.entries.length)
  | heartbeat (hm : m.msgType = .heartbeat) (hr : c.role = .follower) (hcur : c.Current m)
      (hc : i = m.commit)
  | vote (hm : Raft.isVoteMessage m.msgType = true) (hr : c.role ≠ .leader) (hc : i = m.commit)
      (ht : c.log.termAt i = some m.commitTerm) (h0 : m.commitTerm ≠ 0)
      (hterm : c.term < m.term → Raft.raisesTerm m = false)
      (hconf : c.role = .follower ∨ c.NoConf (max c.committed c.applied) i)
  | readIndexResp (hm : m.msgType = .readIndexResp) (hr : c.role = .follower) (hcur : c.Current m)
      (hc : i = m.index) (ht : c.log.termAt i = some m.term)
  | snapshot (s : Snapshot) (hm : m.msgType = .snapshot) (hs : m.snapshot = some s)
      (hr : c.role = .follower) (hcur : c.Current m) (hc : i = s.metadata.index)
      (ht : c.log.termAt i = some s.metadata.term)
  | quorum (hr : c.role = .leader) (ht : c.log.termAt i = some c.term)
      (hw : c.voters.Wins {v | i ≤ c.matched v})

/-- A request whose answer is due: it is released by a quorum that acknowledged it or a later one. -/
def Released (c : Peer) (key : Bytes) : Prop :=
  ∃ ctx st, c.reads.pending.lookup ctx = some st ∧ ctx ∈ c.reads.queue ∧
    c.voters.getVoteResult (fun id => some (decide (id ∈ st.acks))) = .won ∧
    key ∈ c.reads.queue.take (c.reads.queue.idxOf ctx + 1)

/-- Why a read request may be answered with the index `i`. -/
inductive Answers (m : Message) (c : Peer) (req : Message) (i : ℕ) : Prop
  | released (key : Bytes) (st : ReadIndexStatus) (hr : c.role = .leader)
      (hst : c.reads.pending.lookup key = some st) (hreq : st.req = req) (hi : st.index = i)
      (hrel : Released c key)
  | direct (hr : c.role = .leader) (hreq : req = m ∨ req ∈ c.postponed) (hi : i = c.committed)
      (hin : c.InTerm) (hs : c.voters.isSingleton = true ∨ c.reads.option = .leaseBased)

/-- May the node follow the term `t`? -/
inductive Follows (m : Message) (c : Peer) (t : ℕ) : Prop
  | same (ht : t = c.term) (hl : c.role = .leader → ¬ c.voters.Wins {c.id})
  | higher (hlt : c.term < t) (ht : t = m.term) (hr : Raft.raisesTerm m = true)
  | unstamped (ht : m.term = 0)
      (hm : m.msgType = .append ∨ m.msgType = .heartbeat ∨ m.msgType = .snapshot)

/-- One step of a node that processes `m`. -/
inductive Micro (honest : Prop) (m : Message) : Peer → Peer → Prop
  | follow (c : Peer) (t : ℕ) (M : ℕ → ℕ) (ht : Follows m c t) (hM : c.Cleared M) :
      Micro honest m c { c.reset t M with role := .follower }
  | preCampaign (c : Peer) (hr : c.role ≠ .leader) (hv : c.voters.contains c.id = true)
      (hn : c.NoConf c.settled c.committed) :
      Micro honest m c { c with role := .preCandidate, votes := fun _ => none }
  | campaign (c : Peer) (M : ℕ → ℕ) (hr : c.role ≠ .leader)
      (hv : c.role = .preCandidate ∨
        (c.voters.contains c.id = true ∧ c.NoConf c.settled c.committed)) (hM : c.Cleared M) :
      Micro honest m c { c.reset (c.term + 1) M with vote := c.id, role := .candidate }
  | tally (c : Peer) (v : ℕ) (b : Bool) (hr : c.role = .candidate ∨ c.role = .preCandidate)
      (hv : (v = c.id ∧ b = true) ∨ (v = m.sender ∧ b = !m.reject ∧
        ((c.role = .candidate ∧ m.msgType = .requestVoteResponse ∧ c.Current m) ∨
          (c.role = .preCandidate ∧ m.msgType = .requestPreVoteResponse)))) :
      Micro honest m c (c.tally v b)
  | lead (c : Peer) (M : ℕ → ℕ) (hm : m.MayElect) (hr : c.role = .candidate)
      (hw : c.voters.Wins {v | c.votes v = some true}) (hM : c.Cleared M) :
      Micro honest m c { c.reset c.term M with role := .leader, pendingConf := c.log.last }
  | extend (c : Peer) (es : List Entry) (pc : ℕ) (hr : c.role = .leader)
      (hi : Log.Consecutive (c.log.last + 1) es) (ht : ∀ e ∈ es, e.term = c.term)
      (hconf : (∀ e ∈ es, e.isConf = false) ∧ c.pendingConf ≤ pc ∨
        (c.pendingConf ≤ c.applied ∧ ∃ e ∈ es, e.isConf = true ∧ pc = e.index ∧
          ∀ e' ∈ es, e'.isConf = true → e' = e)) :
      Micro honest m c { c with log := c.log.splice (c.log.last + 1) es, pendingConf := pc }
  | merge (c : Peer) (l : Log) (p : ℕ) (hm : m.msgType = .append) (hr : c.role = .follower)
      (hcur : c.Current m) (hc : c.committed ≤ m.index)
      (ht : c.log.termAt m.index = some m.logTerm)
      (hi : Log.Consecutive (m.index + 1) m.entries) (hl : c.log.Merged c.committed m.entries l)
      (hp : p ≤ c.persisted) (hp' : min c.persisted c.committed ≤ p)
      (hst : ∀ i ≤ p, l.entryAt i = c.log.entryAt i) :
      Micro honest m c { c with log := l, persisted := p }
  | commit (c : Peer) (i : ℕ) (hlt : c.committed < i) (hle : i ≤ c.log.last) (h : Commits m c i) :
      Micro honest m c { c with committed := i }
  | commitDown (c : Peer) (i : ℕ) (M : ℕ → ℕ) (hlt : c.committed < i) (hle : i ≤ c.log.last)
      (hm : Raft.isVoteMessage m.msgType = true)
      (hr : c.role = .candidate ∨ c.role = .preCandidate)
      (hc : i = m.commit) (ht : c.log.termAt i = some m.commitTerm) (h0 : m.commitTerm ≠ 0)
      (hterm : c.term < m.term → Raft.raisesTerm m = false) (hM : c.Cleared M) :
      Micro honest m c { c.reset c.term M with committed := i, role := .follower }
  | restore (c : Peer) (s : Snapshot) (t : ProgressTracker) (n k : ℕ) (hm : m.msgType = .snapshot)
      (hs : m.snapshot = some s) (hr : c.role = .follower) (hcur : c.Current m)
      (hle : c.committed ≤ s.metadata.index)
      (hlt : c.pending ≠ none → c.committed < s.metadata.index)
      (ht : ConfRestore.restore (ProgressTracker.init k) n s.metadata.confState = .ok t) :
      Micro honest m c { c with
        log := ⟨s.metadata.index, s.metadata.term, []⟩
        pending := some s.metadata
        committed := s.metadata.index
        persisted := min c.persisted c.committed
        voters := t.conf.voters
        votes := fun _ => none
        matched := fun _ => 0 }
  | ack (c : Peer) (hm : m.msgType = .appendResponse) (hrej : m.reject = false)
      (hr : c.role = .leader) (hcur : c.Current m) :
      Micro honest m c { c with
        matched := Function.update c.matched m.sender (max (c.matched m.sender) m.index) }
  | persist (c : Peer) (i : ℕ) (hm : m.IsReport) (hlt : c.persisted < i)
      (hst : ∀ j, c.log.base < j → j ≤ i → c.store.log.entryAt j = c.log.entryAt j)
      (hle : i ≤ c.log.last) : Micro honest m c { c with persisted := i }
  | selfAck (c : Peer) (hr : c.role = .leader) :
      Micro honest m c { c with
        matched := Function.update c.matched c.id (max (c.matched c.id) c.persisted) }
  | apply (c : Peer) (i : ℕ) (h1 : c.applied ≤ i) (h2 : i ≤ c.committed) :
      Micro honest m c { c with applied := i }
  | grant (c : Peer) (msg : Message) (hm : m.msgType = .requestVote) (hcur : c.Current m)
      (hv : c.vote = m.sender ∨ c.vote = 0) (hu : c.log.UpToDate m.index m.logTerm)
      (ht : msg.msgType = .requestVoteResponse) (hs : msg.sender = c.id) (hd : msg.dest = m.sender)
      (htm : msg.term = m.term) (hrej : msg.reject = false) (hc : msg.commit = 0) :
      Micro honest m c { c with vote := m.sender, out := c.out ++ [msg] }
  | send (c : Peer) (msg : Message) (h : Sends honest m c msg) : Micro honest m c (c.post msg)
  | batch (c : Peer) (k : ℕ) (msg : Message) (es : List Entry) (hk : c.out[k]? = some msg)
      (hm : msg.msgType = .append) (hr : c.role = .leader)
      (hes : es ≠ [] → isContinuousEntries msg es = true) (j : ℕ) (hj : c.log.Segment j es) :
      Micro honest m c { c with
        out := c.out.set k { msg with entries := msg.entries ++ es, commit := c.committed } }
  | postpone (c : Peer) (hm : m.msgType = .readIndex) (hr : c.role = .leader) :
      Micro honest m c { c with postponed := c.postponed ++ [m] }
  | register (c : Peer) (req : Message) (hr : c.role = .leader) (hin : c.InTerm)
      (hreq : req = m ∨ req ∈ c.postponed) :
      Micro honest m c { c with reads := c.reads.addRequest c.committed req c.id }
  | clear (c : Peer) : Micro honest m c { c with postponed := [] }
  | ackRead (c : Peer) (v : ℕ) (ctx : Bytes) (hr : c.role = .leader)
      (hv : v = c.id ∨ (v = m.sender ∧ ctx = m.context ∧ m.msgType = .heartbeatResponse ∧
        c.Current m)) : Micro honest m c { c with reads := (c.reads.recvACK v ctx).1 }
  | answerLocal (c : Peer) (req : Message) (i : ℕ) (h : Answers m c req i)
      (hs : req.sender = 0 ∨ req.sender = c.id) :
      Micro honest m c { c with readStates := c.readStates ++ [⟨i, readCtx req⟩] }
  | answerRemote (c : Peer) (req : Message) (i : ℕ) (msg : Message) (h : Answers m c req i)
      (ht : msg.msgType = .readIndexResp) (hd : msg.dest = req.sender) (hs : msg.sender = c.id)
      (htm : msg.term = c.term) (hi : msg.index = i) (he : msg.entries = req.entries) :
      Micro honest m c (c.post msg)
  | dropReads (c : Peer) (ctx : Bytes) (ro : ReadOnly) (sts : List ReadIndexStatus)
      (h : c.reads.advance ctx = .ok (ro, sts)) : Micro honest m c { c with reads := ro }
  | deliver (c : Peer) (e : Entry) (hm : m.msgType = .readIndexResp) (hr : c.role = .follower)
      (hcur : c.Current m) (he : m.entries = [e]) :
      Micro honest m c { c with readStates := c.readStates ++ [⟨m.index, e.data⟩] }

/-- A run of steps while `m` is processed. -/
abbrev Micros (honest : Prop) (m : Message) : Peer → Peer → Prop :=
  Relation.ReflTransGen (Micro honest m)

/-! ### What no step undoes -/

/-- The commit index only grows, the storage is only read, and the log is cut at the front only by
a received snapshot beyond the commit index. -/
structure Moved (c c' : Peer) : Prop where
  id : c'.id = c.id
  store : c'.store = c.store
  committed : c.committed ≤ c'.committed
  pending : (c'.pending = c.pending ∧ c'.log.base = c.log.base ∧ c'.log.baseTerm = c.log.baseTerm) ∨
    ∃ md, c'.pending = some md ∧ c'.log.base = md.index ∧ c'.log.baseTerm = md.term ∧
      c.committed ≤ md.index ∧ (c.pending ≠ none → c.committed < md.index)

theorem Moved.refl (c : Peer) : Moved c c := ⟨rfl, rfl, le_rfl, Or.inl ⟨rfl, rfl, rfl⟩⟩

theorem Moved.pending_none {c c' : Peer} (h : Moved c c') (hn : c'.pending = none) :
    c.pending = none ∧ c'.log.base = c.log.base := by
  rcases h.pending with ⟨h1, h2, _⟩ | ⟨md, hmd, _⟩
  · exact ⟨h1 ▸ hn, h2⟩
  · rw [hn] at hmd
    cases hmd

theorem Moved.trans {c c' c'' : Peer} (h : Moved c c') (h' : Moved c' c'') : Moved c c'' where
  id := h'.id.trans h.id
  store := h'.store.trans h.store
  committed := h.committed.trans h'.committed
  pending := by
    rcases h'.pending with ⟨h1, h2, h3⟩ | ⟨md, h1, h2, h3, h4, h5⟩
    · rcases h.pending with ⟨k1, k2, k3⟩ | ⟨md, k1, k2, k3, k4, k5⟩
      · exact Or.inl ⟨h1.trans k1, h2.trans k2, h3.trans k3⟩
      · exact Or.inr ⟨md, h1.trans k1, h2.trans k2, h3.trans k3, k4, k5⟩
    · refine Or.inr ⟨md, h1, h2, h3, h.committed.trans h4, fun hne => ?_⟩
      refine lt_of_le_of_lt h.committed (h5 fun hn => hne ?_)
      exact (h.pending_none hn).1

theorem Micro.moved {honest : Prop} {m : Message} {c c' : Peer} (h : Micro honest m c c') :
    Moved c c' := by
  cases h with
  | extend es pc hr hi ht hconf => exact ⟨rfl, rfl, le_rfl, Or.inl ⟨rfl, rfl, rfl⟩⟩
  | merge l p hm hr hcur hc ht hi hl hp hp' hst =>
      exact ⟨rfl, rfl, le_rfl, Or.inl ⟨rfl, hl.base_eq, hl.baseTerm_eq⟩⟩
  | commit i hlt hle h => exact ⟨rfl, rfl, hlt.le, Or.inl ⟨rfl, rfl, rfl⟩⟩
  | commitDown i M hlt hle hm hr hc ht h0 hterm hM =>
      exact ⟨rfl, rfl, hlt.le, Or.inl ⟨rfl, rfl, rfl⟩⟩
  | restore s t n k hm hs hr hcur hle hlt ht =>
      exact ⟨rfl, rfl, hle, Or.inr ⟨_, rfl, rfl, rfl, hle, hlt⟩⟩
  | _ => exact ⟨rfl, rfl, le_rfl, Or.inl ⟨rfl, rfl, rfl⟩⟩

theorem Micros.moved {honest : Prop} {m : Message} {c c' : Peer} (h : Micros honest m c c') :
    Moved c c' := by
  induction h with
  | refl => exact Moved.refl c
  | tail _ hstep ih => exact ih.trans hstep.moved

/-- The queue does not matter for what may be sent. -/
theorem Sends.of_out {honest : Prop} {m : Message} {c : Peer} {msg : Message}
    (h : Sends honest m c msg) (out : List Message) : Sends honest m { c with out := out } msg := by
  cases h with
  | append hr ht hs htm hl he hc => exact .append _ hr ht hs htm hl he hc
  | snapshot s hr ht hs htm hsnap hfrom => exact .snapshot _ s hr ht hs htm hsnap hfrom
  | heartbeat hr ht hs htm hc hctx => exact .heartbeat _ hr ht hs htm hc hctx
  | appendResponse ht hs htm hi => exact .appendResponse _ ht hs htm hi
  | heartbeatResponse hr hm hcur ht hs htm hctx =>
      exact .heartbeatResponse _ hr hm hcur ht hs htm hctx
  | requestVote hr ht hs htm hd hi hl hc => exact .requestVote _ hr ht hs htm hd hi hl hc
  | requestPreVote hr ht hs htm hd hi hl hc => exact .requestPreVote _ hr ht hs htm hd hi hl hc
  | voteReject ht hs htm hrej hc => exact .voteReject _ ht hs htm hrej hc
  | preVoteGrant hm ht hs htm hrej hc => exact .preVoteGrant _ hm ht hs htm hrej hc
  | forward hm ht he htm => exact .forward _ hm ht he htm
  | timeoutNow hr ht hs htm => exact .timeoutNow _ hr ht hs htm

/-- Queueing several messages, one after the other. -/
theorem micros_posts {honest : Prop} {m : Message} {c : Peer} (msgs : List Message)
    (h : ∀ msg ∈ msgs, Sends honest m c msg) :
    Micros honest m c { c with out := c.out ++ msgs } := by
  induction msgs using List.reverseRecOn with
  | nil => rw [List.append_nil]
  | append_singleton msgs msg ih =>
      have hrest := ih fun msg' hm => h msg' (List.mem_append_left _ hm)
      refine hrest.tail ?_
      have := @Micro.send honest m _ msg ((h msg (by simp)).of_out (c.out ++ msgs))
      unfold Peer.post at this
      rwa [List.append_assoc] at this

end Raftz
