import Raftz.Progress
import Raftz.Quorum

/-! # The progress tracker

`ProgressTracker` of `progress_tracker.zig`: the configuration, the progress of
every peer and the vote tally. -/

open Base

namespace Raftz

/-- Is a peer added to or removed from the progress map? -/
inductive MapChangeKind
  | add
  | remove
  deriving DecidableEq, Repr

/-- One edit of the progress map. -/
structure MapChangeEntry where
  id : ℕ
  kind : MapChangeKind
  deriving DecidableEq, Repr

/-- Configuration, per-peer progress and vote tally. -/
structure ProgressTracker where
  progress : ProgressMap := ∅
  peerIds : List ℕ := []
  conf : TrackerConfiguration := {}
  votes : AList (fun _ : ℕ => Bool) := ∅
  maxInflight : ℕ
  groupCommit : Bool := false
  deriving DecidableEq

namespace ProgressTracker

/-- An empty tracker. -/
def init (maxInflight : ℕ) : ProgressTracker := { maxInflight := maxInflight }

/-- Tally of the recorded votes. -/
def getVoteResult (t : ProgressTracker) : VoteResult :=
  t.conf.voters.getVoteResult (fun id => t.votes.lookup id)

/-- The members of a sorted list, each once. -/
def dedupSorted : List ℕ → List ℕ
  | [] => []
  | [a] => [a]
  | a :: b :: l => if a = b then dedupSorted (b :: l) else a :: dedupSorted (b :: l)

/-- All members of a configuration, sorted, each once. -/
def peerIdsOf (conf : TrackerConfiguration) : List ℕ :=
  dedupSorted ((conf.voters.incoming.voters.ids ++ conf.voters.outgoing.voters.ids ++
    conf.learners.ids ++ conf.learnersNext.ids).insertionSort (· ≤ ·))

/-- Apply one edit of the progress map. -/
def applyChange (maxInflight nextIdx : ℕ) (m : ProgressMap) (c : MapChangeEntry) : ProgressMap :=
  match c.kind with
  | .add => m.insert c.id { Progress.init nextIdx maxInflight with recentActive := true }
  | .remove => m.erase c.id

/-- Install a configuration together with the edits of the progress map. -/
def applyConf (t : ProgressTracker) (conf : TrackerConfiguration) (changes : List MapChangeEntry)
    (nextIdx : ℕ) : ProgressTracker :=
  { t with
    conf := conf
    peerIds := peerIdsOf conf
    progress := changes.foldl (applyChange t.maxInflight nextIdx) t.progress }

/-- Forget all votes. -/
def resetVotes (t : ProgressTracker) : ProgressTracker := { t with votes := ∅ }

/-- The acknowledged index of a voter and its group. -/
def ackedIndex (t : ProgressTracker) (voter : ℕ) : Option Index :=
  (t.progress.lookup voter).map (fun p => ⟨p.matched, p.commitGroupId⟩)

/-- The index a quorum has acknowledged. -/
def maxCommittedIndex (t : ProgressTracker) : ℕ :=
  (t.conf.voters.committedIndex t.groupCommit t.ackedIndex).index

/-- Record a vote; a later one replaces it. -/
def recordVote (t : ProgressTracker) (id : ℕ) (vote : Bool) : ProgressTracker :=
  { t with votes := t.votes.insert id vote }

/-- Do the members form a quorum? -/
def hasQuorum (t : ProgressTracker) (potentialQuorum : IdSet) : Bool :=
  t.conf.voters.getVoteResult (fun id => some (decide (id ∈ potentialQuorum))) == .won

/-- The peers that were active since the last sweep. -/
def activePeers (t : ProgressTracker) (perspectiveOf : ℕ) : IdSet :=
  IdSet.addAll ∅ ((t.progress.entries.filter
    (fun e => e.1 == perspectiveOf || e.2.recentActive)).map Sigma.fst)

/-- Sweep the activity flags; the flag says whether a quorum was active. -/
def quorumRecentlyActive (t : ProgressTracker) (perspectiveOf : ℕ) : ProgressTracker × Bool :=
  ({ t with progress :=
      mapVals (fun id p => { p with recentActive := id == perspectiveOf }) t.progress },
    t.hasQuorum (t.activePeers perspectiveOf))

/-- One voter and not joint. -/
def isSingleton (t : ProgressTracker) : Bool := t.conf.voters.isSingleton

/-- The progress of a peer. -/
def get (t : ProgressTracker) (id : ℕ) : Option Progress := t.progress.lookup id

/-- Replace the progress of a peer. -/
def set (t : ProgressTracker) (id : ℕ) (p : Progress) : ProgressTracker :=
  { t with progress := t.progress.insert id p }

/-- Does the tracker follow the peer? -/
def contains (t : ProgressTracker) (id : ℕ) : Bool := decide (id ∈ t.progress)

@[simp] theorem get_set (t : ProgressTracker) (id : ℕ) (p : Progress) (j : ℕ) :
    (t.set id p).get j = if j = id then some p else t.get j := lookup_insert_eq _ _ _ _

@[simp] theorem set_conf (t : ProgressTracker) (id : ℕ) (p : Progress) :
    (t.set id p).conf = t.conf := rfl

@[simp] theorem set_votes (t : ProgressTracker) (id : ℕ) (p : Progress) :
    (t.set id p).votes = t.votes := rfl

end ProgressTracker

end Raftz
