import Raftz.Changes
import Raftz.ReadQueue

/-! # Reads of a running node

What each change of a node does to the reads is some number of steps of a history
(`Raft.Reads`): most changes leave the queue and the commit index alone, the log only
commits further, and a reset forgets the queue. -/

open Base

namespace Raftz

variable {σ : Type}

/-! ### Histories of a node -/

/-- The history is that of the node. -/
def ReadHistory.Of (h : ReadHistory) (r : Raft σ) : Prop :=
  h.queue = r.readOnly ∧ h.committed = r.raftLog.committed

namespace Raft

/-- The reads of a node and its commit index. -/
def reads (r : Raft σ) : ReadOnly × ℕ := (r.readOnly, r.raftLog.committed)

/-- Between the nodes lie some steps of a history. -/
def Reads (r r' : Raft σ) : Prop :=
  ∀ h : ReadHistory, h.Of r → ∃ h', ReadHistory.Steps h h' ∧ h'.Of r'

namespace Reads

theorem of_reads {r r' : Raft σ} (hr : r'.reads = r.reads) : Reads r r' := by
  intro h hof
  obtain ⟨h1, h2⟩ := Prod.ext_iff.mp hr
  exact ⟨h, .refl, hof.1.trans h1.symm, hof.2.trans h2.symm⟩

theorem refl (r : Raft σ) : Reads r r := of_reads rfl

theorem trans (r r1 r2 : Raft σ) (h1 : Reads r r1) (h2 : Reads r1 r2) : Reads r r2 := by
  intro h hof
  obtain ⟨h', hs, hof'⟩ := h1 h hof
  obtain ⟨h'', hs', hof''⟩ := h2 h' hof'
  exact ⟨h'', hs.trans hs', hof''⟩

/-- The log has been committed further. -/
theorem commit {r r' : Raft σ} (hro : r'.readOnly = r.readOnly)
    (hc : r.raftLog.committed ≤ r'.raftLog.committed) : Reads r r' := by
  intro h hof
  exact ⟨_, .single (.commit h r'.raftLog.committed (hof.2.trans_le hc)), hof.1.trans hro.symm, rfl⟩

end Reads

namespace Change

theorem reads {r r' : Raft σ} (h : Change r r') : Reads r r' := by
  cases h with
  | keep hreads hcommitted => exact .commit hreads hcommitted
  | forget hreads hcommitted =>
      intro h hof
      exact ⟨_, .single (.reset h), by rw [hreads, hof.1], hof.2.trans hcommitted.symm⟩
  | register m =>
      intro h hof
      refine ⟨h.register m r.id, .single (.register h m r.id), ?_⟩
      obtain ⟨hq, hc⟩ := hof
      unfold ReadHistory.register
      dsimp only
      rw [hq, hc]
      split_ifs
      · exact ⟨rfl, rfl⟩
      · exact ⟨rfl, rfl⟩
  | acknowledge sender ctx =>
      intro h hof
      refine ⟨_, .single (.acknowledge h sender ctx), ?_, hof.2⟩
      dsimp only
      rw [hof.1]
  | release hadv =>
      intro h hof
      exact ⟨_, .single (.advance h _ _ _ (by rw [hof.1, hadv])), rfl, hof.2⟩

end Change

theorem Changes.reads {r r' : Raft σ} (h : Changes r r') : Reads r r' := by
  induction h with
  | refl => exact .refl r
  | tail _ hlast ih => exact ih.trans _ _ _ hlast.reads

end Raft

/-- Every run of a node has a history. -/
theorem Driver.run_reads [WritableStorage σ] {SameData : σ → σ → Prop} {config : Config} {prng : List ℕ} {store : σ}
    {d d' : Driver σ} (hs : Starts config prng store d) (h : Steps SameData d d') :
    ∃ committed hist, ReadHistory.Steps (ReadHistory.start config.readOnlyOption committed) hist ∧
      hist.Of d'.raw.raft := by
  obtain ⟨log, tracker, -, hchanges⟩ := run_changes hs h
  obtain ⟨hist, hsteps, hof⟩ := hchanges.reads (ReadHistory.start config.readOnlyOption log.committed) ⟨rfl, rfl⟩
  exact ⟨log.committed, hist, hsteps, hof⟩

/-! ### Order -/

/-- Whatever is done to the reads, queue and map agree, no request is released twice or before one
that came earlier, and a release takes exactly the requests up to its context; the reads of every
running node are such reads. -/
theorem reads_in_order (σ : Type) [WritableStorage σ] (SameData : σ → σ → Prop) :
    (∀ (option : ReadOnlyOption) (committed : ℕ) (h : ReadHistory),
      ReadHistory.Steps (ReadHistory.start option committed) h →
      h.queue.queue.Nodup ∧ (∀ ctx, ctx ∈ h.queue.queue ↔ ctx ∈ h.queue.pending) ∧
      h.released.Pairwise (· < ·) ∧ (h.queue.held.map Prod.snd).Pairwise (· ≤ ·) ∧
      h.queue.held.map some = (h.waiting.map fun t => h.arrived[t]?) ∧ h.waiting.Pairwise (· < ·) ∧
      (∀ ctx, ∃ ro released, h.queue.advance ctx = .ok (ro, released) ∧
        released.map (fun st => (st.req, st.index)) = h.queue.held.take (h.queue.upTo ctx) ∧
        ro.queue = h.queue.queue.drop (h.queue.upTo ctx)) ∧
      ∀ ctx, ctx ∉ h.queue.queue → h.queue.advance ctx = .ok (h.queue, [])) ∧
    ∀ (config : Config) (prng : List ℕ) (store : σ) (d d' : Driver σ), Driver.Starts config prng store d →
      Driver.Steps SameData d d' →
      ∃ committed h, ReadHistory.Steps (ReadHistory.start config.readOnlyOption committed) h ∧
        h.Of d'.raw.raft := by
  constructor
  · intro option committed h hs
    have hinv := (ReadHistory.inv_start option committed).steps hs
    obtain ⟨hreleased, hwaiting, -⟩ := List.pairwise_append.mp hinv.order
    refine ⟨hinv.sound.nodup, hinv.sound.keys, hreleased, hinv.indexes, hinv.waiting, hwaiting, fun ctx => ?_,
      fun ctx => ReadOnly.advance_unknown⟩
    obtain ⟨ro, released, hadv, hrel, -, hqueue, -⟩ := ReadOnly.advance_spec hinv.sound ctx
    exact ⟨ro, released, hadv, hrel, hqueue⟩
  · intro config prng store d d' hstart hs
    exact Driver.run_reads hstart hs

end Raftz
