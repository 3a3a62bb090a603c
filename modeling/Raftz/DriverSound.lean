import Raftz.Refine.Calls

/-! # What the batches of a node do

Specifications of the `RawNode` operations over the protocol's view, and the
invariant of a driven node: the consensus state is sound, what has been handed
out is committed and has left no gap, and the storage holds the batch that is
being worked on. -/

open Base

namespace Raftz

variable {σ : Type} [LawfulStorage σ] {honest : Prop}

/-- The record of a batch. -/
def Ready.record (rd : Ready) : ReadyRecord where
  number := rd.number
  lastEntry := rd.entries.getLast?.map (fun e => (e.index, e.term))
  snapshot := rd.snapshot.map (fun s => (s.metadata.index, s.metadata.term))

namespace RawNode

variable {n : RawNode σ}

/-! ### Handing out -/

/-- Entries cut from a log are consecutive and lie within the cut. -/
theorem handedOut_of_slice {l : Log} (hc : l.Contiguous) {lo hi : ℕ} (hlo : l.base < lo)
    {es : List Entry} (h : es <+: l.slice lo (hi + 1)) :
    Log.Consecutive lo es ∧ ∀ e ∈ es, lo ≤ e.index ∧ e.index ≤ hi := by
  have hcons := (hc.slice hlo (hi + 1)).of_isPrefix h
  refine ⟨hcons, fun e he => ?_⟩
  obtain ⟨k, hk, rfl⟩ := List.getElem_of_mem he
  have hidx : es[k].index = lo + k := Log.consecutive_iff.mp hcons k hk
  have hlen : es.length ≤ hi + 1 - lo := by
    refine h.length_le.trans ?_
    unfold Log.slice
    exact List.length_take_le _ _
  omega

/-- The index of the last entry handed out, or where handing out stands. -/
def reached (p : ℕ) (es : List Entry) : ℕ := (es.getLast?.map Entry.index).getD p

theorem reached_eq {p : ℕ} {es : List Entry} (h : Log.Consecutive (p + 1) es) :
    reached p es = p + es.length := by
  unfold reached
  rcases List.eq_nil_or_concat es with rfl | ⟨es', e, rfl⟩
  · rfl
  · have hidx := Log.consecutive_iff.mp h es'.length (by simp)
    simp only [List.concat_eq_append, List.get_eq_getElem, List.getElem_append_right, le_refl,
      Nat.sub_self, List.getElem_cons_zero] at hidx
    simp [hidx]
    omega

/-- Everything up to here may be applied. -/
def ceiling (n : RawNode σ) : ℕ := min n.raft.raftLog.committed n.raft.raftLog.persisted

/-- What handing out the committed entries after `since` and the messages leaves. -/
structure LightSpec (n : RawNode σ) (since : ℕ) (l : LightReady) (n' : RawNode σ) : Prop where
  raft : ∃ u, n'.raft = { n.raft with messages := [], uncommittedState := u }
  messages : l.messages = n.raft.messages
  entries : ∃ hi ≤ n.ceiling, l.committedEntries <+: n.raft.raftLog.log.slice
    (max (since + 1) (n.raft.raftLog.log.base + 1)) (hi + 1)
  since : n'.commitSinceIndex = (l.committedEntries.getLast?.map Entry.index).getD since
  records : n'.records = n.records
  maxNumber : n'.maxNumber = n.maxNumber
  prevHs : n'.prevHs = n.prevHs
  prevSs : n'.prevSs = n.prevSs

theorem upperBound_le (h : n.raft.Sound honest) :
    n.raft.raftLog.appliedIndexUpperBound ≤ n.ceiling := by
  unfold RaftLog.appliedIndexUpperBound ceiling
  rw [h.limit, Nat.add_zero]
  exact min_le_min le_rfl (Nat.mod_le _ _)

theorem wp_getLightReadySince (h : n.raft.Sound honest) (since : ℕ) :
    (getLightReadySince since).wp (LightSpec n since) (fun _ n' => n' = n) n := by
  unfold getLightReadySince onRaft Raft.onLog
  rw [Act.wp_bind, Act.wp_get, Act.wp_bind, Act.wp_zoom, Act.wp_zoom]
  refine Act.wp_mono h.log.wp_nextEntriesSince ?_ ?_
  · rintro o l' ⟨rfl, hes⟩
    have hpre : ∃ hi ≤ n.ceiling, o.getD [] <+: n.raft.raftLog.log.slice
        (max (since + 1) (n.raft.raftLog.log.base + 1)) (hi + 1) := by
      refine ⟨_, upperBound_le h, ?_⟩
      cases o with
      | none => exact List.nil_prefix
      | some es => exact (hes es rfl).2
    unfold Raft.reduceUncommittedSize
    rw [Act.wp_bind, Act.wp_modify, Act.wp_bind, Act.wp_zoom, Act.wp_modify, Act.wp_bind]
    have hraft : ∃ u, (if n.raft.state = .leader then
        ({ ({ n.raft with messages := [] } : Raft σ) with
          uncommittedState := n.raft.uncommittedState.maybeReduceUncommittedSize (o.getD []) } :
            Raft σ)
        else { n.raft with messages := [] }) =
        { n.raft with messages := [], uncommittedState := u } := by
      split
      · exact ⟨_, rfl⟩
      · exact ⟨_, rfl⟩
    unfold noteHandedOut
    split
    · rename_i last hlast
      rw [Act.wp_bind, Act.wp_assert]
      intro _
      rw [Act.wp_modify, Act.wp_pure]
      exact ⟨hraft, rfl, hpre, by rw [hlast]; rfl, rfl, rfl, rfl, rfl⟩
    · rename_i hlast
      rw [Act.wp_modify, Act.wp_pure]
      exact ⟨hraft, rfl, hpre, by rw [hlast]; rfl, rfl, rfl, rfl, rfl⟩
  · rintro e l' rfl
    rfl

theorem LightSpec.sound {since : ℕ} {l : LightReady} {n' : RawNode σ}
    (hl : LightSpec n since l n') (h : n.raft.Sound honest) : n'.raft.Sound honest := by
  obtain ⟨u, hu⟩ := hl.raft
  rw [hu]
  exact { h with }

/-- The position from which a batch hands out. -/
def handOutIndex (n : RawNode σ) : ℕ :=
  match n.raft.raftLog.unstable.snapshot with
  | some s => s.metadata.index
  | none => n.commitSinceIndex

/-- What taking a batch leaves. -/
structure ReadySpec (n : RawNode σ) (rd : Ready) (n' : RawNode σ) : Prop where
  raft : ∃ u, n'.raft = { n.raft with messages := [], readStates := [], uncommittedState := u }
  messages : rd.light.messages = n.raft.messages
  readStates : rd.readStates = n.raft.readStates
  entries : rd.entries = n.raft.raftLog.unstable.entries
  snapshot : rd.snapshot = n.raft.raftLog.unstable.snapshot
  hs : rd.hs = if n.raft.hardState = n.prevHs then none else some n.raft.hardState
  committed : ∃ hi ≤ n.ceiling, rd.light.committedEntries <+: n.raft.raftLog.log.slice
    (max (n.handOutIndex + 1) (n.raft.raftLog.log.base + 1)) (hi + 1)
  since_le : n.commitSinceIndex ≤ n.handOutIndex
  since : n'.commitSinceIndex =
    (rd.light.committedEntries.getLast?.map Entry.index).getD n.handOutIndex
  number : rd.number = n.maxNumber + 1
  maxNumber : n'.maxNumber = n.maxNumber + 1
  records : ∃ old, (old = n.records ∨ old = []) ∧ n'.records = old ++ [rd.record]
  prevHs : n'.prevHs = n.prevHs
  late : rd.isPersistedMsg = decide (n.raft.state ≠ .leader)

theorem pendingSnapshot_eq (h : n.raft.Sound honest) :
    n.pendingSnapshot = n.raft.raftLog.unstable.snapshot := by
  unfold pendingSnapshot
  cases hs : n.raft.raftLog.unstable.snapshot with
  | none => rfl
  | some s => simp [Option.filter, (h.snapshot s hs).1]

theorem wp_getReady (h : n.raft.Sound honest) :
    getReady.wp (ReadySpec n) (fun _ n' => n' = n) n := by
  have hsnap := pendingSnapshot_eq h
  unfold getReady
  rw [Act.wp_bind, Act.wp_get, Act.wp_bind, Act.wp_modify, Act.wp_bind]
  -- the committed entries, the messages, and the record of the batch
  have hrest : ∀ since, since = n.handOutIndex → n.commitSinceIndex ≤ since →
      (Act.catchErr (getLightReadySince since) (fun e => do
        Act.modify (fun n' => { n' with raft := { n'.raft with readStates := n.raft.readStates } })
        Act.throw e) : Act Err (RawNode σ) LightReady).wp
      (fun light n1 => LightSpec { n with raft := { n.raft with readStates := [] } } since light n1)
      (fun _ n' => n' = n) { n with raft := { n.raft with readStates := [] } } := by
    intro since _ _
    have hs0 : ({ n.raft with readStates := [] } : Raft σ).Sound honest := { h with }
    rw [Act.wp_catchErr]
    refine Act.wp_mono (wp_getLightReadySince (n := { n with
      raft := { n.raft with readStates := [] } }) hs0 since) (fun _ _ h => h) ?_
    rintro e n1 rfl
    rw [Act.wp_bind, Act.wp_modify, Act.wp_throw]
  have hrun : ∀ since, since = n.handOutIndex → n.commitSinceIndex ≤ since →
      (do
        let light ← Act.catchErr (getLightReadySince since) (fun e => do
          Act.modify (fun n' => { n' with raft := { n'.raft with readStates := n.raft.readStates } })
          Act.throw e)
        let record : ReadyRecord := {
          number := n.maxNumber + 1
          lastEntry := n.raft.raftLog.unstable.entries.getLast?.map (fun e => (e.index, e.term))
          snapshot := n.pendingSnapshot.map (fun s => (s.metadata.index, s.metadata.term)) }
        Act.modify (fun n' => { n' with
          maxNumber := n.maxNumber + 1
          records := (if n.prevSs.role ≠ .leader ∧ n.raft.state = .leader then [] else n'.records) ++
            [record] })
        return {
          number := n.maxNumber + 1
          ss := if n.raft.softState = n.prevSs then none else some n.raft.softState
          hs := if n.raft.hardState = n.prevHs then none else some n.raft.hardState
          readStates := n.raft.readStates
          entries := n.raft.raftLog.unstable.entries
          snapshot := n.pendingSnapshot
          isPersistedMsg := decide (n.raft.state ≠ .leader)
          light := light
          mustSync := decide (n.raft.hardState.vote ≠ n.prevHs.vote ∨
              n.raft.hardState.term ≠ n.prevHs.term) ||
            n.pendingSnapshot.isSome || !n.raft.raftLog.unstable.entries.isEmpty } :
        Act Err (RawNode σ) Ready).wp (ReadySpec n) (fun _ n' => n' = n)
        { n with raft := { n.raft with readStates := [] } } := by
    intro since hsince hle
    rw [Act.wp_bind]
    refine Act.wp_mono (hrest since hsince hle) ?_ fun _ _ h => h
    intro light n1 hl
    dsimp only
    rw [Act.wp_bind, Act.wp_modify, Act.wp_pure]
    obtain ⟨u, hu⟩ := hl.raft
    exact {
      raft := ⟨u, hu⟩
      messages := hl.messages
      readStates := rfl
      entries := rfl
      snapshot := hsnap
      hs := rfl
      committed := by
        rw [← hsince]
        exact hl.entries
      since_le := hsince ▸ hle
      since := by
        rw [← hsince]
        exact hl.since
      number := rfl
      maxNumber := rfl
      records := by
        refine ⟨if n.prevSs.role ≠ .leader ∧ n.raft.state = .leader then [] else n1.records, ?_, rfl⟩
        split
        · exact Or.inr rfl
        · exact Or.inl hl.records
      prevHs := hl.prevHs
      late := rfl }
  unfold handOutFrom
  split
  · rename_i s hs
    rw [hsnap] at hs
    rw [Act.wp_bind, Act.wp_assert]
    intro hle
    rw [Act.wp_bind, Act.wp_assert]
    intro _
    rw [Act.wp_pure]
    refine hrun _ ?_ (of_decide_eq_true hle)
    unfold handOutIndex
    rw [hs]
  · rename_i hs
    rw [hsnap] at hs
    rw [Act.wp_pure]
    refine hrun _ ?_ le_rfl
    unfold handOutIndex
    rw [hs]

theorem ReadySpec.sound {rd : Ready} {n' : RawNode σ} (hr : ReadySpec n rd n')
    (h : n.raft.Sound honest) : n'.raft.Sound honest := by
  obtain ⟨u, hu⟩ := hr.raft
  rw [hu]
  exact { h with }

end RawNode

/-! ### Writing a batch -/

namespace Ready

/-- The stored log ends with the batch. -/
structure Written (rd : Ready) (l : Log) : Prop where
  snapshot : ∀ s, rd.snapshot = some s → l.base = s.metadata.index ∧ l.baseTerm = s.metadata.term ∧
    (rd.entries = [] → l.entries = [])
  entries : ∀ e, rd.entries.getLast? = some e → l.last = e.index ∧ l.termAt e.index = some e.term
  suffix : rd.entries <:+ l.entries

/-- Writing the buffer makes the storage hold the whole log. -/
theorem write_ok {rd : Ready} {l : RaftLog σ} (h : l.WF) (he : rd.entries = l.unstable.entries)
    (hs : rd.snapshot = l.unstable.snapshot) {store : σ} (hw : rd.write l.store = .ok store) :
    LawfulStorage.Valid store ∧ (LawfulStorage.view store).log = l.log := by
  obtain ⟨s1, hs1, hw⟩ := bind_eq_ok.mp hw
  obtain ⟨s2, hs2, hw⟩ := bind_eq_ok.mp hw
  unfold Ready.writeSnapshot at hs1
  unfold Ready.writeEntries at hs2
  unfold Ready.writeHardState at hw
  -- the snapshot
  have h1 : LawfulStorage.Valid s1 ∧
      (LawfulStorage.view s1).log.splice l.unstable.offset l.unstable.entries = l.log ∧
      (l.unstable.entries = [] → (LawfulStorage.view s1).log = l.log) := by
    cases hsnap : l.unstable.snapshot with
    | none =>
        rw [hs, hsnap] at hs1
        cases hs1
        refine ⟨h.valid, (RaftLog.log_of_none hsnap).symm, fun hnil => ?_⟩
        rw [RaftLog.log_of_none hsnap, hnil, h.drained hsnap hnil]
        exact Log.splice_last.symm
    | some snap =>
        rw [hs, hsnap] at hs1
        obtain ⟨hv, hview⟩ := LawfulStorage.applySnapshot_ok h.valid hs1
        have hlog : (LawfulStorage.view s1).log = ⟨snap.metadata.index, snap.metadata.term, []⟩ := by
          rw [hview]
          rfl
        refine ⟨hv, ?_, fun hnil => ?_⟩
        · rw [hlog, RaftLog.log_of_snapshot hsnap, h.snapshot snap hsnap]
          unfold Log.splice
          simp
        · rw [hlog, RaftLog.log_of_snapshot hsnap, hnil]
  -- the entries
  have h2 : LawfulStorage.Valid s2 ∧ (LawfulStorage.view s2).log = l.log := by
    split at hs2
    · rename_i hnil
      cases hs2
      exact ⟨h1.1, h1.2.2 (he ▸ hnil)⟩
    · rename_i hne
      rw [he] at hs2 hne
      obtain ⟨e, es, hes⟩ := List.exists_cons_of_ne_nil hne
      have hcons := h.entries
      have hoff : e.index = l.unstable.offset := by
        rw [hes] at hcons
        exact hcons.1
      obtain ⟨hv, hview, _⟩ := LawfulStorage.append_ok h1.1 hs2 fun e' he' => by
        rw [hes] at he'
        cases he'
        rw [hoff]
        exact hcons
      refine ⟨hv, ?_⟩
      rw [hview, ← h1.2.1, hes]
      unfold StoreView.append
      dsimp only
      rw [hoff]
  -- the hard state
  split at hw
  · obtain ⟨hv, hview⟩ := LawfulStorage.setHardState_ok h2.1 hw
    refine ⟨hv, ?_⟩
    rw [hview]
    exact h2.2
  · cases hw
    exact h2

/-- The batch of a node is at the end of its log. -/
theorem written_log {rd : Ready} {l : RaftLog σ} (h : l.WF) (he : rd.entries = l.unstable.entries)
    (hs : rd.snapshot = l.unstable.snapshot) : rd.Written l.log where
  snapshot := by
    intro s hsnap
    rw [hs] at hsnap
    rw [RaftLog.log_of_snapshot hsnap]
    exact ⟨rfl, rfl, fun hnil => he ▸ hnil⟩
  entries := by
    intro e hlast
    rw [he] at hlast
    have hne : l.unstable.entries ≠ [] := fun hnil => by rw [hnil] at hlast; cases hlast
    have hlen : 0 < l.unstable.entries.length := List.length_pos_iff.mpr hne
    have heq := h.last_eq
    have hget : l.unstable.entries[l.unstable.entries.length - 1]? = some e := by
      rw [← List.getLast?_eq_getElem?]
      exact hlast
    have hidx : e.index = l.unstable.offset + (l.unstable.entries.length - 1) := by
      have hcons := Log.consecutive_iff.mp h.entries (l.unstable.entries.length - 1) (by omega)
      rw [List.getElem?_eq_getElem (by omega)] at hget
      rw [← Option.some.inj hget]
      exact hcons
    have hentry : l.log.entryAt e.index = some e := by
      rw [h.entryAt_ge (by omega), hidx]
      rw [show l.unstable.offset + (l.unstable.entries.length - 1) - l.unstable.offset =
        l.unstable.entries.length - 1 by omega]
      exact hget
    exact ⟨by omega, Log.termAt_of_entryAt hentry⟩
  suffix := by
    rw [he]
    cases hsnap : l.unstable.snapshot with
    | some s =>
        rw [RaftLog.log_of_snapshot hsnap]
    | none =>
        rw [RaftLog.log_of_none hsnap]
        exact List.suffix_append _ _

end Ready

/-! ### Reporting a batch back -/

/-- What dropping a written batch from the buffer leaves of the log: the log itself, or the stored
log, which ends at the same position. -/
structure RaftLog.Settled (rd : Ready) (l l' : RaftLog σ) : Prop where
  wf : l'.WF
  same : l' = { l with unstable := l'.unstable }
  log : l'.log = l.log ∨ (l'.log = l.storeLog ∧ rd.entries ≠ [])
  base : l'.log.base = l.log.base
  last : l'.log.last = l.log.last
  held : l.unstable.entries = rd.entries → l'.log = l.log
  snapshot : l'.unstable.snapshot = l.unstable.snapshot ∨
    (l'.unstable.snapshot = none ∧ ∃ s, rd.snapshot = some s ∧ l.log.base = s.metadata.index)

namespace RawNode

variable {n : RawNode σ} {rd : Ready}

/-- When the buffer still holds the batch, the storage holds the log. -/
theorem storeLog_eq_of_held {l : RaftLog σ} (hw : rd.Written l.storeLog)
    (hheld : l.unstable.entries = rd.entries) (hb : l.storeLog.base = l.log.base)
    (hbt : l.storeLog.baseTerm = l.log.baseTerm) (hl : l.storeLog.last = l.log.last) :
    l.storeLog = l.log := by
  obtain ⟨A, hA⟩ := hw.suffix
  have hents : l.storeLog.entries = l.log.entries := by
    have hlen : l.storeLog.entries.length = l.log.entries.length := by
      have h1 : l.storeLog.last = l.storeLog.base + l.storeLog.entries.length := rfl
      have h2 : l.log.last = l.log.base + l.log.entries.length := rfl
      omega
    cases hsnap : l.unstable.snapshot with
    | some s =>
        rw [RaftLog.log_of_snapshot hsnap, hheld, ← hA] at hlen
        have hlen : (A ++ rd.entries).length = rd.entries.length := hlen
        rw [List.length_append] at hlen
        have hnil : A = [] := List.length_eq_zero_iff.mp (by omega)
        rw [RaftLog.log_of_snapshot hsnap, hheld, ← hA, hnil, List.nil_append]
    | none =>
        have hlog : l.log.entries =
            l.storeLog.entries.take (l.unstable.offset - l.storeLog.base - 1) ++ rd.entries := by
          rw [RaftLog.log_of_none hsnap, hheld]
          rfl
        rw [hlog, ← hA, List.length_append, List.length_append] at hlen
        rw [hlog, ← hA]
        have htake : ((A ++ rd.entries).take (l.unstable.offset - l.storeLog.base - 1)).length =
            A.length := by omega
        congr 1
        rw [List.length_take, List.length_append] at htake
        rcases Nat.lt_or_ge A.length (l.unstable.offset - l.storeLog.base - 1) with hlt | hge
        · have hrd : rd.entries = [] := List.length_eq_zero_iff.mp (by omega)
          rw [hrd, List.append_nil, List.take_of_length_le hlt.le]
        · rw [show l.unstable.offset - l.storeLog.base - 1 = A.length by omega, List.take_left]
  cases hst : l.storeLog
  cases hlg : l.log
  rw [hst, hlg] at hb hbt hents
  simp only [Log.mk.injEq]
  exact ⟨hb, hbt, hents⟩

/-- The buffer after a snapshot has been dropped, before its entries are. -/
theorem settled_entries {l : RaftLog σ} (h : l.WF) (hw : rd.Written l.storeLog) {e tail : Entry}
    (he : rd.entries.getLast? = some e) (ht : l.unstable.entries.getLast? = some tail)
    (hi : tail.index = e.index) (hb : l.storeLog.base = l.log.base)
    (hbt : l.storeLog.baseTerm = l.log.baseTerm)
    (hs : l.unstable.snapshot = none ∨ ∃ s, rd.snapshot = some s ∧ l.log.base = s.metadata.index) :
    RaftLog.Settled rd l { l with unstable := { offset := tail.index + 1 } } := by
  have hlast := (hw.entries e he).1
  have hne : l.unstable.entries ≠ [] := fun hnil => by rw [hnil] at ht; cases ht
  have hlen : 0 < l.unstable.entries.length := List.length_pos_iff.mpr hne
  have htail : tail.index = l.log.last := by
    have hget : l.unstable.entries[l.unstable.entries.length - 1]? = some tail := by
      rw [← List.getLast?_eq_getElem?]
      exact ht
    have hcons := Log.consecutive_iff.mp h.entries (l.unstable.entries.length - 1) (by omega)
    rw [List.getElem?_eq_getElem (by omega)] at hget
    have hidx : tail.index = l.unstable.offset + (l.unstable.entries.length - 1) := by
      rw [← Option.some.inj hget]
      exact hcons
    have heq := h.last_eq
    omega
  rw [htail]
  obtain ⟨hwf, hlog⟩ := h.dropEntries hb (by omega)
  exact {
    wf := hwf
    same := rfl
    log := Or.inr ⟨hlog, fun hnil => by rw [hnil] at he; cases he⟩
    base := by rw [hlog, hb]
    last := by rw [hlog]; omega
    held := by
      intro hheld
      rw [hlog]
      exact storeLog_eq_of_held hw hheld hb hbt (by omega)
    snapshot := by
      rcases hs with hs | hs
      · exact Or.inl hs.symm
      · exact Or.inr ⟨rfl, hs⟩ }

/-- Dropping the written batch from the buffer. -/
theorem wp_stabilize (h : n.raft.raftLog.WF) (hw : rd.Written n.raft.raftLog.storeLog)
    (hterm : ∀ s s', rd.snapshot = some s → n.raft.raftLog.unstable.snapshot = some s' →
      s'.metadata.index = s.metadata.index → s'.metadata.term = s.metadata.term) :
    (stabilizeSnapshot rd.record >>= fun _ => stabilizeEntries rd.record).wp
      (fun _ n' => ∃ l', n' = { n with raft := { n.raft with raftLog := l' } } ∧
        RaftLog.Settled rd n.raft.raftLog l') (fun _ _ => False) n := by
  unfold stabilizeSnapshot stabilizeEntries onRaft Raft.onLog RaftLog.stableSnapshot
    RaftLog.stableEntries Ready.record
  rw [Act.wp_bind]
  cases hs : rd.snapshot with
  | none =>
      dsimp only [Option.map_none]
      rw [Act.wp_pure]
      cases he : rd.entries.getLast? with
      | none => exact ⟨_, rfl, ⟨h, rfl, Or.inl rfl, rfl, rfl, fun _ => rfl, Or.inl rfl⟩⟩
      | some e =>
          dsimp only [Option.map_some]
          rw [Act.wp_zoom, Act.wp_zoom, Act.wp_bind, Act.wp_get, Act.wp_bind, Act.wp_orPanic]
          intro u hu
          rw [Act.wp_modify]
          refine ⟨_, rfl, ?_⟩
          unfold Unstable.stableEntries at hu
          split at hu
          · rename_i tail hsnap htail
            split at hu
            · rename_i hit
              cases hu
              have hb : n.raft.raftLog.storeLog.base = n.raft.raftLog.log.base := by
                rw [RaftLog.log_of_none hsnap]
                rfl
              have hbt : n.raft.raftLog.storeLog.baseTerm = n.raft.raftLog.log.baseTerm := by
                rw [RaftLog.log_of_none hsnap]
                rfl
              have hset := settled_entries h hw he htail hit.1 hb hbt (Or.inl hsnap)
              rw [hsnap]
              exact hset
            · cases hu
          · cases hu
  | some s =>
      dsimp only [Option.map_some]
      rw [Act.wp_zoom, Act.wp_zoom, Act.wp_bind, Act.wp_get, Act.wp_bind, Act.wp_orPanic]
      intro u hu
      rw [Act.wp_modify]
      unfold Unstable.stableSnapshot at hu
      split at hu
      · rename_i s' hsnap
        split at hu
        · rename_i hidx
          cases hu
          have hst := hterm s s' hs hsnap hidx
          obtain ⟨hb, hbt, hnil⟩ := hw.snapshot s hs
          have hbase : n.raft.raftLog.log.base = s.metadata.index := by
            rw [RaftLog.log_of_snapshot hsnap, hidx]
          cases he : rd.entries.getLast? with
          | none =>
              have hempty : rd.entries = [] := List.getLast?_eq_none_iff.mp he
              have hstore : n.raft.raftLog.storeLog = ⟨s'.metadata.index, s'.metadata.term, []⟩ := by
                have hent := hnil hempty
                rw [hidx, hst, ← hb, ← hbt, ← hent]
              obtain ⟨hwf, hlog⟩ := h.dropSnapshot hsnap hstore
              exact ⟨_, rfl, ⟨hwf, rfl, Or.inl hlog, by rw [hlog], by rw [hlog], fun _ => hlog,
                Or.inr ⟨rfl, s, hs, hbase⟩⟩⟩
          | some e =>
              dsimp only [Option.map_some]
              rw [Act.wp_zoom, Act.wp_zoom, Act.wp_bind, Act.wp_get, Act.wp_bind, Act.wp_orPanic]
              intro u hu
              rw [Act.wp_modify]
              refine ⟨_, rfl, ?_⟩
              unfold Unstable.stableEntries at hu
              split at hu
              · rename_i tail _ htail
                split at hu
                · rename_i hit
                  cases hu
                  have hbt' : n.raft.raftLog.storeLog.baseTerm = n.raft.raftLog.log.baseTerm := by
                    rw [RaftLog.log_of_snapshot hsnap, hbt, ← hst]
                  have hset := settled_entries h hw he htail hit.1 (by rw [hb, hbase]) hbt'
                    (Or.inr ⟨s, hs, hbase⟩)
                  exact hset
                · cases hu
              · cases hu
        · cases hu
      · cases hu

/-- A settled log keeps the node sound. -/
theorem sound_of_settled {r : Raft σ} {l' : RaftLog σ} (h : r.Sound False)
    (hs : RaftLog.Settled rd r.raftLog l') : ({ r with raftLog := l' } : Raft σ).Sound False where
  id_ne := h.id_ne
  log := hs.wf
  limit := by
    show l'.maxApplyUnpersistedLogLimit = 0
    rw [hs.same]
    exact h.limit
  snapshot := by
    intro s hsnap
    rcases hs.snapshot with heq | ⟨hn, _⟩
    · exact h.snapshot s (heq ▸ hsnap)
    · exact absurd (hn.symm.trans hsnap) (by simp)
  requested := by
    intro hne
    rcases hs.snapshot with heq | ⟨hn, _⟩
    · exact h.requested fun hn => hne (heq.trans hn)
    · exact absurd hn hne
  tracker := h.tracker
  promotable := h.promotable
  leader := h.leader
  candidate := h.candidate
  reads := h.reads
  asked := fun hf => hf.elim

/-- What reporting a batch as written leaves. -/
structure Reported (rd : Ready) (n n' : RawNode σ) : Prop where
  result : ∃ l', RaftLog.Settled rd n.raft.raftLog l' ∧ n' = { n with
    raft := { n.raft with raftLog := l' }
    prevSs := rd.ss.getD n.prevSs
    prevHs := rd.hs.getD n.prevHs }

theorem wp_commitReady (h : n.raft.raftLog.WF) (hw : rd.Written n.raft.raftLog.storeLog)
    (hterm : ∀ s s', rd.snapshot = some s → n.raft.raftLog.unstable.snapshot = some s' →
      s'.metadata.index = s.metadata.index → s'.metadata.term = s.metadata.term)
    (hrec : ∀ rec ∈ n.records, rec.number = rd.number → rec = rd.record) :
    (commitReady rd).wp (fun _ n' => Reported rd n n') (fun _ _ => False) n := by
  unfold commitReady
  rw [Act.wp_bind, Act.wp_modify, Act.wp_bind, Act.wp_get]
  split
  · trivial
  · rename_i record hlast
    rw [Act.wp_bind, Act.wp_assert]
    intro hnum
    have hmem : record ∈ n.records := List.mem_of_getLast? hlast
    rw [hrec record hmem (of_decide_eq_true hnum)]
    refine Act.wp_mono (wp_stabilize (n := { n with
      prevSs := rd.ss.getD n.prevSs, prevHs := rd.hs.getD n.prevHs }) h hw hterm) ?_ fun _ _ hf => hf
    rintro _ n' ⟨l', rfl, hl'⟩
    exact ⟨l', hl', rfl⟩

/-- What reporting batches as durable leaves. -/
structure Persisted (n n' : RawNode σ) : Prop where
  result : ∃ r' recs, n' = { n with raft := r', records := recs } ∧ recs <:+ n.records ∧
    r'.Sound False ∧ Micros False reportMessage n.raft.core r'.core

/-- The records of batches up to a number. -/
def recordsUpTo (n : RawNode σ) (number : ℕ) : List ReadyRecord :=
  n.records.takeWhile (fun record => decide (record.number ≤ number))

/-- The records of later batches. -/
def recordsAfter (n : RawNode σ) (number : ℕ) : List ReadyRecord :=
  n.records.dropWhile (fun record => decide (record.number ≤ number))

/-- What a report for the batches up to `number` leaves: the position of the last snapshot is
noted, then that of the last entry after it. -/
structure Acknowledged (m : Message) (number : ℕ) (n n' : RawNode σ) : Prop where
  result : ∃ r1 r2, n' = { n with raft := r2, records := n.recordsAfter number } ∧
    Raft.Noted False m ((persistedBy (n.recordsUpTo number) 0 (0, 0)).1 ≠ 0)
      (persistedBy (n.recordsUpTo number) 0 (0, 0)).1 n.raft r1 ∧ r1.Sound False ∧
    Raft.Noted False m ((persistedBy (n.recordsUpTo number) 0 (0, 0)).2.1 ≠ 0 ∧
        r1.raftLog.storeLog.termAt (persistedBy (n.recordsUpTo number) 0 (0, 0)).2.1 =
          some (persistedBy (n.recordsUpTo number) 0 (0, 0)).2.2)
      (persistedBy (n.recordsUpTo number) 0 (0, 0)).2.1 r1 r2

theorem noted_onPersistReady (h : n.raft.Sound False) (m : Message) (number : ℕ) :
    (onPersistReady number).wp (fun _ n' => Acknowledged m number n n')
      (fun _ n' => Acknowledged m number n n') n := by
  unfold onPersistReady onRaft
  rw [Act.wp_bind, Act.wp_get, Act.wp_bind, Act.wp_modify, Act.wp_bind]
  -- the entries, after the snapshot has been noted
  have hentries : ∀ r1 : Raft σ, Raft.Noted False m
      ((persistedBy (n.recordsUpTo number) 0 (0, 0)).1 ≠ 0)
      (persistedBy (n.recordsUpTo number) 0 (0, 0)).1 n.raft r1 → r1.Sound False →
      (Act.when ((persistedBy (n.recordsUpTo number) 0 (0, 0)).2.1 ≠ 0)
        (Act.ignore (Act.zoom raft (fun n r => { n with raft := r })
          (Raft.onPersistEntries (persistedBy (n.recordsUpTo number) 0 (0, 0)).2.1
            (persistedBy (n.recordsUpTo number) 0 (0, 0)).2.2))) : Act Err (RawNode σ) Unit).wp
        (fun _ n' => Acknowledged m number n n') (fun _ n' => Acknowledged m number n n')
        { n with raft := r1, records := n.recordsAfter number } := by
    intro r1 hr1 hs1
    rw [Act.wp_when]
    refine ⟨fun hne => ?_, fun _ => ⟨r1, r1, rfl, hr1, hs1, .same⟩⟩
    rw [Act.wp_ignore, Act.wp_zoom]
    refine Act.wp_mono (Raft.noted_onPersistEntries (m := m) hs1 _ _) ?_ ?_
    · intro _ r2 h2
      exact ⟨r1, r2, rfl, hr1, hs1, h2.imp fun ht => ⟨hne, ht⟩⟩
    · intro _ r2 h2
      exact ⟨r1, r2, rfl, hr1, hs1, h2.imp fun ht => ⟨hne, ht⟩⟩
  rw [Act.wp_when]
  refine ⟨fun hne => ?_, fun _ => hentries n.raft .same h⟩
  rw [Act.wp_zoom]
  refine Act.wp_mono (Raft.noted_onPersistSnapshot (m := m) h _) ?_ ?_
  · intro _ r1 h1
    exact hentries r1 (h1.imp fun _ => hne) (h1.sound h)
  · intro _ r1 h1
    exact ⟨r1, r1, rfl, h1.imp fun _ => hne, h1.sound h, .same⟩

theorem wp_onPersistReady (h : n.raft.Sound False) (number : ℕ) :
    (onPersistReady number).wp (fun _ n' => Persisted n n') (fun _ n' => Persisted n n') n := by
  have hdone : ∀ n', Acknowledged reportMessage number n n' → Persisted n n' := by
    rintro n' ⟨r1, r2, rfl, h1, -, h2⟩
    have hreach := h2.reach (h1.reach h.reach reportMessage_isReport) reportMessage_isReport
    exact ⟨r2, _, rfl, List.dropWhile_suffix _, hreach.sound, hreach.micros⟩
  exact Act.wp_mono (noted_onPersistReady h reportMessage number) (fun _ => hdone) fun _ => hdone

/-- What reporting a batch as durable leaves: the batch is settled, persistence is noted, and what
that made possible is handed out. -/
structure Advanced (rd : Ready) (n : RawNode σ) (l : LightReady) (n' : RawNode σ) : Prop where
  result : ∃ n1 n2 n3, Reported rd n n1 ∧ Persisted n1 n2 ∧
    LightSpec n2 n2.commitSinceIndex { l with commitIndex := none } n3 ∧
    ∃ hs, n' = { n3 with prevHs := hs }

/-- A report that fails on the way stops after the persistence has been noted. -/
structure HalfAdvanced (rd : Ready) (n n' : RawNode σ) : Prop where
  result : ∃ n1, Reported rd n n1 ∧ Persisted n1 n'

theorem Reported.sound {n' : RawNode σ} (h : Reported rd n n') (hs : n.raft.Sound False) :
    n'.raft.Sound False := by
  obtain ⟨l', hl', rfl⟩ := h.result
  exact sound_of_settled hs hl'

theorem wp_advanceAppend (h : n.raft.Sound False) (hw : rd.Written n.raft.raftLog.storeLog)
    (hterm : ∀ s s', rd.snapshot = some s → n.raft.raftLog.unstable.snapshot = some s' →
      s'.metadata.index = s.metadata.index → s'.metadata.term = s.metadata.term)
    (hrec : ∀ rec ∈ n.records, rec.number = rd.number → rec = rd.record) :
    (advanceAppend rd).wp (Advanced rd n) (fun _ n' => HalfAdvanced rd n n') n := by
  unfold advanceAppend
  rw [Act.wp_bind]
  refine Act.wp_mono (wp_commitReady h.log hw hterm hrec) ?_ fun _ _ hf => hf.elim
  intro _ n1 h1
  rw [Act.wp_bind, Act.wp_get, Act.wp_bind]
  refine Act.wp_mono (wp_onPersistReady (h1.sound h) _) ?_ fun _ n2 h2 => ⟨n1, h1, h2⟩
  intro _ n2 h2
  have hs2 : n2.raft.Sound False := by
    obtain ⟨r', recs, rfl, _, hs, _⟩ := h2.result
    exact hs
  rw [Act.wp_bind, Act.wp_get, Act.wp_bind]
  refine Act.wp_mono (wp_getLightReadySince hs2 _) ?_ ?_
  · intro light n3 h3
    rw [Act.wp_bind, Act.wp_get, Act.wp_bind, Act.wp_assert]
    intro _
    rw [Act.wp_bind, Act.wp_assert]
    intro _
    rw [Act.wp_bind, Act.wp_modify, Act.wp_bind, Act.wp_get, Act.wp_bind, Act.wp_assert]
    intro _
    rw [Act.wp_pure]
    exact ⟨n1, n2, n3, h1, h2, { h3 with }, _, rfl⟩
  · rintro _ n3 rfl
    exact ⟨n1, h1, h2⟩


end RawNode

/-! ### The invariant of a driven node -/

/-- The batch that is being worked on is in the storage, and its record is known. -/
structure Batch (rd : Ready) (n : RawNode σ) : Prop where
  written : rd.Written n.raft.raftLog.storeLog
  record : ∀ rec ∈ n.records, rec.number = rd.number → rec = rd.record
  snapshot : ∀ s, rd.snapshot = some s → ∃ s', n.raft.raftLog.unstable.snapshot = some s' ∧
    s.metadata.index ≤ s'.metadata.index ∧
      (s'.metadata.index = s.metadata.index → s'.metadata.term = s.metadata.term)

namespace Batch

variable {rd : Ready} {n n' : RawNode σ}

theorem snapshot_term (h : Batch rd n) (s s' : Snapshot) (hs : rd.snapshot = some s)
    (hs' : n.raft.raftLog.unstable.snapshot = some s') (hi : s'.metadata.index = s.metadata.index) :
    s'.metadata.term = s.metadata.term := by
  obtain ⟨s1, h1, _, ht⟩ := h.snapshot s hs
  rw [h1] at hs'
  cases hs'
  exact ht hi

/-- The batch stays known while the node goes on. -/
theorem of_moved (h : Batch rd n) (hwf : n.raft.raftLog.WF) (hm : Moved n.raft.core n'.raft.core)
    (hrec : ∀ rec ∈ n'.records, rec ∈ n.records) : Batch rd n' where
  written := by
    have hstore : n'.raft.raftLog.storeLog = n.raft.raftLog.storeLog :=
      (congrArg StoreView.log hm.store :)
    rw [hstore]
    exact h.written
  record := fun rec hmem => h.record rec (hrec rec hmem)
  snapshot := by
    intro s hs
    obtain ⟨s', hs', hle, ht⟩ := h.snapshot s hs
    have hp : n.raft.core.pending = some s'.metadata := by
      show n.raft.raftLog.unstable.snapshot.map Snapshot.metadata = _
      rw [hs']
      rfl
    rcases hm.pending with ⟨h1, _, _⟩ | ⟨md, h1, _, _, _, hlt⟩
    · rw [hp] at h1
      obtain ⟨s2, hs2, hmd⟩ := Option.map_eq_some_iff.mp h1
      exact ⟨s2, hs2, by rw [hmd]; exact hle, by rw [hmd]; exact ht⟩
    · -- a newer snapshot has been received
      obtain ⟨s2, hs2, hmd⟩ := Option.map_eq_some_iff.mp h1
      have hlt : n.raft.raftLog.committed < md.index := hlt (by rw [hp]; simp)
      have hbase := hwf.base_le
      rw [RaftLog.log_of_snapshot hs'] at hbase
      have hbase : s'.metadata.index ≤ n.raft.raftLog.committed := hbase
      refine ⟨s2, hs2, by rw [hmd]; omega, fun heq => ?_⟩
      rw [hmd] at heq
      omega

end Batch

namespace Driver

/-- The invariant of a driven node. -/
structure Sound (d : Driver σ) : Prop where
  raft : d.raw.raft.Sound False
  since_le : d.raw.commitSinceIndex ≤ d.raw.raft.raftLog.committed
  numbers : ∀ rec ∈ d.raw.records, rec.number ≤ d.raw.maxNumber
  batch : ∀ rd, d.pending = some rd → Batch rd d.raw

/-- A step that only lets the node go on keeps the invariant. -/
theorem Sound.of_moved {d : Driver σ} (h : d.Sound) {n' : RawNode σ} (hs : n'.raft.Sound False)
    (hm : Moved d.raw.raft.core n'.raft.core) (hrec : ∀ rec ∈ n'.records, rec ∈ d.raw.records)
    (hmax : n'.maxNumber = d.raw.maxNumber) (hsince : n'.commitSinceIndex = d.raw.commitSinceIndex) :
    ({ d with raw := n' } : Driver σ).Sound where
  raft := hs
  since_le := by
    show n'.commitSinceIndex ≤ n'.raft.raftLog.committed
    rw [hsince]
    exact h.since_le.trans hm.committed
  numbers := fun rec hmem => by
    show rec.number ≤ n'.maxNumber
    rw [hmax]
    exact h.numbers rec (hrec rec hmem)
  batch := fun rd hp => (h.batch rd hp).of_moved h.raft.log hm hrec

/-- The events of a run in which the storage keeps its data. -/
def Faithful (SameData : σ → σ → Prop) : Prop :=
  ∀ s s' : σ, SameData s s' → LawfulStorage.Valid s →
    LawfulStorage.Valid s' ∧ LawfulStorage.view s' = LawfulStorage.view s

theorem faithful_eq : Faithful (Eq : σ → σ → Prop) := by
  rintro s _ rfl hv
  exact ⟨hv, rfl⟩

/-- The cursor never passes the commit index. -/
theorem reached_le {n : RawNode σ} (h : n.raft.Sound False) {since lo hi : ℕ} {es : List Entry}
    (hs : since ≤ n.raft.raftLog.committed) (hhi : hi ≤ n.ceiling) (hlo : n.raft.raftLog.log.base < lo)
    (hes : es <+: n.raft.raftLog.log.slice lo (hi + 1)) :
    RawNode.reached since es ≤ n.raft.raftLog.committed := by
  unfold RawNode.reached
  cases hlast : es.getLast? with
  | none => exact hs
  | some e =>
      have hmem := List.mem_of_getLast? hlast
      have hle := ((RawNode.handedOut_of_slice h.log.contiguous hlo hes).2 e hmem).2
      have hmin : n.ceiling ≤ n.raft.raftLog.committed := min_le_left _ _
      show e.index ≤ _
      omega

theorem handOutIndex_le {n : RawNode σ} (h : n.raft.Sound False)
    (hs : n.commitSinceIndex ≤ n.raft.raftLog.committed) :
    n.handOutIndex ≤ n.raft.raftLog.committed := by
  unfold RawNode.handOutIndex
  split
  · rename_i s hsnap
    have hbase := h.log.base_le
    rw [RaftLog.log_of_snapshot hsnap] at hbase
    exact hbase
  · exact hs

theorem Sound.ready {d : Driver σ} (h : d.Sound) {rd : Ready} {raw : RawNode σ} {store : σ}
    (hr : RawNode.ReadySpec d.raw rd raw) (hw : rd.write raw.store = .ok store) :
    (⟨raw.setStore store, some rd⟩ : Driver σ).Sound := by
  obtain ⟨u, hu⟩ := hr.raft
  have hlog : raw.raft.raftLog = d.raw.raft.raftLog := by rw [hu]
  have hsound := hr.sound h.raft
  have hw' : rd.write d.raw.raft.raftLog.store = .ok store := by
    rw [← hlog]
    exact hw
  have hwrite := Ready.write_ok h.raft.log hr.entries hr.snapshot hw'
  obtain ⟨hwf, hlog'⟩ := h.raft.log.setStore hwrite.1 hwrite.2
  have heq : (raw.setStore store).raft.raftLog = { d.raw.raft.raftLog with store := store } := by
    show ({ raw.raft.raftLog with store := store } : RaftLog σ) = _
    rw [hlog]
  exact {
    raft := by
      refine { hsound with log := ?_, asked := fun hf => hf.elim }
      show (raw.setStore store).raft.raftLog.WF
      rw [heq]
      exact hwf
    since_le := by
      show raw.commitSinceIndex ≤ raw.raft.raftLog.committed
      rw [hr.since, hlog]
      obtain ⟨hi, hhi, hes⟩ := hr.committed
      exact reached_le h.raft (handOutIndex_le h.raft h.since_le) hhi (by omega) hes
    numbers := by
      intro rec hmem
      have hmem : rec ∈ raw.records := hmem
      show rec.number ≤ raw.maxNumber
      obtain ⟨old, hold, hrecs⟩ := hr.records
      rw [hrecs, List.mem_append, List.mem_singleton] at hmem
      rw [hr.maxNumber]
      rcases hmem with hmem | rfl
      · rcases hold with rfl | rfl
        · exact (h.numbers rec hmem).trans (Nat.le_succ _)
        · cases hmem
      · exact hr.number.le
    batch := by
      intro rd' hrd'
      cases hrd'
      have hwritten := Ready.written_log h.raft.log hr.entries hr.snapshot
      exact {
        written := by
          show rd.Written (LawfulStorage.view store).log
          rw [hwrite.2]
          exact hwritten
        record := by
          intro rec hmem hnum
          have hmem : rec ∈ raw.records := hmem
          obtain ⟨old, hold, hrecs⟩ := hr.records
          rw [hrecs, List.mem_append, List.mem_singleton] at hmem
          rcases hmem with hmem | hrec
          · rcases hold with rfl | rfl
            · have hle := h.numbers rec hmem
              have hn := hr.number
              omega
            · cases hmem
          · exact hrec
        snapshot := by
          intro s hs
          refine ⟨s, ?_, le_rfl, fun _ => rfl⟩
          show raw.raft.raftLog.unstable.snapshot = some s
          rw [hlog, ← hr.snapshot]
          exact hs } }

theorem Sound.reported {d : Driver σ} (h : d.Sound) {rd : Ready} {n' : RawNode σ}
    (hr : RawNode.Reported rd d.raw n') : (⟨n', none⟩ : Driver σ).Sound := by
  obtain ⟨l', hl', rfl⟩ := hr.result
  exact {
    raft := RawNode.sound_of_settled h.raft hl'
    since_le := by
      show d.raw.commitSinceIndex ≤ l'.committed
      rw [hl'.same]
      exact h.since_le
    numbers := h.numbers
    batch := fun rd hp => by cases hp }

theorem Sound.persisted {d : Driver σ} (h : d.Sound) {n' : RawNode σ}
    (hp : RawNode.Persisted d.raw n') : ({ d with raw := n' } : Driver σ).Sound := by
  obtain ⟨r', recs, rfl, hsuf, hs, hmic⟩ := hp.result
  exact h.of_moved hs hmic.moved (fun rec hmem => hsuf.subset hmem) rfl rfl

theorem Sound.light {d : Driver σ} (h : d.Sound) {l : LightReady} {n' : RawNode σ}
    (hl : RawNode.LightSpec d.raw d.raw.commitSinceIndex l n') (hs : HardState) :
    (⟨{ n' with prevHs := hs }, none⟩ : Driver σ).Sound := by
  obtain ⟨u, hu⟩ := hl.raft
  exact {
    raft := hl.sound h.raft
    since_le := by
      show n'.commitSinceIndex ≤ n'.raft.raftLog.committed
      rw [hl.since, hu]
      obtain ⟨hi, hhi, hes⟩ := hl.entries
      exact reached_le h.raft h.since_le hhi (by omega) hes
    numbers := by
      intro rec hmem
      have hmem : rec ∈ n'.records := hmem
      show rec.number ≤ n'.maxNumber
      rw [hl.maxNumber]
      rw [hl.records] at hmem
      exact h.numbers rec hmem
    batch := fun rd hrd => by cases hrd }

/-- The storage may be replaced by one with the same log, or a compacted one. -/
theorem Sound.setStore {d : Driver σ} (h : d.Sound) {store : σ} {l : RaftLog σ}
    (hl : l = { d.raw.raft.raftLog with store := store }) (hwf : l.WF)
    (hb : ∀ rd, d.pending = some rd →
      (LawfulStorage.view store).log = d.raw.raft.raftLog.storeLog) :
    ({ d with raw := d.raw.setStore store } : Driver σ).Sound where
  raft := by
    refine { h.raft with log := ?_, asked := fun hf => hf.elim }
    rw [hl] at hwf
    exact hwf
  since_le := h.since_le
  numbers := h.numbers
  batch := fun rd hp => {
    written := by
      have heq := hb rd hp
      show rd.Written (LawfulStorage.view store).log
      rw [heq]
      exact (h.batch rd hp).written
    record := (h.batch rd hp).record
    snapshot := (h.batch rd hp).snapshot }

/-- A compacted storage fits the log. -/
theorem compact_ok {d : Driver σ} (h : d.Sound) {snap : Snapshot} {store : σ}
    (hi : snap.metadata.index ≤ d.raw.commitSinceIndex)
    (hd : snap.metadata.index ≤ d.raw.raft.raftLog.persisted)
    (hc : WritableStorage.applyLocalSnapshot d.raw.store snap = .ok store) :
    ({ d.raw.raft.raftLog with store := store } : RaftLog σ).WF ∧
      ({ d.raw.raft.raftLog with store := store } : RaftLog σ).log =
        if d.raw.raft.raftLog.unstable.snapshot = none then
          d.raw.raft.raftLog.log.compact snap.metadata.index snap.metadata.term
        else d.raw.raft.raftLog.log := by
  obtain ⟨hv, hview, hlo, hhi⟩ := LawfulStorage.applyLocalSnapshot_ok h.raft.log.valid hc
  refine h.raft.log.compactStore hv (by rw [hview]; rfl) hlo.le hhi (hi.trans h.since_le) ?_
  exact lt_of_le_of_lt hd h.raft.log.persisted_lt

/-- Every step of a driver keeps the invariant. -/
theorem Step.sound {SameData : σ → σ → Prop} (hsame : Faithful SameData) {d d' : Driver σ} {ev : Event}
    (hstep : Step SameData d ev d') (h : d.Sound) : d'.Sound := by
  cases hstep with
  | call x r hf hl =>
      have hcall := Raft.called_of_leaves h.raft hf hl
      exact h.of_moved hcall.sound hcall.moved (fun _ hmem => hmem) rfl rfl
  | ready rd raw store hr hw => exact h.ready (Act.wp_ok (RawNode.wp_getReady h.raft) hr) hw
  | failedReady e raw hr =>
      have heq := Act.wp_err (RawNode.wp_getReady h.raft) hr
      rw [heq]
      exact h
  | advanceAppendAsync rd raw hp hl =>
      have hb := h.batch rd hp
      have hwp := RawNode.wp_commitReady h.raft.log hb.written hb.snapshot_term hb.record
      exact h.reported (hl.of_wp (Act.wp_mono hwp (fun _ _ hr => hr) fun _ _ hf => hf.elim))
  | onPersistReady number raw hl => exact h.persisted (hl.of_wp (RawNode.wp_onPersistReady h.raft number))
  | advanceAppend rd l raw hp hr =>
      have hb := h.batch rd hp
      obtain ⟨n1, n2, n3, h1, h2, h3, hs, rfl⟩ := (Act.wp_ok (RawNode.wp_advanceAppend h.raft
        hb.written hb.snapshot_term hb.record) hr).result
      exact ((h.reported h1).persisted h2).light h3 hs
  | failedAdvance rd e raw hp hr =>
      have hb := h.batch rd hp
      obtain ⟨n1, h1, h2⟩ := (Act.wp_err (RawNode.wp_advanceAppend h.raft
        hb.written hb.snapshot_term hb.record) hr).result
      exact (h.reported h1).persisted h2
  | advanceApply raw hl =>
      have hwp : (RawNode.advanceApply : Act Err (RawNode σ) Unit).wp
          (fun _ n' => ({ d with raw := n' } : Driver σ).Sound)
          (fun _ n' => ({ d with raw := n' } : Driver σ).Sound) d.raw := by
        unfold RawNode.advanceApply RawNode.onRaft
        rw [Act.wp_bind, Act.wp_get, Act.wp_zoom]
        have hreach := Raft.wp_commitApply (m := idleMessage) h.raft.reach d.raw.commitSinceIndex
        refine Act.wp_mono hreach ?_ ?_
        · intro _ r' h'
          exact h.of_moved h'.sound h'.micros.moved (fun _ hmem => hmem) rfl rfl
        · intro _ r' h'
          exact h.of_moved h'.sound h'.micros.moved (fun _ hmem => hmem) rfl rfl
      exact hl.of_wp hwp
  | compact snap rs store hp hi hd ht hs hc hw =>
      refine h.setStore rfl (compact_ok h hi hd hw).1 fun rd hrd => ?_
      rw [hp] at hrd
      cases hrd
  | drift store hs =>
      obtain ⟨hv, hview⟩ := hsame _ _ hs h.raft.log.valid
      have hlog : (LawfulStorage.view store).log = d.raw.raft.raftLog.storeLog := by
        rw [hview]
        rfl
      exact h.setStore rfl (h.raft.log.driftStore hv hlog).1 fun _ _ => hlog

theorem sound_of_steps {SameData : σ → σ → Prop} (hsame : Faithful SameData) {d d' : Driver σ} (hs : d.Sound)
    (h : Steps SameData d d') : d'.Sound := by
  induction h with
  | refl => exact hs
  | tail _ hstep ih =>
      obtain ⟨ev, hstep⟩ := hstep
      exact hstep.sound hsame ih

/-- A started node is sound, and its view is what the storage says. -/
theorem sound_of_starts {config : Config} {prng : List ℕ} {store : σ} {d : Driver σ}
    (hv : LawfulStorage.Valid store)
    (happ : config.applied ≤ max (LawfulStorage.view store).log.base
      (Raft.loadedState config (LawfulStorage.view store)).commit)
    (h : Starts config prng store d) :
    d.Sound ∧ Raft.Booted config store d.raw.raft.core ∧ d.raw.commitSinceIndex = config.applied := by
  obtain ⟨hinit, hp⟩ := h
  obtain ⟨hraft, -, hrecords, hsince⟩ := RawNode.init_cases hinit
  obtain ⟨hsound, hboot, _⟩ := @Raft.init_ok _ _ False _ _ _ _ hv happ hraft
  have hcommitted : d.raw.raft.raftLog.committed = max (LawfulStorage.view store).log.base
      (Raft.loadedState config (LawfulStorage.view store)).commit := hboot.committed
  refine ⟨⟨hsound, by rw [hsince, hcommitted]; exact happ, ?_, ?_⟩, hboot, hsince⟩
  · intro rec hmem
    rw [hrecords] at hmem
    cases hmem
  · intro rd hrd
    rw [hp] at hrd
    cases hrd

omit [LawfulStorage σ] in
/-- A started node has handed out nothing. -/
theorem records_of_starts [WritableStorage σ] {config : Config} {prng : List ℕ} {store : σ}
    {d : Driver σ} (h : Starts config prng store d) : d.raw.records = [] :=
  (RawNode.init_cases h.1).2.2.1

end Driver

end Raftz
