import Raftz.HandOut
import Raftz.LeaderRuns

/-! # The accounts of a leader

A leader counts the entries of its term that it has not handed out yet, and the bytes of
their data.  `Tenure.Accounted` says that the counters are exact; every step of a run
keeps them so, and a hand-out never takes more from a counter than it holds. -/

open Base

namespace Raftz

namespace Log

variable {l : Log}

/-- The entries above an index. -/
def above (l : Log) (i : ℕ) : List Entry := l.entries.filter (fun e => decide (i < e.index))

theorem above_eq_nil (hc : l.Contiguous) {i : ℕ} (h : l.last ≤ i) : l.above i = [] := by
  unfold above
  rw [List.filter_eq_nil_iff]
  intro e he
  have hlt := (hc.mem_bounds he).2
  unfold last at h
  simp only [decide_eq_true_eq]
  omega

theorem above_append {i : ℕ} (h : i ≤ l.last) {es : List Entry} (hes : Consecutive (l.last + 1) es) :
    (l.splice (l.last + 1) es).above i = l.above i ++ es := by
  have hlen : l.last + 1 - l.base - 1 = l.entries.length := by
    unfold last
    omega
  unfold above splice
  dsimp only
  rw [hlen, List.take_length, List.filter_append]
  congr 1
  rw [List.filter_eq_self]
  intro e he
  have hle := (hes.mem_bounds he).1
  simp only [decide_eq_true_eq]
  omega

theorem above_compact (hc : l.Contiguous) {i j x : ℕ} (h1 : l.base ≤ j) (h2 : j ≤ i) :
    (l.compact j x).above i = l.above i := by
  have hcut : (l.entries.take (j - l.base)).filter (fun e => decide (i < e.index)) = [] := by
    rw [List.filter_eq_nil_iff]
    intro e he
    have hlt := (Consecutive.take hc (j - l.base)).mem_bounds he
    rw [List.length_take] at hlt
    simp only [decide_eq_true_eq]
    omega
  calc (l.compact j x).above i
      = (l.entries.drop (j - l.base)).filter (fun e => decide (i < e.index)) := rfl
    _ = (l.entries.take (j - l.base) ++ l.entries.drop (j - l.base)).filter
          (fun e => decide (i < e.index)) := by rw [List.filter_append, hcut, List.nil_append]
    _ = l.above i := by rw [List.take_append_drop]; rfl

/-- Handing out `es` after `start` leaves the entries above the last one.  What lies between `since`
and `start` has been compacted. -/
theorem above_handed (hc : l.Contiguous) {since start hi m : ℕ} {es : List Entry}
    (hstart : start = since ∨ (since ≤ start ∧ start = l.base))
    (hes : es <+: l.slice (max (start + 1) (l.base + 1)) (hi + 1)) :
    l.above (max m since) =
      es.filter (fun e => decide (m < e.index)) ++ l.above (max m (RawNode.reached start es)) := by
  obtain ⟨rest, hrest⟩ := hes.trans (List.take_prefix _ _)
  have hlo : ∃ k, max (start + 1) (l.base + 1) = l.base + 1 + k := Nat.exists_eq_add_of_le (le_max_right _ _)
  obtain ⟨k, hk⟩ := hlo
  have hdrop : max (start + 1) (l.base + 1) - l.base - 1 = k := by omega
  rw [hdrop] at hrest
  have hentries : l.entries = l.entries.take k ++ (es ++ rest) := by
    rw [hrest, List.take_append_drop]
  have hpre := Consecutive.take hc k
  obtain ⟨hces, hcrest⟩ := RaftLog.consecutive_append_iff.mp (hrest ▸ Consecutive.drop hc k)
  have hreached : (es.length = 0 ∧ RawNode.reached start es = start) ∨
      RawNode.reached start es = l.base + k + es.length := by
    by_cases hne : es = []
    · exact Or.inl ⟨by rw [hne]; rfl, by rw [hne]; rfl⟩
    · have hces : Consecutive (l.base + k + 1) es := by
        have : l.base + 1 + k = l.base + k + 1 := by omega
        rwa [this] at hces
      rw [← RawNode.reached_eq hces]
      exact Or.inr (Driver.reached_congr hne)
  have hsince : since ≤ start := by
    rcases hstart with h | h
    · exact h.ge
    · exact h.1
  -- nothing before `es` counts, all of `es` above `m` does, and what follows counts as before
  have hbefore : ∀ i, since ≤ i → (l.entries.take k).filter (fun e => decide (max m i < e.index)) = [] := by
    intro i hi
    rw [List.filter_eq_nil_iff]
    intro e he
    have hlt := hpre.mem_bounds he
    rw [List.length_take] at hlt
    simp only [decide_eq_true_eq]
    omega
  have hwithin : es.filter (fun e => decide (max m since < e.index)) =
      es.filter (fun e => decide (m < e.index)) := by
    refine List.filter_congr fun e he => ?_
    have hlt := hces.mem_bounds he
    rw [decide_eq_decide]
    omega
  have hnone : es.filter (fun e => decide (max m (RawNode.reached start es) < e.index)) = [] := by
    rw [List.filter_eq_nil_iff]
    intro e he
    have hlt := hces.mem_bounds he
    simp only [decide_eq_true_eq]
    omega
  have hafter : rest.filter (fun e => decide (max m since < e.index)) =
      rest.filter (fun e => decide (max m (RawNode.reached start es) < e.index)) := by
    refine List.filter_congr fun e he => ?_
    have hlt := hcrest.mem_bounds he
    rw [decide_eq_decide]
    omega
  have hreached_ge : since ≤ RawNode.reached start es := by omega
  unfold above
  rw [hentries, List.filter_append, List.filter_append, List.filter_append, List.filter_append,
    hbefore since le_rfl, hbefore _ hreached_ge, hwithin, hnone, hafter]
  rfl

end Log

theorem Raft.length_retag (t : ℕ) (es : List Entry) : ∀ i, (Raft.retag t i es).length = es.length := by
  induction es with
  | nil => exact fun _ => rfl
  | cons e es ih =>
      intro i
      rw [Raft.retag, List.length_cons, List.length_cons, ih]

namespace UncommittedState

/-- The result of `maybeReduceUncommittedSize`: is there as much to take away as is taken? -/
def reductionValid (u : UncommittedState) (entries : List Entry) : Bool :=
  if u.isNoLimit ∨ entries = [] then true
  else
    let own := entries.filter (fun e => decide (u.lastLogTailIndex < e.index))
    decide ((u.maxUncommittedEntries ≠ maxU64 → own.length ≤ u.uncommittedEntries) ∧
      (u.maxUncommittedSize ≠ maxU64 → dataSize own ≤ u.uncommittedSize))

theorem dataSize_append (es fs : List Entry) : dataSize (es ++ fs) = dataSize es + dataSize fs := by
  unfold dataSize
  rw [List.map_append, List.sum_append]

theorem dataSize_retag (term : ℕ) (es : List Entry) : ∀ i, dataSize (Raft.retag term i es) = dataSize es := by
  induction es with
  | nil => exact fun _ => rfl
  | cons e es ih =>
      intro i
      unfold dataSize at ih ⊢
      rw [Raft.retag, List.map_cons, List.map_cons, List.sum_cons, List.sum_cons, ih]

/-- The counters after an increase; the bounds and the tail index stay. -/
structure Increased (u : UncommittedState) (es : List Entry) (u' : UncommittedState) : Prop where
  maxEntries : u'.maxUncommittedEntries = u.maxUncommittedEntries
  maxSize : u'.maxUncommittedSize = u.maxUncommittedSize
  tail : u'.lastLogTailIndex = u.lastLogTailIndex
  entries : u.maxUncommittedEntries ≠ maxU64 → u'.uncommittedEntries = u.uncommittedEntries + es.length
  limit : u.maxUncommittedEntries ≠ maxU64 → u'.uncommittedEntries ≤ u.maxUncommittedEntries
  size : u.maxUncommittedSize ≠ maxU64 → u'.uncommittedSize = u.uncommittedSize + dataSize es

theorem isNoLimit_iff {u : UncommittedState} :
    u.isNoLimit = true ↔ u.maxUncommittedSize = maxU64 ∧ u.maxUncommittedEntries = maxU64 := by
  unfold isNoLimit
  rw [Bool.and_eq_true, beq_iff_eq, beq_iff_eq]

theorem increased_of_some {u u' : UncommittedState} {es : List Entry}
    (h : u.maybeIncreaseUncommittedSize es = some u') : u.Increased es u' := by
  unfold maybeIncreaseUncommittedSize at h
  split at h
  · rename_i hno
    obtain ⟨hsize, hentries⟩ := isNoLimit_iff.mp hno
    cases h
    exact ⟨rfl, rfl, rfl, fun hne => absurd hentries hne, fun hne => absurd hentries hne,
      fun hne => absurd hsize hne⟩
  · dsimp only at h
    split at h
    · cases h
    · rename_i hcount
      split at h
      · cases h
      · split at h
        · cases h
        · cases h
          refine ⟨rfl, rfl, rfl, fun hne => if_pos hne, fun hne => ?_, fun hne => if_pos hne⟩
          show (if u.maxUncommittedEntries ≠ maxU64 then _ else _) ≤ _
          rw [if_pos hne]
          exact not_lt.mp fun hlt => hcount ⟨hne, Or.inr hlt⟩

/-- The counters after a reduction by entries of which those in `own` count. -/
theorem reduced (u : UncommittedState) (es : List Entry) {n b : ℕ}
    (hn : u.maxUncommittedEntries ≠ maxU64 →
      u.uncommittedEntries = (es.filter (fun e => decide (u.lastLogTailIndex < e.index))).length + n)
    (hb : u.maxUncommittedSize ≠ maxU64 →
      u.uncommittedSize = dataSize (es.filter (fun e => decide (u.lastLogTailIndex < e.index))) + b) :
    u.reductionValid es = true ∧
      (u.maxUncommittedEntries ≠ maxU64 → (u.maybeReduceUncommittedSize es).uncommittedEntries = n) ∧
      (u.maxUncommittedSize ≠ maxU64 → (u.maybeReduceUncommittedSize es).uncommittedSize = b) := by
  unfold reductionValid maybeReduceUncommittedSize
  by_cases hskip : u.isNoLimit = true ∨ es = []
  · rw [if_pos hskip, if_pos hskip]
    rcases hskip with hno | rfl
    · obtain ⟨hsize, hentries⟩ := isNoLimit_iff.mp hno
      exact ⟨rfl, fun hne => absurd hentries hne, fun hne => absurd hsize hne⟩
    · refine ⟨rfl, fun hne => ?_, fun hne => ?_⟩
      · rw [hn hne]
        exact Nat.zero_add n
      · rw [hb hne]
        exact Nat.zero_add b
  · rw [if_neg hskip, if_neg hskip]
    refine ⟨?_, fun hne => ?_, fun hne => ?_⟩
    · rw [decide_eq_true_eq]
      refine ⟨fun hne => ?_, fun hne => ?_⟩
      · rw [hn hne]
        exact Nat.le_add_right _ _
      · rw [hb hne]
        exact Nat.le_add_right _ _
    · dsimp only
      rw [if_pos hne, hn hne, Nat.add_sub_cancel_left]
    · dsimp only
      rw [if_pos hne, hb hne, Nat.add_sub_cancel_left]

/-- A reduction keeps the bounds and the tail index. -/
theorem reduce_same (u : UncommittedState) (es : List Entry) :
    (u.maybeReduceUncommittedSize es).maxUncommittedEntries = u.maxUncommittedEntries ∧
      (u.maybeReduceUncommittedSize es).maxUncommittedSize = u.maxUncommittedSize ∧
      (u.maybeReduceUncommittedSize es).lastLogTailIndex = u.lastLogTailIndex := by
  unfold maybeReduceUncommittedSize
  split
  · exact ⟨rfl, rfl, rfl⟩
  · exact ⟨rfl, rfl, rfl⟩

end UncommittedState

namespace Tenure

/-- The entries of its own that a leader has not handed out, when it has handed out up to `since`. -/
def owed (t : Tenure) (since : ℕ) : List Entry := t.log.above (max t.backlog.lastLogTailIndex since)

/-- The counters of a leader are those of what it has not handed out. -/
structure Accounted (since : ℕ) (t : Tenure) : Prop where
  entries : t.backlog.maxUncommittedEntries ≠ maxU64 →
    t.backlog.uncommittedEntries = (t.owed since).length
  size : t.backlog.maxUncommittedSize ≠ maxU64 →
    t.backlog.uncommittedSize = UncommittedState.dataSize (t.owed since)
  limit : t.backlog.maxUncommittedEntries ≠ maxU64 →
    t.backlog.uncommittedEntries ≤ t.backlog.maxUncommittedEntries
  tail : t.backlog.lastLogTailIndex ≤ t.log.last

variable {since : ℕ} {t : Tenure}

/-- Only the log and the backlog matter. -/
theorem Accounted.of_eq {t' : Tenure} (h : t.Accounted since) (hlog : t'.log = t.log)
    (hbacklog : t'.backlog = t.backlog) : t'.Accounted since := by
  have howed : t'.owed since = t.owed since := by
    unfold owed
    rw [hlog, hbacklog]
  constructor
  · rw [hbacklog, howed]
    exact h.entries
  · rw [hbacklog, howed]
    exact h.size
  · rw [hbacklog]
    exact h.limit
  · rw [hbacklog, hlog]
    exact h.tail

theorem accounted_lead (hf : t.Fits since) : t.lead.Accounted since := by
  have howed : t.lead.owed since = [] := Log.above_eq_nil hf.contiguous (le_max_left _ _)
  refine ⟨fun _ => ?_, fun _ => ?_, fun _ => Nat.zero_le _, le_rfl⟩
  · rw [howed]
    rfl
  · rw [howed]
    rfl

theorem Accounted.append (h : t.Accounted since) (hf : t.Fits since) (term : ℕ) {es : List Entry}
    {u : UncommittedState} (hu : t.backlog.maybeIncreaseUncommittedSize es = some u) :
    (t.append term es u).Accounted since := by
  have hinc := UncommittedState.increased_of_some hu
  have howed : (t.append term es u).owed since =
      t.owed since ++ Raft.retag term (t.log.last + 1) es := by
    unfold owed
    show (t.log.splice _ _).above (max u.lastLogTailIndex since) = _
    rw [hinc.tail]
    exact Log.above_append (max_le h.tail hf.since_le) (Raft.consecutive_retag _ _ _)
  constructor
  · intro hne
    have hne : u.maxUncommittedEntries ≠ maxU64 := hne
    rw [hinc.maxEntries] at hne
    show u.uncommittedEntries = _
    rw [hinc.entries hne, h.entries hne, howed, List.length_append, Raft.length_retag]
  · intro hne
    have hne : u.maxUncommittedSize ≠ maxU64 := hne
    rw [hinc.maxSize] at hne
    show u.uncommittedSize = _
    rw [hinc.size hne, h.size hne, howed, UncommittedState.dataSize_append,
      UncommittedState.dataSize_retag]
  · intro hne
    have hne : u.maxUncommittedEntries ≠ maxU64 := hne
    show u.uncommittedEntries ≤ u.maxUncommittedEntries
    rw [hinc.maxEntries] at hne ⊢
    exact hinc.limit hne
  · show u.lastLogTailIndex ≤ (t.log.splice _ _).last
    rw [hinc.tail, Log.last_splice (Nat.lt_succ_of_le Log.base_le_last) le_rfl]
    have := h.tail
    omega

theorem Accounted.compact (h : t.Accounted since) (hc : t.log.Contiguous) {i x : ℕ}
    (hbase : t.log.base ≤ i) (hi : i ≤ since) (hlast : i ≤ t.log.last) :
    Tenure.Accounted since { t with log := t.log.compact i x } := by
  have howed : Tenure.owed { t with log := t.log.compact i x } since = t.owed since :=
    Log.above_compact hc hbase (hi.trans (le_max_right _ _))
  refine ⟨fun hne => ?_, fun hne => ?_, h.limit, ?_⟩
  · rw [howed]
    exact h.entries hne
  · rw [howed]
    exact h.size hne
  · show t.backlog.lastLogTailIndex ≤ (t.log.compact i x).last
    rw [Log.last_compact hbase hlast]
    exact h.tail

/-- A hand-out takes exactly its own entries from the counters. -/
theorem Accounted.handOut (h : t.Accounted since) (hc : t.log.Contiguous) {start hi : ℕ} {es : List Entry}
    (hstart : start = since ∨ (since ≤ start ∧ start = t.log.base))
    (hes : es <+: t.log.slice (max (start + 1) (t.log.base + 1)) (hi + 1)) :
    t.backlog.reductionValid es = true ∧
      Tenure.Accounted (RawNode.reached start es)
        { t with backlog := t.backlog.maybeReduceUncommittedSize es } := by
  obtain ⟨hmaxEntries, hmaxSize, htail⟩ := UncommittedState.reduce_same t.backlog es
  have howed := Log.above_handed hc (m := t.backlog.lastLogTailIndex) hstart hes
  have hleft : Tenure.owed { t with backlog := t.backlog.maybeReduceUncommittedSize es }
      (RawNode.reached start es) =
      t.log.above (max t.backlog.lastLogTailIndex (RawNode.reached start es)) := by
    unfold owed
    dsimp only
    rw [htail]
  obtain ⟨hvalid, hentries, hsize⟩ := UncommittedState.reduced t.backlog es
    (n := (t.log.above (max t.backlog.lastLogTailIndex (RawNode.reached start es))).length)
    (b := UncommittedState.dataSize
      (t.log.above (max t.backlog.lastLogTailIndex (RawNode.reached start es))))
    (fun hne => by
      rw [h.entries hne]
      unfold owed
      rw [howed, List.length_append])
    (fun hne => by
      rw [h.size hne]
      unfold owed
      rw [howed, UncommittedState.dataSize_append])
  refine ⟨hvalid, fun hne => ?_, fun hne => ?_, fun hne => ?_, ?_⟩
  · have hne : (t.backlog.maybeReduceUncommittedSize es).maxUncommittedEntries ≠ maxU64 := hne
    rw [hmaxEntries] at hne
    rw [hleft]
    exact hentries hne
  · have hne : (t.backlog.maybeReduceUncommittedSize es).maxUncommittedSize ≠ maxU64 := hne
    rw [hmaxSize] at hne
    rw [hleft]
    exact hsize hne
  · show (t.backlog.maybeReduceUncommittedSize es).uncommittedEntries ≤
      (t.backlog.maybeReduceUncommittedSize es).maxUncommittedEntries
    have hne : (t.backlog.maybeReduceUncommittedSize es).maxUncommittedEntries ≠ maxU64 := hne
    rw [hmaxEntries] at hne ⊢
    -- what is left is no more than what there was
    have hle : (t.backlog.maybeReduceUncommittedSize es).uncommittedEntries ≤
        t.backlog.uncommittedEntries := by
      rw [hentries hne, h.entries hne]
      unfold owed
      rw [howed, List.length_append]
      exact Nat.le_add_left _ _
    exact hle.trans (h.limit hne)
  · show (t.backlog.maybeReduceUncommittedSize es).lastLogTailIndex ≤ t.log.last
    rw [htail]
    exact h.tail

/-- The accounts are kept by everything that a leader does to its log. -/
theorem accounted_inv : TenureInv fun since t => t.Accounted since where
  elected := accounted_lead
  proposed := fun hf h _ hu => (h.append hf _ hu).of_eq rfl rfl
  applied := fun _ h _ _ _ => h.of_eq rfl rfl
  refused := fun _ h _ _ _ => h.of_eq rfl rfl
  left := fun hf h _ _ _ hu => (h.append hf _ hu).of_eq rfl rfl

end Tenure

namespace Driver

variable {σ : Type} [LawfulStorage σ]

/-- The accounts are kept along every run. -/
theorem accounted_run : RunInv σ (fun since t => t.Accounted since) fun _ _ => True where
  inv := fun since => Tenure.accounted_inv.leaderInv since
  applied := fun i hcov hled => Tenure.accounted_inv.commitApply i hcov hled
  reconfigured := fun _ _ _ h => h.of_eq rfl rfl
  handed := fun h hc hstart hes => (h.handOut hc hstart hes).2
  compacted := fun h hc hbase hi hlast => h.compact hc hbase hi hlast

/-- What a step of a leader hands out can be taken from its counters. -/
theorem reductionValid_step {SameData : σ → σ → Prop} {d d' : Driver σ} {ev : Event} (hs : d.Sound)
    (h : d.raw.raft.tenure.Accounted d.raw.commitSinceIndex)
    (hstep : Step SameData d ev d') (hprompt : Prompt d d') :
    d.raw.raft.uncommittedState.reductionValid ev.entries = true := by
  cases hstep with
  | ready rd raw store hr hw =>
      have hspec := Act.wp_ok (RawNode.wp_getReady hs.raft) hr
      obtain ⟨hi, -, hes⟩ := hspec.committed
      exact (h.handOut hs.raft.log.contiguous (handOutIndex_start hspec.since_le) hes).1
  | advanceAppend rd l raw hp hr =>
      obtain ⟨n, hi, hwf, ht, hsince, hes, -⟩ := tenure_advanceAppend hs hp (hprompt rd hp rfl) hr
      have h2 : n.raft.tenure.Accounted n.commitSinceIndex := by
        rw [ht, hsince]
        exact h
      have hvalid := (h2.handOut hwf.contiguous (Or.inl rfl) hes).1
      have hbacklog : n.raft.uncommittedState = d.raw.raft.uncommittedState := congrArg Tenure.backlog ht
      rw [← hbacklog]
      exact hvalid
  | _ => exact if_pos (Or.inr rfl)

/-- In every run, the counters of a leader are those of the entries above its tail index that it has not
handed out; the number of entries is within its bound, and no hand-out takes more from a counter than
it holds. -/
theorem backlog_exact {SameData : σ → σ → Prop} (hsame : Faithful SameData) {config : Config}
    {prng : List ℕ} {store : σ} (hv : LawfulStorage.Valid store)
    (happ : config.applied ≤ max (LawfulStorage.view store).log.base
      (Raft.loadedState config (LawfulStorage.view store)).commit)
    {d d' : Driver σ} (hstart : Starts config prng store d)
    (hrun : DutifulSteps SameData (fun _ _ => True) d d') (hl : d'.raw.raft.state = .leader) :
    let u := d'.raw.raft.uncommittedState
    let owed := d'.raw.raft.raftLog.log.entries.filter
      (fun e => decide (max u.lastLogTailIndex d'.raw.commitSinceIndex < e.index))
    (u.maxUncommittedEntries ≠ maxU64 →
      u.uncommittedEntries = owed.length ∧ u.uncommittedEntries ≤ u.maxUncommittedEntries) ∧
    (u.maxUncommittedSize ≠ maxU64 → u.uncommittedSize = (owed.map fun e => e.data.length).sum) ∧
    (∀ start hi es, d'.raw.commitSinceIndex ≤ start →
      start = d'.raw.commitSinceIndex ∨ start = d'.raw.handOutIndex →
      es <+: d'.raw.raft.raftLog.log.slice (max (start + 1) (d'.raw.raft.raftLog.log.base + 1)) (hi + 1) →
        u.reductionValid es = true) ∧
    ∀ ev d'', Step SameData d' ev d'' → Prompt d' d'' → u.reductionValid ev.entries = true := by
  obtain ⟨hs, hten⟩ := accounted_run.run hsame hv happ hstart hrun
  have h := hten hl
  refine ⟨fun hne => ⟨h.entries hne, h.limit hne⟩, h.size, ?_, fun ev d'' => ?_⟩
  · intro start hi es hle hstart hes
    refine (h.handOut hs.raft.log.contiguous ?_ hes).1
    rcases hstart with rfl | rfl
    · exact Or.inl rfl
    · exact handOutIndex_start hle
  · exact reductionValid_step hs h

/-- A leader of one node with bounds has one entry left to hand out. -/
theorem backlog_exact_single : ∃ d d' : Driver MemoryStorage,
    Starts { id := 1, maxUncommittedEntries := 2, maxUncommittedSize := 3 } []
      { raftState := { confState := { voters := [1] } } } d ∧
    DutifulSteps Eq (fun _ _ => True) d d' ∧ d'.raw.commitSinceIndex = 2 ∧
    d'.raw.raft.uncommittedState.uncommittedEntries = 1 ∧
    1 = (d'.raw.raft.raftLog.log.entries.filter (fun e =>
      decide (max d'.raw.raft.uncommittedState.lastLogTailIndex d'.raw.commitSinceIndex < e.index))).length := by
  have hrun : (playDutifully (fun _ _ => true)
      { id := 1, maxUncommittedEntries := 2, maxUncommittedSize := 3 } []
      ({ raftState := { confState := { voters := [1] } } } : MemoryStorage)
      [.call (.step { msgType := .hup }), .call (.step { msgType := .propose, entries := [{ data := [7] }] }),
        .ready, .advanceAppend,
        .call (.step { msgType := .propose, entries := [{ data := [8, 9] }] })]).map (fun d =>
      (d.raw.raft.state, d.raw.commitSinceIndex, d.raw.raft.uncommittedState.uncommittedEntries,
        d.raw.raft.uncommittedState.maxUncommittedEntries)) = some (.leader, 2, 1, 2) := by
    decide +kernel
  obtain ⟨d', hd, heq⟩ := Option.map_eq_some_iff.mp hrun
  simp only [Prod.mk.injEq] at heq
  obtain ⟨hl, hsince, hcount, hmax⟩ := heq
  have hmay : ∀ (d : Driver MemoryStorage) (cc : ConfChangeV2), true = true → True := fun _ _ _ => trivial
  obtain ⟨d, hstart, hsteps⟩ := playDutifully_run Eq hmay hd
  refine ⟨d, d', hstart, hsteps, hsince, hcount, ?_⟩
  have hexact := (backlog_exact faithful_eq (show Log.Consecutive 1 [] from trivial) (Nat.zero_le _)
    hstart hsteps hl).1
  rw [hmax] at hexact
  exact hcount.symm.trans (hexact (by decide)).1

end Driver

end Raftz
