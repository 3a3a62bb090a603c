import Raftz.DriverSound

/-! # The committed log is handed out once

Each batch shows a snapshot or the next committed entries, and each report of
persistence may show more of them.  Along any run of a driver the indexes so
shown continue one another without a gap: `Driver.Cursor` ties the position `p`
that has been reached to the cursor of the node, to its log and to the batch
that is being worked on. -/

open Base

namespace Raftz

/-- The position that is reached when the event has been shown after position `p`. -/
def Event.cursor (p : ℕ) : Event → ℕ
  | .ready rd => RawNode.reached ((rd.snapshot.map (fun s => s.metadata.index)).getD p)
      rd.light.committedEntries
  | .light l => RawNode.reached p l.committedEntries
  | _ => p

/-- The entries that an event hands out. -/
def Event.entries : Event → List Entry
  | .ready rd => rd.light.committedEntries
  | .light l => l.committedEntries
  | _ => []

/-- The position after which the entries of an event must start. -/
def Event.start (p : ℕ) : Event → ℕ
  | .ready rd => (rd.snapshot.map (fun s => s.metadata.index)).getD p
  | _ => p

theorem Event.cursor_eq (p : ℕ) (ev : Event) : ev.cursor p = RawNode.reached (ev.start p) ev.entries := by
  cases ev <;> rfl

variable {σ : Type} [LawfulStorage σ]

/-- What an event hands out continues what has been handed out up to `p`, and is committed and
persisted in the state `d` that the step leaves. -/
structure Event.Continues (p : ℕ) (d : Driver σ) (ev : Event) : Prop where
  start : p ≤ ev.start p
  consecutive : Log.Consecutive (ev.start p + 1) ev.entries
  committed : ∀ e ∈ ev.entries, e.index ≤ d.raw.raft.raftLog.committed
  persisted : ∀ e ∈ ev.entries, e.index ≤ d.raw.raft.raftLog.persisted

namespace Driver

/-- The node is about to hand out what follows `p`. -/
structure Cursor (d : Driver σ) (p : ℕ) : Prop where
  since_le : d.raw.commitSinceIndex ≤ p
  le : p ≤ d.raw.raft.raftLog.committed
  base : d.raw.raft.raftLog.unstable.snapshot = none → d.raw.raft.raftLog.log.base ≤ p ∧
    (d.raw.commitSinceIndex = p ∨ d.raw.raft.raftLog.log.base = p)
  pending : ∀ s, d.raw.raft.raftLog.unstable.snapshot = some s → p ≤ s.metadata.index
  handed : ∀ rd s, d.pending = some rd → rd.snapshot = some s →
    s.metadata.index ≤ d.raw.commitSinceIndex

/-- The cursor stays while the node goes on. -/
theorem Cursor.of_moved {d : Driver σ} {p : ℕ} (h : d.Cursor p) {n' : RawNode σ}
    (hm : Moved d.raw.raft.core n'.raft.core) (hsince : n'.commitSinceIndex = d.raw.commitSinceIndex) :
    ({ d with raw := n' } : Driver σ).Cursor p where
  since_le := by
    show n'.commitSinceIndex ≤ p
    rw [hsince]
    exact h.since_le
  le := h.le.trans hm.committed
  base := by
    intro hn
    have hn' : n'.raft.core.pending = none := by
      show n'.raft.raftLog.unstable.snapshot.map _ = none
      rw [show n'.raft.raftLog.unstable.snapshot = none from hn]
      rfl
    obtain ⟨hp, hb⟩ := hm.pending_none hn'
    have hp : d.raw.raft.raftLog.unstable.snapshot = none := Option.map_eq_none_iff.mp hp
    have hb : n'.raft.raftLog.log.base = d.raw.raft.raftLog.log.base := hb
    show n'.raft.raftLog.log.base ≤ p ∧ (n'.commitSinceIndex = p ∨ n'.raft.raftLog.log.base = p)
    rw [hb, hsince]
    exact h.base hp
  pending := by
    intro s hs
    have hs : n'.raft.core.pending = some s.metadata := by
      show n'.raft.raftLog.unstable.snapshot.map _ = _
      rw [show n'.raft.raftLog.unstable.snapshot = some s from hs]
      rfl
    rcases hm.pending with ⟨h1, _, _⟩ | ⟨md, h1, _, _, hle, _⟩
    · rw [hs] at h1
      obtain ⟨s', hs', hmd⟩ := Option.map_eq_some_iff.mp h1.symm
      rw [← hmd]
      exact h.pending s' hs'
    · rw [hs] at h1
      cases h1
      exact h.le.trans hle
  handed := by
    intro rd s hp hs
    show s.metadata.index ≤ n'.commitSinceIndex
    rw [hsince]
    exact h.handed rd s hp hs

/-! ### One step -/

/-- Entries cut from the log after the position `p` continue it. -/
theorem continues_of_slice {n : RawNode σ} (h : n.raft.Sound False) {p since hi : ℕ} {es : List Entry}
    (hp : max (since + 1) (n.raft.raftLog.log.base + 1) = p + 1) (hhi : hi ≤ n.ceiling)
    (hes : es <+: n.raft.raftLog.log.slice (max (since + 1) (n.raft.raftLog.log.base + 1)) (hi + 1)) :
    Log.Consecutive (p + 1) es ∧
      ∀ e ∈ es, e.index ≤ n.raft.raftLog.committed ∧ e.index ≤ n.raft.raftLog.persisted := by
  obtain ⟨hcons, hbound⟩ := RawNode.handedOut_of_slice h.log.contiguous (by omega) hes
  rw [hp] at hcons
  refine ⟨hcons, fun e he => ?_⟩
  have hle := (hbound e he).2
  have h1 : n.ceiling ≤ n.raft.raftLog.committed := min_le_left _ _
  have h2 : n.ceiling ≤ n.raft.raftLog.persisted := min_le_right _ _
  omega

/-- While a snapshot is pending, nothing else is handed out. -/
theorem nil_of_pending {n : RawNode σ} (h : n.raft.Sound False) {s : Snapshot}
    (hs : n.raft.raftLog.unstable.snapshot = some s) {lo hi : ℕ} {es : List Entry}
    (hlo : s.metadata.index < lo) (hhi : hi ≤ n.ceiling)
    (hes : es <+: n.raft.raftLog.log.slice lo (hi + 1)) : es = [] := by
  have hoff := h.log.snapshot s hs
  have hpers := h.log.persisted_lt
  have hceil : n.ceiling ≤ n.raft.raftLog.persisted := min_le_right _ _
  have hnil : n.raft.raftLog.log.slice lo (hi + 1) = [] := by
    unfold Log.slice
    rw [show hi + 1 - lo = 0 by omega, List.take_zero]
  rw [hnil] at hes
  exact List.prefix_nil.mp hes

theorem reached_of_consecutive {p : ℕ} {es : List Entry} (h : Log.Consecutive (p + 1) es) {c : ℕ}
    (hp : p ≤ c) (hc : ∀ e ∈ es, e.index ≤ c) : p ≤ RawNode.reached p es ∧ RawNode.reached p es ≤ c := by
  refine ⟨by rw [RawNode.reached_eq h]; omega, ?_⟩
  unfold RawNode.reached
  cases hl : es.getLast? with
  | none => exact hp
  | some e => exact hc e (List.mem_of_getLast? hl)

theorem reached_nil (p : ℕ) : RawNode.reached p [] = p := rfl

theorem reached_congr {p q : ℕ} {es : List Entry} (h : es ≠ []) :
    RawNode.reached p es = RawNode.reached q es := by
  unfold RawNode.reached
  cases hl : es.getLast? with
  | none => exact absurd (List.getLast?_eq_none_iff.mp hl) h
  | some e => rfl

/-- A light batch continues what has been handed out. -/
theorem Cursor.light {d : Driver σ} {p : ℕ} (hs : d.Sound) (h : d.Cursor p)
    {l : LightReady} {n' : RawNode σ} (hl : RawNode.LightSpec d.raw d.raw.commitSinceIndex l n')
    (prev : HardState) (ci : Option ℕ) :
    (Event.light { l with commitIndex := ci }).Continues p (⟨{ n' with prevHs := prev }, none⟩ : Driver σ) ∧
      (⟨{ n' with prevHs := prev }, none⟩ : Driver σ).Cursor (RawNode.reached p l.committedEntries) := by
  obtain ⟨u, hu⟩ := hl.raft
  obtain ⟨hi, hhi, hes⟩ := hl.entries
  have hlog : n'.raft.raftLog = d.raw.raft.raftLog := by rw [hu]
  have hsince : n'.commitSinceIndex = RawNode.reached d.raw.commitSinceIndex l.committedEntries := hl.since
  -- the entries continue `p`
  have hcont : Log.Consecutive (p + 1) l.committedEntries ∧ ∀ e ∈ l.committedEntries,
      e.index ≤ d.raw.raft.raftLog.committed ∧ e.index ≤ d.raw.raft.raftLog.persisted := by
    cases hsnap : d.raw.raft.raftLog.unstable.snapshot with
    | none =>
        obtain ⟨hb, hcase⟩ := h.base hsnap
        have hle := h.since_le
        exact continues_of_slice hs.raft (by omega) hhi hes
    | some s =>
        have hbase : d.raw.raft.raftLog.log.base = s.metadata.index := by
          rw [RaftLog.log_of_snapshot hsnap]
        have hnil := nil_of_pending hs.raft hsnap (by omega) hhi hes
        rw [hnil]
        exact ⟨trivial, fun e he => by cases he⟩
  obtain ⟨hcons, hbound⟩ := hcont
  have hreach := reached_of_consecutive hcons h.le fun e he => (hbound e he).1
  refine ⟨⟨le_rfl, hcons, ?_, ?_⟩, ?_⟩
  · intro e he
    show e.index ≤ n'.raft.raftLog.committed
    rw [hlog]
    exact (hbound e he).1
  · intro e he
    show e.index ≤ n'.raft.raftLog.persisted
    rw [hlog]
    exact (hbound e he).2
  · by_cases hne : l.committedEntries = []
    · -- nothing moved
      rw [hne, reached_nil]
      have hsince : n'.commitSinceIndex = d.raw.commitSinceIndex := by
        rw [hsince, hne, reached_nil]
      exact {
        since_le := by
          show n'.commitSinceIndex ≤ p
          rw [hsince]
          exact h.since_le
        le := by
          show p ≤ n'.raft.raftLog.committed
          rw [hlog]
          exact h.le
        base := by
          show n'.raft.raftLog.unstable.snapshot = none → n'.raft.raftLog.log.base ≤ p ∧
            (n'.commitSinceIndex = p ∨ n'.raft.raftLog.log.base = p)
          rw [hlog, hsince]
          exact h.base
        pending := by
          show ∀ s, n'.raft.raftLog.unstable.snapshot = some s → p ≤ s.metadata.index
          rw [hlog]
          exact h.pending
        handed := fun rd s hrd => by cases hrd }
    · have hsince : n'.commitSinceIndex = RawNode.reached p l.committedEntries := by
        rw [hsince]
        exact reached_congr hne
      exact {
        since_le := hsince.le
        le := by
          show _ ≤ n'.raft.raftLog.committed
          rw [hlog]
          exact hreach.2
        base := by
          show n'.raft.raftLog.unstable.snapshot = none → n'.raft.raftLog.log.base ≤ _ ∧
            (n'.commitSinceIndex = _ ∨ n'.raft.raftLog.log.base = _)
          rw [hlog]
          intro hn
          exact ⟨(h.base hn).1.trans hreach.1, Or.inl hsince⟩
        pending := by
          intro s hsnap
          have hsnap : d.raw.raft.raftLog.unstable.snapshot = some s := by
            rw [← hlog]
            exact hsnap
          have hbase : d.raw.raft.raftLog.log.base = s.metadata.index := by
            rw [RaftLog.log_of_snapshot hsnap]
          exact absurd (nil_of_pending hs.raft hsnap (by omega) hhi hes) hne
        handed := fun rd s hrd => by cases hrd }

/-- A batch and its writes leave the log as the node sees it, and hand out what `d` had to hand out. -/
structure Readied (d : Driver σ) (rd : Ready) (n : RawNode σ) : Prop where
  log : n.raft.raftLog.log = d.raw.raft.raftLog.log
  committed : n.raft.raftLog.committed = d.raw.raft.raftLog.committed
  persisted : n.raft.raftLog.persisted = d.raw.raft.raftLog.persisted
  unstable : n.raft.raftLog.unstable = d.raw.raft.raftLog.unstable
  snapshot : rd.snapshot = d.raw.raft.raftLog.unstable.snapshot
  entries : ∃ hi ≤ d.raw.ceiling, rd.light.committedEntries <+: d.raw.raft.raftLog.log.slice
    (max (d.raw.handOutIndex + 1) (d.raw.raft.raftLog.log.base + 1)) (hi + 1)
  since : n.commitSinceIndex = RawNode.reached d.raw.handOutIndex rd.light.committedEntries

theorem readied {d : Driver σ} (hs : d.Sound) {rd : Ready} {raw : RawNode σ} {store : σ}
    (hr : RawNode.ReadySpec d.raw rd raw) (hw : rd.write raw.store = .ok store) :
    Readied d rd (raw.setStore store) := by
  obtain ⟨u, hu⟩ := hr.raft
  have hlog : raw.raft.raftLog = d.raw.raft.raftLog := by rw [hu]
  have hw' : rd.write d.raw.raft.raftLog.store = .ok store := by
    rw [← hlog]
    exact hw
  have hwrite := Ready.write_ok hs.raft.log hr.entries hr.snapshot hw'
  exact {
    log := by
      show ({ raw.raft.raftLog with store := store } : RaftLog σ).log = _
      rw [hlog]
      exact (hs.raft.log.setStore hwrite.1 hwrite.2).2
    committed := by
      show raw.raft.raftLog.committed = _
      rw [hlog]
    persisted := by
      show raw.raft.raftLog.persisted = _
      rw [hlog]
    unstable := by
      show raw.raft.raftLog.unstable = _
      rw [hlog]
    snapshot := hr.snapshot
    entries := hr.committed
    since := hr.since }

/-- A batch with a snapshot hands out nothing else. -/
theorem Cursor.ready_snapshot {d : Driver σ} {p : ℕ} (hs : d.Sound) (h : d.Cursor p) {rd : Ready}
    {n : RawNode σ} (hn : Readied d rd n) {s : Snapshot}
    (hsnap : d.raw.raft.raftLog.unstable.snapshot = some s) :
    (Event.ready rd).Continues p (⟨n, some rd⟩ : Driver σ) ∧
      (⟨n, some rd⟩ : Driver σ).Cursor ((Event.ready rd).cursor p) := by
  obtain ⟨hi, hhi, hes⟩ := hn.entries
  have hrd : rd.snapshot = some s := hn.snapshot.trans hsnap
  have hstart : (Event.ready rd).start p = s.metadata.index := by
    show (rd.snapshot.map (fun s => s.metadata.index)).getD p = _
    rw [hrd]
    rfl
  have hhand : d.raw.handOutIndex = s.metadata.index := by
    unfold RawNode.handOutIndex
    rw [hsnap]
  have hnil : rd.light.committedEntries = [] := by
    refine nil_of_pending hs.raft hsnap ?_ hhi hes
    omega
  have hents : (Event.ready rd).entries = [] := hnil
  have hcursor : (Event.ready rd).cursor p = s.metadata.index := by
    rw [Event.cursor_eq, hstart, hents, reached_nil]
  have hsince := hn.since
  rw [hnil, hhand, reached_nil] at hsince
  have hpending : n.raft.raftLog.unstable.snapshot = some s := by rw [hn.unstable, hsnap]
  refine ⟨⟨?_, ?_, ?_, ?_⟩, ?_⟩
  · rw [hstart]
    exact h.pending s hsnap
  · rw [hents]
    trivial
  · intro e he
    rw [hents] at he
    cases he
  · intro e he
    rw [hents] at he
    cases he
  · rw [hcursor]
    have hbase := hs.raft.log.base_le
    rw [RaftLog.log_of_snapshot hsnap] at hbase
    exact {
      since_le := hsince.le
      le := hn.committed ▸ hbase
      base := fun hnone => by
        cases hpending.symm.trans hnone
      pending := by
        intro s' hs'
        cases hpending.symm.trans hs'
        exact le_rfl
      handed := by
        intro rd' s' hrd' hs'
        cases hrd'
        cases hrd.symm.trans hs'
        exact hsince.ge }

/-- A batch without a snapshot goes on where the last one ended. -/
theorem Cursor.ready_entries {d : Driver σ} {p : ℕ} (hs : d.Sound) (h : d.Cursor p) {rd : Ready}
    {n : RawNode σ} (hn : Readied d rd n) (hsnap : d.raw.raft.raftLog.unstable.snapshot = none) :
    (Event.ready rd).Continues p (⟨n, some rd⟩ : Driver σ) ∧
      (⟨n, some rd⟩ : Driver σ).Cursor ((Event.ready rd).cursor p) := by
  obtain ⟨hi, hhi, hes⟩ := hn.entries
  have hrd : rd.snapshot = none := hn.snapshot.trans hsnap
  have hstart : (Event.ready rd).start p = p := by
    show (rd.snapshot.map (fun s => s.metadata.index)).getD p = _
    rw [hrd]
    rfl
  have hhand : d.raw.handOutIndex = d.raw.commitSinceIndex := by
    unfold RawNode.handOutIndex
    rw [hsnap]
  obtain ⟨hb, hcase⟩ := h.base hsnap
  have hle := h.since_le
  obtain ⟨hcons, hbound⟩ := continues_of_slice hs.raft (p := p) (by omega) hhi hes
  have hreach := reached_of_consecutive hcons h.le fun e he => (hbound e he).1
  have hcursor : (Event.ready rd).cursor p = RawNode.reached p rd.light.committedEntries := by
    rw [Event.cursor_eq, hstart]
    rfl
  have hsince := hn.since
  rw [hhand] at hsince
  refine ⟨⟨hstart.ge, ?_, ?_, ?_⟩, ?_⟩
  · rw [hstart]
    exact hcons
  · intro e he
    rw [hn.committed]
    exact (hbound e he).1
  · intro e he
    rw [hn.persisted]
    exact (hbound e he).2
  · rw [hcursor]
    exact {
      since_le := by
        rw [hsince]
        by_cases hne : rd.light.committedEntries = []
        · rw [hne]
          exact hle
        · exact (reached_congr hne).le
      le := by
        rw [hn.committed]
        exact hreach.2
      base := by
        intro _
        rw [hn.log, hsince]
        refine ⟨hb.trans hreach.1, ?_⟩
        by_cases hne : rd.light.committedEntries = []
        · rw [hne]
          exact hcase
        · exact Or.inl (reached_congr hne)
      pending := by
        intro s' hs'
        rw [hn.unstable, hsnap] at hs'
        cases hs'
      handed := by
        intro rd' s' hrd' hs'
        cases hrd'
        cases hrd.symm.trans hs' }

/-- A batch continues what has been handed out. -/
theorem Cursor.ready {d : Driver σ} {p : ℕ} (hs : d.Sound) (h : d.Cursor p) {rd : Ready}
    {raw : RawNode σ} {store : σ} (hr : RawNode.ReadySpec d.raw rd raw)
    (hw : rd.write raw.store = .ok store) :
    (Event.ready rd).Continues p (⟨raw.setStore store, some rd⟩ : Driver σ) ∧
      (⟨raw.setStore store, some rd⟩ : Driver σ).Cursor ((Event.ready rd).cursor p) := by
  have hn := readied hs hr hw
  cases hsnap : d.raw.raft.raftLog.unstable.snapshot with
  | some s => exact h.ready_snapshot hs hn hsnap
  | none => exact h.ready_entries hs hn hsnap

/-- A settled batch leaves the cursor where it is: its snapshot had been handed out. -/
theorem Cursor.reported {d : Driver σ} {p : ℕ} (h : d.Cursor p) {rd : Ready} (hp : d.pending = some rd)
    {n' : RawNode σ} (hr : RawNode.Reported rd d.raw n') : (⟨n', none⟩ : Driver σ).Cursor p := by
  obtain ⟨l', hl', rfl⟩ := hr.result
  have hcommitted : l'.committed = d.raw.raft.raftLog.committed := by rw [hl'.same]
  exact {
    since_le := h.since_le
    le := by
      show p ≤ l'.committed
      rw [hcommitted]
      exact h.le
    base := by
      show l'.unstable.snapshot = none → l'.log.base ≤ p ∧
        (d.raw.commitSinceIndex = p ∨ l'.log.base = p)
      intro hn
      rw [hl'.base]
      rcases hl'.snapshot with heq | ⟨_, s, hs, hb⟩
      · exact h.base (heq ▸ hn)
      · have h1 := h.handed rd s hp hs
        have h2 := h.since_le
        rcases hsnap : d.raw.raft.raftLog.unstable.snapshot with _ | s'
        · exact h.base hsnap
        · have h3 := h.pending s' hsnap
          have hb' : d.raw.raft.raftLog.log.base = s'.metadata.index := by
            rw [RaftLog.log_of_snapshot hsnap]
          omega
    pending := by
      intro s hs
      rcases hl'.snapshot with heq | ⟨hn, _⟩
      · exact h.pending s (heq ▸ hs)
      · exact absurd (hn.symm.trans hs) (by simp)
    handed := fun rd s hrd => by cases hrd }

theorem Cursor.persisted {d : Driver σ} {p : ℕ} (h : d.Cursor p) {n' : RawNode σ}
    (hp : RawNode.Persisted d.raw n') : ({ d with raw := n' } : Driver σ).Cursor p := by
  obtain ⟨r', recs, rfl, _, _, hmic⟩ := hp.result
  exact h.of_moved hmic.moved rfl

omit [LawfulStorage σ] in
/-- An event that hands out nothing. -/
theorem continues_of_nil {p : ℕ} {d : Driver σ} {ev : Event} (hs : ev.start p = p)
    (he : ev.entries = []) : ev.Continues p d where
  start := hs.ge
  consecutive := by
    rw [he]
    trivial
  committed := fun e hmem => by
    rw [he] at hmem
    cases hmem
  persisted := fun e hmem => by
    rw [he] at hmem
    cases hmem

/-- A storage with another log base below the cursor. -/
theorem Cursor.setStore {d : Driver σ} {p : ℕ} (h : d.Cursor p) {store : σ}
    (hb : d.raw.raft.raftLog.unstable.snapshot = none →
      (d.raw.setStore store).raft.raftLog.log.base = d.raw.raft.raftLog.log.base ∨
      (d.raw.setStore store).raft.raftLog.log.base ≤ d.raw.commitSinceIndex ∧
        d.raw.raft.raftLog.log.base ≤ d.raw.commitSinceIndex) :
    ({ d with raw := d.raw.setStore store } : Driver σ).Cursor p where
  since_le := h.since_le
  le := h.le
  base := by
    intro hn
    obtain ⟨h1, h2⟩ := h.base hn
    have h3 := h.since_le
    show (d.raw.setStore store).raft.raftLog.log.base ≤ p ∧ (d.raw.commitSinceIndex = p ∨
      (d.raw.setStore store).raft.raftLog.log.base = p)
    rcases hb hn with heq | ⟨h4, h5⟩
    · rw [heq]
      exact ⟨h1, h2⟩
    · omega
  pending := h.pending
  handed := h.handed

/-- Every step continues what has been handed out. -/
theorem Cursor.step {SameData : σ → σ → Prop} (hsame : Faithful SameData) {d d' : Driver σ} {ev : Event}
    {p : ℕ} (hstep : Step SameData d ev d') (hs : d.Sound) (h : d.Cursor p) :
    ev.Continues p d' ∧ d'.Cursor (ev.cursor p) := by
  cases hstep with
  | call x r hf hl =>
      exact ⟨continues_of_nil rfl rfl, h.of_moved (Raft.called_of_leaves hs.raft hf hl).moved rfl⟩
  | ready rd raw store hr hw => exact h.ready hs (Act.wp_ok (RawNode.wp_getReady hs.raft) hr) hw
  | failedReady e raw hr =>
      have heq := Act.wp_err (RawNode.wp_getReady hs.raft) hr
      rw [heq]
      exact ⟨continues_of_nil rfl rfl, h⟩
  | advanceAppendAsync rd raw hp hl =>
      have hb := hs.batch rd hp
      have hwp := RawNode.wp_commitReady hs.raft.log hb.written hb.snapshot_term hb.record
      have hrep := hl.of_wp (Act.wp_mono hwp (fun _ _ hr => hr) fun _ _ hf => hf.elim)
      exact ⟨continues_of_nil rfl rfl, h.reported hp hrep⟩
  | onPersistReady number raw hl =>
      exact ⟨continues_of_nil rfl rfl, h.persisted (hl.of_wp (RawNode.wp_onPersistReady hs.raft number))⟩
  | advanceAppend rd l raw hp hr =>
      have hb := hs.batch rd hp
      obtain ⟨n1, n2, n3, h1, h2, h3, prev, rfl⟩ := (Act.wp_ok (RawNode.wp_advanceAppend hs.raft
        hb.written hb.snapshot_term hb.record) hr).result
      exact ((h.reported hp h1).persisted h2).light ((hs.reported h1).persisted h2) h3 prev l.commitIndex
  | failedAdvance rd e raw hp hr =>
      have hb := hs.batch rd hp
      obtain ⟨n1, h1, h2⟩ := (Act.wp_err (RawNode.wp_advanceAppend hs.raft
        hb.written hb.snapshot_term hb.record) hr).result
      exact ⟨continues_of_nil rfl rfl, (h.reported hp h1).persisted h2⟩
  | advanceApply raw hl =>
      have hwp : (RawNode.advanceApply : Act Err (RawNode σ) Unit).wp
          (fun _ n' => ({ d with raw := n' } : Driver σ).Cursor p)
          (fun _ n' => ({ d with raw := n' } : Driver σ).Cursor p) d.raw := by
        unfold RawNode.advanceApply RawNode.onRaft
        rw [Act.wp_bind, Act.wp_get, Act.wp_zoom]
        have hreach := Raft.wp_commitApply (m := idleMessage) hs.raft.reach d.raw.commitSinceIndex
        exact Act.wp_mono hreach (fun _ _ h' => h.of_moved h'.micros.moved rfl)
          fun _ _ h' => h.of_moved h'.micros.moved rfl
      exact ⟨continues_of_nil rfl rfl, hl.of_wp hwp⟩
  | compact snap rs store hp hi hd ht hst hc hw =>
      refine ⟨continues_of_nil rfl rfl, h.setStore fun hn => Or.inr ⟨?_, ?_⟩⟩
      · have hlog := (compact_ok hs hi hd hw).2
        rw [if_pos hn] at hlog
        show ({ d.raw.raft.raftLog with store := store } : RaftLog σ).log.base ≤ _
        rw [hlog]
        exact hi
      · obtain ⟨_, _, hlo, _⟩ := LawfulStorage.applyLocalSnapshot_ok hs.raft.log.valid hw
        have hbase : d.raw.raft.raftLog.log.base =
            (LawfulStorage.view d.raw.raft.raftLog.store).log.base := by
          rw [RaftLog.log_of_none hn]
          rfl
        omega
  | drift store hd =>
      obtain ⟨hv, hview⟩ := hsame _ _ hd hs.raft.log.valid
      have hlog : (LawfulStorage.view store).log = d.raw.raft.raftLog.storeLog := by
        rw [hview]
        rfl
      refine ⟨continues_of_nil rfl rfl, h.setStore fun _ => Or.inl ?_⟩
      exact congrArg Log.base (hs.raft.log.driftStore hv hlog).2

/-! ### Whole runs -/

end Driver

end Raftz
