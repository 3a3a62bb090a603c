import Mathlib.Data.List.TakeWhile
import Raftz.DriverSound

/-! # What counts as durable

In asynchronous mode batches are written and reported durable later, several at
a time.  `persisted` must stay below every entry of a batch that is still on its
way: the node counts itself towards a quorum with it, and entries are applied up
to it.

A report identifies the end of a batch by index and term only.  When leaders
overwrite that entry and bring it back while the first report is still
outstanding, the report of the first batch is taken for the last one.  So
`persisted` stays behind as long as no batch brings back the end of a batch that
is still on its way. -/

open Base

namespace Raftz

namespace Peer

/-- A leader counts itself only with what it has persisted. -/
def Backed (c : Peer) : Prop := c.role = .leader → c.matched c.id ≤ c.persisted

end Peer

/-- Only a report moves the persisted position forward. -/
theorem Micro.persisted_le {honest : Prop} {m : Message} {c c' : Peer} (h : Micro honest m c c')
    (hm : ¬ m.IsReport) : c'.persisted ≤ c.persisted := by
  cases h with
  | merge l p hm hr hcur hc ht hi hl hp hp' hst => exact hp
  | restore s t n k hm hs hr hcur hle hlt ht => exact min_le_left _ _
  | persist i hrep hlt hst hle => exact absurd hrep hm
  | _ => exact le_rfl

/-- A leader's own acknowledgement follows what it has persisted. -/
theorem Micro.backed {honest : Prop} {m : Message} {c c' : Peer} (h : Micro honest m c c')
    (hm : m.msgType = .appendResponse → m.sender ≠ c.id) (hb : c.Backed) : c'.Backed := by
  intro hr'
  cases h with
  | follow t M ht hM => cases hr'
  | preCampaign hr hv hn => cases hr'
  | campaign M hr hv hM => cases hr'
  | commitDown i M hlt hle hm hr hc ht h0 hterm hM => cases hr'
  | lead M hm hr hw hM =>
      show M c.id ≤ c.persisted
      rcases hM c.id with h0 | ⟨-, hp⟩
      · rw [h0]
        exact Nat.zero_le _
      · exact hp.le
  | merge l p hm hr hcur hc ht hi hl hp hp' hst => exact absurd (hr.symm.trans hr') (by simp)
  | restore s t n k hm hs hr hcur hle hlt ht => exact absurd (hr.symm.trans hr') (by simp)
  | ack hresp hrej hr hcur =>
      show Function.update c.matched m.sender _ c.id ≤ c.persisted
      rw [Function.update_of_ne (hm hresp).symm]
      exact hb hr
  | persist i hrep hlt hst hle => exact (hb hr').trans hlt.le
  | selfAck hr =>
      show Function.update c.matched c.id _ c.id ≤ c.persisted
      rw [Function.update_self]
      exact max_le (hb hr) le_rfl
  | _ => exact hb hr'

/-- Protocol steps on messages that report nothing and do not answer the node in its own name. -/
theorem Acts.behind {honest : Prop} {ok : Message → Prop} {c c' : Peer} (h : Acts honest ok c c')
    (hok : ∀ m, ok m → ¬ m.IsReport ∧ (m.msgType = .appendResponse → m.sender ≠ c.id))
    (hb : c.Backed) : c'.persisted ≤ c.persisted ∧ c'.Backed := by
  induction h with
  | refl => exact ⟨le_rfl, hb⟩
  | tail hacts hstep ih =>
      obtain ⟨m, hm, hstep⟩ := hstep
      obtain ⟨hrep, hself⟩ := hok m hm
      have hid := Acts.moved hacts
      refine ⟨(hstep.persisted_le hrep).trans ih.1, hstep.backed ?_ ih.2⟩
      rw [hid.id]
      exact hself

/-- The calls that a `RawNode` passes on: it refuses the messages a node sends to itself, and no
node acknowledges its own messages. -/
def RaftCall.Offered (id : ℕ) : RaftCall → Prop
  | .step m => m.msgType ≠ .beat ∧ (m.msgType = .appendResponse → m.sender ≠ id)
  | .onPersistEntries _ _ => False
  | .onPersistSnapshot _ => False
  | _ => True

instance (id : ℕ) : ∀ x : RaftCall, Decidable (x.Offered id)
  | .step m => inferInstanceAs (Decidable (m.msgType ≠ .beat ∧ (_ → _)))
  | .onPersistEntries _ _ | .onPersistSnapshot _ => inferInstanceAs (Decidable False)
  | .tick | .ping | .requestSnapshot | .setPriority _ | .applyConfChange _ | .commitApply _
  | .restoreSnapshot _ => inferInstanceAs (Decidable True)

theorem Message.IsLocal.not_isReport {m : Message} (h : m.IsLocal) : ¬ m.IsReport :=
  fun hrep => h.2.1 hrep.2

theorem Message.IsLocal.not_response {m : Message} (h : m.IsLocal) : m.msgType ≠ .appendResponse := by
  obtain ⟨-, -, h | h | h⟩ := h <;> rw [h] <;> simp

theorem RaftCall.Offered.handles {id : ℕ} {x : RaftCall} (h : x.Offered id) (m : Message)
    (hm : x.Handles m) : ¬ m.IsReport ∧ (m.msgType = .appendResponse → m.sender ≠ id) := by
  cases x with
  | step m' =>
      cases (show m = m' from hm)
      exact ⟨fun hrep => h.1 hrep.1, h.2⟩
  | onPersistEntries index term => exact h.elim
  | onPersistSnapshot index => exact h.elim
  | restoreSnapshot snap =>
      obtain ⟨hm, -, -⟩ := hm
      refine ⟨fun hrep => ?_, fun hresp => ?_⟩
      · exact absurd (hm.symm.trans hrep.1) (by simp)
      · exact absurd (hm.symm.trans hresp) (by simp)
  | tick => exact ⟨hm.not_isReport, fun hresp => absurd hresp hm.not_response⟩
  | ping => exact ⟨hm.not_isReport, fun hresp => absurd hresp hm.not_response⟩
  | requestSnapshot => exact ⟨hm.not_isReport, fun hresp => absurd hresp hm.not_response⟩
  | setPriority p => exact ⟨hm.not_isReport, fun hresp => absurd hresp hm.not_response⟩
  | applyConfChange cc => exact ⟨hm.not_isReport, fun hresp => absurd hresp hm.not_response⟩
  | commitApply applied => exact ⟨hm.not_isReport, fun hresp => absurd hresp hm.not_response⟩

namespace Raft

variable {σ : Type} [LawfulStorage σ] {r r' : Raft σ}

/-- A changed configuration keeps the progress of a peer or starts it again. -/
theorem matched_installed (r : Raft σ) (res : ConfChangeResult) (v : ℕ) :
    (r.installed res).core.matched v ≤ r.core.matched v := by
  show (((r.installed res).progressTracker.get v).map Progress.matched).getD 0 ≤ _
  cases hp : (r.installed res).progressTracker.get v with
  | none => exact Nat.zero_le _
  | some p =>
      refine ProgressTracker.applyConf_forall (t := r.progressTracker)
        (P := fun id p => p.matched ≤ r.core.matched id) ?_ res.conf res.changes
        (fun _ => Nat.zero_le _) v p hp
      intro id q hq
      rw [core_matched_get hq]

theorem Called.behind {x : RaftCall} (h : Called x r r') (hx : x.Offered r.id)
    (hb : r.core.Backed) : r'.raftLog.persisted ≤ r.raftLog.persisted ∧ r'.core.Backed := by
  obtain ⟨c, hacts, rfl | ⟨cc, res, -, -, rfl⟩⟩ := h.acts
  · exact hacts.behind hx.handles hb
  · have hinst : (r.installed res).core.Backed := fun hr =>
      (matched_installed r res r.id).trans (hb hr)
    exact hacts.behind hx.handles hinst

/-- A report moves the persisted position to what is reported, at most. -/
theorem Noted.behind {why : Prop} {i : ℕ} (h : Noted False idleMessage why i r r')
    (hb : r.core.Backed) : r'.core.Backed ∧ Moved r.core r'.core ∧
      (r'.raftLog.persisted ≤ r.raftLog.persisted ∨ (why ∧ r'.raftLog.persisted ≤ i)) := by
  cases h with
  | same => exact ⟨hb, Moved.refl _, Or.inl le_rfl⟩
  | moved _ hlt hoff hwhy hreach =>
      have hacts := @Acts.of_micros _ Message.IsLocal _ idleMessage_isLocal _ _ hreach.micros
      have hbacked : ({ r with raftLog := { r.raftLog with persisted := i } } : Raft σ).core.Backed :=
        fun hr => (hb hr).trans hlt.le
      obtain ⟨hle, hb'⟩ := hacts.behind (fun m hm =>
        ⟨hm.not_isReport, fun hresp => absurd hresp hm.not_response⟩) hbacked
      have hmoved : Moved r.core
          ({ r with raftLog := { r.raftLog with persisted := i } } : Raft σ).core :=
        ⟨rfl, rfl, le_rfl, Or.inl ⟨rfl, rfl, rfl⟩⟩
      exact ⟨hb', hmoved.trans hacts.moved, Or.inr ⟨hwhy, hle⟩⟩

end Raft

/-- The front of the log only moves forward. -/
theorem Moved.base_le {c c' : Peer} (h : Moved c c') (hle : c.log.base ≤ c.committed) :
    c.log.base ≤ c'.log.base := by
  rcases h.pending with ⟨-, hbase, -⟩ | ⟨md, -, hbase, -, hmd, -⟩
  · exact hbase.ge
  · rw [hbase]
    exact hle.trans hmd

/-! ### Records -/

namespace RawNode

/-- The snapshot position of a report comes from one of its batches. -/
theorem persistedBy_snapshot (recs : List ReadyRecord) (i : ℕ) (e : ℕ × ℕ) :
    (persistedBy recs i e).1 = i ∨
      ∃ rec ∈ recs, ∃ t, rec.snapshot = some ((persistedBy recs i e).1, t) := by
  induction recs generalizing i e with
  | nil => exact Or.inl rfl
  | cons rec recs ih =>
      unfold persistedBy
      cases hs : rec.snapshot with
      | none =>
          rcases ih i (rec.lastEntry.getD e) with h | ⟨rec', hmem, t, h⟩
          · exact Or.inl h
          · exact Or.inr ⟨rec', List.mem_cons_of_mem _ hmem, t, h⟩
      | some s =>
          rcases ih s.1 (rec.lastEntry.getD (0, 0)) with h | ⟨rec', hmem, t, h⟩
          · exact Or.inr ⟨rec, List.mem_cons_self, s.2, hs.trans (congrArg some (Prod.ext h.symm rfl))⟩
          · exact Or.inr ⟨rec', List.mem_cons_of_mem _ hmem, t, h⟩

/-- The entry of a report comes from one of its batches, or there is none. -/
theorem persistedBy_entry (recs : List ReadyRecord) (i : ℕ) (e : ℕ × ℕ) :
    (persistedBy recs i e).2 = e ∨ (persistedBy recs i e).2 = (0, 0) ∨
      ∃ rec ∈ recs, rec.lastEntry = some (persistedBy recs i e).2 := by
  induction recs generalizing i e with
  | nil => exact Or.inl rfl
  | cons rec recs ih =>
      unfold persistedBy
      cases hs : rec.snapshot with
      | none =>
          rcases ih i (rec.lastEntry.getD e) with h | h | ⟨rec', hmem, h⟩
          · cases hl : rec.lastEntry with
            | none =>
                rw [hl] at h
                exact Or.inl h
            | some le =>
                rw [hl] at h
                exact Or.inr (Or.inr ⟨rec, List.mem_cons_self, hl.trans (congrArg some h.symm)⟩)
          · exact Or.inr (Or.inl h)
          · exact Or.inr (Or.inr ⟨rec', List.mem_cons_of_mem _ hmem, h⟩)
      | some s =>
          rcases ih s.1 (rec.lastEntry.getD (0, 0)) with h | h | ⟨rec', hmem, h⟩
          · cases hl : rec.lastEntry with
            | none =>
                rw [hl] at h
                exact Or.inr (Or.inl h)
            | some le =>
                rw [hl] at h
                exact Or.inr (Or.inr ⟨rec, List.mem_cons_self, hl.trans (congrArg some h.symm)⟩)
          · exact Or.inr (Or.inl h)
          · exact Or.inr (Or.inr ⟨rec', List.mem_cons_of_mem _ hmem, h⟩)

variable {σ : Type} {n : RawNode σ}

theorem mem_recordsUpTo {number : ℕ} {rec : ReadyRecord} (h : rec ∈ n.recordsUpTo number) :
    rec ∈ n.records ∧ rec.number ≤ number :=
  ⟨(List.takeWhile_subset _) h, of_decide_eq_true (List.mem_takeWhile_imp h :)⟩

theorem lt_of_mem_dropWhile {recs : List ReadyRecord} {number : ℕ}
    (hs : recs.Pairwise fun rec rec' => rec.number < rec'.number) {rec : ReadyRecord}
    (h : rec ∈ recs.dropWhile (fun record => decide (record.number ≤ number))) :
    number < rec.number := by
  induction recs with
  | nil => cases h
  | cons rec' recs ih =>
      obtain ⟨hfirst, hrest⟩ := List.pairwise_cons.mp hs
      rw [List.dropWhile_cons] at h
      split at h
      · exact ih hrest h
      · rename_i hn
        have hn : ¬ rec'.number ≤ number := fun hle => hn (decide_eq_true hle)
        rcases List.mem_cons.mp h with rfl | h
        · omega
        · have := hfirst rec h
          omega

end RawNode

/-! ### Batches on their way -/

/-- A driver in asynchronous mode with the batches that have not been reported durable. -/
structure Pipeline (σ : Type) where
  driver : Driver σ
  staged : List Ready

/-- A batch writes at or below an index. -/
def Ready.StartsBy (rd : Ready) (i : ℕ) : Prop := ∃ e ∈ rd.entries, e.index ≤ i

namespace Pipeline

variable {σ : Type}

/-- The node. -/
def raw (p : Pipeline σ) : RawNode σ := p.driver.raw

/-- The buffer of the node. -/
def buffer (p : Pipeline σ) : Unstable := p.raw.raft.raftLog.unstable

/-- The next batch does not bring back the end of a batch that is still on its way: neither as one
of its entries, nor as the position of its snapshot after another batch has overwritten it. -/
def Fresh (p : Pipeline σ) : Prop :=
  ∀ b ∈ p.staged, ∀ e ∈ b.entries.getLast?,
    (∀ e' ∈ p.buffer.entries, e'.index = e.index → e'.term ≠ e.term) ∧
    ∀ s ∈ p.buffer.snapshot, s.metadata.index = e.index →
      (∃ b' ∈ p.staged, b.number < b'.number ∧ b'.StartsBy e.index) → s.metadata.term ≠ e.term

instance (rd : Ready) (i : ℕ) : Decidable (rd.StartsBy i) :=
  inferInstanceAs (Decidable (∃ e ∈ rd.entries, e.index ≤ i))

instance (p : Pipeline σ) : Decidable p.Fresh :=
  inferInstanceAs (Decidable (∀ b ∈ p.staged, ∀ e ∈ b.entries.getLast?, _ ∧ _))

/-- Everything that can happen to a node in asynchronous mode; `P` is asked for before each batch. -/
inductive Step [WritableStorage σ] (SameData : σ → σ → Prop) (P : Pipeline σ → Prop) :
    Pipeline σ → Pipeline σ → Prop
  | call (p : Pipeline σ) (x : RaftCall) (r : Raft σ) (hx : x.Offered p.raw.raft.id)
      (hf : x.Fits p.raw.raft) (h : Outcome.Leaves (x.run p.raw.raft) r) :
      Step SameData P p ⟨{ p.driver with raw := { p.raw with raft := r } }, p.staged⟩
  | ready (p : Pipeline σ) (rd : Ready) (raw : RawNode σ) (store : σ) (hP : P p)
      (hp : p.driver.pending = none) (h : RawNode.getReady p.raw = .ok rd raw)
      (hw : rd.write raw.store = .ok store) :
      Step SameData P p ⟨⟨raw.setStore store, some rd⟩, p.staged ++ [rd]⟩
  | failedReady (p : Pipeline σ) (e : Err) (raw : RawNode σ)
      (h : RawNode.getReady p.raw = .err e raw) :
      Step SameData P p ⟨{ p.driver with raw := raw }, p.staged⟩
  | advanceAppendAsync (p : Pipeline σ) (rd : Ready) (raw : RawNode σ)
      (hp : p.driver.pending = some rd)
      (h : Outcome.Leaves (RawNode.advanceAppendAsync rd p.raw) raw) :
      Step SameData P p ⟨⟨raw, none⟩, p.staged⟩
  | onPersistReady (p : Pipeline σ) (number : ℕ) (raw : RawNode σ)
      (h : Outcome.Leaves (RawNode.onPersistReady number p.raw) raw) :
      Step SameData P p ⟨{ p.driver with raw := raw },
        p.staged.filter (fun b => decide (number < b.number))⟩
  | advanceApply (p : Pipeline σ) (raw : RawNode σ)
      (h : Outcome.Leaves (RawNode.advanceApply p.raw) raw) :
      Step SameData P p ⟨{ p.driver with raw := raw }, p.staged⟩
  | compact (p : Pipeline σ) (snap : Snapshot) (rs : RaftState) (store : σ)
      (hp : p.driver.pending = none) (hi : snap.metadata.index ≤ p.raw.commitSinceIndex)
      (hd : snap.metadata.index ≤ p.raw.raft.raftLog.persisted)
      (ht : Storage.term p.raw.store snap.metadata.index = .ok snap.metadata.term)
      (hs : Storage.initialState p.raw.store = .ok rs)
      (hc : snap.metadata.confState = rs.confState)
      (h : WritableStorage.applyLocalSnapshot p.raw.store snap = .ok store) :
      Step SameData P p ⟨{ p.driver with raw := p.raw.setStore store }, p.staged⟩
  | drift (p : Pipeline σ) (store : σ) (h : SameData p.raw.store store) :
      Step SameData P p ⟨{ p.driver with raw := p.raw.setStore store }, p.staged⟩

/-- Any number of steps. -/
abbrev Steps [WritableStorage σ] (SameData : σ → σ → Prop) (P : Pipeline σ → Prop) :
    Pipeline σ → Pipeline σ → Prop := Relation.ReflTransGen (Step SameData P)

/-- Each step is a step of the driver. -/
theorem Step.driver [WritableStorage σ] {SameData : σ → σ → Prop} {P : Pipeline σ → Prop}
    {p p' : Pipeline σ} (h : Step SameData P p p') :
    ∃ ev, Driver.Step SameData p.driver ev p'.driver := by
  cases h with
  | call x r hx hf hl => exact ⟨_, .call p.driver x r hf hl⟩
  | ready rd raw store hP hp hr hw => exact ⟨_, .ready p.driver rd raw store hr hw⟩
  | failedReady e raw hr => exact ⟨_, .failedReady p.driver e raw hr⟩
  | advanceAppendAsync rd raw hp hl => exact ⟨_, .advanceAppendAsync p.driver rd raw hp hl⟩
  | onPersistReady number raw hl => exact ⟨_, .onPersistReady p.driver number raw hl⟩
  | advanceApply raw hl => exact ⟨_, .advanceApply p.driver raw hl⟩
  | compact snap rs store hp hi hd ht hs hc hw =>
      exact ⟨_, .compact p.driver snap rs store hp hi hd ht hs hc hw⟩
  | drift store hs => exact ⟨_, .drift p.driver store hs⟩

/-! ### What holds of the batches on their way -/

section
variable [LawfulStorage σ]

/-- Everything persisted lies below the batches on their way.  A report finds the end of its batch
in the storage only when no later batch has overwritten it. -/
structure Lags (p : Pipeline σ) : Prop where
  sound : p.driver.Sound
  backed : p.raw.raft.core.Backed
  numbers : ∀ b ∈ p.staged, b.number ≤ p.raw.maxNumber
  sorted : p.raw.records.Pairwise fun rec rec' => rec.number < rec'.number
  records : ∀ rec ∈ p.raw.records, ∃ b ∈ p.staged, rec = b.record
  behind : ∀ b ∈ p.staged, ∀ e ∈ b.entries, p.raw.raft.raftLog.persisted < e.index
  restored : ∀ b ∈ p.staged, ∀ s, b.snapshot = some s →
    s.metadata.index ≤ p.raw.raft.raftLog.log.base
  above : ∀ b ∈ p.staged, ∀ b' ∈ p.staged, b.number < b'.number → ∀ s, b.snapshot = some s →
    ¬ b'.StartsBy s.metadata.index
  rewritten : ∀ b ∈ p.staged, ∀ b' ∈ p.staged, b.number < b'.number → ∀ e,
    b.entries.getLast? = some e → b'.StartsBy e.index →
      p.raw.raft.raftLog.storeLog.termAt e.index ≠ some e.term

/-- A step that stages nothing and reports nothing. -/
theorem Lags.keep {p : Pipeline σ} (h : p.Lags) {d : Driver σ} (hs : d.Sound)
    (hb : d.raw.raft.core.Backed) (hrec : d.raw.records = p.raw.records)
    (hmax : d.raw.maxNumber = p.raw.maxNumber)
    (hp : d.raw.raft.raftLog.persisted ≤ p.raw.raft.raftLog.persisted)
    (hbase : p.raw.raft.raftLog.log.base ≤ d.raw.raft.raftLog.log.base)
    (hstore : ∀ i t, d.raw.raft.raftLog.storeLog.termAt i = some t →
      p.raw.raft.raftLog.storeLog.termAt i = some t) : Lags ⟨d, p.staged⟩ where
  sound := hs
  backed := hb
  numbers := fun b hmem => (h.numbers b hmem).trans hmax.ge
  sorted := by
    show d.raw.records.Pairwise _
    rw [hrec]
    exact h.sorted
  records := fun rec hmem => h.records rec (hrec ▸ hmem)
  behind := fun b hmem e he => lt_of_le_of_lt hp (h.behind b hmem e he)
  restored := fun b hmem s hsnap => (h.restored b hmem s hsnap).trans hbase
  above := h.above
  rewritten := fun b hb b' hb' hlt e he hst ht => h.rewritten b hb b' hb' hlt e he hst (hstore _ _ ht)

/-- The same for the steps of the node itself. -/
theorem Lags.of_moved {p : Pipeline σ} (h : p.Lags) {r : Raft σ} {d : Driver σ}
    (hd : d = { p.driver with raw := { p.raw with raft := r } }) (hs : d.Sound)
    (hm : Moved p.raw.raft.core r.core)
    (hb : r.raftLog.persisted ≤ p.raw.raft.raftLog.persisted ∧ r.core.Backed) :
    Lags ⟨d, p.staged⟩ := by
  subst hd
  refine h.keep hs hb.2 rfl rfl hb.1 (hm.base_le h.sound.raft.log.base_le) fun i t ht => ?_
  have hstore : r.raftLog.storeLog = p.raw.raft.raftLog.storeLog :=
    (congrArg StoreView.log hm.store :)
  rw [← hstore]
  exact ht

/-- What the log holds in the buffer's range is in the buffer. -/
theorem mem_buffer {l : RaftLog σ} (h : l.WF) {i t : ℕ} (hi : l.unstable.offset ≤ i)
    (ht : l.log.termAt i = some t) : ∃ e ∈ l.unstable.entries, e.index = i ∧ e.term = t := by
  have hbase := h.base_lt_offset
  rw [Log.termAt_of_ne_base (by omega)] at ht
  obtain ⟨e, he, rfl⟩ := Option.map_eq_some_iff.mp ht
  refine ⟨e, ?_, h.contiguous.index_eq he, rfl⟩
  rw [h.entryAt_ge hi] at he
  exact List.mem_of_getElem? he

/-- A batch that brings nothing back leaves overwritten ends overwritten. -/
theorem Fresh.rewritten {p : Pipeline σ} (hf : p.Fresh) (h : p.Lags) {b b' : Ready}
    (hb : b ∈ p.staged) (hb' : b' ∈ p.staged) (hlt : b.number < b'.number) {e : Entry}
    (he : b.entries.getLast? = some e) (hst : b'.StartsBy e.index) :
    p.raw.raft.raftLog.log.termAt e.index ≠ some e.term := by
  intro ht
  have hwf : p.raw.raft.raftLog.WF := h.sound.raft.log
  obtain ⟨hentries, hsnapshot⟩ := hf b hb e he
  rcases Nat.lt_or_ge e.index p.raw.raft.raftLog.unstable.offset with hlo | hhi
  · cases hs : p.raw.raft.raftLog.unstable.snapshot with
    | none =>
        rw [hwf.termAt_lt hs hlo] at ht
        exact h.rewritten b hb b' hb' hlt e he hst ht
    | some s =>
        -- below the buffer there is only the position of the snapshot
        have hoff := hwf.snapshot s hs
        have hbase : p.raw.raft.raftLog.log.base = s.metadata.index := by
          rw [RaftLog.log_of_snapshot hs]
        have hbaseTerm : p.raw.raft.raftLog.log.baseTerm = s.metadata.term := by
          rw [RaftLog.log_of_snapshot hs]
        have hge := (Log.termAt_isSome_iff.mp (Option.isSome_iff_exists.mpr ⟨_, ht⟩)).1
        have hidx : e.index = p.raw.raft.raftLog.log.base := by omega
        rw [hidx, Log.termAt_base, hbaseTerm] at ht
        exact hsnapshot s hs (by omega) ⟨b', hb', hlt, hst⟩ (Option.some.inj ht)
  · obtain ⟨e', hmem, hidx, hterm⟩ := mem_buffer hwf hhi ht
    exact hentries e' hmem hidx hterm

/-- A new batch, written. -/
theorem Lags.ready {p : Pipeline σ} (h : p.Lags) (hf : p.Fresh) {rd : Ready} {raw : RawNode σ}
    {store : σ} (hr : RawNode.ReadySpec p.raw rd raw) (hw : rd.write raw.store = .ok store) :
    Lags ⟨⟨raw.setStore store, some rd⟩, p.staged ++ [rd]⟩ := by
  obtain ⟨u, hu⟩ := hr.raft
  have hwf : p.raw.raft.raftLog.WF := h.sound.raft.log
  have hlog : raw.raft.raftLog = p.raw.raft.raftLog := by rw [hu]
  have hw' : rd.write p.raw.raft.raftLog.store = .ok store := by
    rw [← hlog]
    exact hw
  have hwrite := Ready.write_ok hwf hr.entries hr.snapshot hw'
  have heq : (raw.setStore store).raft.raftLog = { p.raw.raft.raftLog with store := store } := by
    show ({ raw.raft.raftLog with store := store } : RaftLog σ) = _
    rw [hlog]
  have hlog' : (raw.setStore store).raft.raftLog.log = p.raw.raft.raftLog.log := by
    rw [heq]
    exact (hwf.setStore hwrite.1 hwrite.2).2
  have hstore : (raw.setStore store).raft.raftLog.storeLog = p.raw.raft.raftLog.log := hwrite.2
  have hfirst : ∀ e ∈ rd.entries, p.raw.raft.raftLog.unstable.offset ≤ e.index := by
    intro e he
    rw [hr.entries] at he
    exact (Log.Consecutive.mem_bounds hwf.entries he).1
  have hnew : ∀ b ∈ p.staged, b.number < rd.number := fun b hb => by
    rw [hr.number]
    exact Nat.lt_succ_of_le (h.numbers b hb)
  -- a pair of batches: two old ones, or an old one and the new one
  have hpair : ∀ b ∈ p.staged ++ [rd], ∀ b' ∈ p.staged ++ [rd], b.number < b'.number →
      b ∈ p.staged ∧ (b' ∈ p.staged ∨ b' = rd) := by
    intro b hb b' hb' hlt
    rw [List.mem_append, List.mem_singleton] at hb hb'
    rcases hb with hb | rfl
    · exact ⟨hb, hb'⟩
    · rcases hb' with hb' | rfl
      · exact absurd (hnew b' hb') (by omega)
      · exact absurd hlt (lt_irrefl _)
  exact {
    sound := h.sound.ready hr hw
    backed := by
      show raw.raft.core.Backed
      rw [hu]
      exact h.backed
    numbers := by
      intro b hb
      show b.number ≤ raw.maxNumber
      rw [hr.maxNumber]
      rcases List.mem_append.mp hb with hb | hb
      · exact (h.numbers b hb).trans (Nat.le_succ _)
      · rw [List.mem_singleton.mp hb, hr.number]
    sorted := by
      obtain ⟨old, hold, hrecs⟩ := hr.records
      show raw.records.Pairwise _
      rw [hrecs, List.pairwise_append]
      refine ⟨?_, List.pairwise_singleton _ _, fun rec hmem rec' hmem' => ?_⟩
      · rcases hold with rfl | rfl
        · exact h.sorted
        · exact List.Pairwise.nil
      · rw [List.mem_singleton.mp hmem']
        rcases hold with rfl | rfl
        · obtain ⟨b, hb, rfl⟩ := h.records rec hmem
          exact hnew b hb
        · cases hmem
    records := by
      obtain ⟨old, hold, hrecs⟩ := hr.records
      intro rec hmem
      have hmem : rec ∈ raw.records := hmem
      rw [hrecs, List.mem_append, List.mem_singleton] at hmem
      rcases hmem with hmem | rfl
      · rcases hold with rfl | rfl
        · obtain ⟨b, hb, hrec⟩ := h.records rec hmem
          exact ⟨b, List.mem_append_left _ hb, hrec⟩
        · cases hmem
      · exact ⟨rd, by simp, rfl⟩
    behind := by
      intro b hb e he
      show raw.raft.raftLog.persisted < e.index
      rw [hlog]
      rcases List.mem_append.mp hb with hb | hb
      · exact h.behind b hb e he
      · rw [List.mem_singleton.mp hb] at he
        exact lt_of_lt_of_le hwf.persisted_lt (hfirst e he)
    restored := by
      intro b hb s hs
      show s.metadata.index ≤ (raw.setStore store).raft.raftLog.log.base
      rw [hlog']
      rcases List.mem_append.mp hb with hb | hb
      · exact h.restored b hb s hs
      · rw [List.mem_singleton.mp hb, hr.snapshot] at hs
        rw [RaftLog.log_of_snapshot hs]
    above := by
      intro b hb b' hb' hlt s hs hst
      obtain ⟨hold, hb' | rfl⟩ := hpair b hb b' hb' hlt
      · exact h.above b hold b' hb' hlt s hs hst
      · obtain ⟨e, he, hle⟩ := hst
        have h1 := h.restored b hold s hs
        have h2 := hwf.base_lt_offset
        have h3 := hfirst e he
        omega
    rewritten := by
      intro b hb b' hb' hlt e he hst
      show (raw.setStore store).raft.raftLog.storeLog.termAt e.index ≠ some e.term
      rw [hstore]
      obtain ⟨hold, hb' | rfl⟩ := hpair b hb b' hb' hlt
      · exact hf.rewritten h hold hb' hlt he hst
      · intro ht
        obtain ⟨e0, he0, hle⟩ := hst
        obtain ⟨e', hmem, hidx, hterm⟩ := mem_buffer hwf ((hfirst e0 he0).trans hle) ht
        exact (hf b hold e he).1 e' hmem hidx hterm }

/-- A report for the batches up to `number`. -/
theorem Lags.acknowledged {p : Pipeline σ} (h : p.Lags) {number : ℕ} {raw : RawNode σ}
    (ha : RawNode.Acknowledged idleMessage number p.raw raw)
    (hs : ({ p.driver with raw := raw } : Driver σ).Sound) :
    Lags ⟨{ p.driver with raw := raw }, p.staged.filter (fun b => decide (number < b.number))⟩ := by
  obtain ⟨r1, r2, rfl, h1, -, h2⟩ := ha.result
  obtain ⟨hb1, hm1, hp1⟩ := h1.behind h.backed
  obtain ⟨hb2, hm2, hp2⟩ := h2.behind hb1
  have hwf : p.raw.raft.raftLog.WF := h.sound.raft.log
  have hmoved := hm1.trans hm2
  have hstore1 : r1.raftLog.storeLog = p.raw.raft.raftLog.storeLog :=
    (congrArg StoreView.log hm1.store :)
  have hstore : r2.raftLog.storeLog = p.raw.raft.raftLog.storeLog :=
    (congrArg StoreView.log hmoved.store :)
  have hopen : ∀ b ∈ p.staged.filter (fun b => decide (number < b.number)),
      b ∈ p.staged ∧ number < b.number := by
    intro b hb
    obtain ⟨hb, hlt⟩ := List.mem_filter.mp hb
    exact ⟨hb, of_decide_eq_true hlt⟩
  -- the batch behind a record that is reported
  have hbatch : ∀ rec ∈ p.raw.recordsUpTo number,
      ∃ b ∈ p.staged, rec = b.record ∧ b.number ≤ number := by
    intro rec hmem
    obtain ⟨hmem, hle⟩ := RawNode.mem_recordsUpTo hmem
    obtain ⟨b, hb, rfl⟩ := h.records rec hmem
    exact ⟨b, hb, rfl, hle⟩
  exact {
    sound := hs
    backed := hb2
    numbers := fun b hb => h.numbers b (hopen b hb).1
    sorted := h.sorted.sublist (List.dropWhile_sublist _)
    records := by
      intro rec hmem
      have hlt := RawNode.lt_of_mem_dropWhile h.sorted hmem
      obtain ⟨b, hb, rfl⟩ := h.records rec (List.dropWhile_sublist _ |>.subset hmem)
      exact ⟨b, List.mem_filter.mpr ⟨hb, decide_eq_true hlt⟩, rfl⟩
    behind := by
      intro b hb e he
      obtain ⟨hb, hlt⟩ := hopen b hb
      show r2.raftLog.persisted < e.index
      have hold := h.behind b hb e he
      -- the position of the snapshot
      have hsnap : r1.raftLog.persisted < e.index := by
        rcases hp1 with hp1 | ⟨hne, hp1⟩
        · exact lt_of_le_of_lt hp1 hold
        · rcases RawNode.persistedBy_snapshot (p.raw.recordsUpTo number) 0 (0, 0) with
            h0 | ⟨rec, hmem, t, hrec⟩
          · exact absurd h0 hne
          · obtain ⟨b0, hb0, rfl, hle⟩ := hbatch rec hmem
            obtain ⟨s, hs0, hs1⟩ := Option.map_eq_some_iff.mp hrec
            have habove := h.above b0 hb0 b hb (by omega) s hs0
            have hidx := congrArg Prod.fst hs1
            by_contra hcon
            exact habove ⟨e, he, by omega⟩
      -- the position of the last entry
      rcases hp2 with hp2 | ⟨⟨hne, hterm⟩, hp2⟩
      · exact lt_of_le_of_lt hp2 hsnap
      · rcases RawNode.persistedBy_entry (p.raw.recordsUpTo number) 0 (0, 0) with
          h0 | h0 | ⟨rec, hmem, hrec⟩
        · exact absurd (congrArg Prod.fst h0) hne
        · exact absurd (congrArg Prod.fst h0) hne
        · obtain ⟨b0, hb0, rfl, hle⟩ := hbatch rec hmem
          obtain ⟨e0, he0, he1⟩ := Option.map_eq_some_iff.mp hrec
          rw [← he1, hstore1] at hterm
          rw [← he1] at hp2
          by_contra hcon
          exact h.rewritten b0 hb0 b hb (by omega) e0 he0
            ⟨e, he, (Nat.le_of_not_lt hcon).trans hp2⟩ hterm
    restored := by
      intro b hb s hs0
      exact (h.restored b (hopen b hb).1 s hs0).trans (hmoved.base_le hwf.base_le)
    above := fun b hb b' hb' => h.above b (hopen b hb).1 b' (hopen b' hb').1
    rewritten := by
      intro b hb b' hb' hlt e he hst
      show r2.raftLog.storeLog.termAt e.index ≠ some e.term
      rw [hstore]
      exact h.rewritten b (hopen b hb).1 b' (hopen b' hb').1 hlt e he hst }

theorem termAt_of_compact {l : Log} {i t j u : ℕ} (hb : l.base ≤ i) (ht : l.termAt i = some t)
    (h : (l.compact i t).termAt j = some u) : l.termAt j = some u := by
  have hbase : (l.compact i t).base = i := rfl
  by_cases hj : j = i
  · subst hj
    have hterm : (l.compact j t).termAt j = some t := Log.termAt_base (l := l.compact j t)
    rwa [← hterm, h] at ht
  · have hge := (Log.termAt_isSome_iff.mp (Option.isSome_iff_exists.mpr ⟨_, h⟩)).1
    rw [Log.termAt_of_ne_base (by omega), Log.entryAt_compact hb (by omega)] at h
    rw [Log.termAt_of_ne_base (by omega)]
    exact h

/-- Every step keeps what is persisted below the batches on their way. -/
theorem Step.lags {SameData : σ → σ → Prop} (hsame : Driver.Faithful SameData) {p p' : Pipeline σ}
    (hstep : Step SameData Fresh p p') (h : p.Lags) : p'.Lags := by
  obtain ⟨ev, hdriver⟩ := hstep.driver
  have hs := hdriver.sound hsame h.sound
  cases hstep with
  | call x r hx hf hl =>
      have hcall := Raft.called_of_leaves h.sound.raft hf hl
      exact h.of_moved rfl hs hcall.moved (hcall.behind hx h.backed)
  | ready rd raw store hP hp hr hw => exact h.ready hP (Act.wp_ok (RawNode.wp_getReady h.sound.raft) hr) hw
  | failedReady e raw hr =>
      have heq := Act.wp_err (RawNode.wp_getReady h.sound.raft) hr
      subst heq
      exact h
  | advanceAppendAsync rd raw hp hl =>
      have hb := h.sound.batch rd hp
      have hwp := RawNode.wp_commitReady h.sound.raft.log hb.written hb.snapshot_term hb.record
      have hrep := hl.of_wp (Act.wp_mono hwp (fun _ _ hr => hr) fun _ _ hf => hf.elim)
      obtain ⟨l', hl', rfl⟩ := hrep.result
      refine h.keep hs ?_ rfl rfl ?_ hl'.base.ge fun i t ht => ?_
      · intro hr
        show p.raw.raft.core.matched p.raw.raft.id ≤ l'.persisted
        rw [hl'.same]
        exact h.backed hr
      · show l'.persisted ≤ _
        rw [hl'.same]
        exact le_rfl
      · have ht : l'.storeLog.termAt i = some t := ht
        rw [hl'.same] at ht
        exact ht
  | onPersistReady number raw hl =>
      exact h.acknowledged (hl.of_wp (RawNode.noted_onPersistReady h.sound.raft idleMessage number)) hs
  | advanceApply raw hl =>
      have hwp : (RawNode.advanceApply : Act Err (RawNode σ) Unit).wp
          (fun _ n' => ∃ r, n' = { p.raw with raft := r } ∧ Raft.Reach False idleMessage p.raw.raft.core r)
          (fun _ n' => ∃ r, n' = { p.raw with raft := r } ∧ Raft.Reach False idleMessage p.raw.raft.core r)
          p.raw := by
        unfold RawNode.advanceApply RawNode.onRaft
        rw [Act.wp_bind, Act.wp_get, Act.wp_zoom]
        exact Act.wp_mono (Raft.wp_commitApply h.sound.raft.reach _) (fun _ r hr => ⟨r, rfl, hr⟩)
          fun _ r hr => ⟨r, rfl, hr⟩
      obtain ⟨r, rfl, hreach⟩ := hl.of_wp hwp
      have hacts := @Acts.of_micros _ Message.IsLocal _ idleMessage_isLocal _ _ hreach.micros
      exact h.of_moved rfl hs hacts.moved (hacts.behind (fun m hm =>
        ⟨hm.not_isReport, fun hresp => absurd hresp hm.not_response⟩) h.backed)
  | compact snap rs store hp hi hd ht hinit hc hw =>
      have hwf : p.raw.raft.raftLog.WF := h.sound.raft.log
      obtain ⟨-, hlog⟩ := Driver.compact_ok h.sound hi hd hw
      obtain ⟨-, hview, hlo, hhi⟩ := LawfulStorage.applyLocalSnapshot_ok hwf.valid hw
      obtain ⟨t, hterm, hat⟩ := LawfulStorage.term_eq hwf.valid hlo.le hhi
      have hsame : t = snap.metadata.term := Except.ok.inj (hterm.symm.trans ht)
      refine h.keep hs h.backed rfl rfl le_rfl ?_ fun i u hu => ?_
      · refine le_trans ?_ (congrArg Log.base hlog).ge
        split
        · rename_i hsnap
          have hsnap : p.raw.raft.raftLog.unstable.snapshot = none := hsnap
          have hbase : p.raw.raft.raftLog.log.base = p.raw.raft.raftLog.storeLog.base := by
            rw [RaftLog.log_of_none hsnap]
            rfl
          rw [hbase]
          exact hlo.le
        · exact le_rfl
      · have hu : (LawfulStorage.view store).log.termAt i = some u := hu
        rw [hview] at hu
        exact termAt_of_compact hlo.le (hsame ▸ hat) hu
  | drift store hd =>
      have hwf : p.raw.raft.raftLog.WF := h.sound.raft.log
      obtain ⟨hv, hview⟩ := hsame _ _ hd hwf.valid
      have hlog : (LawfulStorage.view store).log = p.raw.raft.raftLog.storeLog := by
        rw [hview]
        rfl
      refine h.keep hs h.backed rfl rfl le_rfl ?_ fun i t ht => ?_
      · exact (congrArg Log.base (hwf.driftStore hv hlog).2).ge
      · rw [← hlog]
        exact ht

theorem Steps.lags {SameData : σ → σ → Prop} (hsame : Driver.Faithful SameData) {p p' : Pipeline σ}
    (hrun : Steps SameData Fresh p p') (h : p.Lags) : p'.Lags := by
  induction hrun with
  | refl => exact h
  | tail _ hstep ih => exact hstep.lags hsame ih

/-- **Nothing counts as durable before it is.**  A node in asynchronous mode is started from a valid
storage and goes through any number of steps.  When no batch brings back the end of a batch that is
still on its way, every entry of such a batch lies above what counts as persisted, above what may be
applied, and above what a leader acknowledges itself. -/
theorem persisted_behind {SameData : σ → σ → Prop} (hsame : Driver.Faithful SameData)
    {config : Config} {prng : List ℕ} {store : σ} (hv : LawfulStorage.Valid store)
    (happ : config.applied ≤ max (LawfulStorage.view store).log.base
      (Raft.loadedState config (LawfulStorage.view store)).commit)
    {d : Driver σ} (hstart : Driver.Starts config prng store d) {p : Pipeline σ}
    (hrun : Steps SameData Fresh ⟨d, []⟩ p) :
    ∀ b ∈ p.staged, ∀ e ∈ b.entries, p.raw.raft.raftLog.persisted < e.index ∧
      p.raw.raft.raftLog.appliedIndexUpperBound < e.index ∧
      (p.raw.raft.state = .leader →
        ∀ pr, p.raw.raft.progressTracker.get p.raw.raft.id = some pr → pr.matched < e.index) := by
  obtain ⟨hs, hboot, -⟩ := Driver.sound_of_starts hv happ hstart
  have hrecords := Driver.records_of_starts hstart
  have hlags : Lags ⟨d, []⟩ := {
    sound := hs
    backed := fun hr => by
      have hrole := hboot.role
      exact absurd (hrole.symm.trans hr) (by simp)
    numbers := fun b hb => by cases hb
    sorted := by
      show d.raw.records.Pairwise _
      rw [hrecords]
      exact List.Pairwise.nil
    records := fun rec hmem => by
      have hmem : rec ∈ d.raw.records := hmem
      rw [hrecords] at hmem
      cases hmem
    behind := fun b hb => by cases hb
    restored := fun b hb => by cases hb
    above := fun b hb => by cases hb
    rewritten := fun b hb => by cases hb }
  have h := hrun.lags hsame hlags
  intro b hb e he
  have hbehind := h.behind b hb e he
  have hbound : p.raw.raft.raftLog.appliedIndexUpperBound ≤ p.raw.raft.raftLog.persisted :=
    (RawNode.upperBound_le h.sound.raft).trans (min_le_right _ _)
  refine ⟨hbehind, lt_of_le_of_lt hbound hbehind, fun hr pr hpr => ?_⟩
  have hown := h.backed hr
  rw [show p.raw.raft.core.id = p.raw.raft.id from rfl, Raft.core_matched_get hpr] at hown
  exact lt_of_le_of_lt hown hbehind

end

/-! ### Scripts -/

section
variable [WritableStorage σ]

/-- Do it, if it can be done and `P` holds before a batch. -/
def exec (P : Pipeline σ → Prop) [DecidablePred P] (p : Pipeline σ) :
    Driver.Op → Option (Pipeline σ)
  | .call x =>
      if x.Offered p.raw.raft.id ∧ x.Fits p.raw.raft then
        (Driver.left? (x.run p.raw.raft)).map fun r =>
          ⟨{ p.driver with raw := { p.raw with raft := r } }, p.staged⟩
      else none
  | .ready =>
      if P p ∧ p.driver.pending = none then
        match RawNode.getReady p.raw with
        | .ok rd raw => match rd.write raw.store with
            | .ok store => some ⟨⟨raw.setStore store, some rd⟩, p.staged ++ [rd]⟩
            | .error _ => none
        | _ => none
      else none
  | .advanceAppendAsync => match p.driver.pending with
      | some rd => (Driver.left? (RawNode.advanceAppendAsync rd p.raw)).map fun raw =>
          ⟨⟨raw, none⟩, p.staged⟩
      | none => none
  | .onPersistReady number => (Driver.left? (RawNode.onPersistReady number p.raw)).map fun raw =>
      ⟨{ p.driver with raw := raw }, p.staged.filter (fun b => decide (number < b.number))⟩
  | .advanceApply => (Driver.left? (RawNode.advanceApply p.raw)).map fun raw =>
      ⟨{ p.driver with raw := raw }, p.staged⟩
  | .advanceAppend => none

theorem exec_step {SameData : σ → σ → Prop} {P : Pipeline σ → Prop} [DecidablePred P]
    {p p' : Pipeline σ} {op : Driver.Op} (h : p.exec P op = some p') : Step SameData P p p' := by
  cases op with
  | call x =>
      unfold exec at h
      dsimp only at h
      split at h
      · rename_i hx
        obtain ⟨r, hr, rfl⟩ := Option.map_eq_some_iff.mp h
        exact .call p x r hx.1 hx.2 (Driver.leaves_of_left? hr)
      · cases h
  | ready =>
      unfold exec at h
      dsimp only at h
      split at h
      · rename_i hp
        split at h
        · rename_i rd raw hready
          split at h
          · rename_i store hw
            cases h
            exact .ready p rd raw store hp.1 hp.2 hready hw
          · cases h
        · cases h
      · cases h
  | advanceAppendAsync =>
      unfold exec at h
      dsimp only at h
      split at h
      · rename_i rd hp
        obtain ⟨raw, hr, rfl⟩ := Option.map_eq_some_iff.mp h
        exact .advanceAppendAsync p rd raw hp (Driver.leaves_of_left? hr)
      · cases h
  | onPersistReady number =>
      obtain ⟨raw, hr, rfl⟩ := Option.map_eq_some_iff.mp h
      exact .onPersistReady p number raw (Driver.leaves_of_left? hr)
  | advanceApply =>
      obtain ⟨raw, hr, rfl⟩ := Option.map_eq_some_iff.mp h
      exact .advanceApply p raw (Driver.leaves_of_left? hr)
  | advanceAppend => cases h

/-- Carry out a script. -/
def play (P : Pipeline σ → Prop) [DecidablePred P] : List Driver.Op → Pipeline σ → Option (Pipeline σ)
  | [], p => some p
  | op :: ops, p => (p.exec P op).bind (play P ops)

theorem play_steps {SameData : σ → σ → Prop} {P : Pipeline σ → Prop} [DecidablePred P]
    {ops : List Driver.Op} {p p' : Pipeline σ} (h : play P ops p = some p') :
    Steps SameData P p p' := by
  induction ops generalizing p with
  | nil =>
      cases h
      exact .refl
  | cons op ops ih =>
      obtain ⟨p1, h1, h2⟩ := Option.bind_eq_some_iff.mp h
      exact .head (exec_step h1) (ih h2)

/-- Start a node and carry out a script. -/
def playFrom (P : Pipeline σ → Prop) [DecidablePred P] (config : Config) (prng : List ℕ) (store : σ)
    (ops : List Driver.Op) : Option (Pipeline σ) :=
  match RawNode.init config prng store with
  | .ok raw _ => play P ops ⟨⟨raw, none⟩, []⟩
  | _ => none

theorem playFrom_steps (SameData : σ → σ → Prop) {P : Pipeline σ → Prop} [DecidablePred P]
    {config : Config} {prng : List ℕ} {store : σ} {ops : List Driver.Op} {p : Pipeline σ}
    (h : playFrom P config prng store ops = some p) :
    ∃ d, Driver.Starts config prng store d ∧ Steps SameData P ⟨d, []⟩ p := by
  unfold playFrom at h
  split at h
  · rename_i raw _ hinit
    exact ⟨⟨raw, none⟩, ⟨hinit, rfl⟩, play_steps h⟩
  · cases h

end

/-- Five voters and an empty log. -/
def fiveVoters : MemoryStorage := { raftState := { confState := { voters := [1, 2, 3, 4, 5] } } }

/-- A leader sends entries that follow a position. -/
def appendFrom (leader term index logTerm : ℕ) (entries : List Entry) : Driver.Op :=
  .call (.step {
    msgType := .append, sender := leader, dest := 1, term := term, index := index
    logTerm := logTerm, entries := entries })

/-- Two batches are written, the first is reported: the second lies above what is persisted. -/
theorem persisted_behind_follower : ∃ (d : Driver MemoryStorage) (p : Pipeline MemoryStorage),
    Driver.Starts { id := 1 } [] fiveVoters d ∧ Steps Eq Fresh ⟨d, []⟩ p ∧
      p.raw.raft.raftLog.persisted = 1 ∧
      ∃ b ∈ p.staged, ∃ e ∈ b.entries, p.raw.raft.raftLog.persisted < e.index := by
  have hrun : (playFrom Fresh { id := 1 } [] fiveVoters
      [appendFrom 2 1 0 0 [{ term := 1, index := 1 }], .ready, .advanceAppendAsync,
        appendFrom 2 1 1 1 [{ term := 1, index := 2 }], .ready, .advanceAppendAsync,
        .onPersistReady 1]).map (fun p => decide (p.raw.raft.raftLog.persisted = 1 ∧
          ∃ b ∈ p.staged, ∃ e ∈ b.entries, e.index = 2)) = some true := by decide +kernel
  obtain ⟨p, hp, heq⟩ := Option.map_eq_some_iff.mp hrun
  obtain ⟨hone, b, hb, e, he, -⟩ := of_decide_eq_true heq
  obtain ⟨d, hstart, hsteps⟩ := playFrom_steps Eq hp
  have hbehind := persisted_behind Driver.faithful_eq (by trivial) (by decide) hstart hsteps
  exact ⟨d, p, hstart, hsteps, hone, b, hb, e, he, (hbehind b hb e he).1⟩

/-- Three leaders write the first entry, the last one brings back what the first one wrote.  The
report of the first batch makes the entry count as durable, while the other two are on their way. -/
theorem persisted_ahead : ∃ (d : Driver MemoryStorage) (p : Pipeline MemoryStorage),
    Driver.Starts { id := 1 } [] fiveVoters d ∧ Steps Eq (fun _ => True) ⟨d, []⟩ p ∧
      ∃ b ∈ p.staged, ∃ e ∈ b.entries, ¬ p.raw.raft.raftLog.persisted < e.index := by
  have hrun : (playFrom (fun _ => True) { id := 1 } [] fiveVoters
      [appendFrom 2 1 0 0 [{ term := 1, index := 1 }], .ready, .advanceAppendAsync,
        appendFrom 3 2 0 0 [{ term := 2, index := 1 }], .ready, .advanceAppendAsync,
        appendFrom 2 3 0 0 [{ term := 1, index := 1 }, { term := 3, index := 2 }], .ready,
        .advanceAppendAsync, .onPersistReady 1]).map (fun p =>
          decide (∃ b ∈ p.staged, ∃ e ∈ b.entries, ¬ p.raw.raft.raftLog.persisted < e.index)) =
      some true := by decide +kernel
  obtain ⟨p, hp, heq⟩ := Option.map_eq_some_iff.mp hrun
  obtain ⟨d, hstart, hsteps⟩ := playFrom_steps Eq hp
  exact ⟨d, p, hstart, hsteps, of_decide_eq_true heq⟩

end Pipeline

end Raftz
