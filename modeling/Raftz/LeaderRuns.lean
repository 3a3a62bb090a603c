import Raftz.Campaign
import Raftz.Leadership

/-! # Properties of leaders along a run

A property of the tenure of leaders that also looks at what has been handed out:
`RunInv` collects what it has to satisfy, and `RunInv.run` says that every leader then
has it, in every run in which batches are reported promptly. -/

open Base

namespace Raftz

variable {σ : Type}

/-- The accounts of a node after entries have been handed out. -/
def Raft.backlogAfter (r : Raft σ) (es : List Entry) : UncommittedState :=
  if r.state = .leader then r.uncommittedState.maybeReduceUncommittedSize es else r.uncommittedState

variable [LawfulStorage σ]

namespace RawNode

variable {n : RawNode σ} {honest : Prop}

omit [LawfulStorage σ] in
theorem keeps_onRaft {α γ : Type} {f : Raft σ → γ} {x : RaftM σ α} (hx : Act.Keeps f x) :
    Act.Keeps (fun n : RawNode σ => f n.raft) (onRaft x) := by
  intro n
  unfold onRaft
  rw [Act.wp_zoom]
  exact hx n.raft

theorem wp_getLightReadySince_backlog (h : n.raft.Sound honest) (since : ℕ) :
    (getLightReadySince since).wp
      (fun l n' => n'.raft.uncommittedState = n.raft.backlogAfter l.committedEntries)
      (fun _ _ => True) n := by
  unfold getLightReadySince onRaft Raft.onLog
  rw [Act.wp_bind, Act.wp_get, Act.wp_bind, Act.wp_zoom, Act.wp_zoom]
  refine Act.wp_mono h.log.wp_nextEntriesSince ?_ fun _ _ _ => trivial
  rintro o l' ⟨rfl, -⟩
  unfold Raft.reduceUncommittedSize
  rw [Act.wp_bind, Act.wp_modify, Act.wp_bind, Act.wp_zoom, Act.wp_modify, Act.wp_bind]
  have hbacklog : (if n.raft.state = .leader then
      ({ ({ n.raft with messages := [] } : Raft σ) with
        uncommittedState := n.raft.uncommittedState.maybeReduceUncommittedSize (o.getD []) } : Raft σ)
      else { n.raft with messages := [] }).uncommittedState = n.raft.backlogAfter (o.getD []) := by
    unfold Raft.backlogAfter
    split <;> rfl
  unfold noteHandedOut
  split
  · rw [Act.wp_bind, Act.wp_assert]
    intro _
    rw [Act.wp_modify, Act.wp_pure]
    exact hbacklog
  · rw [Act.wp_modify, Act.wp_pure]
    exact hbacklog

theorem wp_getReady_backlog (h : n.raft.Sound honest) :
    getReady.wp (fun rd n' => n'.raft.uncommittedState = n.raft.backlogAfter rd.light.committedEntries)
      (fun _ _ => True) n := by
  have hs0 : ({ n.raft with readStates := [] } : Raft σ).Sound honest := { h with }
  unfold getReady
  rw [Act.wp_bind, Act.wp_get]
  dsimp only
  rw [Act.wp_bind, Act.wp_modify, Act.wp_bind]
  have hfrom : (handOutFrom n).wp
      (fun _ n' => n' = { n with raft := { n.raft with readStates := [] } }) (fun _ _ => True)
      { n with raft := { n.raft with readStates := [] } } := by
    unfold handOutFrom
    split
    · rw [Act.wp_bind, Act.wp_assert]
      intro _
      rw [Act.wp_bind, Act.wp_assert]
      exact fun _ => rfl
    · rfl
  refine Act.wp_mono hfrom ?_ fun _ _ _ => trivial
  rintro since n1 rfl
  rw [Act.wp_bind, Act.wp_catchErr]
  refine Act.wp_mono (wp_getLightReadySince_backlog (n := { n with
    raft := { n.raft with readStates := [] } }) hs0 since) ?_ ?_
  · intro light n2 h2
    rw [Act.wp_bind, Act.wp_modify, Act.wp_pure]
    exact h2
  · intro e n2 _
    rw [Act.wp_bind, Act.wp_modify, Act.wp_throw]
    trivial

theorem stands_onPersistReady (number : ℕ) :
    Act.Keeps (fun n : RawNode σ => n.raft.standing) (onPersistReady number) := by
  unfold onPersistReady
  refine .bind .get fun n => .bind (.modify fun _ => rfl) fun _ => .bind (.ite ?_ (.pure _)) fun _ =>
    .ite (.ignore ?_) (.pure _)
  · exact keeps_onRaft (Raft.stands_onPersistSnapshot _)
  · exact keeps_onRaft (Raft.stands_onPersistEntries _ _)

/-- The way of a batch that is reported back, step by step. -/
structure Traced (rd : Ready) (n : RawNode σ) (l : LightReady) (n' : RawNode σ) : Prop where
  result : ∃ n1 n2 n3, Reported rd n n1 ∧ Persisted n1 n2 ∧ n2.raft.standing = n1.raft.standing ∧
    LightSpec n2 n2.commitSinceIndex { l with commitIndex := none } n3 ∧
    n3.raft.uncommittedState = n2.raft.backlogAfter l.committedEntries ∧ ∃ hs, n' = { n3 with prevHs := hs }

theorem wp_advanceAppend_traced {rd : Ready} (h : n.raft.Sound False) (hb : Batch rd n) :
    (advanceAppend rd).wp (Traced rd n)
      (fun _ n' => ∃ n1, Reported rd n n1 ∧ Persisted n1 n' ∧ n'.raft.standing = n1.raft.standing) n := by
  unfold advanceAppend
  rw [Act.wp_bind]
  refine Act.wp_mono (wp_commitReady h.log hb.written hb.snapshot_term hb.record) ?_ fun _ _ hf => hf.elim
  intro _ n1 h1
  rw [Act.wp_bind, Act.wp_get, Act.wp_bind]
  refine Act.wp_mono (Act.wp_and (wp_onPersistReady (h1.sound h) _) (stands_onPersistReady _ n1)) ?_
    fun _ n2 h2 => ⟨n1, h1, h2.1, h2.2⟩
  rintro _ n2 ⟨h2, hstands⟩
  have hs2 : n2.raft.Sound False := by
    obtain ⟨r', recs, rfl, _, hs, _⟩ := h2.result
    exact hs
  rw [Act.wp_bind, Act.wp_get, Act.wp_bind]
  refine Act.wp_mono (Act.wp_and (wp_getLightReadySince hs2 _) (wp_getLightReadySince_backlog hs2 _)) ?_ ?_
  · rintro light n3 ⟨h3, hbacklog⟩
    rw [Act.wp_bind, Act.wp_get, Act.wp_bind, Act.wp_assert]
    intro _
    rw [Act.wp_bind, Act.wp_assert]
    intro _
    rw [Act.wp_bind, Act.wp_modify, Act.wp_bind, Act.wp_get, Act.wp_bind, Act.wp_assert]
    intro _
    rw [Act.wp_pure]
    exact ⟨n1, n2, n3, h1, h2, hstands, { h3 with }, hbacklog, _, rfl⟩
  · rintro _ n3 ⟨rfl, -⟩
    exact ⟨n1, h1, h2, hstands⟩

end RawNode

namespace Driver

/-- `I since` is a property of the tenure of leaders that have handed out everything up to `since`; `May`
says which configuration changes the application applies. -/
structure RunInv (σ : Type) [LawfulStorage σ] (I : ℕ → Tenure → Prop)
    (May : Driver σ → ConfChangeV2 → Prop) : Prop where
  inv : ∀ since, Raft.LeaderInv σ since (I since)
  applied : ∀ {since : ℕ} {r : Raft σ} (i : ℕ), r.raftLog.Covers since → Raft.Led (I since) r →
    (Raft.commitApply i).wp (fun _ => Raft.Led (I since)) (fun _ => Raft.Led (I since)) r
  reconfigured : ∀ {d : Driver σ} {cc : ConfChangeV2} {res : ConfChangeResult}, d.Sound → May d cc →
    changeConf d.raw.raft.progressTracker cc = .ok res → I d.raw.commitSinceIndex d.raw.raft.tenure →
      I d.raw.commitSinceIndex (d.raw.raft.installed res).tenure
  handed : ∀ {since start hi : ℕ} {t : Tenure} {es : List Entry}, I since t → t.log.Contiguous →
    start = since ∨ (since ≤ start ∧ start = t.log.base) →
    es <+: t.log.slice (max (start + 1) (t.log.base + 1)) (hi + 1) →
      I (RawNode.reached start es) { t with backlog := t.backlog.maybeReduceUncommittedSize es }
  compacted : ∀ {since i x : ℕ} {t : Tenure}, I since t → t.log.Contiguous → t.log.base ≤ i → i ≤ since →
    i ≤ t.log.last → I since { t with log := t.log.compact i x }

/-- Steps of a driver that reports its batches promptly and applies only such changes. -/
abbrev DutifulSteps (SameData : σ → σ → Prop) (May : Driver σ → ConfChangeV2 → Prop) :
    Driver σ → Driver σ → Prop :=
  Relation.ReflTransGen fun d d' => ∃ ev, Step SameData d ev d' ∧ Prompt d d' ∧
    ∀ cc, ev = .call (.applyConfChange cc) → May d cc

/-- Every leader has the property. -/
def Tenured (I : ℕ → Tenure → Prop) (d : Driver σ) : Prop :=
  Raft.Led (I d.raw.commitSinceIndex) d.raw.raft

theorem tenured_of_tenure {I : ℕ → Tenure → Prop} {d : Driver σ} (h : Tenured I d) {n' : RawNode σ}
    (hsince : n'.commitSinceIndex = d.raw.commitSinceIndex) (ht : n'.raft.tenure = d.raw.raft.tenure) :
    Raft.Led (I n'.commitSinceIndex) n'.raft := by
  intro hl
  have hs : n'.raft.state = d.raw.raft.state := congrArg Tenure.state ht
  rw [hsince, ht]
  exact h (hs.symm.trans hl)

/-- A report of a batch that the buffer still holds does not change the tenure. -/
theorem tenure_reported {n n' : RawNode σ} {rd : Ready} (hr : RawNode.Reported rd n n')
    (hheld : n.raft.raftLog.unstable.entries = rd.entries) :
    n'.raft.tenure = n.raft.tenure ∧ n'.commitSinceIndex = n.commitSinceIndex := by
  obtain ⟨l', hl', rfl⟩ := hr.result
  have hlog : l'.log = n.raft.raftLog.log := hl'.held hheld
  have happ : l'.applied = n.raft.raftLog.applied := by rw [hl'.same]
  refine ⟨?_, rfl⟩
  unfold Raft.tenure
  dsimp only
  rw [hlog, happ]

/-- The light batch of a step is taken from a node with the tenure it had before. -/
theorem tenure_advanceAppend {d : Driver σ} (hs : d.Sound) {rd : Ready} {l : LightReady} {raw : RawNode σ}
    (hp : d.pending = some rd) (hheld : d.raw.raft.raftLog.unstable.entries = rd.entries)
    (hr : RawNode.advanceAppend rd d.raw = .ok l raw) :
    ∃ (n : RawNode σ) (hi : ℕ), n.raft.raftLog.WF ∧ n.raft.tenure = d.raw.raft.tenure ∧
      n.commitSinceIndex = d.raw.commitSinceIndex ∧
      l.committedEntries <+: n.raft.raftLog.log.slice
        (max (n.commitSinceIndex + 1) (n.raft.raftLog.log.base + 1)) (hi + 1) ∧
      raw.commitSinceIndex = RawNode.reached n.commitSinceIndex l.committedEntries ∧
      raw.raft.tenure = { n.raft.tenure with backlog := n.raft.backlogAfter l.committedEntries } := by
  obtain ⟨n1, n2, n3, h1, h2, hstands, h3, hbacklog, hs', rfl⟩ :=
    (Act.wp_ok (RawNode.wp_advanceAppend_traced hs.raft (hs.batch rd hp)) hr).result
  obtain ⟨ht, hsince⟩ := tenure_reported h1 hheld
  obtain ⟨r', recs, heq, -, hsound, -⟩ := h2.result
  have hsince2 : n2.commitSinceIndex = d.raw.commitSinceIndex := by
    rw [heq]
    exact hsince
  have hwf2 : n2.raft.raftLog.WF := by
    rw [heq]
    exact hsound.log
  obtain ⟨u, hu⟩ := h3.raft
  obtain ⟨hi, -, hes⟩ := h3.entries
  have hu' : u = n2.raft.backlogAfter l.committedEntries := by
    rw [← hbacklog, hu]
  refine ⟨n2, hi, hwf2, (Raft.tenure_of_standing hstands).trans ht, hsince2, hes, h3.since, ?_⟩
  show n3.raft.tenure = _
  rw [hu, ← hu']
  rfl

/-- A batch hands out what follows the last hand-out or the pending snapshot. -/
theorem handOutIndex_start {n : RawNode σ} (h : n.commitSinceIndex ≤ n.handOutIndex) :
    n.handOutIndex = n.commitSinceIndex ∨
      (n.commitSinceIndex ≤ n.handOutIndex ∧ n.handOutIndex = n.raft.raftLog.log.base) := by
  cases hsnap : n.raft.raftLog.unstable.snapshot with
  | none => exact Or.inl (by unfold RawNode.handOutIndex; rw [hsnap])
  | some s =>
      refine Or.inr ⟨h, ?_⟩
      unfold RawNode.handOutIndex
      rw [hsnap, RaftLog.log_of_snapshot hsnap]

namespace RunInv

variable {I : ℕ → Tenure → Prop} {May : Driver σ → ConfChangeV2 → Prop} (hI : RunInv σ I May)
include hI

theorem call {d : Driver σ} (hs : d.Sound) (h : Tenured I d) {x : RaftCall} {r : Raft σ}
    (hmay : ∀ cc, x = .applyConfChange cc → May d cc) (hl : Outcome.Leaves (x.run d.raw.raft) r) :
    Raft.Led (I d.raw.commitSinceIndex) r := by
  cases x with
  | commitApply i => exact hl.of_wp (hI.applied i ⟨hs.raft.log, hs.since_le⟩ h)
  | applyConfChange cc =>
      refine hl.of_wp (Raft.wp_void ?_)
      unfold Raft.applyConfChange
      rw [Act.wp_bind, Act.wp_query]
      refine ⟨fun res hres => ?_, fun _ _ => h⟩
      rw [Act.wp_bind, Act.wp_modify, Act.wp_bind]
      have hled : Raft.Led (I d.raw.commitSinceIndex) (d.raw.raft.installed res) :=
        fun hlead => hI.reconfigured hs (hmay cc rfl) hres (h hlead)
      exact Act.wp_mono (Raft.led_stands (Raft.stands_postConfChange _) hled) (fun _ _ h => h.1)
        fun _ _ h => h.1
  | _ =>
      exact hl.of_wp ((hI.inv _).call hs.raft hs.since_le h (fun _ hx => by cases hx) fun _ hx => by cases hx)

/-- Handing out settles the accounts of what is handed out. -/
theorem handOut {n : RawNode σ} (n' : RawNode σ) (start : ℕ) {hi : ℕ} {es : List Entry} (hwf : n.raft.raftLog.WF)
    (h : Raft.Led (I n.commitSinceIndex) n.raft)
    (hstart : start = n.commitSinceIndex ∨ (n.commitSinceIndex ≤ start ∧ start = n.raft.raftLog.log.base))
    (hes : es <+: n.raft.raftLog.log.slice (max (start + 1) (n.raft.raftLog.log.base + 1)) (hi + 1))
    (hsince : n'.commitSinceIndex = RawNode.reached start es)
    (htenure : n'.raft.tenure = { n.raft.tenure with backlog := n.raft.backlogAfter es }) :
    Raft.Led (I n'.commitSinceIndex) n'.raft := by
  intro hl
  have hs : n'.raft.state = n.raft.state := congrArg Tenure.state htenure
  have hl : n.raft.state = .leader := hs.symm.trans hl
  have hafter : n.raft.backlogAfter es = n.raft.uncommittedState.maybeReduceUncommittedSize es := if_pos hl
  rw [hsince, htenure, hafter]
  exact hI.handed (t := n.raft.tenure) (h hl) hwf.contiguous hstart hes

theorem ready {d : Driver σ} (hs : d.Sound) (h : Tenured I d) {rd : Ready} {raw : RawNode σ} {store : σ}
    (hr : RawNode.getReady d.raw = .ok rd raw) (hw : rd.write raw.store = .ok store) :
    Raft.Led (I raw.commitSinceIndex) (raw.setStore store).raft := by
  have hspec := Act.wp_ok (RawNode.wp_getReady hs.raft) hr
  have hbacklog := Act.wp_ok (RawNode.wp_getReady_backlog hs.raft) hr
  obtain ⟨u, hu⟩ := hspec.raft
  obtain ⟨hi, -, hes⟩ := hspec.committed
  have hlog : raw.raft.raftLog = d.raw.raft.raftLog := by rw [hu]
  have hw' : rd.write d.raw.raft.raftLog.store = .ok store := by
    rw [← hlog]
    exact hw
  have hwrite := Ready.write_ok hs.raft.log hspec.entries hspec.snapshot hw'
  refine hI.handOut (raw.setStore store) d.raw.handOutIndex hs.raft.log h
    (handOutIndex_start hspec.since_le) hes hspec.since ?_
  have hlog' : (raw.setStore store).raft.raftLog.log = d.raw.raft.raftLog.log := by
    show ({ raw.raft.raftLog with store := store } : RaftLog σ).log = _
    rw [hlog]
    exact (hs.raft.log.setStore hwrite.1 hwrite.2).2
  have hu' : u = d.raw.raft.backlogAfter rd.light.committedEntries := by
    rw [← hbacklog, hu]
  have happlied : (raw.setStore store).raft.raftLog.applied = d.raw.raft.raftLog.applied := by
    show raw.raft.raftLog.applied = _
    rw [hlog]
  unfold Raft.tenure
  rw [hlog', happlied, ← hu']
  show Tenure.mk raw.raft.state _ _ raw.raft.progressTracker.conf raw.raft.uncommittedState
    raw.raft.pendingConfIndex = _
  rw [hu]

/-- One step of a driver. -/
theorem step {SameData : σ → σ → Prop} (hsame : Faithful SameData) {d d' : Driver σ} {ev : Event}
    (hstep : Step SameData d ev d') (hprompt : Prompt d d')
    (hmay : ∀ cc, ev = .call (.applyConfChange cc) → May d cc) (hs : d.Sound) (h : Tenured I d) :
    Tenured I d' := by
  cases hstep with
  | call x r hf hl => exact hI.call hs h (fun cc hx => hmay cc (by rw [hx])) hl
  | ready rd raw store hr hw =>
      have hready := hI.ready hs h hr hw
      exact hready
  | failedReady e raw hr =>
      have heq := Act.wp_err (RawNode.wp_getReady hs.raft) hr
      rw [heq]
      exact h
  | advanceAppendAsync rd raw hp hl =>
      have hb := hs.batch rd hp
      have hwp := RawNode.wp_commitReady hs.raft.log hb.written hb.snapshot_term hb.record
      have hrep := hl.of_wp (Act.wp_mono hwp (fun _ _ hr => hr) fun _ _ hf => hf.elim)
      obtain ⟨ht, hsince⟩ := tenure_reported hrep (hprompt rd hp rfl)
      exact tenured_of_tenure h hsince ht
  | onPersistReady number raw hl =>
      have hwp := Act.wp_and (RawNode.wp_onPersistReady hs.raft number)
        (RawNode.stands_onPersistReady number d.raw)
      obtain ⟨hpers, hstands⟩ := hl.of_wp hwp
      obtain ⟨r', recs, heq, -⟩ := hpers.result
      refine tenured_of_tenure h ?_ (Raft.tenure_of_standing hstands)
      rw [heq]
  | advanceAppend rd l raw hp hr =>
      obtain ⟨n, hi, hwf, ht, hsince, hes, hreached, htenure⟩ :=
        tenure_advanceAppend hs hp (hprompt rd hp rfl) hr
      exact hI.handOut raw n.commitSinceIndex hwf (tenured_of_tenure h hsince ht) (Or.inl rfl) hes
        hreached htenure
  | failedAdvance rd e raw hp hr =>
      obtain ⟨n1, h1, h2, hstands⟩ :=
        Act.wp_err (RawNode.wp_advanceAppend_traced hs.raft (hs.batch rd hp)) hr
      obtain ⟨ht, hsince⟩ := tenure_reported h1 (hprompt rd hp rfl)
      obtain ⟨r', recs, heq, -⟩ := h2.result
      refine tenured_of_tenure h ?_ ((Raft.tenure_of_standing hstands).trans ht)
      rw [heq]
      exact hsince
  | advanceApply raw hl =>
      have hwp : (RawNode.advanceApply : Act Err (RawNode σ) Unit).wp
          (fun _ n' => Raft.Led (I n'.commitSinceIndex) n'.raft)
          (fun _ n' => Raft.Led (I n'.commitSinceIndex) n'.raft) d.raw := by
        unfold RawNode.advanceApply RawNode.onRaft
        rw [Act.wp_bind, Act.wp_get, Act.wp_zoom]
        exact Act.wp_mono (hI.applied d.raw.commitSinceIndex ⟨hs.raft.log, hs.since_le⟩ h)
          (fun _ _ h' => h') fun _ _ h' => h'
      exact hl.of_wp hwp
  | compact snap rs store hp hi hd ht hst hc hw =>
      obtain ⟨-, hlog⟩ := compact_ok hs hi hd hw
      have hlog : (d.raw.setStore store).raft.raftLog.log = if d.raw.raft.raftLog.unstable.snapshot = none then
          d.raw.raft.raftLog.log.compact snap.metadata.index snap.metadata.term
        else d.raw.raft.raftLog.log := hlog
      obtain ⟨_, _, hlo, hhi⟩ := LawfulStorage.applyLocalSnapshot_ok hs.raft.log.valid hw
      split at hlog
      · rename_i hn
        have hbase : d.raw.raft.raftLog.log.base =
            (LawfulStorage.view d.raw.raft.raftLog.store).log.base := by
          rw [RaftLog.log_of_none hn]
          rfl
        have hlast := hs.since_le.trans hs.raft.log.committed_le
        intro hl
        have hcomp := hI.compacted (x := snap.metadata.term) (h hl) hs.raft.log.contiguous
          (show d.raw.raft.raftLog.log.base ≤ snap.metadata.index by omega) hi (hi.trans hlast)
        have htenure : (d.raw.setStore store).raft.tenure = { d.raw.raft.tenure with
            log := d.raw.raft.raftLog.log.compact snap.metadata.index snap.metadata.term } := by
          unfold Raft.tenure
          rw [hlog]
          rfl
        show I d.raw.commitSinceIndex (d.raw.setStore store).raft.tenure
        rw [htenure]
        exact hcomp
      · refine tenured_of_tenure h rfl ?_
        unfold Raft.tenure
        rw [hlog]
        rfl
  | drift store hd =>
      obtain ⟨hv, hview⟩ := hsame _ _ hd hs.raft.log.valid
      have hlog : (LawfulStorage.view store).log = d.raw.raft.raftLog.storeLog := by
        rw [hview]
        rfl
      refine tenured_of_tenure h rfl ?_
      have hlog' : (d.raw.setStore store).raft.raftLog.log = d.raw.raft.raftLog.log :=
        (hs.raft.log.driftStore hv hlog).2
      unfold Raft.tenure
      rw [hlog']
      rfl

/-- A whole run: every leader has the property. -/
theorem run {SameData : σ → σ → Prop} (hsame : Faithful SameData) {config : Config} {prng : List ℕ} {store : σ}
    (hv : LawfulStorage.Valid store)
    (happ : config.applied ≤ max (LawfulStorage.view store).log.base
      (Raft.loadedState config (LawfulStorage.view store)).commit)
    {d d' : Driver σ} (hstart : Starts config prng store d) (hrun : DutifulSteps SameData May d d') :
    d'.Sound ∧ Tenured I d' := by
  obtain ⟨hs, hboot, _⟩ := sound_of_starts hv happ hstart
  have hfollower : d.raw.raft.state = .follower := hboot.role
  induction hrun with
  | refl => exact ⟨hs, Raft.led_of_follower hfollower⟩
  | tail _ hstep ih =>
      obtain ⟨ev, hstep, hprompt, hmay⟩ := hstep
      exact ⟨hstep.sound hsame ih.1, hI.step hsame hstep hprompt hmay ih.1 ih.2⟩

end RunInv

/-! ### Scripts -/

/-- Does every step of a trace from `d` report promptly and apply only what may be applied? -/
def dutiful (may : Driver σ → ConfChangeV2 → Bool) : Driver σ → List (Event × Driver σ) → Bool
  | _, [] => true
  | d, (ev, d') :: trace =>
      (match d.pending, d'.pending with
        | some rd, none => decide (d.raw.raft.raftLog.unstable.entries = rd.entries)
        | _, _ => true) &&
      (match ev with
        | .call (.applyConfChange cc) => may d cc
        | _ => true) && dutiful may d' trace

/-- The state in which a dutiful script leaves a node that has just been started. -/
def playDutifully (may : Driver σ → ConfChangeV2 → Bool) (config : Config) (prng : List ℕ) (store : σ)
    (ops : List Op) : Option (Driver σ) :=
  match RawNode.init config prng store with
  | .ok raw _ => (play ops ⟨raw, none⟩).bind fun p => if dutiful may ⟨raw, none⟩ p.1 then some p.2 else none
  | _ => none

theorem dutifulSteps_of_run {SameData : σ → σ → Prop} {May : Driver σ → ConfChangeV2 → Prop}
    {may : Driver σ → ConfChangeV2 → Bool} (hmay : ∀ d cc, may d cc = true → May d cc) {d d' : Driver σ}
    {trace : List (Event × Driver σ)} (hrun : Run SameData d trace d') (h : dutiful may d trace = true) :
    DutifulSteps SameData May d d' := by
  induction hrun with
  | nil => exact .refl
  | @cons d d1 d2 ev trace hstep _ ih =>
      unfold dutiful at h
      rw [Bool.and_eq_true, Bool.and_eq_true] at h
      obtain ⟨⟨hprompt, hconf⟩, hrest⟩ := h
      refine .head ⟨ev, hstep, ?_, ?_⟩ (ih hrest)
      · intro rd hp hp'
        rw [hp, hp'] at hprompt
        exact of_decide_eq_true hprompt
      · rintro cc rfl
        exact hmay d cc hconf

theorem playDutifully_run (SameData : σ → σ → Prop) {May : Driver σ → ConfChangeV2 → Prop}
    {may : Driver σ → ConfChangeV2 → Bool} (hmay : ∀ d cc, may d cc = true → May d cc) {config : Config}
    {prng : List ℕ} {store : σ} {ops : List Op} {d' : Driver σ}
    (h : playDutifully may config prng store ops = some d') :
    ∃ d, Starts config prng store d ∧ DutifulSteps SameData May d d' := by
  unfold playDutifully at h
  split at h
  · rename_i raw _ hinit
    obtain ⟨p, hp, hif⟩ := Option.bind_eq_some_iff.mp h
    split at hif
    · rename_i hd
      cases hif
      exact ⟨⟨raw, none⟩, ⟨hinit, rfl⟩, dutifulSteps_of_run hmay (play_run hp) hd⟩
    · cases hif
  · cases h

end Driver

end Raftz
