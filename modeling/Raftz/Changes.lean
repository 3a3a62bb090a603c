import Raftz.Driver
import Raftz.Standing
import Raftz.TrackerSound

/-! # What the calls change

What a method of `raft.zig` or `raw_node.zig` does to the reads, to the commit index and to the
progress of the peers is a sequence of changes of a few kinds (`Raft.Change`).  What holds of a
node through each of them holds of it through every call (`changing_call`) and between any two
states of a run (`Driver.step_changes`). -/

open Base

namespace Raftz

variable {σ : Type}

/-! ### The commit index never falls -/

namespace RaftLog

/-- The computation may only commit further. -/
def Raises {α : Type} (x : Act Err (RaftLog σ) α) : Prop :=
  Act.Within (fun l l' => l.committed ≤ l'.committed) x

theorem Raises.of_keeps {α : Type} {x : Act Err (RaftLog σ) α} (hx : Act.Keeps committed x) : Raises x :=
  Act.Keeps.within (R := fun a b : ℕ => a ≤ b) le_refl hx

theorem Raises.bind {α β : Type} {x : Act Err (RaftLog σ) α} {g : α → Act Err (RaftLog σ) β} (hx : Raises x)
    (hg : ∀ a, Raises (g a)) : Raises (x >>= g) :=
  Act.Within.bind (R := fun l l' : RaftLog σ => l.committed ≤ l'.committed) (fun _ _ _ => le_trans) hx hg

theorem Raises.ite {α : Type} {c : Prop} [Decidable c] {x y : Act Err (RaftLog σ) α} (hx : Raises x)
    (hy : Raises y) : Raises (if c then x else y) :=
  Act.Within.ite (R := fun l l' : RaftLog σ => l.committed ≤ l'.committed) hx hy

variable [Storage σ]

theorem raises_commitTo (i : ℕ) : Raises (commitTo i : Act Err (RaftLog σ) Unit) := by
  intro l
  unfold commitTo
  rw [Act.wp_bind, Act.wp_get, Act.wp_ite]
  refine ⟨fun _ => le_rfl, fun _ => ?_⟩
  rw [Act.wp_ite]
  refine ⟨fun _ => le_rfl, fun hlt => ?_⟩
  rw [Act.wp_ite]
  refine ⟨fun _ => le_rfl, fun _ => ?_⟩
  show l.committed ≤ i
  omega

theorem raises_maybeCommit (i t : ℕ) : Raises (maybeCommit i t : Act Err (RaftLog σ) Bool) := by
  unfold maybeCommit
  refine .bind (.of_keeps .get) fun l => .ite ?_ (.of_keeps (.pure _))
  refine .bind (.of_keeps (.query _)) fun _ => .ite ?_ (.of_keeps (.pure _))
  exact .bind (raises_commitTo i) fun _ => .of_keeps (.pure _)

theorem raises_append (es : List Entry) : Raises (append es : Act Err (RaftLog σ) ℕ) := by
  unfold append
  split
  · exact fun _ => le_rfl
  · refine .of_keeps (.bind (.query _) fun _ => .bind .get fun _ => .bind (.orPanic _) fun _ => ?_)
    exact .bind (.modify fun _ => rfl) fun _ => fun _ => rfl

theorem raises_maybeAppend (i t c : ℕ) (es : List Entry) :
    Raises (maybeAppend i t c es : Act Err (RaftLog σ) MaybeAppendResult) := by
  have hconflict : ∀ conflict, Raises (appendConflict i conflict es : Act Err (RaftLog σ) Unit) := by
    intro conflict
    unfold appendConflict
    refine .bind (.of_keeps .get) fun l => .ite (.of_keeps (.pure _)) (.ite (.of_keeps (.throw _)) ?_)
    exact .bind (raises_append _) fun _ => .of_keeps (.pure _)
  unfold maybeAppend
  refine .bind (.of_keeps (.query _)) fun _ => .ite (.of_keeps (.pure _)) ?_
  refine .ite (.of_keeps (.throw _)) (.ite (.of_keeps (.throw _)) (.ite (.of_keeps (.throw _)) ?_))
  refine .bind (.of_keeps (.query _)) fun _ => .bind (hconflict _) fun _ => ?_
  exact .bind (raises_commitTo _) fun _ => .of_keeps (.pure _)

omit [Storage σ] in
theorem raises_restore (snap : Snapshot) : Raises (restore snap : Act Err (RaftLog σ) Unit) := by
  intro l
  unfold restore
  rw [Act.wp_bind, Act.wp_get, Act.wp_ite]
  refine ⟨fun _ => le_rfl, fun _ => ?_⟩
  rw [Act.wp_ite]
  refine ⟨fun _ => le_rfl, fun hlt => ?_⟩
  show l.committed ≤ snap.metadata.index
  omega

omit [Storage σ] in
theorem keeps_committed_appliedTo (i : ℕ) : Act.Keeps committed (appliedTo i : Act Err (RaftLog σ) Unit) := by
  unfold appliedTo
  exact .ite (.pure _) (.bind .get fun _ => .bind (.assert _) fun _ => .modify fun _ => rfl)

end RaftLog

/-! ### What is done to the progress of a peer -/

namespace Progress

/-- A step with the progress of a peer. -/
inductive Update : Progress → Progress → Prop
  | reset (p : Progress) (nextIdx : ℕ) : Update p (p.reset nextIdx)
  | becomeProbe (p : Progress) : Update p p.becomeProbe
  | becomeReplicate (p : Progress) : Update p p.becomeReplicate
  | becomeSnapshot (p : Progress) (snapshotIdx : ℕ) : Update p (p.becomeSnapshot snapshotIdx)
  | maybeUpdate (p : Progress) (n : ℕ) : Update p (p.maybeUpdate n).1
  | updateState {p q : Progress} {last : ℕ} (h : p.updateState last = some q) : Update p q
  | maybeDecTo (p : Progress) (rejected matchHint requestSnapshot : ℕ) :
      Update p (p.maybeDecTo rejected matchHint requestSnapshot).1
  | snapshotFailure (p : Progress) : Update p p.snapshotFailure
  | freeTo (p : Progress) (upTo : ℕ) : Update p { p with inflights := p.inflights.freeTo upTo }
  | freeFirstOne (p : Progress) : Update p { p with inflights := p.inflights.freeFirstOne }
  /-- The fields that are set one by one. -/
  | assign (p : Progress) (matched committedIndex pendingRequestSnapshot : ℕ) (paused recentActive : Bool) :
      Update p { p with
        matched := matched
        committedIndex := committedIndex
        pendingRequestSnapshot := pendingRequestSnapshot
        paused := paused
        recentActive := recentActive }

/-- Some steps with the progress of a peer. -/
abbrev Updates : Progress → Progress → Prop := Relation.ReflTransGen Update

/-- The progress of a peer that is followed from now on. -/
def New (p : Progress) : Prop :=
  ∃ nextIdx maxInflight, p = { Progress.init nextIdx maxInflight with recentActive := true }

theorem updates_updateCommitted (p : Progress) (i : ℕ) : p.Updates (p.updateCommitted i) := by
  unfold updateCommitted
  split
  · exact .single (.assign p p.matched i p.pendingRequestSnapshot p.paused p.recentActive)
  · exact .refl

theorem updates_recentActive (p : Progress) (b : Bool) : p.Updates { p with recentActive := b } :=
  .single (.assign p p.matched p.committedIndex p.pendingRequestSnapshot p.paused b)

/-- A response of the peer has come in. -/
theorem updates_heard (p : Progress) (commit : ℕ) :
    p.Updates ({ p with recentActive := true }.updateCommitted commit) :=
  (p.updates_recentActive true).trans (updates_updateCommitted _ _)

end Progress

/-- Every peer of the second tracker is one of the first, further on, or a new one. -/
def ProgressTracker.Tracks (t t' : ProgressTracker) : Prop :=
  ∀ id p', t'.get id = some p' → ∃ p, (t.get id = some p ∨ p.New) ∧ p.Updates p'

namespace ProgressTracker.Tracks

variable {t t' t'' : ProgressTracker}

theorem of_progress (h : t'.progress = t.progress) : t.Tracks t' := by
  intro id p' hp'
  unfold get at hp'
  rw [h] at hp'
  exact ⟨p', .inl hp', .refl⟩

theorem refl (t : ProgressTracker) : t.Tracks t := of_progress rfl

theorem trans (h : t.Tracks t') (h' : t'.Tracks t'') : t.Tracks t'' := by
  intro id p'' hp''
  obtain ⟨p', hp', hu'⟩ := h' id p'' hp''
  rcases hp' with hp' | hnew
  · obtain ⟨p, hp, hu⟩ := h id p' hp'
    exact ⟨p, hp, hu.trans hu'⟩
  · exact ⟨p', .inr hnew, hu'⟩

/-- The progress of one peer is taken further. -/
theorem set {id : ℕ} {p q : Progress} (hq : t.get id = some q) (hu : q.Updates p) : t.Tracks (t.set id p) := by
  intro j p' hp'
  rw [get_set] at hp'
  split at hp'
  · rename_i hj
    cases hp'
    exact ⟨q, .inl (hj ▸ hq), hu⟩
  · exact ⟨p', .inl hp', .refl⟩

/-- The progress of all peers is taken further. -/
theorem mapVals {f : ℕ → Progress → Progress} (hf : ∀ (id : ℕ) (p : Progress), p.Updates (f id p))
    (h : t'.progress = Base.mapVals f t.progress) : t.Tracks t' := by
  intro id p' hp'
  unfold get at hp'
  rw [h, lookup_mapVals, Option.map_eq_some_iff] at hp'
  obtain ⟨p, hp, rfl⟩ := hp'
  exact ⟨p, .inl hp, hf id p⟩

theorem applyConf (t : ProgressTracker) (conf : TrackerConfiguration) (changes : List MapChangeEntry)
    (nextIdx : ℕ) : t.Tracks (t.applyConf conf changes nextIdx) :=
  applyConf_forall (P := fun id p' => ∃ p, (t.get id = some p ∨ p.New) ∧ p.Updates p')
    (fun _ p hp => ⟨p, .inl hp, .refl⟩) conf changes fun _ => ⟨_, .inr ⟨nextIdx, t.maxInflight, rfl⟩, .refl⟩

/-- A restored tracker has only new peers. -/
theorem restore {u : ProgressTracker} {nextIdx : ℕ} {cs : ConfState} (hu : ConfRestore.restore u nextIdx cs = .ok t') :
    t.Tracks t' :=
  (ConfRestore.restore_forall (P := fun id p' => ∃ p, (t.get id = some p ∨ p.New) ∧ p.Updates p')
    (fun _ => ⟨_, .inr ⟨nextIdx, u.maxInflight, rfl⟩, .refl⟩) hu).1

/-- What holds of new peers and is kept by every step holds on. -/
theorem forall_get {P : Progress → Prop} (h : t.Tracks t') (hnew : ∀ p : Progress, p.New → P p)
    (hstep : ∀ p q : Progress, p.Update q → P p → P q) (ht : ∀ id p, t.get id = some p → P p) :
    ∀ id p, t'.get id = some p → P p := by
  intro id p' hp'
  obtain ⟨p, hp, hu⟩ := h id p' hp'
  have hP : P p := hp.elim (ht id p) (hnew p)
  clear hp hp'
  induction hu with
  | refl => exact hP
  | tail _ hlast ih => exact hstep _ _ hlast ih

end ProgressTracker.Tracks

/-! ### What is done to a node -/

namespace Raft

/-- What a method does to the reads, the commit index and the peers of a node. -/
inductive Change : Raft σ → Raft σ → Prop
  /-- The reads stay; the log may commit further and the peers may be taken further. -/
  | keep {r r' : Raft σ} (hreads : r'.readOnly = r.readOnly) (hcommitted : r.raftLog.committed ≤ r'.raftLog.committed)
      (htracks : r.progressTracker.Tracks r'.progressTracker) : Change r r'
  /-- A change of role forgets the reads. -/
  | forget {r r' : Raft σ} (hreads : r'.readOnly = ReadOnly.init r.readOnly.option)
      (hcommitted : r'.raftLog.committed = r.raftLog.committed)
      (htracks : r.progressTracker.Tracks r'.progressTracker) : Change r r'
  | register (r : Raft σ) (m : Message) :
      Change r { r with readOnly := r.readOnly.addRequest r.raftLog.committed m r.id }
  | acknowledge (r : Raft σ) (sender : ℕ) (ctx : Bytes) :
      Change r { r with readOnly := (r.readOnly.recvACK sender ctx).1 }
  | release {r : Raft σ} {ctx : Bytes} {ro : ReadOnly} {statuses : List ReadIndexStatus}
      (h : r.readOnly.advance ctx = .ok (ro, statuses)) : Change r { r with readOnly := ro }

/-- Any number of changes. -/
abbrev Changes : Raft σ → Raft σ → Prop := Relation.ReflTransGen Change

/-- The peers of a node are tracked through all its changes. -/
theorem Changes.tracks {r r' : Raft σ} (h : Changes r r') : r.progressTracker.Tracks r'.progressTracker := by
  induction h with
  | refl => exact .refl _
  | tail _ hlast ih =>
      refine ih.trans ?_
      cases hlast with
      | keep _ _ htracks => exact htracks
      | forget _ _ htracks => exact htracks
      | register => exact .refl _
      | acknowledge => exact .refl _
      | release => exact .refl _

/-- What only some methods change. -/
def seen (r : Raft σ) : ReadOnly × ℕ × ProgressMap :=
  (r.readOnly, r.raftLog.committed, r.progressTracker.progress)

theorem changes_of_seen {r r' : Raft σ} (h : r'.seen = r.seen) : Changes r r' := by
  obtain ⟨h1, h2⟩ := Prod.ext_iff.mp h
  obtain ⟨h2, h3⟩ := Prod.ext_iff.mp h2
  exact .single (.keep h1 (le_of_eq h2.symm) (.of_progress h3))

/-- `x` takes a node only to nodes that some changes lead to. -/
def Changing {α : Type} (x : RaftM σ α) : Prop := Act.Within Changes x

/-- `x` does so from the node `r` on. -/
def ChangingFrom {α : Type} (r : Raft σ) (x : RaftM σ α) : Prop :=
  x.wp (fun _ r' => Changes r r') (fun _ r' => Changes r r') r

namespace Changing

theorem of_keeps {α : Type} {x : RaftM σ α} (hx : Act.Keeps seen x) : Changing x := fun r =>
  Act.wp_mono (hx r) (fun _ _ h => changes_of_seen h) fun _ _ h => changes_of_seen h

theorem bind {α β : Type} {x : RaftM σ α} {g : α → RaftM σ β} (hx : Changing x)
    (hg : ∀ a, Changing (g a)) : Changing (x >>= g) := Act.Within.bind (fun _ _ _ => .trans) hx hg

theorem ite {α : Type} {c : Prop} [Decidable c] {x y : RaftM σ α} (hx : Changing x) (hy : Changing y) :
    Changing (if c then x else y) := Act.Within.ite hx hy

theorem when {c : Prop} [Decidable c] {x : RaftM σ Unit} (hx : Changing x) : Changing (Act.when c x) :=
  .ite hx (of_keeps (.pure ()))

theorem ignore {α : Type} {x : RaftM σ α} (hx : Changing x) : Changing (Act.ignore x) := Act.Within.ignore hx

theorem attempt {α : Type} {x : RaftM σ α} (hx : Changing x) : Changing (Act.attempt x) := Act.Within.attempt hx

theorem catchErr {α : Type} {x : RaftM σ α} {g : Err → RaftM σ α} (hx : Changing x) (hg : ∀ e, Changing (g e)) :
    Changing (Act.catchErr x g) := Act.Within.catchErr (fun _ _ _ => .trans) hx hg

theorem each {α : Type} {g : α → RaftM σ Unit} (l : List α) (hg : ∀ a, Changing (g a)) :
    Changing (Act.each l g) := Act.Within.each (fun _ => .refl) (fun _ _ _ => .trans) l hg

theorem pure {α : Type} (a : α) : Changing (Pure.pure a : RaftM σ α) := of_keeps (.pure a)

theorem get : Changing (Act.get : RaftM σ (Raft σ)) := of_keeps .get

theorem throw {α : Type} (e : Err) : Changing (Act.throw e : RaftM σ α) := of_keeps (.throw e)

theorem panic {α : Type} : Changing (Act.panic : RaftM σ α) := of_keeps .panic

theorem query {α : Type} (q : Raft σ → Except Err α) : Changing (Act.query q) := of_keeps (.query q)

theorem assert (c : Bool) : Changing (Act.assert c : RaftM σ Unit) := of_keeps (.assert c)

theorem orPanic {α : Type} (o : Option α) : Changing (Act.orPanic o : RaftM σ α) := of_keeps (.orPanic o)

theorem modify {g : Raft σ → Raft σ} (hg : ∀ r, (g r).seen = r.seen) : Changing (Act.modify g) :=
  of_keeps (.modify hg)

theorem onLog {α : Type} {x : Act Err (RaftLog σ) α} (hx : RaftLog.Raises x) : Changing (Raft.onLog x) := by
  intro r
  unfold Raft.onLog
  rw [Act.wp_zoom]
  exact Act.wp_mono (hx r.raftLog) (fun _ _ h => .single (.keep rfl h (.refl _)))
    fun _ _ h => .single (.keep rfl h (.refl _))

/-- What the node is read for first is known of the node it runs on. -/
theorem of_get {α : Type} {f : Raft σ → RaftM σ α} (hf : ∀ r, ChangingFrom r (f r)) : Changing (Act.get >>= f) :=
  fun r => hf r

theorem here {α : Type} {r : Raft σ} {x : RaftM σ α} (hx : Changing x) : ChangingFrom r x := hx r

end Changing

namespace ChangingFrom

variable {r r' : Raft σ}

theorem after {α : Type} {x : RaftM σ α} (h : Changes r r') (hx : Changing x) :
    x.wp (fun _ r'' => Changes r r'') (fun _ r'' => Changes r r'') r' :=
  Act.Within.wp_trans (fun _ _ _ => .trans) h (hx r')

theorem bind {α β : Type} {x : RaftM σ α} {g : α → RaftM σ β} (hx : ChangingFrom r x) (hg : ∀ a, Changing (g a)) :
    ChangingFrom r (x >>= g) := by
  unfold ChangingFrom
  rw [Act.wp_bind]
  exact Act.wp_mono hx (fun a _ h => after h (hg a)) fun _ _ h => h

theorem ite {α : Type} {c : Prop} [Decidable c] {x y : RaftM σ α} (hx : ChangingFrom r x) (hy : ChangingFrom r y) :
    ChangingFrom r (if c then x else y) := by
  by_cases hc : c
  · rwa [if_pos hc]
  · rwa [if_neg hc]

theorem of_get {α : Type} {f : Raft σ → RaftM σ α} (hf : ChangingFrom r (f r)) : ChangingFrom r (Act.get >>= f) := hf

theorem assert {α : Type} {c : Bool} {g : Unit → RaftM σ α} (hg : c = true → ChangingFrom r (g ())) :
    ChangingFrom r (Act.assert c >>= g) := by
  unfold ChangingFrom
  rw [Act.wp_bind, Act.wp_assert]
  exact hg

theorem orPanic {α β : Type} {o : Option α} {g : α → RaftM σ β} (hg : ∀ a, o = some a → ChangingFrom r (g a)) :
    ChangingFrom r (Act.orPanic o >>= g) := by
  unfold ChangingFrom
  rw [Act.wp_bind, Act.wp_orPanic]
  exact hg

/-- The log is read, and what comes of it goes on from there. -/
theorem attempt_onLog {α β : Type} {x : Act Err (RaftLog σ) α} {g : Except Err α → RaftM σ β}
    (hx : Act.Keeps RaftLog.committed x)
    (hg : ∀ got (l : RaftLog σ), l.committed = r.raftLog.committed → ChangingFrom { r with raftLog := l } (g got)) :
    ChangingFrom r (Act.attempt (Raft.onLog x) >>= g) := by
  unfold ChangingFrom Raft.onLog
  rw [Act.wp_bind, Act.wp_attempt, Act.wp_zoom]
  have hafter : ∀ got (l : RaftLog σ), l.committed = r.raftLog.committed →
      (g got).wp (fun _ r' => Changes r r') (fun _ r' => Changes r r') { r with raftLog := l } := fun got l hl =>
    Act.Within.wp_trans (fun _ _ _ => .trans) (.single (.keep rfl (le_of_eq hl.symm) (.refl _))) (hg got l hl)
  exact Act.wp_mono (hx r.raftLog) (fun a l hl => hafter (.ok a) l hl) fun e l hl => hafter (.error e) l hl

/-- The progress of a peer is taken further. -/
theorem setProgress {id : ℕ} {p q : Progress} (hq : r.progressTracker.get id = some q) (hu : q.Updates p) :
    ChangingFrom r (Raft.setProgress id p : RaftM σ Unit) :=
  .single (.keep rfl le_rfl (.set hq hu))

end ChangingFrom


/-! ### What is done to the queue -/

theorem changing_addRequest (m : Message) : Changing (Act.modify (fun r : Raft σ =>
    { r with readOnly := r.readOnly.addRequest r.raftLog.committed m r.id })) :=
  fun r => .single (.register r m)

theorem changing_send (m : Message) : Changing (send m : RaftM σ Unit) :=
  .bind .get fun _ => .bind (.orPanic _) fun _ => .modify fun _ => rfl

theorem changing_answerRead (req : Message) (index : ℕ) : Changing (answerRead req index : RaftM σ Unit) := by
  unfold answerRead handleReadyReadIndex
  refine .bind (.bind .get fun r => .ite (.bind (.modify fun _ => rfl) fun _ => .pure _) (.pure _))
    fun resp => ?_
  split
  · exact .pure _
  · exact changing_send _

theorem changing_releaseReads (ctx : Bytes) : Changing (releaseReads ctx : RaftM σ Unit) := by
  refine .of_get fun r => ?_
  split
  · exact (Changing.throw _).here
  · rename_i ro statuses hadv
    exact .bind (.single (.release hadv)) fun _ => .each statuses fun st => changing_answerRead st.req st.index

theorem changing_ackRead (sender : ℕ) (ctx : Bytes) : Changing (ackRead sender ctx : RaftM σ Unit) := by
  refine Changing.of_get fun r => .bind (.single (.acknowledge r sender ctx)) fun _ => ?_
  split
  · exact .pure _
  · exact .ite (changing_releaseReads ctx) (.pure _)

/-! ### Sending -/

theorem changing_broadcastHeartbeatWithCtx (ctx : Option Bytes) :
    Changing (broadcastHeartbeatWithCtx ctx : RaftM σ Unit) := by
  unfold broadcastHeartbeatWithCtx sendHeartbeat
  refine .bind .get fun r => .each _ fun id => .ite (.pure _) (.bind .get fun r' => ?_)
  split
  · exact .pure _
  · exact .bind .get fun _ => changing_send _

theorem changing_broadcastHeartbeat : Changing (broadcastHeartbeat : RaftM σ Unit) :=
  .bind .get fun _ => changing_broadcastHeartbeatWithCtx _

theorem changing_serveReadIndex (m : Message) : Changing (serveReadIndex m : RaftM σ Unit) := by
  unfold serveReadIndex
  refine .bind .get fun r => .ite (changing_answerRead _ _) ?_
  split
  · split
    · exact .pure _
    · exact .bind (changing_addRequest m) fun _ => changing_broadcastHeartbeatWithCtx _
  · exact changing_answerRead _ _

variable [Storage σ]

theorem changing_sendSnapshot {r : Raft σ} {dest : ℕ} {pr : Progress} (hpr : r.progressTracker.get dest = some pr) :
    ChangingFrom r (sendSnapshot dest pr) := by
  refine .ite (Changing.pure _).here (.of_get ?_)
  split
  · exact (Changing.pure _).here
  · exact (Changing.throw _).here
  · exact .assert fun _ => .bind (.setProgress hpr (.single (.becomeSnapshot pr _))) fun _ =>
      .bind (changing_send _) fun _ => .pure _

omit [Storage σ] in
/-- Batching that refuses leaves the node as it was. -/
theorem changing_tryBatching {r : Raft σ} {dest : ℕ} {pr : Progress} (hpr : r.progressTracker.get dest = some pr)
    (es : List Entry) : (tryBatching dest pr es).wp (fun b r' => Changes r r' ∧ (b = false → r' = r))
      (fun _ r' => Changes r r') r := by
  unfold tryBatching
  rw [Act.wp_bind, Act.wp_get]
  split
  · exact ⟨.refl, fun _ => rfl⟩
  · dsimp only
    split
    · exact ⟨changes_of_seen rfl, fun h => by cases h⟩
    · rw [Act.wp_ite]
      refine ⟨fun _ => ⟨.refl, fun _ => rfl⟩, fun _ => ?_⟩
      rw [Act.wp_bind, Act.wp_orPanic]
      exact fun q hq => ⟨.single (.keep rfl le_rfl (.set hpr (.single (.updateState hq)))), fun h => by cases h⟩

omit [Storage σ] in
theorem changing_sendEntries {r : Raft σ} {dest : ℕ} {pr : Progress} (hpr : r.progressTracker.get dest = some pr)
    (t : ℕ) (es : List Entry) : ChangingFrom r (sendEntries dest pr t es) := by
  unfold sendEntries noteSent
  refine .of_get (.bind ?_ fun _ => changing_send _)
  split
  · exact (Changing.pure _).here
  · exact .orPanic fun q hq => .setProgress hpr (.single (.updateState hq))

theorem changing_maybeSendAppend (dest : ℕ) (allowEmpty : Bool) :
    Changing (maybeSendAppend dest allowEmpty : RaftM σ Bool) := by
  refine .of_get fun r => ?_
  split
  · exact (Changing.pure _).here
  · rename_i pr hpr
    refine .ite (Changing.pure _).here (.ite (changing_sendSnapshot hpr) ?_)
    refine .attempt_onLog (RaftLog.keeps_getEntries _ _ _) fun got l hl => ?_
    have hpr' : ({ r with raftLog := l } : Raft σ).progressTracker.get dest = some pr := hpr
    split
    · exact (Changing.pure _).here
    · exact changing_sendSnapshot hpr'
    · exact (Changing.throw _).here
    · refine .ite (Changing.pure _).here ?_
      have hsend : ∀ t es, ChangingFrom ({ r with raftLog := l } : Raft σ)
          (sendEntries dest pr t es >>= fun _ => Pure.pure true) :=
        fun t es => .bind (changing_sendEntries hpr' t es) fun _ => .pure _
      split
      · exact changing_sendSnapshot hpr'
      · split
        · unfold ChangingFrom
          rw [Act.wp_bind]
          refine Act.wp_mono (changing_tryBatching hpr' _) (fun batched r' h => ?_) fun _ _ h => h
          cases batched with
          | true => exact h.1
          | false =>
              rw [h.2 rfl]
              exact hsend _ _
        · exact hsend _ _

theorem changing_sendAppend (dest : ℕ) : Changing (sendAppend dest : RaftM σ Unit) :=
  .bind (changing_maybeSendAppend _ _) fun _ => .pure _

theorem changing_sendAppendAggressively (dest : ℕ) :
    Changing (sendAppendAggressively dest : RaftM σ Unit) := by
  have hloop : ∀ fuel, Changing (sendAppendLoop dest fuel : RaftM σ Unit) := by
    intro fuel
    induction fuel with
    | zero => exact .panic
    | succ fuel ih =>
        unfold sendAppendLoop
        exact .bind (changing_maybeSendAppend _ _) fun _ => .ite ih (.pure _)
  unfold sendAppendAggressively
  refine .bind .get fun r => ?_
  split
  · exact .pure _
  · exact hloop _

theorem changing_broadcastAppend : Changing (broadcastAppend : RaftM σ Unit) := by
  unfold broadcastAppend
  exact .bind .get fun r => .each r.progressTracker.peerIds fun id => .ite (.pure _) (changing_sendAppend _)

theorem changing_maybeCommit : Changing (maybeCommit : RaftM σ Bool) := by
  unfold maybeCommit releasePendingReadIndexMessages
  refine .bind .get fun r => .bind (.onLog (RaftLog.raises_maybeCommit _ _)) fun advanced => .ite ?_ (.pure _)
  refine .bind (fun r' => ?_) fun _ => .bind (.bind .get fun r' => ?_) fun _ => .pure _
  · rw [Act.wp_modify]
    split
    · rename_i p hp
      exact .single (.keep rfl le_rfl (.set hp (p.updates_updateCommitted _)))
    · exact .refl
  · exact .ite (.pure _) (.ite (.pure _) (.bind (.modify fun _ => rfl) fun _ => .each _ changing_serveReadIndex))

theorem changing_postConfChange (cs : ConfState) : Changing (postConfChange cs : RaftM σ Unit) := by
  unfold postConfChange sendAfterConfChange ackOwnRead
  refine .bind (.modify fun _ => rfl) fun _ => .bind .get fun r => .ite (.pure _) (.ite (.pure _) ?_)
  refine .bind (.catchErr changing_maybeCommit fun _ => .pure _) fun committed => .bind ?_ fun _ =>
    .bind ?_ fun _ => .modify fun s => ?_
  · exact .bind .get fun r' => .ite (.ignore changing_broadcastAppend)
      (.each _ fun _ => .ite (.pure _) (.ignore (changing_maybeSendAppend _ _)))
  · refine .bind .get fun r' => ?_
    split
    · exact .pure _
    · exact .ignore (changing_ackRead _ _)
  · split
    · split <;> rfl
    · rfl

/-! ### Roles -/

theorem tracks_reset (r : Raft σ) (t : ℕ) : r.progressTracker.Tracks (r.reset t).progressTracker := by
  intro id p' hp'
  rw [reset_get] at hp'
  split at hp'
  · obtain ⟨p, hp, rfl⟩ := Option.map_eq_some_iff.mp hp'
    exact ⟨p, .inl hp, .tail (.single (.reset p (r.raftLog.lastIndex + 1))) (.assign _ _ _ _ _ _)⟩
  · obtain ⟨p, hp, rfl⟩ := Option.map_eq_some_iff.mp hp'
    exact ⟨p, .inl hp, .single (.reset p _)⟩

theorem forget_reset (r : Raft σ) (t : ℕ) : (r.reset t).readOnly = ReadOnly.init r.readOnly.option ∧
    (r.reset t).raftLog = r.raftLog := by
  unfold reset
  by_cases ht : r.term = t
  · simp only [ne_eq, ht, not_true_eq_false, if_false]
    exact ⟨rfl, rfl⟩
  · simp only [ne_eq, ht, not_false_eq_true, if_true]
    exact ⟨rfl, rfl⟩

/-- A change of role. -/
theorem changing_reset {g : Raft σ → Raft σ} {t : Raft σ → ℕ}
    (hreads : ∀ r : Raft σ, (g r).readOnly = (r.reset (t r)).readOnly)
    (hcommitted : ∀ r : Raft σ, (g r).raftLog.committed = (r.reset (t r)).raftLog.committed)
    (htracks : ∀ r : Raft σ, (r.reset (t r)).progressTracker.Tracks (g r).progressTracker) :
    Changing (Act.modify g) := fun r =>
  .single (.forget ((hreads r).trans (forget_reset r (t r)).1)
    ((hcommitted r).trans (congrArg RaftLog.committed (forget_reset r (t r)).2))
    ((tracks_reset r (t r)).trans (htracks r)))

theorem changing_becomeFollower (t l : ℕ) : Changing (becomeFollower t l : RaftM σ Unit) :=
  changing_reset (t := fun _ => t) (fun _ => rfl) (fun _ => rfl) fun _ => .refl _

theorem changing_takeRole (t : CampaignType) : Changing (takeRole t : RaftM σ Unit) := by
  unfold takeRole becomePreCandidate becomeCandidate
  refine .ite (.bind .get fun _ => .bind (.assert _) fun _ => .modify fun _ => rfl) ?_
  exact .bind .get fun _ => .bind (.assert _) fun _ => changing_reset (t := fun r => r.term + 1) (fun _ => rfl)
    (fun _ => rfl) fun _ => .refl _

theorem changing_appendEntry (es : List Entry) : Changing (appendEntry es : RaftM σ Bool) := by
  unfold appendEntry
  refine .ite (.pure _) (.bind .get fun r => .ite (.throw _) ?_)
  split
  · exact .pure _
  · exact .bind (.modify fun _ => rfl) fun _ => .bind (.catchErr (.onLog (RaftLog.raises_append _)) fun _ =>
      .bind (.modify fun _ => rfl) fun _ => .throw _) fun _ => .pure _

theorem changing_becomeLeader : Changing (becomeLeader : RaftM σ Unit) := by
  unfold becomeLeader
  refine .bind .get fun r => .bind (.assert _) fun _ => .bind ?_ fun _ =>
    .bind (changing_appendEntry _) fun _ => .assert _
  refine changing_reset (t := fun r => r.term) (fun _ => rfl)
    (fun _ => rfl) fun r => ?_
  dsimp only
  split
  · rename_i p hp
    exact .set hp (.single (.becomeReplicate p))
  · exact .refl _

theorem changing_pollWith {elect : RaftM σ Unit} (he : Changing elect) (v : ℕ) (b : Bool) :
    Changing (pollWith elect v b) := by
  unfold pollWith
  refine .bind (.modify fun _ => rfl) fun _ => .bind .get fun r => ?_
  split
  · exact .pure _
  · exact .bind (changing_becomeFollower _ _) fun _ => .pure _
  · refine .ite (.bind (.ignore he) fun _ => .pure _) ?_
    exact .bind (.ignore changing_becomeLeader) fun _ => .bind (.ignore changing_broadcastAppend) fun _ => .pure _

theorem changing_campaignWith {poll : ℕ → Bool → RaftM σ VoteResult} (hp : ∀ v b, Changing (poll v b))
    (t : CampaignType) : Changing (campaignWith poll t) := by
  unfold campaignWith requestVote
  refine .bind (changing_takeRole t) fun _ => .bind .get fun r => .bind (hp _ _) fun res => .ite (.pure _) ?_
  exact .bind (.query _) fun _ => .bind .get fun _ => .each _ fun _ => .bind .get fun _ =>
    .ite (.pure _) (changing_send _)

theorem changing_poll (v : ℕ) (b : Bool) : Changing (poll v b : RaftM σ VoteResult) :=
  changing_pollWith (changing_campaignWith (fun _ _ => changing_pollWith (.pure _) _ _) _) v b

theorem changing_campaign (t : CampaignType) : Changing (campaign t : RaftM σ Unit) :=
  changing_campaignWith changing_poll t

theorem changing_hasUnappliedConfChanges (lo hi : ℕ) :
    Changing (hasUnappliedConfChanges lo hi : RaftM σ Bool) := by
  unfold hasUnappliedConfChanges
  exact .bind .get fun r => .ite (.pure _)
    (.catchErr (.onLog (.of_keeps (RaftLog.keeps_scan _ _ _ _ _ _))) fun _ => .pure _)

theorem changing_hup (transfer : Bool) : Changing (hup transfer : RaftM σ Unit) := by
  unfold hup
  refine .bind .get fun r => .ite (.pure _) (.bind (changing_hasUnappliedConfChanges _ _) fun _ => ?_)
  exact .ite (.pure _) (.ite (.ignore (changing_campaign _)) (.ite (.ignore (changing_campaign _))
    (.ignore (changing_campaign _))))

/-! ### Handlers -/

theorem changing_maybeCommitByVote (m : Message) : Changing (maybeCommitByVote m : RaftM σ Unit) := by
  unfold maybeCommitByVote
  refine .bind .get fun r => .ite (.pure _) (.ite (.pure _) ?_)
  refine .bind (.onLog (RaftLog.raises_maybeCommit _ _)) fun _ => .ite (.pure _) (.bind .get fun r' => ?_)
  exact .ite (.pure _) (.bind (changing_hasUnappliedConfChanges _ _) fun _ =>
    .ite (changing_becomeFollower _ _) (.pure _))

theorem changing_handleVoteRequest (m : Message) : Changing (handleVoteRequest m : RaftM σ Unit) := by
  unfold handleVoteRequest
  refine .bind .get fun r => .bind (.query _) fun _ => .ite ?_ ?_
  · exact .bind (changing_send _) fun _ => .ite (.modify fun _ => rfl) (.pure _)
  · exact .bind (.query _) fun _ => .bind (changing_send _) fun _ => changing_maybeCommitByVote m

theorem changing_restoreSnapshot (snap : Snapshot) : Changing (restoreSnapshot snap : RaftM σ Bool) := by
  unfold restoreSnapshot
  refine .bind .get fun r => .ite (.pure _) (.ite (.pure _) (.ite (.pure _) (.ite (.pure _) ?_)))
  refine .ite (.bind (changing_becomeFollower _ _) fun _ => .pure _) (.ite (.pure _) (.ite (.pure _) ?_))
  refine .ite (.bind (.ignore (.onLog (RaftLog.raises_commitTo _))) fun _ => .pure _) ?_
  split
  · exact .throw _
  · exact .pure _
  · rename_i tracker htracker
    refine .bind (.attempt (.onLog (RaftLog.raises_restore _))) fun restored => ?_
    split
    · exact .throw _
    · exact .pure _
    · refine .bind (fun r => .single (.keep rfl le_rfl (.restore htracker))) fun _ => ?_
      exact .bind (changing_postConfChange _) fun _ => .bind (.modify fun _ => rfl) fun _ => .pure _

theorem changing_sendRequestSnapshot : Changing (sendRequestSnapshot : RaftM σ Unit) :=
  .bind .get fun _ => changing_send _

theorem changing_requestSnapshot : Changing (requestSnapshot : RaftM σ Unit) := by
  unfold requestSnapshot
  exact .bind .get fun r => .ite (.throw _) (.ite (.bind (.modify fun _ => rfl) fun _ =>
    changing_sendRequestSnapshot) (.throw _))

theorem changing_handleAppendEntries (m : Message) : Changing (handleAppendEntries m : RaftM σ Unit) := by
  unfold handleAppendEntries
  refine .bind .get fun r => .ite changing_sendRequestSnapshot (.ite (changing_send _) ?_)
  refine .bind (.onLog (RaftLog.raises_maybeAppend _ _ _ _)) fun result => .bind .get fun r' => .ite (changing_send _) ?_
  exact .bind (.query _) fun _ => changing_send _

theorem changing_handleHeartbeat (m : Message) : Changing (handleHeartbeat m : RaftM σ Unit) := by
  unfold handleHeartbeat
  exact .bind (.ignore (.onLog (RaftLog.raises_commitTo _))) fun _ => .bind .get fun r =>
    .ite changing_sendRequestSnapshot (changing_send _)

theorem changing_handleSnapshot (m : Message) : Changing (handleSnapshot m : RaftM σ Unit) := by
  unfold handleSnapshot
  split
  · exact .pure _
  · exact .bind (changing_restoreSnapshot _) fun _ => .bind .get fun _ => changing_send _

theorem updates_ackProgress (p : Progress) (index : ℕ) : p.Updates (ackProgress p index) := by
  unfold ackProgress
  split
  · exact .single (.becomeReplicate p)
  · dsimp only
    split
    · exact .tail (.single (.freeTo p index)) (.becomeProbe _)
    · exact .single (.freeTo p index)
  · split
    · exact .single (.becomeProbe p)
    · exact .refl

theorem changing_sendAfterAck (sender : ℕ) (committed oldPaused : Bool) :
    Changing (sendAfterAck sender committed oldPaused : RaftM σ Unit) :=
  .bind .get fun _ => .ite (.when changing_broadcastAppend) (.when (changing_sendAppend _))

theorem changing_handleAppendResponse (m : Message) : Changing (handleAppendResponse m : RaftM σ Unit) := by
  unfold handleAppendResponse handleAppendReject handleAppendAck transferIfCaughtUp
  refine .bind (.query _) fun next => .of_get fun r => ?_
  split
  · exact (Changing.pure _).here
  · rename_i pr hpr
    have hheard := pr.updates_heard m.commit
    dsimp only
    refine .ite (.ite ?_ ?_) (.ite ?_ ?_)
    · refine .bind (.setProgress hpr ?_) fun _ => changing_sendAppend _
      split
      · exact (hheard.tail (.maybeDecTo _ _ _ _)).tail (.becomeProbe _)
      · exact hheard.tail (.maybeDecTo _ _ _ _)
    · exact .setProgress hpr (hheard.tail (.maybeDecTo _ _ _ _))
    · exact .setProgress hpr (hheard.tail (.maybeUpdate _ _))
    · refine .bind (.setProgress hpr ((hheard.tail (.maybeUpdate _ m.index)).trans (updates_ackProgress _ _))) fun _ => ?_
      refine .bind changing_maybeCommit fun committed => .bind (changing_sendAfterAck _ _ _) fun _ =>
        .bind (changing_sendAppendAggressively _) fun _ => .bind .get fun r' => ?_
      split
      · exact .ite (changing_send _) (.pure _)
      · exact .pure _

theorem changing_handleHeartbeatResponse (m : Message) :
    Changing (handleHeartbeatResponse m : RaftM σ Unit) := by
  refine .of_get fun r => ?_
  split
  · exact (Changing.pure _).here
  · rename_i pr hpr
    dsimp only
    have hheard : pr.Updates { pr.updateCommitted m.commit with recentActive := true, paused := false } :=
      (pr.updates_updateCommitted m.commit).tail (.assign _ _ _ _ _ _)
    refine .bind (.setProgress hpr ?_) fun _ => .bind (.when (changing_sendAppend _)) fun _ =>
      .when (changing_ackRead _ _)
    split
    · exact hheard.tail (.freeFirstOne _)
    · exact hheard

theorem changing_handleTransferLeader (m : Message) : Changing (handleTransferLeader m : RaftM σ Unit) := by
  unfold handleTransferLeader
  refine .bind .get fun r => ?_
  split
  · exact .pure _
  · refine .ite (.pure _) (.ite (.pure _) (.bind (.modify fun _ => rfl) fun _ => .ite (.pure _) ?_))
    exact .bind (.modify fun _ => rfl) fun _ => .ite (changing_send _) (changing_sendAppend _)

omit [Storage σ] in
theorem changing_handleSnapshotStatus (m : Message) : Changing (handleSnapshotStatus m : RaftM σ Unit) := by
  refine .of_get fun r => ?_
  split
  · exact (Changing.pure _).here
  · rename_i pr hpr
    have hprobe : pr.Updates (if m.reject then pr.snapshotFailure.becomeProbe else pr.becomeProbe) := by
      split
      · exact .head (.snapshotFailure pr) (.single (.becomeProbe _))
      · exact .single (.becomeProbe pr)
    exact .ite (Changing.pure _).here (.setProgress hpr (hprobe.tail (.assign _ _ _ invalidIndex true _)))

omit [Storage σ] in
theorem changing_handleUnreachable (m : Message) : Changing (handleUnreachable m : RaftM σ Unit) := by
  refine .of_get fun r => ?_
  split
  · exact (Changing.pure _).here
  · rename_i pr hpr
    exact .ite (.setProgress hpr (.single (.becomeProbe pr))) (Changing.pure _).here

theorem changing_handlePropose (m : Message) : Changing (handlePropose m : RaftM σ Unit) := by
  unfold handlePropose
  refine .bind .get fun r => .ite .panic (.ite (.throw _) (.ite (.throw _) ?_))
  refine .bind (.query _) fun pos => .bind (changing_appendEntry _) fun _ => .ite (.throw _) ?_
  refine .bind (.modify fun r' => ?_) fun _ => changing_broadcastAppend
  split <;> rfl

/-! ### Steps and calls -/

theorem changing_stepLeader (m : Message) : Changing (stepLeader m : RaftM σ Unit) := by
  refine .of_get fun r => ?_
  split
  · exact changing_broadcastHeartbeat.here
  · have htracks : r.progressTracker.Tracks (r.progressTracker.quorumRecentlyActive r.id).1 :=
      .mapVals (fun id p => p.updates_recentActive (id == r.id)) rfl
    exact .bind (.single (.keep rfl le_rfl htracks)) fun _ => .ite (.pure _) (changing_becomeFollower _ _)
  · exact (changing_handlePropose m).here
  · exact .ite (changing_serveReadIndex m).here (changes_of_seen rfl)
  · exact (changing_handleAppendResponse m).here
  · exact (changing_handleHeartbeatResponse m).here
  · exact (changing_handleSnapshotStatus m).here
  · exact (changing_handleUnreachable m).here
  · exact (changing_handleTransferLeader m).here
  · exact (Changing.pure _).here

theorem changing_stepFollower (m : Message) : Changing (stepFollower m : RaftM σ Unit) := by
  have hheard : Changing (heardFromLeader m : RaftM σ Unit) := .modify fun _ => rfl
  have hforward : Changing (forward m : RaftM σ Unit) := .bind .get fun _ => changing_send _
  unfold stepFollower
  refine .bind .get fun r => ?_
  split
  · exact .ite (.throw _) hforward
  · exact .bind hheard fun _ => changing_handleAppendEntries m
  · exact .bind hheard fun _ => changing_handleHeartbeat m
  · exact .bind hheard fun _ => changing_handleSnapshot m
  · exact .ite (.pure _) hforward
  · exact .ite (changing_hup _) (.pure _)
  · exact .ite (.pure _) hforward
  · refine .ite (.pure _) ?_
    split
    · exact .bind (.modify fun _ => rfl) fun _ => .ignore (.onLog (RaftLog.raises_maybeCommit _ _))
    · exact .pure _
  · exact .pure _

theorem changing_stepCandidate (m : Message) : Changing (stepCandidate m : RaftM σ Unit) := by
  have hpoll : Changing (do
      let r ← Act.get
      if (r.state = .preCandidate ∧ m.msgType ≠ .requestPreVoteResponse) ∨
          (r.state = .candidate ∧ m.msgType ≠ .requestVoteResponse) then return ()
      else do
        let _ ← poll m.sender (!m.reject)
        maybeCommitByVote m : RaftM σ Unit) :=
    .bind .get fun r => .ite (.pure _) (.bind (changing_poll _ _) fun _ => changing_maybeCommitByVote m)
  unfold stepCandidate
  split
  · exact .throw _
  · exact .bind (changing_becomeFollower _ _) fun _ => changing_handleAppendEntries m
  · exact .bind (changing_becomeFollower _ _) fun _ => changing_handleHeartbeat m
  · exact .bind (changing_becomeFollower _ _) fun _ => changing_handleSnapshot m
  · exact hpoll
  · exact hpoll
  · exact .pure _

theorem changing_stepCurrent (m : Message) : Changing (stepCurrent m : RaftM σ Unit) := by
  unfold stepCurrent
  refine .bind .get fun r => ?_
  split
  · exact .ite (changing_hup _) (.pure _)
  · exact changing_handleVoteRequest m
  · exact changing_handleVoteRequest m
  · split
    · exact changing_stepCandidate m
    · exact changing_stepCandidate m
    · exact changing_stepFollower m
    · exact changing_stepLeader m

theorem changing_step (m : Message) : Changing (step m : RaftM σ Unit) := by
  unfold step stepLowerTerm
  refine .bind .get fun r => .ite (changing_stepCurrent m) (.ite (.ite (.pure _) (.ite ?_ ?_)) (.ite ?_ ?_))
  · exact .bind (changing_becomeFollower _ _) fun _ => changing_stepCurrent m
  · exact changing_stepCurrent m
  · exact .bind .get fun r => .ite (changing_send _) (.ite (changing_send _) (.pure _))
  · exact changing_stepCurrent m

theorem changing_tick : Changing (tick : RaftM σ Bool) := by
  unfold tick tickHeartbeat tickCheckQuorum tickElection
  refine .bind .get fun r => .ite ?_ ?_
  · refine .bind (.modify fun _ => rfl) fun _ => .bind (.bind .get fun r => .ite ?_ (.pure _)) fun _ =>
      .bind .get fun r => .ite (.pure _) (.ite ?_ (.pure _))
    · refine .bind (.modify fun _ => rfl) fun _ => .bind (.when (changing_step _)) fun _ =>
        .bind (.modify fun s => ?_) fun _ => .pure _
      split <;> rfl
    · exact .bind (.modify fun _ => rfl) fun _ => .bind (changing_step _) fun _ => .pure _
  · exact .bind (.modify fun _ => rfl) fun _ => .bind .get fun r => .ite (.bind (.modify fun _ => rfl) fun _ =>
      .bind (changing_step _) fun _ => .pure _) (.pure _)

theorem changing_maybeAutoLeave (i j : ℕ) : Changing (maybeAutoLeave i j : RaftM σ Unit) := by
  unfold maybeAutoLeave
  refine .bind .get fun r => .ite ?_ (.pure _)
  split
  · exact .panic
  · exact .bind (.catchErr (changing_appendEntry _) fun _ => .panic) fun _ => .modify fun _ => rfl

theorem changing_commitApply (i : ℕ) : Changing (commitApply i : RaftM σ Unit) := by
  unfold commitApply
  exact .bind .get fun r => .bind (.onLog (.of_keeps (RaftLog.keeps_committed_appliedTo _))) fun _ =>
    changing_maybeAutoLeave _ _

theorem changing_onPersistEntries (index term : ℕ) : Changing (onPersistEntries index term : RaftM σ Unit) := by
  unfold onPersistEntries
  refine .bind (.onLog (.of_keeps (RaftLog.keeps_maybePersist (fun _ _ => rfl) _ _))) fun update => .of_get fun r =>
    .ite ?_ (Changing.pure _).here
  split
  · exact (Changing.pure _).here
  · rename_i pr hpr
    exact .bind (.setProgress hpr (.single (.maybeUpdate pr index))) fun _ => .ite (.pure _)
      (.bind changing_maybeCommit fun _ => .bind .get fun r' => .ite changing_broadcastAppend (.pure _))

omit [Storage σ] in
theorem changing_onPersistSnapshot (index : ℕ) : Changing (onPersistSnapshot index : RaftM σ Unit) :=
  .bind (.onLog (.of_keeps (RaftLog.keeps_maybePersistSnapshot (fun _ _ => rfl) _))) fun _ => .pure _

/-- Every call of the consensus state machine. -/
theorem changing_call (x : RaftCall) : Changing (x.run : RaftM σ Unit) := by
  cases x with
  | step m => exact changing_step m
  | tick => exact .bind changing_tick fun _ => .pure _
  | ping => exact .bind .get fun _ => .ite (.ignore changing_broadcastHeartbeat) (.pure _)
  | requestSnapshot => exact changing_requestSnapshot
  | setPriority p => exact .modify fun _ => rfl
  | applyConfChange cc =>
      refine .bind (.bind (.query _) fun _ => .bind (fun r => .single (.keep rfl le_rfl (.applyConf _ _ _ _)))
        fun _ => ?_) fun _ => .pure _
      exact .bind (changing_postConfChange _) fun _ => .pure _
  | commitApply applied => exact changing_commitApply applied
  | onPersistEntries index term => exact changing_onPersistEntries index term
  | onPersistSnapshot index => exact changing_onPersistSnapshot index
  | restoreSnapshot snap => exact .bind (changing_restoreSnapshot snap) fun _ => .pure _

/-! ### Starting -/

theorem changing_boot (config : Config) (hs : HardState) (cs : ConfState) :
    Changing (boot config hs cs : RaftM σ Unit) := by
  have hload : Changing (loadState hs : RaftM σ Unit) := by
    intro r
    unfold loadState
    rw [Act.wp_bind, Act.wp_get, Act.wp_ite]
    refine ⟨fun _ => trivial, fun hle => .single (.keep rfl ?_ (.refl _))⟩
    show r.raftLog.committed ≤ hs.commit
    omega
  have happly : ∀ i, Changing (commitApplyUnchecked i : RaftM σ Unit) := fun i =>
    .bind .get fun r => .bind (.modify fun _ => rfl) fun _ => changing_maybeAutoLeave _ _
  unfold boot
  exact .bind (.when hload) fun _ => .bind (.when (happly _)) fun _ => .bind .get fun r =>
    .bind (changing_becomeFollower _ _) fun _ => changing_postConfChange cs

/-- A node that has just been started has come from one that follows only new peers. -/
theorem init_changes {config : Config} {prng : List ℕ} {store : σ} {r : Raft σ}
    (h : Raft.init config prng store = .ok r ()) :
    ∃ log tracker, (∀ id p, tracker.get id = some p → p.New) ∧ Changes (initial config prng log tracker) r := by
  obtain ⟨log, rs, tracker, -, -, -, htracker, hboot⟩ := init_cases h
  have hnew : ∀ id p, tracker.get id = some p → p.New :=
    (ConfRestore.restore_forall (fun _ => ⟨_, _, rfl⟩) htracker).1
  have hchanges := Act.wp_ok (changing_boot config rs.hardState _ _) hboot
  exact ⟨log, tracker, hnew, hchanges⟩

end Raft

/-! ### Runs of a node -/

namespace RawNode

/-- The computation takes a node only to nodes that some changes lead to. -/
def Changing {α : Type} (x : Act Err (RawNode σ) α) : Prop :=
  Act.Within (fun n n' => Raft.Changes n.raft n'.raft) x

namespace Changing

theorem bind {α β : Type} {x : Act Err (RawNode σ) α} {g : α → Act Err (RawNode σ) β} (hx : Changing x)
    (hg : ∀ a, Changing (g a)) : Changing (x >>= g) :=
  Act.Within.bind (R := fun n n' : RawNode σ => Raft.Changes n.raft n'.raft)
    (fun _ _ _ => .trans) hx hg

theorem of_keeps {α : Type} {x : Act Err (RawNode σ) α} (hx : Act.Keeps (fun n => n.raft.seen) x) : Changing x :=
  fun n => Act.wp_mono (hx n) (fun _ _ h => Raft.changes_of_seen h) fun _ _ h => Raft.changes_of_seen h

theorem modify {g : RawNode σ → RawNode σ} (hg : ∀ n, (g n).raft.seen = n.raft.seen) :
    Changing (Act.modify g) := of_keeps (.modify hg)

theorem get : Changing (Act.get : Act Err (RawNode σ) (RawNode σ)) := of_keeps .get

theorem pure {α : Type} (a : α) : Changing (Pure.pure a : Act Err (RawNode σ) α) := of_keeps (.pure a)

theorem assert (c : Bool) : Changing (Act.assert c : Act Err (RawNode σ) Unit) := of_keeps (.assert c)

theorem when {c : Prop} [Decidable c] {x : Act Err (RawNode σ) Unit} (hx : Changing x) : Changing (Act.when c x) :=
  Act.Within.ite (R := fun n n' : RawNode σ => Raft.Changes n.raft n'.raft) hx (pure ())

theorem ignore {α : Type} {x : Act Err (RawNode σ) α} (hx : Changing x) : Changing (Act.ignore x) :=
  Act.Within.ignore (R := fun n n' : RawNode σ => Raft.Changes n.raft n'.raft) hx

theorem catchErr {α : Type} {x : Act Err (RawNode σ) α} {g : Err → Act Err (RawNode σ) α} (hx : Changing x)
    (hg : ∀ e, Changing (g e)) : Changing (Act.catchErr x g) :=
  Act.Within.catchErr (R := fun n n' : RawNode σ => Raft.Changes n.raft n'.raft)
    (fun _ _ _ => .trans) hx hg

theorem onRaft {α : Type} {x : RaftM σ α} (hx : Raft.Changing x) : Changing (RawNode.onRaft x) := by
  intro n
  unfold RawNode.onRaft
  rw [Act.wp_zoom]
  exact Act.wp_mono (hx n.raft) (fun _ _ h => h) fun _ _ h => h

end Changing

variable [Storage σ]

theorem changing_getLightReadySince (since : ℕ) :
    Changing (getLightReadySince since : Act Err (RawNode σ) LightReady) := by
  unfold getLightReadySince Raft.reduceUncommittedSize noteHandedOut
  refine .bind .get fun n => .bind (.onRaft (.onLog (.of_keeps (RaftLog.keeps_nextEntriesSince _ _)))) fun _ => ?_
  refine .bind (.modify fun _ => rfl) fun _ => .bind (.onRaft (.modify fun r => ?_)) fun _ =>
    .bind ?_ fun _ => .pure _
  · split <;> rfl
  · split
    · exact .bind (.assert _) fun _ => .modify fun _ => rfl
    · exact .modify fun _ => rfl

theorem changing_getReady : Changing (getReady : Act Err (RawNode σ) Ready) := by
  have hfrom : ∀ n : RawNode σ, Changing (handOutFrom n) := by
    intro n
    unfold handOutFrom
    split
    · exact .bind (.assert _) fun _ => .bind (.assert _) fun _ => .pure _
    · exact .pure _
  unfold getReady
  refine .bind .get fun n => .bind (.modify fun _ => rfl) fun _ => .bind (hfrom n) fun _ => .bind ?_ fun _ =>
    .bind (.modify fun _ => rfl) fun _ => .pure _
  exact .catchErr (changing_getLightReadySince _) fun _ => .bind (.modify fun _ => rfl) fun _ =>
    .of_keeps (.throw _)

omit [Storage σ] in
theorem changing_commitReady (rd : Ready) : Changing (commitReady rd : Act Err (RawNode σ) Unit) := by
  have hsnap : ∀ i, Act.Keeps RaftLog.committed (RaftLog.stableSnapshot i : Act Err (RaftLog σ) Unit) :=
    fun i => .bind .get fun l => .bind (.orPanic _) fun _ => .modify fun _ => rfl
  have hents : ∀ i t, Act.Keeps RaftLog.committed (RaftLog.stableEntries i t : Act Err (RaftLog σ) Unit) :=
    fun i t => .bind .get fun l => .bind (.orPanic _) fun _ => .modify fun _ => rfl
  unfold commitReady stabilizeSnapshot stabilizeEntries
  refine .bind (.modify fun _ => rfl) fun _ => .bind .get fun n => ?_
  split
  · exact .of_keeps .panic
  · refine .bind (.assert _) fun _ => .bind ?_ fun _ => ?_
    · split
      · exact .onRaft (.onLog (.of_keeps (hsnap _)))
      · exact .pure _
    · split
      · exact .onRaft (.onLog (.of_keeps (hents _ _)))
      · exact .pure _

theorem changing_onPersistReady (number : ℕ) : Changing (onPersistReady number : Act Err (RawNode σ) Unit) := by
  unfold onPersistReady
  refine .bind .get fun n => .bind (.modify fun _ => rfl) fun _ => ?_
  exact .bind (.when (.onRaft (Raft.changing_onPersistSnapshot _))) fun _ =>
    .when (.ignore (.onRaft (Raft.changing_onPersistEntries _ _)))

theorem changing_advanceAppend (rd : Ready) : Changing (advanceAppend rd : Act Err (RawNode σ) LightReady) := by
  unfold advanceAppend
  refine .bind (changing_commitReady rd) fun _ => .bind .get fun n => .bind (changing_onPersistReady _) fun _ =>
    .bind .get fun _ => .bind (changing_getLightReadySince _) fun _ => .bind .get fun _ => ?_
  exact .bind (.assert _) fun _ => .bind (.assert _) fun _ => .bind (.modify fun _ => rfl) fun _ =>
    .bind .get fun _ => .bind (.assert _) fun _ => .pure _

theorem changing_advanceApply : Changing (advanceApply : Act Err (RawNode σ) Unit) :=
  .bind .get fun _ => .onRaft (Raft.changing_commitApply _)

end RawNode

namespace Driver

variable [WritableStorage σ]

/-- Between the nodes before and after a step lie some changes. -/
theorem step_changes {SameData : σ → σ → Prop} {d d' : Driver σ} {ev : Event} (h : Step SameData d ev d') :
    Raft.Changes d.raw.raft d'.raw.raft := by
  have hleft : ∀ {α : Type} {x : Act Err (RawNode σ) α} {raw : RawNode σ}, RawNode.Changing x →
      Outcome.Leaves (x d.raw) raw → Raft.Changes d.raw.raft raw.raft := by
    intro α x raw hx hl
    exact hl.of_wp (Q := fun n => Raft.Changes d.raw.raft n.raft) (hx d.raw)
  cases h with
  | call x r hf hrun => exact hrun.of_wp (Q := fun r => Raft.Changes d.raw.raft r) (Raft.changing_call x d.raw.raft)
  | ready rd raw store hready hw =>
      have hread := hleft RawNode.changing_getReady (.inl ⟨rd, hready⟩)
      exact hread.trans (Raft.changes_of_seen rfl)
  | failedReady e raw hready => exact hleft RawNode.changing_getReady (.inr ⟨e, hready⟩)
  | advanceAppendAsync rd raw hp hrun => exact hleft (RawNode.changing_commitReady rd) hrun
  | onPersistReady number raw hrun => exact hleft (RawNode.changing_onPersistReady number) hrun
  | advanceAppend rd l raw hp hadv => exact hleft (RawNode.changing_advanceAppend rd) (.inl ⟨l, hadv⟩)
  | failedAdvance rd e raw hp hadv => exact hleft (RawNode.changing_advanceAppend rd) (.inr ⟨e, hadv⟩)
  | advanceApply raw hrun => exact hleft RawNode.changing_advanceApply hrun
  | compact snap rs store hp hi hd ht hs hc hsnap => exact Raft.changes_of_seen rfl
  | drift store hdrift => exact Raft.changes_of_seen rfl

/-- Every node of a run has come from one that follows only new peers. -/
theorem run_changes {SameData : σ → σ → Prop} {config : Config} {prng : List ℕ} {store : σ} {d d' : Driver σ}
    (hs : Starts config prng store d) (h : Steps SameData d d') :
    ∃ log tracker, (∀ id p, tracker.get id = some p → p.New) ∧
      Raft.Changes (Raft.initial config prng log tracker) d'.raw.raft := by
  induction h with
  | refl => exact Raft.init_changes (RawNode.init_cases hs.1).1
  | tail _ hstep ih =>
      obtain ⟨ev, hstep⟩ := hstep
      obtain ⟨log, tracker, hnew, hchanges⟩ := ih
      exact ⟨log, tracker, hnew, hchanges.trans (step_changes hstep)⟩

end Driver

end Raftz
