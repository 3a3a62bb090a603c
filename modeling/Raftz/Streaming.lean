import Raftz.Base.Loops
import Raftz.Changes
import Raftz.DriverSound
import Raftz.Window

/-! # Streaming entries to a peer

After an acknowledgement the leader sends to the peer until `maybeSendAppend` has nothing more to
send.  Each of its successes either pauses the progress of the peer (a probe, a full window, a
snapshot) or moves its next index on towards the end of the log (`Raft.Streamed`), so the loop ends
(`aggressive_sending_ends`).  It relies on the log being well formed, on the windows being coherent
rings (`Driver.run_rings`), and on a storage that has the entries and snapshots it claims to
have (`LawfulStorage.Consistent`). -/

open Base

namespace Raftz

/-! ### Windows -/

namespace Progress

variable {p q : Progress}

theorem updateState_replicate {last : ℕ} {f : Inflights} (hs : p.state = .replicate)
    (hf : p.inflights.add last = some f) :
    p.updateState last = some { p.optimisticUpdate last with inflights := f } := by
  unfold updateState
  rw [hs]
  dsimp only
  rw [hf]

/-- A progress that is not paused takes what has been sent: a probe pauses, and a stream goes on after
the last entry. -/
theorem updateState_spec (hp : p.isPaused = false) (hr : p.inflights.Coherent) (last : ℕ) :
    ∃ q, p.updateState last = some q ∧ q.inflights.Coherent ∧
      (q.isPaused = true ∧ q.nextIdx = p.nextIdx ∨ q.nextIdx = last + 1) := by
  unfold isPaused at hp
  cases hs : p.state with
  | probe =>
      refine ⟨p.pause, by unfold updateState; rw [hs], hr, .inl ⟨?_, rfl⟩⟩
      unfold Progress.isPaused Progress.pause
      dsimp only
      rw [hs]
  | replicate =>
      rw [hs] at hp
      have hfull : ¬ p.inflights.window.Full := by
        rw [← Inflights.full_iff, Bool.not_eq_true]
        exact hp
      obtain ⟨f, hf, hcoh, -⟩ := Inflights.add_spec hr hfull last
      exact ⟨_, updateState_replicate hs hf, hcoh, .inr rfl⟩
  | snapshot =>
      rw [hs] at hp
      cases hp

theorem maybeUpdate_inflights (p : Progress) (n : ℕ) : (p.maybeUpdate n).1.inflights = p.inflights := by
  unfold maybeUpdate
  dsimp only
  split <;> split <;> rfl

theorem maybeDecTo_inflights (p : Progress) (rejected matchHint requestSnapshot : ℕ) :
    (p.maybeDecTo rejected matchHint requestSnapshot).1.inflights = p.inflights := by
  unfold maybeDecTo
  split_ifs <;> rfl

/-- Every step keeps the ring coherent. -/
theorem Update.coherent (h : p.Update q) (hp : p.inflights.Coherent) : q.inflights.Coherent := by
  cases h with
  | reset => exact (Inflights.reset_spec _).1
  | becomeProbe =>
      unfold Progress.becomeProbe
      split <;> exact (Inflights.reset_spec _).1
  | becomeReplicate => exact (Inflights.reset_spec _).1
  | becomeSnapshot => exact (Inflights.reset_spec _).1
  | maybeUpdate n =>
      rw [maybeUpdate_inflights]
      exact hp
  | updateState hq =>
      rename_i last
      cases hpaused : p.isPaused with
      | false =>
          obtain ⟨q', hq', hcoh, -⟩ := updateState_spec hpaused hp last
          cases hq.symm.trans hq'
          exact hcoh
      | true =>
          -- a paused probe stays as it is; a full ring takes nothing
          unfold Progress.updateState at hq
          unfold isPaused at hpaused
          cases hs : p.state with
          | probe =>
              rw [hs] at hq
              cases hq
              exact hp
          | replicate =>
              rw [hs] at hq hpaused
              unfold Inflights.add at hq
              rw [if_pos hpaused] at hq
              cases hq
          | snapshot =>
              rw [hs] at hq
              cases hq
  | maybeDecTo =>
      rw [maybeDecTo_inflights]
      exact hp
  | snapshotFailure => exact hp
  | freeTo upTo => exact (Inflights.freeTo_spec hp upTo).1
  | freeFirstOne => exact (Inflights.freeFirstOne_spec hp).1
  | assign => exact hp

end Progress

/-- The windows of all peers are coherent rings. -/
def ProgressTracker.Rings (t : ProgressTracker) : Prop := ∀ id p, t.get id = some p → p.inflights.Coherent

theorem Progress.New.coherent {p : Progress} (h : p.New) : p.inflights.Coherent := by
  obtain ⟨nextIdx, maxInflight, rfl⟩ := h
  exact Inflights.Coherent.init maxInflight

theorem ProgressTracker.Rings.tracks {t t' : ProgressTracker} (h : t.Rings) (ht : t.Tracks t') : t'.Rings :=
  ht.forall_get (fun _ hp => hp.coherent) (fun _ _ hu => hu.coherent) h

theorem Driver.run_rings {σ : Type} [WritableStorage σ] {SameData : σ → σ → Prop} {config : Config}
    {prng : List ℕ} {store : σ} {d d' : Driver σ} (hstart : Starts config prng store d) (h : Steps SameData d d') :
    d'.raw.raft.progressTracker.Rings := by
  obtain ⟨log, tracker, hnew, hchanges⟩ := run_changes hstart h
  have hrings : tracker.Rings := fun id p hp => (hnew id p hp).coherent
  exact hrings.tracks hchanges.tracks

/-! ### Reads of a consistent storage -/

/-- The storage has what it claims to have: the entries within its bounds are neither compacted nor
missing, and a snapshot is as recent as it was asked for and reaches as far as the log is compacted. -/
structure LawfulStorage.Consistent {σ : Type} [LawfulStorage σ] (s : σ) : Prop where
  entries : ∀ (lo hi : ℕ) (m : Option ℕ) (c : GetEntriesContext), (view s).log.base < lo →
    hi ≤ (view s).log.last + 1 → Storage.entries s lo hi m c ≠ .error .compacted ∧
      Storage.entries s lo hi m c ≠ .error .unavailable
  snapshot : ∀ (req dest : ℕ) (snap : Snapshot), Storage.getSnapshot s req dest = .ok snap →
    req ≤ snap.metadata.index ∧ (view s).log.base ≤ snap.metadata.index

/-- A memory storage is consistent. -/
theorem MemoryStorage.consistent {s : MemoryStorage} (h : s.log.Contiguous) : LawfulStorage.Consistent s where
  entries lo hi m c hlo hhi := by
    show s.readEntries lo hi m c ≠ _ ∧ s.readEntries lo hi m c ≠ _
    have hfirst := firstIndex_eq_base h
    have hlo : s.log.base < lo := hlo
    unfold readEntries
    rw [if_neg (by omega)]
    split_ifs <;> exact ⟨by simp, by simp⟩
  snapshot req dest snap hs := by
    have hs : s.getSnapshot req dest = .ok snap := hs
    unfold getSnapshot at hs
    split at hs
    · cases hs
    · cases hsn : s.snapshot with
      | error e =>
          rw [hsn] at hs
          cases hs
      | ok sn =>
          obtain ⟨-, -, hterm⟩ := snapshot_ok h hsn
          have hbase := (Log.termAt_isSome_iff.mp (by rw [hterm]; rfl)).1
          rw [hsn] at hs
          dsimp only at hs
          split at hs
          · cases hs
            exact ⟨le_rfl, by show s.log.base ≤ req; omega⟩
          · cases hs
            exact ⟨by omega, hbase⟩

/-- Entries from `lo` up to the end of the log have a last one, within these bounds. -/
theorem Log.Contiguous.last_of_prefix {l : Log} (hl : l.Contiguous) {lo : ℕ} {es : List Entry} (hlo : l.base < lo)
    (hpre : es <+: l.slice lo (l.last + 1)) (hes : es ≠ []) :
    ∃ last, es.getLast? = some last ∧ lo ≤ last.index ∧ last.index ≤ l.last := by
  have hcons : Consecutive lo es := .of_isPrefix (hl.slice hlo _) hpre
  have hlen : es.length ≤ l.last + 1 - lo := by
    rw [← length_slice hlo le_rfl]
    exact hpre.length_le
  have hmem := List.getLast_mem hes
  obtain ⟨h1, h2⟩ := hcons.mem_bounds hmem
  exact ⟨es.getLast hes, List.getLast?_eq_getLast_of_ne_nil hes, h1, by omega⟩

section log
variable {σ : Type} [LawfulStorage σ] {l : RaftLog σ}

open LawfulStorage (Consistent)

namespace RaftLog

/-- A slice does not abort, and only what is below the log is compacted. -/
theorem WF.twp_slice (h : l.WF) (ha : Consistent l.store) {lo hi : ℕ} {m : Option ℕ} {c : GetEntriesContext} :
    (slice lo hi m c).twp (fun _ _ => True) (fun e _ => e = .compacted → lo ≤ l.log.base) l := by
  unfold slice
  rw [Act.twp_bind, Act.twp_query]
  refine ⟨fun _ hc => ?_, fun e he hcompacted => ?_⟩
  · obtain ⟨hlh, hlo, hhi⟩ := mustCheckOutOfBounds_ok h hc
    have hlast := h.last_eq
    have hbuffer : l.unstable.offset ≤ hi →
        ∃ rest, l.unstable.slice (max lo l.unstable.offset) hi = some rest :=
      fun hoff => ⟨_, if_pos ⟨by omega, by omega, by omega⟩⟩
    rw [Act.twp_ite]
    refine ⟨fun _ => trivial, fun hne => ?_⟩
    rw [Act.twp_bind, Act.twp_get, Act.twp_ite]
    refine ⟨fun hlow => ?_, fun hlow => ?_⟩
    · have hs : l.unstable.snapshot = none := by
        cases hs : l.unstable.snapshot with
        | none => rfl
        | some s =>
            have hoff := h.snapshot s hs
            rw [log_of_snapshot hs] at hlo
            dsimp only at hlo
            omega
      have hstored := (h.stored hs).2
      have hbase : l.storeLog.base < lo := by
        rw [log_of_none hs] at hlo
        exact hlo
      obtain ⟨hcompacted, hmissing⟩ := ha.entries lo (min hi l.unstable.offset) m c hbase (by
        show _ ≤ l.storeLog.last + 1
        omega)
      unfold storeEntries
      rw [Act.twp_bind, Act.twp_catchErr, Act.twp_query]
      refine ⟨fun ents _ => ?_, fun e he => ?_⟩
      · rw [Act.twp_ite]
        refine ⟨fun _ => trivial, fun _ => ?_⟩
        rw [Act.twp_ite]
        refine ⟨fun hgt => ?_, fun _ => trivial⟩
        obtain ⟨rest, hrest⟩ := hbuffer (by omega)
        rw [Act.twp_bind, Act.twp_orPanic hrest]
        trivial
      · rw [Act.twp_ite]
        refine ⟨fun heq => absurd (heq ▸ he) hmissing, fun _ => ?_⟩
        exact fun heq => absurd (heq ▸ he) hcompacted
    · obtain ⟨rest, hrest⟩ := hbuffer (by omega)
      rw [Act.twp_bind, Act.twp_orPanic hrest]
      trivial
  · subst hcompacted
    unfold mustCheckOutOfBounds at he
    rw [h.firstIndex_eq] at he
    split at he
    · cases he
    · split at he
      · omega
      · split at he <;> cases he

/-- The entries from `idx` on are those of the log, and only what is below the log is compacted. -/
theorem WF.twp_getEntries (h : l.WF) (ha : Consistent l.store) {idx : ℕ} {m : Option ℕ} {c : GetEntriesContext} :
    (getEntries idx m c).twp
      (fun es l' => l' = l ∧ es <+: l.log.slice idx (l.log.last + 1) ∧
        (es ≠ [] → l.log.base < idx ∧ idx ≤ l.log.last))
      (fun e l' => l' = l ∧ (e = .compacted → idx ≤ l.log.base)) l := by
  have hends : (getEntries idx m c).twp (fun _ _ => True) (fun e _ => e = .compacted → idx ≤ l.log.base) l := by
    unfold getEntries
    rw [Act.twp_bind, Act.twp_get, Act.twp_ite]
    exact ⟨fun _ => trivial, fun _ => h.twp_slice ha⟩
  exact Act.twp_mono (Act.twp_and hends h.wp_getEntries) (fun _ _ h => h.2) fun _ _ h => ⟨h.2, h.1⟩

end RaftLog

end log

/-! ### One message -/

namespace Raft

variable {σ : Type} [LawfulStorage σ] {r r' : Raft σ} {dest : ℕ} {p : Progress}

open LawfulStorage (Consistent)

/-- What sending relies on: a well-formed log, positions to send from, and coherent windows. -/
structure Streaming (r : Raft σ) : Prop where
  log : r.raftLog.WF
  snapshot : ∀ s, r.raftLog.unstable.snapshot = some s → s.metadata.index ≠ 0
  next_pos : ∀ id p, r.progressTracker.get id = some p → 0 < p.nextIdx
  rings : r.progressTracker.Rings

theorem Sound.streaming {honest : Prop} (h : r.Sound honest) (hrings : r.progressTracker.Rings) : r.Streaming where
  log := h.log
  snapshot := fun s hs => (h.snapshot s hs).1.ne'
  next_pos := fun id p hp => (h.tracker.progress id p hp).next_pos
  rings := hrings

/-- The peer has been sent something: it is paused now, or its next index has moved on within the log. -/
structure Streamed (dest : ℕ) (r r' : Raft σ) : Prop where
  streaming : r'.Streaming
  raftLog : r'.raftLog = r.raftLog
  progress : ∃ p q, r.progressTracker.get dest = some p ∧ r'.progressTracker.get dest = some q ∧
    p.isPaused = false ∧ (q.isPaused = true ∨ p.nextIdx < q.nextIdx ∧ q.nextIdx ≤ r.raftLog.lastIndex + 1)

/-- The progress of the peer has been replaced, and messages have been queued. -/
theorem Streaming.streamed (h : r.Streaming) (hp : r.progressTracker.get dest = some p) (hpaused : p.isPaused = false)
    {q : Progress} (hnext : 0 < q.nextIdx) (hring : q.inflights.Coherent)
    (hq : q.isPaused = true ∨ p.nextIdx < q.nextIdx ∧ q.nextIdx ≤ r.raftLog.lastIndex + 1) (messages : List Message) :
    Streamed dest r { r with progressTracker := r.progressTracker.set dest q, messages := messages } := by
  have hget : ∀ id p', (r.progressTracker.set dest q).get id = some p' →
      p' = q ∨ r.progressTracker.get id = some p' := by
    intro id p' hp'
    rw [ProgressTracker.get_set] at hp'
    split at hp'
    · exact .inl (Option.some.inj hp').symm
    · exact .inr hp'
  have hdest : (r.progressTracker.set dest q).get dest = some q := by
    rw [ProgressTracker.get_set, if_pos rfl]
  refine ⟨⟨h.log, h.snapshot, fun id p' hp' => ?_, fun id p' hp' => ?_⟩, rfl, p, q, hp, hdest, hpaused, hq⟩
  · rcases hget id p' hp' with rfl | hold
    · exact hnext
    · exact h.next_pos id p' hold
  · rcases hget id p' hp' with rfl | hold
    · exact hring
    · exact h.rings id p' hold

omit [LawfulStorage σ] in
/-- A message without a term that is no vote message is queued. -/
theorem twp_send {m : Message} (hv : isVoteMessage m.msgType = false) (ht : m.term = 0)
    {Q : Unit → Raft σ → Prop} {E : Err → Raft σ → Prop}
    (hQ : ∀ queued, Q () { r with messages := r.messages ++ [queued] }) : (send m).twp Q E r := by
  have hstamp : ∃ queued, r.stamp m = some queued := by
    unfold stamp
    have hfilled : ∀ m' : Message, m' = { m with sender := r.id } ∨ m' = m →
        isVoteMessage m'.msgType = false ∧ m'.term = 0 := by
      rintro m' (rfl | rfl) <;> exact ⟨hv, ht⟩
    obtain ⟨hv', ht'⟩ := hfilled (if m.sender = invalidId then { m with sender := r.id } else m) (by
      split
      · exact .inl rfl
      · exact .inr rfl)
    dsimp only
    rw [hv', if_neg Bool.false_ne_true, if_neg (not_not.mpr ht')]
    split_ifs <;> exact ⟨_, rfl⟩
  obtain ⟨queued, hqueued⟩ := hstamp
  unfold send
  rw [Act.twp_bind, Act.twp_get, Act.twp_bind, Act.twp_orPanic hqueued]
  exact hQ queued

/-- A snapshot pauses the peer. -/
theorem Streaming.twp_sendSnapshot (h : r.Streaming) (hc : Consistent r.raftLog.store)
    (hp : r.progressTracker.get dest = some p) (hpaused : p.isPaused = false)
    (hneed : p.pendingRequestSnapshot ≠ invalidIndex ∨ 0 < r.raftLog.log.base) :
    (sendSnapshot dest p).twp (fun sent r' => if sent then Streamed dest r r' else r' = r) (fun _ _ => True) r := by
  have hindex : ∀ snap, r.raftLog.getSnapshot p.pendingRequestSnapshot dest = .ok snap → snap.metadata.index ≠ 0 := by
    intro snap hsnap
    unfold RaftLog.getSnapshot at hsnap
    have hstored : ∀ snap, Storage.getSnapshot r.raftLog.store p.pendingRequestSnapshot dest = .ok snap →
        p.pendingRequestSnapshot ≤ snap.metadata.index ∧ r.raftLog.storeLog.base ≤ snap.metadata.index :=
      fun snap hs => hc.snapshot _ _ snap hs
    cases hs : r.raftLog.unstable.snapshot with
    | some s =>
        have hs0 := h.snapshot s hs
        rw [hs] at hsnap
        dsimp only at hsnap
        split at hsnap
        · cases hsnap
          exact hs0
        · have := hstored snap hsnap
          omega
    | none =>
        rw [hs] at hsnap
        have := hstored snap hsnap
        rw [RaftLog.log_of_none hs] at hneed
        have hneed : p.pendingRequestSnapshot ≠ 0 ∨ 0 < r.raftLog.storeLog.base := hneed
        omega
  unfold sendSnapshot
  rw [Act.twp_ite]
  refine ⟨fun _ => rfl, fun _ => ?_⟩
  rw [Act.twp_bind, Act.twp_get]
  split
  · exact rfl
  · exact trivial
  · rename_i snap hsnap
    rw [Act.twp_bind, Act.twp_assert (decide_eq_true (hindex snap hsnap)), Act.twp_bind]
    unfold setProgress
    rw [Act.twp_modify, Act.twp_bind]
    exact twp_send rfl rfl fun queued => h.streamed (q := p.becomeSnapshot snap.metadata.index) hp hpaused
      (h.next_pos dest p hp) (Inflights.reset_spec _).1 (.inl rfl) _

/-- The entries are batched into a queued message, or the node stays as it is. -/
theorem Streaming.twp_tryBatching (h : r.Streaming) (hp : r.progressTracker.get dest = some p)
    (hpaused : p.isPaused = false) {es : List Entry} {last : Entry} (hlast : es.getLast? = some last)
    (hlo : p.nextIdx ≤ last.index) (hhi : last.index ≤ r.raftLog.lastIndex) :
    (tryBatching dest p es).twp (fun sent r' => if sent then Streamed dest r r' else r' = r) (fun _ _ => True) r := by
  obtain ⟨q, hq, hring, hadv⟩ := Progress.updateState_spec hpaused (h.rings dest p hp) last.index
  have hnext := h.next_pos dest p hp
  unfold tryBatching
  rw [Act.twp_bind, Act.twp_get]
  split
  · exact rfl
  · rw [hlast]
    dsimp only
    rw [Act.twp_ite]
    refine ⟨fun _ => rfl, fun _ => ?_⟩
    rw [Act.twp_bind, Act.twp_orPanic hq, Act.twp_bind]
    exact h.streamed hp hpaused (by omega) hring
      (hadv.imp And.left fun hstream => ⟨by omega, by omega⟩) _

/-- The entries are sent in a message of their own. -/
theorem Streaming.twp_sendEntries (h : r.Streaming) (hp : r.progressTracker.get dest = some p)
    (hpaused : p.isPaused = false) {es : List Entry} {last : Entry} (hlast : es.getLast? = some last)
    (hlo : p.nextIdx ≤ last.index) (hhi : last.index ≤ r.raftLog.lastIndex) (t : ℕ) :
    (sendEntries dest p t es).twp (fun _ r' => Streamed dest r r') (fun _ _ => True) r := by
  obtain ⟨q, hq, hring, hadv⟩ := Progress.updateState_spec hpaused (h.rings dest p hp) last.index
  have hnext := h.next_pos dest p hp
  unfold sendEntries noteSent setProgress
  rw [Act.twp_bind, Act.twp_get, Act.twp_bind, hlast]
  dsimp only
  rw [Act.twp_bind, Act.twp_orPanic hq, Act.twp_modify]
  exact twp_send rfl rfl fun queued => h.streamed hp hpaused (by omega) hring
      (hadv.imp And.left fun hstream => ⟨by omega, by omega⟩) _

/-- What is sent without an empty message pauses the peer or moves it on. -/
theorem Streaming.twp_maybeSendAppend (h : r.Streaming) (hc : Consistent r.raftLog.store) (dest : ℕ) :
    (maybeSendAppend dest false).twp (fun sent r' => if sent then Streamed dest r r' else r' = r) (fun _ _ => True)
      r := by
  unfold maybeSendAppend onLog
  rw [Act.twp_bind, Act.twp_get]
  split
  · exact rfl
  · rename_i p hp
    rw [Act.twp_ite]
    refine ⟨fun _ => rfl, fun hpaused => ?_⟩
    have hpaused : p.isPaused = false := Bool.not_eq_true _ ▸ hpaused
    rw [Act.twp_ite]
    refine ⟨fun hreq => h.twp_sendSnapshot hc hp hpaused (.inl hreq), fun _ => ?_⟩
    have hnext := h.next_pos dest p hp
    rw [Act.twp_bind, Act.twp_attempt, Act.twp_zoom]
    refine Act.twp_mono (h.log.twp_getEntries hc) ?_ ?_
    · rintro es l' ⟨rfl, hpre, hrange⟩
      show Act.twp _ _ _ r
      rw [Act.twp_ite]
      refine ⟨fun _ => rfl, fun hes => ?_⟩
      have hes : es ≠ [] := fun hnil => hes ⟨rfl, hnil⟩
      obtain ⟨hlo, hhi⟩ := hrange hes
      obtain ⟨last, hlast, hfirst, hend⟩ := h.log.contiguous.last_of_prefix hlo hpre hes
      rw [← h.log.lastIndex_eq] at hend
      rw [h.log.term_eq]
      dsimp only
      have hsend : ∀ t, (sendEntries dest p t es >>= fun _ => pure true).twp
          (fun sent r' => if sent then Streamed dest r r' else r' = r) (fun _ _ => True) r := by
        intro t
        rw [Act.twp_bind]
        exact h.twp_sendEntries hp hpaused hlast hfirst hend t
      split
      · rw [Act.twp_bind]
        refine Act.twp_mono (h.twp_tryBatching hp hpaused hlast hfirst hend) ?_ fun _ _ h => h
        intro batched r' hbatched
        cases batched with
        | true => exact hbatched
        | false =>
            obtain rfl : r' = r := hbatched
            exact hsend _
      · exact hsend _
    · rintro e l' ⟨rfl, hcompacted⟩
      show Act.twp _ _ _ r
      split
      · exact rfl
      · rename_i heq
        have hbase := hcompacted (Except.error.inj heq)
        exact h.twp_sendSnapshot hc hp hpaused (.inr (by omega))
      · exact trivial
      · rename_i heq
        cases heq

/-! ### The loop -/

/-- A bound on the messages the peer can be sent before it is paused. -/
def unsent (dest : ℕ) (r : Raft σ) : ℕ :=
  match r.progressTracker.get dest with
  | none => 0
  | some p => if p.isPaused then 0 else r.raftLog.lastIndex + 1 - p.nextIdx + 1

theorem Streamed.unsent_lt (h : Streamed dest r r') : r'.unsent dest < r.unsent dest := by
  obtain ⟨p, q, hp, hq, hpaused, hadv⟩ := h.progress
  unfold unsent
  rw [hp, hq, h.raftLog]
  dsimp only
  rw [hpaused, if_neg Bool.false_ne_true]
  split
  · omega
  · rename_i hgoes
    obtain ⟨h1, h2⟩ := hadv.resolve_left hgoes
    omega

theorem Streaming.unsent_lt (h : r.Streaming) (dest : ℕ) : r.unsent dest < r.raftLog.lastIndex + 2 := by
  unfold unsent
  split
  · omega
  · rename_i p hp
    have := h.next_pos dest p hp
    split <;> omega

omit [LawfulStorage σ] in
theorem sendAppendLoop_eq [Storage σ] (dest n : ℕ) :
    (sendAppendLoop dest n : RaftM σ Unit) = Act.repeats (maybeSendAppend dest false) n := by
  induction n with
  | zero => rfl
  | succ n ih =>
      unfold sendAppendLoop Act.repeats
      rw [ih]

theorem lowers_maybeSendAppend (dest : ℕ) : Act.Lowers (maybeSendAppend dest false : RaftM σ Bool)
    (fun r => r.Streaming ∧ Consistent r.raftLog.store) (unsent dest) := by
  rintro r ⟨h, hc⟩
  refine Act.twp_mono (h.twp_maybeSendAppend hc dest) ?_ fun _ _ _ => trivial
  rintro sent r' hsent rfl
  have hsent : Streamed dest r r' := hsent
  exact ⟨⟨hsent.streaming, hsent.raftLog ▸ hc⟩, hsent.unsent_lt⟩

/-! ### Where the loop starts -/

/-- When a leader has counted an acknowledgement, the peer can be sent more. -/
theorem Sound.streaming_acknowledge {honest : Prop} (h : r.Sound honest) (hrings : r.progressTracker.Rings)
    (hl : r.state = .leader) {m : Message} (hm : m.msgType = .appendResponse) (hrej : m.reject = false)
    (hcur : r.core.Current m) (hp : r.progressTracker.get m.sender = some p) :
    (acknowledge m ({ p with recentActive := true }.updateCommitted m.commit)).wp (fun _ r' => r'.Streaming)
      (fun _ _ => True) r := by
  have hactive : ({ p with recentActive := true } : Progress).Sound :=
    (h.tracker.progress _ p hp).of_eq rfl rfl rfl rfl
  have hreach := leads_acknowledge h.reach hl hm hrej hcur hp (hactive.updateCommitted m.commit)
    (Progress.updateCommitted_matched _ _) (updateCommitted_asked _ _)
  have hchanges : ChangingFrom r (acknowledge m ({ p with recentActive := true }.updateCommitted m.commit)) := by
    unfold acknowledge
    refine .bind (.setProgress hp ?_) fun _ => .bind changing_maybeCommit fun _ => changing_sendAfterAck _ _ _
    exact ((p.updates_heard m.commit).tail (.maybeUpdate _ _)).trans (updates_ackProgress _ _)
  refine Act.wp_mono (Act.wp_and hreach hchanges) ?_ fun _ _ _ => trivial
  rintro _ r' ⟨⟨hr', -⟩, hch⟩
  exact hr'.sound.streaming (hrings.tracks hch.tracks)

/-- Another iteration of the loop: something went out. -/
abbrev SendsMore (dest : ℕ) : Raft σ → Raft σ → Prop := Act.Again (maybeSendAppend dest false)

/-- Aggressive sending terminates.  The nodes of a run, and a leader that has counted an acknowledgement,
can send.  From there no iteration of the loop aborts, so nothing is added to a full window; one that goes
on has paused the peer or moved its next index on, at most behind the last entry.  No sequence of
iterations is infinite, the loop ends where an iteration has nothing to send or fails, and the bound on the
iterations does not matter. -/
theorem aggressive_sending_ends (σ : Type) [LawfulStorage σ] :
    (∀ (SameData : σ → σ → Prop) (config : Config) (prng : List ℕ) (store : σ) (d d' : Driver σ),
      Driver.Faithful SameData → LawfulStorage.Valid store →
      config.applied ≤ max (LawfulStorage.view store).log.base
        (loadedState config (LawfulStorage.view store)).commit →
      Driver.Starts config prng store d → Driver.Steps SameData d d' →
      d'.raw.raft.Streaming ∧ ∀ (m : Message) (p : Progress), d'.raw.raft.state = .leader →
        m.msgType = .appendResponse → m.reject = false → d'.raw.raft.core.Current m →
        d'.raw.raft.progressTracker.get m.sender = some p →
        (acknowledge m ({ p with recentActive := true }.updateCommitted m.commit)).wp (fun _ r => r.Streaming)
          (fun _ _ => True) d'.raw.raft) ∧
    ∀ (r : Raft σ) (dest : ℕ), r.Streaming → Consistent r.raftLog.store →
      (∀ r₁, Relation.ReflTransGen (SendsMore dest) r r₁ →
        (maybeSendAppend dest false).twp
          (fun sent r₂ => sent = true → ∃ p q, r₁.progressTracker.get dest = some p ∧
            r₂.progressTracker.get dest = some q ∧ p.isPaused = false ∧
            (q.isPaused = true ∨ p.nextIdx < q.nextIdx ∧ q.nextIdx ≤ r₂.raftLog.lastIndex + 1))
          (fun _ _ => True) r₁) ∧
      Acc (fun r₂ r₁ => SendsMore dest r₁ r₂) r ∧
      (sendAppendAggressively dest).twp
        (fun _ r' => ∃ r₁, Relation.ReflTransGen (SendsMore dest) r r₁ ∧ maybeSendAppend dest false r₁ = .ok false r')
        (fun e r' => ∃ r₁, Relation.ReflTransGen (SendsMore dest) r r₁ ∧ maybeSendAppend dest false r₁ = .err e r')
        r ∧
      ∀ n, r.raftLog.lastIndex + 2 ≤ n →
        sendAppendLoop dest n r = sendAppendLoop dest (r.raftLog.lastIndex + 2) r := by
  constructor
  · intro SameData config prng store d d' hsame hv happ hstart hsteps
    have hs := (Driver.sound_of_steps hsame (Driver.sound_of_starts hv happ hstart).1 hsteps).raft
    have hrings := Driver.run_rings hstart hsteps
    exact ⟨hs.streaming hrings, fun m p hl hm hrej hcur hp =>
      hs.streaming_acknowledge hrings hl hm hrej hcur hp⟩
  · intro r dest h hc
    have hlow := lowers_maybeSendAppend (σ := σ) dest
    have hbound := h.unsent_lt dest
    refine ⟨fun r₁ hr₁ => ?_, hlow.acc ⟨h, hc⟩, ?_, fun n hn => ?_⟩
    · obtain ⟨h₁, hc₁⟩ := hlow.reached ⟨h, hc⟩ hr₁
      refine Act.twp_mono (h₁.twp_maybeSendAppend hc₁ dest) ?_ fun _ _ _ => trivial
      rintro sent r₂ hsent rfl
      have hsent : Streamed dest r₁ r₂ := hsent
      rw [hsent.raftLog]
      exact hsent.progress
    · unfold sendAppendAggressively
      rw [Act.twp_bind, Act.twp_get]
      split
      · rename_i hnone
        refine ⟨r, .refl, ?_⟩
        unfold maybeSendAppend
        rw [Act.bind_run (Act.get_run r), hnone]
        rfl
      · rw [sendAppendLoop_eq]
        exact hlow.twp_repeats ⟨h, hc⟩ hbound
    · rw [sendAppendLoop_eq, sendAppendLoop_eq]
      exact hlow.repeats_eq ⟨h, hc⟩ (by omega) hbound

/-- Node 1 of two leads, and node 2 has become unreachable with an entry under way. -/
def unreachablePeer : Option (List (Event × Driver MemoryStorage) × Driver MemoryStorage) :=
  Driver.playFrom { id := 1, batchAppend := true } [] { raftState := { confState := { voters := [1, 2] } } } [
    .call (.step { msgType := .hup }),
    .call (.step { msgType := .requestVoteResponse, sender := 2, dest := 1, term := 1 }),
    .call (.step { msgType := .appendResponse, sender := 2, dest := 1, term := 1, index := 1 }),
    .call (.step { msgType := .propose, sender := 1, entries := [{ data := [7] }] }),
    .call (.step { msgType := .unreachablePeer, sender := 2 })]

/-- Would an append go out to the peer now? -/
def sendsNow (dest : ℕ) (r : Raft σ) : Bool :=
  match maybeSendAppend dest false r with
  | .ok sent _ => sent
  | _ => false

theorem sendsMore_of_sendsNow {dest : ℕ} {r : Raft σ} (h : sendsNow dest r = true) :
    ∃ r₁, SendsMore dest r r₁ := by
  unfold sendsNow at h
  split at h
  · rename_i sent r₁ hout
    obtain rfl : sent = true := h
    exact ⟨r₁, hout⟩
  · cases h

/-- The leader sends the entry again, and the loop ends. -/
theorem aggressive_sending_unreachable : ∃ d0 d : Driver MemoryStorage,
    Driver.Starts { id := 1, batchAppend := true } [] { raftState := { confState := { voters := [1, 2] } } } d0 ∧
      Driver.Steps Eq d0 d ∧ d.raw.raft.state = .leader ∧ (∃ r₁, SendsMore 2 d.raw.raft r₁) ∧
      Acc (fun r₂ r₁ => SendsMore 2 r₁ r₂) d.raw.raft ∧
      (sendAppendAggressively 2).twp (fun _ _ => True) (fun _ _ => True) d.raw.raft := by
  have hrun : unreachablePeer.map (fun p => (p.2.raw.raft.state, sendsNow 2 p.2.raw.raft)) =
      some (.leader, true) := by decide +kernel
  obtain ⟨⟨trace, d⟩, hd, heq⟩ := Option.map_eq_some_iff.mp hrun
  simp only [Prod.mk.injEq] at heq
  obtain ⟨hl, hsent⟩ := heq
  obtain ⟨d0, hstart, hsteps⟩ := Driver.playFrom_run Eq hd
  have hends := aggressive_sending_ends MemoryStorage
  have hstream := (hends.1 Eq _ _ _ d0 d Driver.faithful_eq (by trivial) (by decide) hstart hsteps.steps).1
  obtain ⟨-, hacc, hloop, -⟩ := hends.2 d.raw.raft 2 hstream (MemoryStorage.consistent hstream.log.valid)
  exact ⟨d0, d, hstart, hsteps.steps, hl, sendsMore_of_sendsNow hsent, hacc,
    Act.twp_mono hloop (fun _ _ _ => trivial) fun _ _ _ => trivial⟩

end Raft

end Raftz
