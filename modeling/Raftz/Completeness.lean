import Raftz.CommitSafety
import Raftz.HandOut

/-! # Leader completeness

Over a run of a cluster with a fixed configuration, in which messages come from nodes and no
snapshot is installed: what a node has committed is what every node has committed, as far as both
go, and it is in the log of every later leader.  The storage counts: a node acknowledges what it
has written, and it goes on from there when it is started again. -/

open Base

namespace Raftz

open Chronicle (Rooted Holds Recalls top Safe Extends)

/-! ### What is sent and what is stored -/

namespace Peer

variable {honest : Prop} {cs : ConfState} {sent sent' : List Message} {H H' : Chronicle Entry}
  {F S S' : List Entry} {c c' : Peer} {m x : Message}

/-- In a term that this node has won nobody else has written. -/
theorem free_of_sent (hcert : ∀ t L, H.log t = some L → ∃ i, Elected cs sent i t) (hsub : ∀ x ∈ sent, x ∈ sent')
    (honce : ∀ x ∈ sent', ∀ y ∈ sent', ∀ v t i j, x.Tells v t i → y.Tells v t j → i = j) {i t : ℕ}
    (h : Elected cs sent i t → H.log t = none) (hwon : Elected cs sent' i t) : H.log t = none := by
  cases ht : H.log t with
  | none => rfl
  | some L =>
      obtain ⟨j, hj⟩ := hcert t L ht
      have hij := (hj.mono hsub).unique hwon fun x hx y hy v a b => honce x hx y hy v t a b
      exact ht.symm.trans (h (hij ▸ hj))

/-- Others have sent something. -/
theorem Records.heard (h : Records cs sent H F S c) (hcert : ∀ t L, H.log t = some L → ∃ i, Elected cs sent i t)
    (hsub : ∀ x ∈ sent, x ∈ sent')
    (honce : ∀ x ∈ sent', ∀ y ∈ sent', ∀ v t i j, x.Tells v t i → y.Tells v t j → i = j)
    (hown : ∀ q ∈ sent', ∀ t i, q.Tells c.id t i → q ∈ sent) : Records cs sent' H F S c where
  logs := h.logs
  speech := { h.speech with
    order := by
      rintro x hx hk t ⟨q, hq, i, ht⟩
      exact h.speech.order x hx hk t ⟨q, hown q hq t i ht, i, ht⟩
    told := by
      rintro t ⟨q, hq, i, ht⟩
      exact h.speech.told t ⟨q, hown q hq t i ht, i, ht⟩
    vouch := by
      intro y hy t' i ht t n ha htt hn
      have hy : y ∈ sent ∨ y ∈ c.out := hy.imp_left fun hy => hown y hy t' i ht
      exact (h.speech.vouch y hy t' i ht t n ha htt hn).mono .refl fun q hq => hq.imp_left (hsub q) }
  leading := h.leading
  standing := by
    intro hr
    have hst := h.standing hr
    refine { hst with
      free := free_of_sent hcert hsub honce hst.free
      asked := fun q hq hk hs ht => hst.asked q (hq.imp_left fun hq => ?_) hk hs ht
      drained := ?_ }
    · exact hown q hq c.term c.id ⟨hs, ht, Or.inr ⟨hk, rfl⟩⟩
    · rintro ⟨q, hq, i, ht⟩
      exact hst.drained ⟨q, hown q hq _ i ht, i, ht⟩

/-- The queued acknowledgements. -/
def flushed (c : Peer) (v t n : ℕ) : Prop :=
  ∃ x ∈ c.out, x.Acks ∧ x.sender = v ∧ x.term = t ∧ 0 < n ∧ n ≤ x.index

theorem Records.flushed_le (h : Records cs sent H F S c) : ∀ v t n, flushed c v t n →
    v = c.id ∧ ∀ u, t < u → ¬ Told sent v u := by
  rintro v t n ⟨x, hx, hk, rfl, rfl, -⟩
  have hid := (h.speech.acking x hx hk).1
  refine ⟨hid, fun u hu ht => ?_⟩
  rw [hid] at ht
  have := h.speech.order x hx hk u ht
  omega

/-- The queue is sent; what it acknowledges is stored. -/
theorem Records.flush (h : Records cs sent H F S c) (hW : Witnessed cs sent H)
    (hown : ∀ x ∈ c.out, ∀ v t i, x.Tells v t i → v = c.id)
    (honce : ∀ x ∈ sent ++ c.out, ∀ y ∈ sent ++ c.out, ∀ v t i j, x.Tells v t i → y.Tells v t j → i = j)
    (hstored : ∀ x ∈ c.out, x.Acks → x.term ≤ c.store.hardState.term ∧ ∀ n, 0 < n → n ≤ x.index →
      H.Recalls Entry.term (Quorum cs) S c.store.hardState.term x.term n)
    (htold : ∀ t, Told (sent ++ c.out) c.id t → t ≤ c.store.hardState.term) :
    Adds cs sent c.id H (H.acknowledge (flushed c)) ∧ Witnessed cs (sent ++ c.out) (H.acknowledge (flushed c)) ∧
      Records cs (sent ++ c.out) (H.acknowledge (flushed c)) F S { c with out := [] } := by
  have hle := h.flushed_le
  have hext : Extends Entry.term H (H.acknowledge (flushed c)) := Chronicle.extends_acknowledge H _
  have hsub : ∀ x ∈ sent, x ∈ sent ++ c.out := fun _ hx => List.mem_append_left _ hx
  -- what this node tells of a vote goes with what it has acknowledged, also with this queue
  have hvouch : ∀ y, y ∈ sent ∨ y ∈ c.out → ∀ t' i, y.Tells c.id t' i → ∀ t n,
      (H.acknowledge (flushed c)).ack c.id t n → t < t' → 0 < n →
      Vouches (H.acknowledge (flushed c)) (· ∈ sent ++ c.out) t' i t n := by
    intro y hy t' i ht t n ha htt hn
    refine (h.speech.vouch y hy t' i ht t n (ha.imp_right ?_) htt hn).mono hext fun q hq => List.mem_append.mpr hq
    rintro ⟨x, hx, hk, -, rfl, -, hidx⟩
    exact ⟨x, hx, hk, rfl, hidx⟩
  refine ⟨⟨hext, fun _ => Or.inl rfl, fun v hv t n ha => ha.resolve_right fun hf => hv (hle v t n hf).1⟩, ?_, ?_⟩
  · refine ⟨?_, fun x hx => ?_, fun t L hL => ?_, fun x hx hk => ?_, fun y hy v t' i ht t n ha htt hn => ?_⟩
    · refine (hW.sound.acknowledge fun v t n hf => (hle v t n hf).2).hear ?_
      rintro v t ⟨q, hq, i, ht⟩
      exact ⟨q, hsub q hq, i, ht⟩
    · rcases List.mem_append.mp hx with hx | hx
      · exact (hW.ground x hx).extends hext
      · exact (h.speech.queue x hx).extends hext
    · obtain ⟨i, hi⟩ := hW.certified t L hL
      exact ⟨i, hi.mono hsub⟩
    · rcases List.mem_append.mp hx with hx | hx
      · obtain ⟨h1, h2⟩ := hW.acks x hx hk
        exact ⟨h1, fun n hn hidx => Or.inl (h2 n hn hidx)⟩
      · exact ⟨(h.speech.acking x hx hk).2.1, fun n hn hidx => Or.inr ⟨x, hx, hk, rfl, rfl, hn, hidx⟩⟩
    · by_cases hv : v = c.id
      · subst hv
        exact hvouch y (List.mem_append.mp hy) t' i ht t n ha htt hn
      · have hy : y ∈ sent := (List.mem_append.mp hy).resolve_right fun hy => hv (hown y hy v t' i ht)
        have ha := ha.resolve_right fun hf => hv (hle v t n hf).1
        exact (hW.vouch y hy v t' i ht t n ha htt hn).mono hext hsub
  · refine ⟨{ h.logs with
        rooted := h.logs.rooted.extends hext
        rootedS := h.logs.rootedS.extends hext
        safe := h.logs.safe.extends hext
        saved := h.logs.saved.extends hext }, ⟨nofun, nofun, nofun, htold, ?_, ?_⟩, fun hr => ?_, fun hr => ?_⟩
    · rintro t n (ha | ⟨x, hx, hk, -, rfl, hn, hidx⟩)
      · obtain ⟨h1, h2, h3, h4⟩ := h.speech.acked t n ha
        exact ⟨h1, h2, h3.extends hext, h4.extends hext⟩
      · obtain ⟨-, -, h1, h2⟩ := h.speech.acking x hx hk
        obtain ⟨h3, h4⟩ := hstored x hx hk
        exact ⟨h1, h3, (h2 n hn hidx).extends hext, (h4 n hn hidx).extends hext⟩
    · intro y hy t' i ht t n ha htt hn
      have hy : y ∈ sent ++ c.out := hy.resolve_right List.not_mem_nil
      have ha := ha.resolve_right fun ⟨x, hx, _⟩ => absurd hx List.not_mem_nil
      refine (hvouch y (List.mem_append.mp hy) t' i ht t n ha htt hn).mono .refl fun q hq => Or.inl hq
    · have hl := h.leading hr
      exact ⟨hl.log, nofun, nofun, fun v n hn hidx => hext.ack _ _ _ (hl.matched v n hn hidx),
        fun key st hst => (hl.reads key st hst).extends hext⟩
    · have hst := h.standing hr
      refine ⟨fun hwon => ?_, hst.below, fun q hq => hst.asked q ?_, fun _ => nofun⟩
      · exact free_of_sent hW.certified hsub honce hst.free hwon
      · exact List.mem_append.mp (hq.resolve_right List.not_mem_nil)

/-- The storage has become another one, and with it the position where the logs start. -/
theorem Records.restore (h : Records cs sent H F S c) (he : Electing cs sent c) (hsame : (c'.id, c'.term, c'.role, c'.out, c'.pending,
      c'.committed, c'.persisted, c'.matched, c'.reads) =
      (c.id, c.term, c.role, c.out, c.pending, c.committed, c.persisted, c.matched, c.reads))
    (hfull : c'.log.Full F) (hstored : c'.store.log.Full S') (hbase : c'.store.log.base = c'.log.base)
    (hbc : c'.log.base ≤ c.committed) (hbp : c'.log.base ≤ c.persisted) (hroot : H.Rooted Entry.term S')
    (hbelow : ∀ e ∈ S', e.term ≤ c'.store.hardState.term) (hpers : S'.take c.persisted = F.take c.persisted)
    (hterm : min c.term c.store.hardState.term ≤ c'.store.hardState.term) (hle : c'.store.hardState.commit ≤ c.committed)
    (hsaved : H.Safe Entry.term (Quorum cs) S' c'.store.hardState.commit)
    (hrec : ∀ t n, t ≤ c.term → t ≤ c.store.hardState.term → H.Recalls Entry.term (Quorum cs) F c.term t n →
      H.Recalls Entry.term (Quorum cs) S c.store.hardState.term t n →
      H.Recalls Entry.term (Quorum cs) S' c'.store.hardState.term t n) : Records cs sent H F S' c' := by
  simp only [Prod.mk.injEq] at hsame
  obtain ⟨hid, ht, hrole, hout, hp, hc, hpers', hmatched, hreads⟩ := hsame
  refine ⟨⟨hfull, hstored, hbase, hp.trans h.logs.pending, h.logs.rooted, hroot, ?_, hbelow, ?_, ?_, ?_, ?_, ?_, ?_,
    hsaved⟩, ⟨?_, ?_, ?_, ?_, ?_, ?_⟩, fun hr => ?_, fun hr => ?_⟩
  · exact ht ▸ h.logs.below
  · exact hc ▸ hbc
  · exact hpers' ▸ hbp
  · exact hpers' ▸ h.logs.persisted_le
  · exact hpers' ▸ hpers
  · exact hc ▸ h.logs.safe
  · exact hc ▸ hle
  · exact hout ▸ h.speech.queue
  · rw [hout, hid, ht]
    exact h.speech.acking
  · rw [hout, hid]
    exact h.speech.order
  · rw [hid]
    exact fun t ht => (le_min (he.told_le ht) (h.speech.told t ht)).trans hterm
  · rw [hid, ht]
    intro t n ha
    obtain ⟨h1, h2, h3, h4⟩ := h.speech.acked t n ha
    exact ⟨h1, (le_min h1 h2).trans hterm, h3, hrec t n h1 h2 h3 h4⟩
  · rw [hid, hout]
    exact h.speech.vouch
  · have hl := h.leading (hrole.symm.trans hr)
    refine ⟨?_, ?_, ?_, ?_, ?_⟩ <;> simp only [ht, hout, hmatched, hreads]
    · exact hl.log
    · exact hl.term
    · exact hl.quiet
    · exact hl.matched
    · exact hl.reads
  · have hst := h.standing (hrole.symm.trans hr)
    refine ⟨?_, ?_, ?_, ?_⟩ <;> simp only [ht, hout, hid]
    · exact hst.free
    · exact hst.below
    · exact hst.asked
    · exact hst.drained

/-- What had been saved is safe, and so is where the logs start. -/
theorem Logs.safe_saved (h : Logs cs H F S c) :
    H.Safe Entry.term (Quorum cs) S (max c.log.base c.store.hardState.commit) := by
  rcases max_cases c.log.base c.store.hardState.commit with ⟨hmax, -⟩ | ⟨hmax, -⟩
  · rw [hmax]
    exact (h.safe.mono h.base_le).congr (Chronicle.take_of_take h.persisted h.base_persisted)
  · rw [hmax]
    exact h.saved

end Peer

/-! ### One node and its storage -/

/-- The kinds of messages by which a node talks to itself. -/
theorem Message.genuine_of_local {sent : List Message} {id : ℕ} {m : Message}
    (h : m.msgType = .hup ∨ m.msgType = .beat ∨ m.msgType = .checkQuorum) : m.Genuine sent id := by
  refine ⟨fun hk => ?_, fun ht => ?_⟩
  · rw [hk] at h
    simp at h
  · exfalso
    rcases ht with (hf | hf | hf | hf | ⟨hf, -⟩) | hf | hf | hf
    all_goals first
      | rw [hf] at h
        simp at h
      | rcases h with h | h | h <;> rw [h] at hf <;> cases hf

/-- The calls of a run in which messages come from nodes. -/
def RaftCall.Genuine (sent : List Message) (id : ℕ) : RaftCall → Prop
  | .step m => m.Genuine sent id
  | .applyConfChange _ => False
  | .restoreSnapshot _ => False
  | _ => True

theorem RaftCall.Genuine.admitted {sent : List Message} {id : ℕ} {x : RaftCall} (h : x.Genuine sent id) :
    x.Admitted sent id := by
  cases x with
  | step m => exact Message.Genuine.arrives h
  | applyConfChange cc => exact h
  | restoreSnapshot snap => exact h
  | _ => trivial

theorem RaftCall.Genuine.handles {sent : List Message} {id : ℕ} {x : RaftCall} (h : x.Genuine sent id)
    {m : Message} (hm : x.Handles m) : m.Genuine sent id := by
  cases x with
  | step m' =>
      rw [show m = m' from hm]
      exact h
  | applyConfChange cc => exact h.elim
  | restoreSnapshot snap => exact h.elim
  | onPersistEntries index term => exact Message.genuine_of_local (Or.inr (Or.inl hm.1))
  | onPersistSnapshot index => exact Message.genuine_of_local (Or.inr (Or.inl hm.1))
  | tick => exact Message.genuine_of_local hm.2.2
  | ping => exact Message.genuine_of_local hm.2.2
  | requestSnapshot => exact Message.genuine_of_local hm.2.2
  | setPriority p => exact Message.genuine_of_local hm.2.2
  | commitApply applied => exact Message.genuine_of_local hm.2.2

variable {σ : Type} [LawfulStorage σ]

/-- The hard state that a batch without a snapshot leaves. -/
theorem Ready.write_hardState {rd : Ready} {l : RaftLog σ} (h : l.WF) (he : rd.entries = l.unstable.entries)
    (hsnap : rd.snapshot = none) {store : σ} (hw : rd.write l.store = .ok store) :
    (LawfulStorage.view store).hardState = rd.hs.getD (LawfulStorage.view l.store).hardState := by
  obtain ⟨s1, hs1, hrest⟩ := bind_eq_ok.mp hw
  obtain ⟨s2, hs2, hlast⟩ := bind_eq_ok.mp hrest
  unfold Ready.writeSnapshot at hs1
  unfold Ready.writeEntries at hs2
  unfold Ready.writeHardState at hlast
  rw [hsnap] at hs1
  cases hs1
  have h2 : LawfulStorage.Valid s2 ∧
      (LawfulStorage.view s2).hardState = (LawfulStorage.view l.store).hardState := by
    split at hs2
    · cases hs2
      exact ⟨h.valid, rfl⟩
    · rename_i hne
      rw [he] at hs2 hne
      obtain ⟨e, es, hes⟩ := List.exists_cons_of_ne_nil hne
      have hcons := h.entries
      obtain ⟨hv, hview, _⟩ := LawfulStorage.append_ok h.valid hs2 fun e' he' => by
        rw [hes] at he' hcons
        cases he'
        rw [hes, show e.index = l.unstable.offset from hcons.1]
        exact hcons
      rw [hview]
      exact ⟨hv, (StoreView.append_hardState (LawfulStorage.view l.store) l.unstable.entries).1⟩
  cases hhs : rd.hs with
  | none =>
      rw [hhs] at hlast
      cases hlast
      exact h2.2
  | some hs =>
      rw [hhs] at hlast
      obtain ⟨-, hview⟩ := LawfulStorage.setHardState_ok h2.1 hlast
      rw [hview]
      rfl

namespace RawNode

variable {n : RawNode σ} {rd : Ready}

omit [LawfulStorage σ] in
/-- A light batch has messages only when the node leads. -/
theorem wp_advanceAppend_leads [Storage σ] : (advanceAppend rd).wp
    (fun l n' => n'.raft.state = .leader ∨ l.messages = []) (fun _ _ => True) n := by
  have hconst : ∀ {α : Type} (x : Act Err (RawNode σ) α) (s : RawNode σ),
      x.wp (fun _ _ => True) (fun _ _ => True) s := by
    intro α x s
    unfold Act.wp
    split <;> trivial
  unfold advanceAppend
  rw [Act.wp_bind]
  refine Act.wp_mono (hconst _ _) (fun _ n1 _ => ?_) fun _ _ _ => trivial
  rw [Act.wp_bind, Act.wp_get, Act.wp_bind]
  refine Act.wp_mono (hconst _ _) (fun _ n2 _ => ?_) fun _ _ _ => trivial
  rw [Act.wp_bind, Act.wp_get, Act.wp_bind]
  refine Act.wp_mono (hconst _ _) (fun light n3 _ => ?_) fun _ _ _ => trivial
  rw [Act.wp_bind, Act.wp_get, Act.wp_bind, Act.wp_assert]
  intro hleads
  rw [Act.wp_bind, Act.wp_assert]
  intro _
  rw [Act.wp_bind, Act.wp_modify, Act.wp_bind, Act.wp_get, Act.wp_bind, Act.wp_assert]
  intro _
  rw [Act.wp_pure]
  exact of_decide_eq_true hleads

end RawNode

open Peer

variable {cs : ConfState} {sent : List Message} {B : Book} {H H' : Chronicle Entry}

namespace Driver

variable {d d' : Driver σ}

/-- The logs of the node, its acknowledgements and its votes are those of the chronicle. -/
def Recorded (cs : ConfState) (sent : List Message) (H : Chronicle Entry) (d : Driver σ) : Prop :=
  ∃ F S, Records cs sent H F S d.raw.raft.core

/-- What a step leaves. -/
def Chronicled (cs : ConfState) (sent : List Message) (H : Chronicle Entry) (d : Driver σ) (msgs : List Message)
    (d' : Driver σ) : Prop :=
  ∃ H', Adds cs sent d.raw.raft.core.id H H' ∧ Witnessed cs (sent ++ msgs) H' ∧ Recorded cs (sent ++ msgs) H' d'

theorem Chronicled.silent (hadds : Adds cs sent d.raw.raft.core.id H H') (hW : Witnessed cs sent H')
    (h : Recorded cs sent H' d') : Chronicled cs sent H d [] d' := by
  refine ⟨H', hadds, ?_, ?_⟩ <;> rwa [List.append_nil]

theorem Chronicled.of_acts {ok : Message → Prop} {raw : RawNode σ} (hcs : cs.Plural) (hv : Votes cs sent d)
    (hsent : ∀ x ∈ sent, x.Sincere cs sent) (hW : Witnessed cs sent H) (h : Recorded cs sent H d)
    (hacts : Acts False ok d.raw.raft.core raw.raft.core) (hok : ∀ m, ok m → m.Genuine sent d.raw.raft.core.id)
    (p : Option Ready) : Chronicled cs sent H d [] ⟨raw, p⟩ := by
  obtain ⟨F, S, h⟩ := h
  obtain ⟨H', F', hadds, hW', h'⟩ := Acts.records hcs hv.peer hsent hok hW h hacts
  exact .silent hadds hW' ⟨F', S, h'⟩

/-- Time and reports come from nobody. -/
theorem genuine_beat {m : Message} (h : m.msgType = .beat) (id : ℕ) : ∀ x, m = x → x.Genuine sent id := by
  rintro x rfl
  exact Message.genuine_of_local (Or.inr (Or.inl h))

/-- A written batch is reported. -/
theorem recorded_reported (hs : d.Sound) (hw : Writing cs sent B d.raw.raft.core) (hB : Certified cs sent B)
    {F S : List Entry} (h : Records cs sent H F S d.raw.raft.core) {rd : Ready} {n' : RawNode σ}
    (hp : d.pending = some rd) (hr : RawNode.Reported rd d.raw n')
    (ht : RawNode.TailHeld rd d.raw.raft.raftLog) : Records cs sent H F S n'.raft.core := by
  have hb := hs.batch rd hp
  have hlog := hr.log_eq ht hs.raft.log hb.written hb.snapshot_term hB hw
  obtain ⟨l', hset, rfl⟩ := hr.result
  have hsame := hset.same
  have hpending : l'.unstable.snapshot.map Snapshot.metadata = none := by
    have hnone : d.raw.raft.raftLog.unstable.snapshot.map Snapshot.metadata = none := h.logs.pending
    rcases hset.snapshot with heq | ⟨heq, -⟩
    · rw [heq]
      exact hnone
    · rw [heq]
      rfl
  refine h.quiet ?_ rfl
  show (d.raw.raft.id, l'.log, LawfulStorage.view l'.store, d.raw.raft.messages,
    l'.unstable.snapshot.map Snapshot.metadata, l'.committed, l'.persisted) = _
  rw [hpending, ← h.logs.pending, show l'.log = d.raw.raft.core.log from hlog, show l'.store = _ by rw [hsame],
    show l'.committed = _ by rw [hsame], show l'.persisted = _ by rw [hsame]]
  rfl

/-- A written batch is reported, and that it is durable. -/
theorem recorded_advanced (hcs : cs.Plural) (hv : Votes cs sent d) (hsent : ∀ x ∈ sent, x.Sincere cs sent)
    (hw : Writing cs sent B d.raw.raft.core) (hB : Certified cs sent B) (hW : Witnessed cs sent H)
    {F S : List Entry} (h : Records cs sent H F S d.raw.raft.core) {rd : Ready} {n1 n2 : RawNode σ}
    (hp : d.pending = some rd) (h1 : RawNode.Reported rd d.raw n1) (h2 : RawNode.Persisted n1 n2)
    (ht : RawNode.TailHeld rd d.raw.raft.raftLog) :
    ∃ H' F', Adds cs sent d.raw.raft.core.id H H' ∧ Witnessed cs sent H' ∧ Records cs sent H' F' S n2.raft.core := by
  have hrec := recorded_reported hv.sound hw hB h hp h1 ht
  have hv1 := hv.reported hsent hp h1
  have hid : n1.raft.core.id = d.raw.raft.core.id := by
    obtain ⟨l', -, rfl⟩ := h1.result
    rfl
  obtain ⟨r', recs, rfl, -, -, hmicros⟩ := h2.result
  have hacts : Acts False (Eq reportMessage) n1.raft.core r'.core := Acts.of_micros rfl hmicros
  have hadds := Acts.records hcs hv1.peer hsent (genuine_beat rfl _) hW hrec hacts
  rw [hid] at hadds
  exact hadds

/-- A batch is taken and written, and its messages are sent. -/
theorem Chronicled.ready (hv : Votes cs sent d) (hW : Witnessed cs sent H) (h : Recorded cs sent H d)
    {rd : Ready} {raw : RawNode σ} {store : σ} (hspec : RawNode.ReadySpec d.raw rd raw)
    (hw : rd.write raw.store = .ok store) (hp : d.pending = none)
    (hv' : Votes cs (sent ++ rd.light.messages) ⟨raw.setStore store, some rd⟩)
    (honce : ∀ x ∈ sent ++ rd.light.messages, ∀ y ∈ sent ++ rd.light.messages, ∀ v t i j,
      x.Tells v t i → y.Tells v t j → i = j) :
    Chronicled cs sent H d rd.light.messages ⟨raw.setStore store, some rd⟩ := by
  obtain ⟨F, S, h⟩ := h
  have hs := hv.sound
  obtain ⟨u, hu⟩ := hspec.raft
  have hraft : raw.raft.raftLog = d.raw.raft.raftLog := by rw [hu]
  have hw' : rd.write d.raw.raft.raftLog.store = .ok store := by
    rw [← hraft]
    exact hw
  have hsnap : d.raw.raft.raftLog.unstable.snapshot = none := Option.map_eq_none_iff.mp h.logs.pending
  obtain ⟨hvalid, hstore⟩ := Ready.write_ok hs.raft.log hspec.entries hspec.snapshot hw'
  obtain ⟨-, hlog⟩ := hs.raft.log.setStore hvalid hstore
  have hhs := Ready.write_hardState hs.raft.log hspec.entries (hspec.snapshot.trans hsnap) hw'
  have hmessages : rd.light.messages = d.raw.raft.core.out := hspec.messages
  rw [hmessages] at hv' honce ⊢
  have hlog' : d.raw.raft.raftLog.log = d.raw.raft.core.log := rfl
  rw [hlog'] at hstore hlog
  -- the term of the node and its commit index, or one below it, have been written
  have hkept : rd.hs = none → d.raw.raft.core.term ≤ d.saved.term := by
    intro hn
    have heq : d.raw.raft.hardState = d.raw.prevHs := by
      by_contra hne
      have := hspec.hs
      rw [if_neg hne, hn] at this
      cases this
    have hb : Bound d.handedHs.term d.handedHs.vote d.raw.raft.core.term d.raw.raft.core.vote := by
      unfold handedHs
      rw [hp]
      show Bound d.raw.prevHs.term d.raw.prevHs.vote _ _
      rw [← heq]
      exact Or.inr ⟨rfl, rfl⟩
    rcases hv.handed _ _ hb with hlt | ⟨heq, -⟩
    · exact hlt.le
    · exact heq.le
  have hnew : ∀ hs, rd.hs = some hs → hs = d.raw.raft.hardState := by
    intro hs hh
    have := hspec.hs
    split at this
    · rw [hh] at this
      cases this
    · rw [hh] at this
      exact Option.some.inj this
  have hterm : d.raw.raft.core.term ≤ (LawfulStorage.view store).hardState.term := by
    rw [hhs]
    cases hh : rd.hs with
    | none => exact hkept hh
    | some hs =>
        rw [hnew hs hh]
        exact le_rfl
  have hcommit : (LawfulStorage.view store).hardState.commit ≤ d.raw.raft.core.committed := by
    rw [hhs]
    cases hh : rd.hs with
    | none => exact h.logs.saved_le
    | some hs =>
        rw [hnew hs hh]
        exact le_rfl
  have hview : (LawfulStorage.view store).log.Full F := by
    rw [hstore]
    exact h.logs.full
  have hstored : Records cs sent H F F { d.raw.raft.core with store := LawfulStorage.view store } := by
    refine h.restore hv.peer rfl h.logs.full hview (congrArg Log.base hstore) h.logs.base_le h.logs.base_persisted
      h.logs.rooted (fun e he => (h.logs.below e he).trans hterm) rfl ((min_le_left _ _).trans hterm) hcommit
      (h.logs.safe.mono hcommit) fun t n ht _ hr _ => hr.raise ht hterm
  have hacks : ∀ x ∈ d.raw.raft.core.out, x.Acks → x.term ≤ (LawfulStorage.view store).hardState.term ∧
      ∀ n, 0 < n → n ≤ x.index → H.Recalls Entry.term (Quorum cs) F
        (LawfulStorage.view store).hardState.term x.term n := by
    intro x hx hk
    obtain ⟨-, -, h1, h2⟩ := h.speech.acking x hx hk
    exact ⟨h1.trans hterm, fun n hn hidx => (h2 n hn hidx).raise h1 hterm⟩
  have hcore : (raw.setStore store).raft.core = { d.raw.raft.core with
      out := [], readStates := [], store := LawfulStorage.view store } := by
    show Raft.core { raw.raft with raftLog := { raw.raft.raftLog with store := store } } = _
    rw [hu]
    unfold Raft.core
    simp only [hlog, Peer.mk.injEq, true_and, and_true]
    rfl
  have htold : ∀ t, Told (sent ++ d.raw.raft.core.out) d.raw.raft.core.id t →
      t ≤ (LawfulStorage.view store).hardState.term := by
    rintro t ⟨q, hq, i, ht⟩
    have hid : (raw.setStore store).raft.core.id = d.raw.raft.core.id := by rw [hcore]
    rw [← hid] at ht
    rcases hv'.durable q hq t i ht with hlt | ⟨heq, -⟩
    · exact hlt.le
    · exact heq.le
  obtain ⟨hadds, hW', hrec⟩ := hstored.flush hW (fun x hx => (hv.peer.queue x hx).2) honce hacks htold
  refine ⟨_, hadds, hW', F, F, ?_⟩
  show Records cs _ _ F F (raw.setStore store).raft.core
  rw [hcore]
  exact hrec.quiet rfl rfl

/-- A light batch is handed out: it acknowledges nothing. -/
theorem Chronicled.light (hv : Votes cs sent d) (hW : Witnessed cs sent H) {F S : List Entry}
    (h : Records cs sent H F S d.raw.raft.core) {since : ℕ} {l : LightReady} {n' : RawNode σ}
    (hl : RawNode.LightSpec d.raw since l n') {hs : HardState} {p : Option Ready}
    (hleads : n'.raft.state = .leader ∨ l.messages = [])
    (hv' : Votes cs (sent ++ l.messages) ⟨{ n' with prevHs := hs }, p⟩)
    (honce : ∀ x ∈ sent ++ l.messages, ∀ y ∈ sent ++ l.messages, ∀ v t i j,
      x.Tells v t i → y.Tells v t j → i = j) :
    Chronicled cs sent H d l.messages ⟨{ n' with prevHs := hs }, p⟩ := by
  obtain ⟨u, hu⟩ := hl.raft
  have hmessages : l.messages = d.raw.raft.core.out := hl.messages
  have hcore : n'.raft.core = { d.raw.raft.core with out := [] } := by
    rw [hu]
    rfl
  have hrole : n'.raft.state = d.raw.raft.core.role := by
    rw [hu]
    rfl
  have hnone : ∀ x ∈ d.raw.raft.core.out, ¬ x.Acks := by
    rcases hleads with hr | hnil
    · exact (h.leading (hrole.symm.trans hr)).quiet
    · rw [hmessages] at hnil
      rw [hnil]
      exact nofun
  rw [hmessages] at hv' honce ⊢
  have hstored : (LawfulStorage.view n'.raft.raftLog.store) = d.raw.raft.core.store := by
    rw [hu]
    rfl
  have htold : ∀ t, Told (sent ++ d.raw.raft.core.out) d.raw.raft.core.id t →
      t ≤ d.raw.raft.core.store.hardState.term := by
    rintro t ⟨q, hq, i, ht⟩
    have hid : n'.raft.core.id = d.raw.raft.core.id := by rw [hcore]
    rw [← hid] at ht
    rw [← hstored]
    rcases hv'.durable q hq t i ht with hlt | ⟨heq, -⟩
    · exact hlt.le
    · exact heq.le
  obtain ⟨hadds, hW', hrec⟩ := h.flush hW (fun x hx => (hv.peer.queue x hx).2) honce
    (fun x hx hk => absurd hk (hnone x hx)) htold
  refine ⟨_, hadds, hW', F, S, ?_⟩
  show Records cs _ _ F S n'.raft.core
  rw [hcore]
  exact hrec

/-- The log is compacted. -/
theorem recorded_compact (hv : Votes cs sent d) {F S : List Entry} (h : Records cs sent H F S d.raw.raft.core)
    {snap : Snapshot} {store : σ} (hi : snap.metadata.index ≤ d.raw.commitSinceIndex)
    (hd : snap.metadata.index ≤ d.raw.raft.raftLog.persisted)
    (ht : Storage.term d.raw.store snap.metadata.index = .ok snap.metadata.term)
    (hw : WritableStorage.applyLocalSnapshot d.raw.store snap = .ok store) :
    Records cs sent H F S (d.raw.setStore store).raft.core := by
  have hs := hv.sound
  obtain ⟨hvalid, hview, hlo, hhi⟩ := LawfulStorage.applyLocalSnapshot_ok hs.raft.log.valid hw
  obtain ⟨-, hlog⟩ := compact_ok hs hi hd hw
  obtain ⟨t, hterm, hterm'⟩ := LawfulStorage.term_eq hs.raft.log.valid hlo.le hhi
  have heq : snap.metadata.term = t := Except.ok.inj (ht.symm.trans hterm)
  rw [← heq] at hterm'
  have hsnap : d.raw.raft.raftLog.unstable.snapshot = none := Option.map_eq_none_iff.mp h.logs.pending
  rw [if_pos hsnap] at hlog
  have hlt : snap.metadata.index < d.raw.raft.raftLog.unstable.offset := lt_of_le_of_lt hd hs.raft.log.persisted_lt
  have hin : d.raw.raft.core.log.termAt snap.metadata.index = some snap.metadata.term :=
    (hs.raft.log.termAt_lt hsnap hlt).trans hterm'
  have hbounds := Log.termAt_isSome_iff.mp (by rw [hin]; rfl)
  have hcom : snap.metadata.index ≤ d.raw.raft.core.committed := hi.trans hs.since_le
  have hfull : (d.raw.setStore store).raft.core.log.Full F := by
    show ({ d.raw.raft.raftLog with store := store } : RaftLog σ).log.Full F
    rw [hlog]
    exact h.logs.full.compact hbounds.1 hbounds.2 hin
  have hstored : (LawfulStorage.view store).log.Full S := by
    rw [hview]
    exact h.logs.stored.compact hlo.le hhi hterm'
  have hbase : (d.raw.setStore store).raft.core.log.base = snap.metadata.index := by
    show ({ d.raw.raft.raftLog with store := store } : RaftLog σ).log.base = _
    rw [hlog]
    rfl
  have hsaved : (LawfulStorage.view store).hardState = { d.raw.raft.core.store.hardState with
      term := max d.raw.raft.core.store.hardState.term snap.metadata.term
      commit := max d.raw.raft.core.store.hardState.commit snap.metadata.index } := by
    rw [hview]
    rfl
  have hraise : d.raw.raft.core.store.hardState.term ≤ (LawfulStorage.view store).hardState.term := by
    rw [hsaved]
    exact le_max_left _ _
  refine h.restore hv.peer rfl hfull hstored ?_ ?_ ?_ h.logs.rootedS
    (fun e he => (h.logs.belowS e he).trans hraise) h.logs.persisted ((min_le_right _ _).trans hraise) ?_ ?_
    fun t n _ h2 _ hr => hr.raise h2 hraise
  · rw [hbase]
    show (LawfulStorage.view store).log.base = _
    rw [hview]
    rfl
  · rw [hbase]
    exact hcom
  · rw [hbase]
    exact hd
  · show (LawfulStorage.view store).hardState.commit ≤ _
    rw [hsaved]
    exact max_le h.logs.saved_le hcom
  · show H.Safe Entry.term (Quorum cs) S (LawfulStorage.view store).hardState.commit
    rw [hsaved]
    rcases max_cases d.raw.raft.core.store.hardState.commit snap.metadata.index with ⟨hmax, -⟩ | ⟨hmax, -⟩
    · show H.Safe _ _ S (max _ _)
      rw [hmax]
      exact h.logs.saved
    · show H.Safe _ _ S (max _ _)
      rw [hmax]
      exact (h.logs.safe.mono hcom).congr (Chronicle.take_of_take h.logs.persisted hd)

/-- Every step of a node on genuine messages is a step of the chronicle. -/
theorem Chronicled.of_step {SameData : σ → σ → Prop} (hsame : Faithful SameData) (hcs : cs.Plural)
    (hv : Votes cs sent d) (hsent : ∀ x ∈ sent, x.Sincere cs sent) (hw : Writing cs sent B d.raw.raft.core)
    (hB : Certified cs sent B) (hW : Witnessed cs sent H) (h : Recorded cs sent H d) {ev : Event}
    (hstep : Step SameData d ev d') (hcall : ∀ x, ev = .call x → x.Genuine sent d.raw.raft.core.id)
    (hready : ∀ rd, ev = .ready rd → d.pending = none) (hv' : Votes cs (sent ++ ev.messages) d')
    (honce : ∀ x ∈ sent ++ ev.messages, ∀ y ∈ sent ++ ev.messages, ∀ v t i j,
      x.Tells v t i → y.Tells v t j → i = j) : Chronicled cs sent H d ev.messages d' := by
  have hs := hv.sound
  cases hstep with
  | call x r hf hl =>
      have hx := hcall x rfl
      obtain ⟨c, hacts, rfl | ⟨cc, res, rfl, -⟩⟩ := (Raft.called_of_leaves hs.raft hf hl).acts
      · exact Chronicled.of_acts hcs hv hsent hW h hacts (fun _ hm => hx.handles hm) d.pending
      · exact hx.elim
  | ready rd raw store hr hwrite =>
      have hspec := Act.wp_ok (RawNode.wp_getReady hs.raft) hr
      exact Chronicled.ready hv hW h hspec hwrite (hready rd rfl) hv' honce
  | failedReady e raw hr =>
      have heq := Act.wp_err (RawNode.wp_getReady hs.raft) hr
      rw [heq]
      exact .silent .refl hW h
  | advanceAppendAsync rd raw hp hl =>
      obtain ⟨F, S, h⟩ := h
      have hb := hs.batch rd hp
      have hwp := Act.wp_and (RawNode.wp_commitReady hs.raft.log hb.written hb.snapshot_term hb.record)
        (RawNode.wp_commitReady_tail hb.record)
      obtain ⟨hr, ht⟩ := hl.of_wp (Act.wp_mono hwp (fun _ _ hr => hr) fun _ _ hf => hf.1.elim)
      exact .silent .refl hW ⟨F, S, recorded_reported hs hw hB h hp hr ht⟩
  | onPersistReady number raw hl =>
      obtain ⟨r', recs, rfl, -, -, hmicros⟩ :=
        (hl.of_wp (RawNode.wp_onPersistReady hs.raft number)).result
      have hacts : Acts False (Eq reportMessage) d.raw.raft.core r'.core := Acts.of_micros rfl hmicros
      exact Chronicled.of_acts hcs hv hsent hW h hacts (genuine_beat rfl _) d.pending
  | advanceAppend rd l raw hp hr =>
      obtain ⟨F, S, h⟩ := h
      have hb := hs.batch rd hp
      have ht := Act.wp_ok (hs.wp_advanceAppend_tail hp) hr
      have hleads := Act.wp_ok RawNode.wp_advanceAppend_leads hr
      obtain ⟨n1, n2, n3, h1, h2, h3, hdone, heq⟩ := (Act.wp_ok (RawNode.wp_advanceAppend hs.raft
        hb.written hb.snapshot_term hb.record) hr).result
      rw [heq] at hleads hv' ⊢
      obtain ⟨H1, F1, hadds, hW1, hrec⟩ := recorded_advanced hcs hv hsent hw hB hW h hp h1 h2 ht
      have hv1 := hv.reported hsent hp h1
      obtain ⟨hv2, hid2⟩ := hv1.persisted hsent h2
      have hid : n2.raft.core.id = d.raw.raft.core.id := by
        refine hid2.trans ?_
        obtain ⟨l', -, rfl⟩ := h1.result
        rfl
      obtain ⟨H2, hadds2, hW2, hrec2⟩ := Chronicled.light hv2 hW1 hrec h3 hleads hv' honce
      have hadds2 : Adds cs sent n2.raft.core.id H1 H2 := hadds2
      rw [hid] at hadds2
      exact ⟨H2, hadds.trans hadds2, hW2, hrec2⟩
  | failedAdvance rd e raw hp hr =>
      obtain ⟨F, S, h⟩ := h
      have hb := hs.batch rd hp
      have ht := Act.wp_err (hs.wp_advanceAppend_tail hp) hr
      obtain ⟨n1, h1, h2⟩ := (Act.wp_err (RawNode.wp_advanceAppend hs.raft
        hb.written hb.snapshot_term hb.record) hr).result
      obtain ⟨H1, F1, hadds, hW1, hrec⟩ := recorded_advanced hcs hv hsent hw hB hW h hp h1 h2 ht
      exact .silent hadds hW1 ⟨F1, S, hrec⟩
  | advanceApply raw hl =>
      obtain ⟨hmicros, -⟩ := hl.of_wp (wp_advanceApply_acts hs.raft)
      have hacts : Acts False (Eq idleMessage) d.raw.raft.core raw.raft.core := Acts.of_micros rfl hmicros
      exact Chronicled.of_acts hcs hv hsent hW h hacts (genuine_beat rfl _) d.pending
  | compact snap rs store hp hi hd ht hst hc hwrite =>
      obtain ⟨F, S, h⟩ := h
      exact .silent .refl hW ⟨F, S, recorded_compact hv h hi hd ht hwrite⟩
  | drift store hst =>
      obtain ⟨F, S, h⟩ := h
      obtain ⟨hvalid, hview⟩ := hsame _ _ hst hs.raft.log.valid
      have hlog : (LawfulStorage.view store).log = d.raw.raft.raftLog.storeLog := by
        rw [hview]
        rfl
      obtain ⟨-, heq⟩ := hs.raft.log.driftStore hvalid hlog
      refine .silent .refl hW ⟨F, S, h.quiet ?_ rfl⟩
      show (d.raw.raft.id, ({ d.raw.raft.raftLog with store := store } : RaftLog σ).log, LawfulStorage.view store,
        d.raw.raft.messages, d.raw.raft.raftLog.unstable.snapshot.map Snapshot.metadata,
        d.raw.raft.raftLog.committed, d.raw.raft.raftLog.persisted) = _
      rw [heq, hview]
      rfl

omit [LawfulStorage σ] in
theorem Resumes.loaded [LawfulStorage σ] {config : Config} {store : σ} (h : Resumes config store) :
    Raft.loadedState config (LawfulStorage.view store) = (LawfulStorage.view store).hardState := by
  unfold Raft.loadedState
  split
  · rfl
  · rename_i hnot
    exact (h.load.resolve_left hnot).symm

/-- A started node goes on from what was stored. -/
theorem recorded_of_starts {config : Config} {prng : List ℕ} (hv : Votes cs sent d) (h : Recorded cs sent H d)
    (hW : Witnessed cs sent H) (hid : d.raw.raft.core.id = config.id) (hres : Resumes config d.raw.store)
    (hstart : Starts config prng d.raw.store d') : Recorded cs sent H d' := by
  obtain ⟨F, S, h⟩ := h
  have hboot := booted_of_starts hv.sound.raft.log.valid hres hstart
  have hload := hres.loaded
  have hview : LawfulStorage.view d.raw.store = d.raw.raft.core.store := rfl
  rw [hview] at hload
  have hterm : d'.raw.raft.core.term = d.raw.raft.core.store.hardState.term :=
    hboot.term.trans (congrArg HardState.term hload)
  have hcommitted : d'.raw.raft.core.committed = max d.raw.raft.core.log.base
      d.raw.raft.core.store.hardState.commit := by
    rw [← h.logs.base_eq]
    exact hboot.committed.trans (congrArg (fun hs => max _ (HardState.commit hs)) hload)
  have hlog : d'.raw.raft.core.log = d.raw.raft.core.store.log := hboot.log
  have hstore : d'.raw.raft.core.store = d.raw.raft.core.store := hboot.store
  have hlast := h.logs.stored.last
  have hpers : d'.raw.raft.core.persisted = S.length := hboot.persisted.trans hlast
  have hid' : d'.raw.raft.core.id = d.raw.raft.core.id := hboot.id.trans hid.symm
  have hbase : d.raw.raft.core.store.log.base ≤ S.length := h.logs.stored.le
  refine ⟨S, S, ⟨?_, ?_, fun hr => ?_, fun hr => ?_⟩⟩
  · exact {
      full := hlog ▸ h.logs.stored
      stored := hstore ▸ h.logs.stored
      base_eq := by rw [hstore, hlog]
      pending := hboot.pending
      rooted := h.logs.rootedS
      rootedS := h.logs.rootedS
      below := hterm ▸ h.logs.belowS
      belowS := hstore ▸ h.logs.belowS
      base_le := by
        rw [hlog, hcommitted, h.logs.base_eq]
        exact le_max_left _ _
      base_persisted := by
        rw [hlog, hpers]
        exact hbase
      persisted_le := hpers.le
      persisted := rfl
      safe := hcommitted ▸ h.logs.safe_saved
      saved_le := by
        rw [hstore, hcommitted]
        exact le_max_right _ _
      saved := hstore ▸ h.logs.saved }
  · refine ⟨?_, ?_, ?_, ?_, ?_, ?_⟩
    · rw [hboot.out]
      exact nofun
    · rw [hboot.out]
      exact nofun
    · rw [hboot.out]
      exact nofun
    · rw [hid', hstore]
      exact h.speech.told
    · rw [hid', hstore, hterm]
      intro t n ha
      obtain ⟨-, h2, -, h4⟩ := h.speech.acked t n ha
      exact ⟨h2, h2, h4, h4⟩
    · rw [hid', hboot.out]
      intro y hy t' i ht t n ha htt hn
      have hy : y ∈ sent := hy.resolve_right List.not_mem_nil
      have ha := ha.resolve_right fun ⟨x, hx, _⟩ => absurd hx List.not_mem_nil
      exact (hW.vouch y hy _ t' i ht t n ha htt hn).mono .refl fun q hq => Or.inl hq
  · rw [hboot.role] at hr
    cases hr
  · rw [hboot.role] at hr
    cases hr

end Driver

/-! ### Clusters -/

namespace Network

open Driver

variable {ι : Type} [DecidableEq ι] {ids : ι → ℕ} {SameData : σ → σ → Prop} {c c' : Network ι σ}

/-- A step of a run in which messages come from nodes and no snapshot is installed. -/
inductive Plain (ids : ι → ℕ) (SameData : σ → σ → Prop) : Network ι σ → Event → Network ι σ → Prop
  | act (c : Network ι σ) (i : ι) (ev : Event) (d : Driver σ) (h : Driver.Step SameData (c.nodes i) ev d)
      (hcall : ∀ x, ev = .call x → x.Genuine c.sent (ids i))
      (hready : ∀ rd, ev = .ready rd → (c.nodes i).pending = none) :
      Plain ids SameData c ev ⟨Function.update c.nodes i d, c.sent ++ ev.messages⟩
  | restart (c : Network ι σ) (i : ι) (config : Config) (prng : List ℕ) (d : Driver σ) (hid : config.id = ids i)
      (hres : Resumes config (c.nodes i).raw.store) (h : Driver.Starts config prng (c.nodes i).raw.store d) :
      Plain ids SameData c .none ⟨Function.update c.nodes i d, c.sent⟩

abbrev PlainSteps (ids : ι → ℕ) (SameData : σ → σ → Prop) : Network ι σ → Network ι σ → Prop :=
  Relation.ReflTransGen fun c c' => ∃ ev, Plain ids SameData c ev c'

theorem Plain.step {ev : Event} (h : Plain ids SameData c ev c') : Step ids SameData c c' := by
  cases h with
  | act i ev d hd hcall hready => exact .act c i ev d hd (fun x hx => (hcall x hx).admitted) hready
  | restart i config prng d hid hres hd => exact .restart c i config prng d hid hres hd

theorem PlainSteps.steps (h : PlainSteps ids SameData c c') : Steps ids SameData c c' := by
  induction h with
  | refl => exact .refl
  | tail _ hstep ih =>
      obtain ⟨ev, hstep⟩ := hstep
      exact ih.tail hstep.step

/-- No node has a log yet. -/
def Fresh (c : Network ι σ) : Prop := ∀ i l, c.Keeps i l → l = ⟨0, 0, []⟩

/-- The logs of all nodes, their acknowledgements and their votes are those of one chronicle. -/
structure Chronicles (cs : ConfState) (ids : ι → ℕ) (B : Book) (H : Chronicle Entry) (c : Network ι σ) : Prop where
  drawn : Drawn cs ids B c
  named : ∀ x ∈ c.sent, ∀ v t a, x.Tells v t a → ∃ i, ids i = v
  witnessed : Witnessed cs c.sent H
  recorded : ∀ i, Recorded cs c.sent H (c.nodes i)

omit [DecidableEq ι] in
theorem chronicles_of_starts (h : Starts ids cs c) (hfresh : c.Fresh) :
    Chronicles cs ids Ledger.blank Chronicle.blank c := by
  have hdrawn := drawn_of_starts h fun i l hl => by rw [hfresh i l hl]
  obtain ⟨hnodes, hsent⟩ := h
  have hnone : ∀ x, x ∉ c.sent := by
    rw [hsent]
    exact fun _ => List.not_mem_nil
  have htold : ∀ v t, ¬ Told c.sent v t := fun v t ⟨x, hx, _⟩ => hnone x hx
  refine ⟨hdrawn, fun x hx => absurd hx (hnone x), ?_, fun i => ⟨[], [], ?_⟩⟩
  · exact ⟨⟨nofun, nofun, nofun, nofun, nofun, nofun, nofun⟩, fun x hx => absurd hx (hnone x), nofun,
      fun x hx => absurd hx (hnone x), fun x hx => absurd hx (hnone x)⟩
  · obtain ⟨config, prng, store, -, hv, -, hres, hst⟩ := hnodes i
    have hboot := booted_of_starts hv hres hst
    have hlog : (c.nodes i).raw.raft.core.log = ⟨0, 0, []⟩ := hfresh i _ (Or.inl rfl)
    have hstored : (c.nodes i).raw.raft.core.store.log = ⟨0, 0, []⟩ := hfresh i _ (Or.inr rfl)
    have hbase : (LawfulStorage.view store).log.base = 0 := by
      rw [← hboot.log, hlog]
    have hcommitted : (c.nodes i).raw.raft.core.committed ≤ 0 := by
      have hle : (c.nodes i).raw.raft.core.committed ≤ (c.nodes i).raw.raft.core.log.last :=
        (hdrawn.inv.votes i).sound.raft.log.committed_le
      rwa [hlog] at hle
    have hsaved : (c.nodes i).raw.raft.core.store.hardState.commit ≤ 0 := by
      have heq := hboot.committed
      rw [hres.loaded] at heq
      rw [hboot.store]
      omega
    have hpers : (c.nodes i).raw.raft.core.persisted = 0 := by
      rw [hboot.persisted, ← hboot.log, hlog]
      rfl
    have hfull : (⟨0, 0, []⟩ : Log).Full [] := ⟨trivial, le_rfl, rfl, Or.inl ⟨rfl, rfl⟩⟩
    refine ⟨?_, ⟨?_, ?_, ?_, fun t ht => absurd ht (htold _ t), nofun, ?_⟩, fun hr => ?_, fun hr => ?_⟩
    · exact {
        full := hlog ▸ hfull
        stored := hstored ▸ hfull
        base_eq := by rw [hlog, hstored]
        pending := hboot.pending
        rooted := nofun
        rootedS := nofun
        below := nofun
        belowS := nofun
        base_le := by
          rw [hlog]
          exact Nat.zero_le _
        base_persisted := by
          rw [hlog]
          exact Nat.zero_le _
        persisted_le := hpers.le
        persisted := rfl
        safe := Or.inl (Nat.le_zero.mp hcommitted)
        saved_le := hsaved.trans (Nat.zero_le _)
        saved := Or.inl (Nat.le_zero.mp hsaved) }
    · rw [hboot.out]
      exact nofun
    · rw [hboot.out]
      exact nofun
    · rw [hboot.out]
      exact nofun
    · rw [hboot.out]
      exact fun y hy => absurd (hy.resolve_right List.not_mem_nil) (hnone y)
    · rw [hboot.role] at hr
      cases hr
    · rw [hboot.role] at hr
      cases hr

omit [DecidableEq ι] in
/-- A step of another node: it writes in terms that it has won, and acknowledges for itself. -/
theorem Chronicles.others (hids : Function.Injective ids) (h : Chronicles cs ids B H c) {i j : ι} (hij : j ≠ i)
    (hadds : Adds cs c.sent (ids i) H H') {msgs : List Message}
    (honce : ∀ x ∈ c.sent ++ msgs, ∀ y ∈ c.sent ++ msgs, ∀ v t a b, x.Tells v t a → y.Tells v t b → a = b)
    (hspoken : ∀ x ∈ msgs, ∀ v t a, x.Tells v t a → v = ids i) : Recorded cs (c.sent ++ msgs) H' (c.nodes j) := by
  obtain ⟨F, S, hrec⟩ := h.recorded j
  have hinv := h.drawn.inv
  have hid := hinv.id j
  have hpeer := (hinv.votes j).peer
  have hne : ids j ≠ ids i := fun heq => hij (hids heq)
  -- in a term of this node nothing changes
  have hsame : ∀ t, Elected cs c.sent (c.nodes j).raw.raft.core.id t → H'.log t = H.log t := by
    intro t hwon
    refine (hadds.log t).resolve_right fun hwon' => hne ?_
    rw [← hid]
    exact hwon.unique hwon' fun x hx y hy v a b => hinv.once x hx y hy v t a b
  have hgrown := hrec.grow hpeer hadds.grows (fun hr => hsame _ (hpeer.leads hr))
    (fun hr hwon => (hsame _ hwon).trans ((hrec.standing hr).free hwon))
    fun t n ha => Or.inl (hadds.ack _ (by rw [hid]; exact hne) t n ha)
  refine ⟨F, S, hgrown.heard (fun t L hL => ?_) (fun _ hx => List.mem_append_left _ hx) honce fun q hq t a ht => ?_⟩
  · rcases hadds.log t with heq | hwon
    · exact h.witnessed.certified t L (heq.symm.trans hL)
    · exact ⟨_, hwon⟩
  · refine (List.mem_append.mp hq).resolve_right fun hq => hne ?_
    rw [← hid]
    exact hspoken q hq _ t a ht

theorem Chronicles.act (hids : Function.Injective ids) (h : Chronicles cs ids B H c) {B' : Book} {i : ι}
    {d : Driver σ} {msgs : List Message} (hdrawn : Drawn cs ids B' ⟨Function.update c.nodes i d, c.sent ++ msgs⟩)
    (hspoken : ∀ x ∈ msgs, ∀ v t a, x.Tells v t a → v = ids i)
    (hd : Driver.Chronicled cs c.sent H (c.nodes i) msgs d) :
    ∃ H', Extends Entry.term H H' ∧ Chronicles cs ids B' H' ⟨Function.update c.nodes i d, c.sent ++ msgs⟩ := by
  obtain ⟨H', hadds, hW, hrec⟩ := hd
  rw [h.drawn.inv.id i] at hadds
  refine ⟨H', hadds.grows, hdrawn, fun x hx v t a ht => ?_, hW, fun j => ?_⟩
  · rcases List.mem_append.mp hx with hx | hx
    · exact h.named x hx v t a ht
    · exact ⟨i, (hspoken x hx v t a ht).symm⟩
  · by_cases hij : j = i
    · subst hij
      dsimp only
      rw [Function.update_self]
      exact hrec
    · dsimp only
      rw [Function.update_of_ne hij]
      exact h.others hids hij hadds hdrawn.inv.once hspoken

theorem Chronicles.step (hids : Function.Injective ids) (hsame : Driver.Faithful SameData) (hcs : cs.Plural)
    (h : Chronicles cs ids B H c) {ev : Event} (hstep : Plain ids SameData c ev c') :
    ∃ B' H', Extends Entry.term H H' ∧ Chronicles cs ids B' H' c' := by
  have hinv := h.drawn.inv
  obtain ⟨B', -, hdrawn⟩ := h.drawn.step hids hsame hcs hstep.step
  cases hstep with
  | act i ev d hd hcall hready =>
      have hcall' : ∀ x, ev = .call x → x.Genuine c.sent (c.nodes i).raw.raft.core.id := by
        rw [hinv.id i]
        exact hcall
      have hvoted := (hinv.votes i).step hsame hinv.sincere hd (fun x hx => (hcall' x hx).admitted) hready
      refine ⟨B', h.act hids hdrawn (fun x hx v t a ht => ?_) ?_⟩
      · rw [← hinv.id i]
        exact (hvoted.spoken x hx).2 v t a ht
      · exact Driver.Chronicled.of_step hsame hcs (hinv.votes i) hinv.sincere (h.drawn.writing i) h.drawn.certified
          h.witnessed (h.recorded i) hd hcall' hready hvoted.votes hdrawn.inv.once
  | restart i config prng d hid hres hd =>
      have hidi : (c.nodes i).raw.raft.core.id = config.id := (hinv.id i).trans hid.symm
      have hrec := recorded_of_starts (hinv.votes i) (h.recorded i) h.witnessed hidi hres hd
      have hsilent : Driver.Chronicled cs c.sent H (c.nodes i) [] d := .silent .refl h.witnessed hrec
      have hdrawn' : Drawn cs ids B' ⟨Function.update c.nodes i d, c.sent ++ []⟩ := by
        rw [List.append_nil]
        exact hdrawn
      have hact := h.act hids hdrawn' nofun hsilent
      rw [List.append_nil] at hact
      exact ⟨B', hact⟩

theorem Chronicles.steps (hids : Function.Injective ids) (hsame : Driver.Faithful SameData) (hcs : cs.Plural)
    (h : Chronicles cs ids B H c) (hsteps : PlainSteps ids SameData c c') :
    ∃ B' H', Extends Entry.term H H' ∧ Chronicles cs ids B' H' c' := by
  induction hsteps with
  | refl => exact ⟨B, H, .refl, h⟩
  | tail _ hstep ih =>
      obtain ⟨ev, hstep⟩ := hstep
      obtain ⟨B1, H1, hext1, h1⟩ := ih
      obtain ⟨B2, H2, hext2, h2⟩ := h1.step hids hsame hcs hstep
      exact ⟨B2, H2, hext1.trans hext2, h2⟩

section runs
variable (hids : Function.Injective ids) (hsame : Driver.Faithful SameData) (hcs : cs.Plural)
  {c0 c1 c2 : Network ι σ} (hstart : Starts ids cs c0) (hfresh : c0.Fresh)
  (h1 : PlainSteps ids SameData c0 c1) (h2 : PlainSteps ids SameData c1 c2)
include hids hsame hcs hstart hfresh h1 h2

/-- One chronicle for two moments of a run. -/
theorem chronicled_twice : ∃ B1 H1 B2 H2, Extends Entry.term H1 H2 ∧ Chronicles cs ids B1 H1 c1 ∧
    Chronicles cs ids B2 H2 c2 := by
  obtain ⟨B1, H1, -, hc1⟩ := (chronicles_of_starts hstart hfresh).steps hids hsame hcs h1
  obtain ⟨B2, H2, hext, hc2⟩ := hc1.steps hids hsame hcs h2
  exact ⟨B1, H1, B2, H2, hext, hc1, hc2⟩

/-- **What is committed is agreed on.**  Whatever is lost, repeated, delayed or reordered, and however often
nodes compact their logs, crash and are started again: the logs of two nodes, at any two moments of a run,
are the same up to what both have committed. -/
theorem committed_agree {i j : ι} {k : ℕ} (hi : k ≤ (c1.nodes i).raw.raft.raftLog.committed)
    (hj : k ≤ (c2.nodes j).raw.raft.raftLog.committed) (hki : (c1.nodes i).raw.raft.raftLog.log.base < k)
    (hkj : (c2.nodes j).raw.raft.raftLog.log.base < k) :
    (c1.nodes i).raw.raft.raftLog.log.entryAt k = (c2.nodes j).raw.raft.raftLog.log.entryAt k := by
  obtain ⟨B1, H1, B2, H2, hext, hc1, hc2⟩ := chronicled_twice hids hsame hcs hstart hfresh h1 h2
  obtain ⟨F, S, hF⟩ := hc1.recorded i
  obtain ⟨G, T, hG⟩ := hc2.recorded j
  have hsF : H1.Safe Entry.term (Quorum cs) F (c1.nodes i).raw.raft.raftLog.committed := hF.logs.safe
  have hsG : H2.Safe Entry.term (Quorum cs) G (c2.nodes j).raw.raft.raftLog.committed := hG.logs.safe
  have htake := Chronicle.Safe.agree hc2.witnessed.sound quorums_meet (hsF.extends hext) hsG hi hj
  have hfF : (c1.nodes i).raw.raft.raftLog.log.Full F := hF.logs.full
  have hfG : (c2.nodes j).raw.raft.raftLog.log.Full G := hG.logs.full
  rw [hfF.entryAt hki, hfG.entryAt hkj]
  exact Chronicle.getElem?_of_take htake (by omega)

/-- **Leader completeness.**  What a node has committed is in the log of everybody who leads later, in a term
that is not below those of the time of the commit. -/
theorem leader_completeness {i j : ι} {k : ℕ} (hi : k ≤ (c1.nodes i).raw.raft.raftLog.committed)
    (hlead : (c2.nodes j).raw.raft.state = .leader)
    (hterm : ∀ v, (c1.nodes v).raw.raft.term ≤ (c2.nodes j).raw.raft.term) :
    k ≤ (c2.nodes j).raw.raft.raftLog.log.last ∧ ((c1.nodes i).raw.raft.raftLog.log.base < k →
      (c2.nodes j).raw.raft.raftLog.log.base < k →
      (c2.nodes j).raw.raft.raftLog.log.entryAt k = (c1.nodes i).raw.raft.raftLog.log.entryAt k) := by
  obtain ⟨B1, H1, B2, H2, hext, hc1, hc2⟩ := chronicled_twice hids hsame hcs hstart hfresh h1 h2
  obtain ⟨F, S, hF⟩ := hc1.recorded i
  obtain ⟨G, T, hG⟩ := hc2.recorded j
  have hfF : (c1.nodes i).raw.raft.raftLog.log.Full F := hF.logs.full
  have hfG : (c2.nodes j).raw.raft.raftLog.log.Full G := hG.logs.full
  have hlog : H2.log (c2.nodes j).raw.raft.term = some G := (hG.leading hlead).log
  have hsafe : H1.Safe Entry.term (Quorum cs) F k := hF.logs.safe.mono hi
  have htake : k ≤ G.length ∧ G.take k = F.take k := by
    rcases hsafe with rfl | ⟨t, n, L, hchosen, hL, hle, htake⟩
    · exact ⟨Nat.zero_le _, rfl⟩
    obtain ⟨L', hL', hp, -⟩ := hext.log t L hL
    have hlen : n ≤ L.length := by
      obtain ⟨⟨-, W, a, hW, ha, -⟩, -⟩ := hchosen
      rw [hL] at hW
      cases hW
      have := (List.getElem?_eq_some_iff.mp ha).1
      omega
    have hLF : L'.take k = F.take k := (Chronicle.take_of_isPrefix hp (hle.trans hlen)).trans htake.symm
    -- somebody had that term when it was chosen
    have ht : t ≤ (c2.nodes j).raw.raft.term := by
      obtain ⟨v, hwon⟩ := hc1.witnessed.certified t L hL
      obtain ⟨q, hq, -, htell⟩ := hwon.asked hcs hc1.drawn.inv.sincere
      obtain ⟨u, rfl⟩ := hc1.named q hq _ _ _ htell
      refine le_trans ?_ (hterm u)
      have hid := hc1.drawn.inv.id u
      exact (hc1.drawn.inv.votes u).peer.told_le ⟨q, hq, _, by rw [hid]; exact htell⟩
    rcases eq_or_lt_of_le ht with heq | hlt
    · rw [← heq, hL'] at hlog
      cases hlog
      exact ⟨(hle.trans hlen).trans hp.length_le, hLF⟩
    · obtain ⟨hstart', heq⟩ := hc2.witnessed.sound.complete quorums_meet (hchosen.extends hext) hL' _ _ G rfl hlt hlog
      have hlen' := hc2.witnessed.sound.start_le _ G hlog
      exact ⟨by omega, (Chronicle.take_of_take heq hle).trans hLF⟩
  refine ⟨?_, fun hki hkj => ?_⟩
  · rw [hfG.last]
    exact htake.1
  · rw [hfF.entryAt hki, hfG.entryAt hkj]
    exact Chronicle.getElem?_of_take htake.2 (by omega)

end runs

/-! ### A commit, and the next leader -/

instance (m : Message) : Decidable m.Travels := inferInstanceAs (Decidable (_ ∨ _ ∨ _ ∨ _))

/-- May a node do this on its own in a run without snapshots? -/
def mayDoPlain (d : Driver σ) : Driver.Op → Bool
  | .call (.step m) => decide (m.msgType ≠ .snapshot ∧ ¬m.Travels)
  | op => mayDo d op

/-- Do it, if it is a step of a run in which messages come from nodes and no snapshot is installed. -/
def execPlain (ids : ι → ℕ) (c : Network ι σ) : Cluster.Move ι → Option (Event × Network ι σ)
  | .own i op =>
      if mayDoPlain (c.nodes i) op = true then ((c.nodes i).exec op).map fun t => (t.1, c.next i t) else none
  | .deliver i k => (c.sent[k]?).bind fun m =>
      if m.dest = ids i ∧ m.msgType ≠ .snapshot then
        ((c.nodes i).exec (.call (.step m))).map fun t => (t.1, c.next i t)
      else none

/-- Carry out a script of such steps; what the nodes hand out is collected. -/
def playPlain (ids : ι → ℕ) : List (Cluster.Move ι) → Network ι σ → Option (List Entry × Network ι σ)
  | [], c => some ([], c)
  | a :: as, c => (c.execPlain ids a).bind fun r => (playPlain ids as r.2).map fun s => (r.1.entries ++ s.1, s.2)

omit [LawfulStorage σ] in
theorem genuine_of_mayDoPlain {d : Driver σ} {op : Driver.Op} (h : mayDoPlain d op = true)
    (sent : List Message) (id : ℕ) :
    (∀ x, op = .call x → x.Genuine sent id) ∧ (op = .ready → d.pending = none) := by
  refine ⟨?_, ?_⟩
  · rintro x rfl
    cases x with
    | step m =>
        obtain ⟨hk, ht⟩ := of_decide_eq_true h
        exact ⟨hk, fun h => absurd h ht⟩
    | applyConfChange cc => cases h
    | restoreSnapshot snap => cases h
    | _ => trivial
  · rintro rfl
    exact Option.isNone_iff_eq_none.mp h

theorem execPlain_plain (SameData : σ → σ → Prop) {a : Cluster.Move ι} {r : Event × Network ι σ}
    (h : c.execPlain ids a = some r) : Plain ids SameData c r.1 r.2 := by
  cases a with
  | own i op =>
      unfold execPlain at h
      dsimp only at h
      split at h
      · rename_i hop
        obtain ⟨t, ht, rfl⟩ := Option.map_eq_some_iff.mp h
        obtain ⟨hcall, hready⟩ := op_of_exec ht
        obtain ⟨hallowed, hfree⟩ := genuine_of_mayDoPlain hop c.sent (ids i)
        exact .act c i t.1 t.2 (Driver.exec_step ht) (fun x hx => hallowed x (hcall x hx)) fun rd hrd =>
          hfree (hready rd hrd)
      · cases h
  | deliver i k =>
      obtain ⟨m, hm, h⟩ := Option.bind_eq_some_iff.mp h
      split at h
      · rename_i hdest
        obtain ⟨t, ht, rfl⟩ := Option.map_eq_some_iff.mp h
        obtain ⟨hcall, hready⟩ := op_of_exec ht
        refine .act c i t.1 t.2 (Driver.exec_step ht) (fun x hx => ?_) fun rd hrd => ?_
        · cases hcall x hx
          exact ⟨hdest.2, fun _ => ⟨List.mem_of_getElem? hm, hdest.1⟩⟩
        · cases hready rd hrd
      · cases h

theorem playPlain_steps (SameData : σ → σ → Prop) {as : List (Cluster.Move ι)} {r : List Entry × Network ι σ}
    (h : playPlain ids as c = some r) : PlainSteps ids SameData c r.2 := by
  induction as generalizing c r with
  | nil =>
      cases h
      exact .refl
  | cons a as ih =>
      obtain ⟨r1, h1, h2⟩ := Option.bind_eq_some_iff.mp h
      obtain ⟨r2, hplay, rfl⟩ := Option.map_eq_some_iff.mp h2
      have hrest : PlainSteps ids SameData r1.2 r2.2 := ih hplay
      exact .head ⟨_, execPlain_plain SameData h1⟩ hrest

theorem fresh_three {c : Network (Fin 3) MemoryStorage} (h : three = some c) : c.Fresh := by
  have hrun : three.map (fun c => decide (∀ i : Fin 3, (c.nodes i).raw.raft.raftLog.log = ⟨0, 0, []⟩ ∧
      (c.nodes i).raw.raft.raftLog.storeLog = ⟨0, 0, []⟩)) = some true := by
    decide +kernel
  rw [h] at hrun
  have hall := of_decide_eq_true (Option.some.inj hrun)
  rintro i l (rfl | rfl)
  · exact (hall i).1
  · exact (hall i).2

/-- Node 2 acknowledges the entry of node 1, which commits it. -/
def commits : List (Cluster.Move (Fin 3)) := replicates ++ [.own 1 .ready, .own 1 .advanceAppend, .deliver 0 5]

/-- What the leader has committed is what node 2 commits when it hears of it. -/
theorem committed_agree_three : ∃ c0 c1 c2 : Network (Fin 3) MemoryStorage,
    Starts Cluster.threeIds threeVoters c0 ∧ PlainSteps Cluster.threeIds Eq c0 c1 ∧
      PlainSteps Cluster.threeIds Eq c1 c2 ∧ ((c1.nodes 0).raw.raft.raftLog.log.entryAt 1).isSome ∧
      (c1.nodes 0).raw.raft.raftLog.log.entryAt 1 = (c2.nodes 1).raw.raft.raftLog.log.entryAt 1 := by
  have hrun : (three.bind fun c0 => (playPlain Cluster.threeIds commits c0).bind fun r1 =>
      (playPlain Cluster.threeIds [.own 0 .ready, .own 0 .advanceAppend, .deliver 1 6] r1.2).map fun r2 =>
        decide (1 ≤ (r1.2.nodes 0).raw.raft.raftLog.committed ∧ 1 ≤ (r2.2.nodes 1).raw.raft.raftLog.committed ∧
          (r1.2.nodes 0).raw.raft.raftLog.log.base = 0 ∧ (r2.2.nodes 1).raw.raft.raftLog.log.base = 0 ∧
          ((r1.2.nodes 0).raw.raft.raftLog.log.entryAt 1).isSome = true)) = some true := by
    decide +kernel
  obtain ⟨c0, hc0, hrun⟩ := Option.bind_eq_some_iff.mp hrun
  obtain ⟨⟨out1, c1⟩, hc1, hrun⟩ := Option.bind_eq_some_iff.mp hrun
  obtain ⟨⟨out2, c2⟩, hc2, heq⟩ := Option.map_eq_some_iff.mp hrun
  obtain ⟨hi, hj, hb, hb', hsome⟩ := of_decide_eq_true heq
  have hids : Function.Injective Cluster.threeIds := fun a b hab => Fin.ext (Nat.succ.inj hab)
  have h1 : PlainSteps Cluster.threeIds Eq c0 c1 := playPlain_steps Eq hc1
  have h2 : PlainSteps Cluster.threeIds Eq c1 c2 := playPlain_steps Eq hc2
  exact ⟨c0, c1, c2, starts_three hc0, h1, h2, hsome, committed_agree hids Driver.faithful_eq plural_three
    (starts_three hc0) (fresh_three hc0) h1 h2 hi hj (hb.trans_lt Nat.one_pos)
    (hb'.trans_lt Nat.one_pos)⟩

/-- Node 2 asks for votes, and node 1 gives it one. -/
def succeeds : List (Cluster.Move (Fin 3)) := [
  .own 1 (.call (.step { msgType := .hup })), .own 1 .ready, .own 1 .advanceAppend,
  .deliver 0 6, .own 0 .ready, .own 0 .advanceAppend, .deliver 1 9]

/-- What node 1 has committed is in the log of node 2 when it leads. -/
theorem leader_completeness_three : ∃ c0 c1 c2 : Network (Fin 3) MemoryStorage,
    Starts Cluster.threeIds threeVoters c0 ∧ PlainSteps Cluster.threeIds Eq c0 c1 ∧
      PlainSteps Cluster.threeIds Eq c1 c2 ∧ ((c1.nodes 0).raw.raft.raftLog.log.entryAt 1).isSome ∧
      (c2.nodes 1).raw.raft.state = .leader ∧ (c2.nodes 1).raw.raft.term = 2 ∧
      (c2.nodes 1).raw.raft.raftLog.log.entryAt 1 = (c1.nodes 0).raw.raft.raftLog.log.entryAt 1 := by
  have hrun : (three.bind fun c0 => (playPlain Cluster.threeIds commits c0).bind fun r1 =>
      (playPlain Cluster.threeIds succeeds r1.2).map fun r2 =>
        decide (1 ≤ (r1.2.nodes 0).raw.raft.raftLog.committed ∧ (r2.2.nodes 1).raw.raft.state = .leader ∧
          (r2.2.nodes 1).raw.raft.term = 2 ∧ (∀ v : Fin 3, (r1.2.nodes v).raw.raft.term ≤ (r2.2.nodes 1).raw.raft.term) ∧
          (r1.2.nodes 0).raw.raft.raftLog.log.base = 0 ∧ (r2.2.nodes 1).raw.raft.raftLog.log.base = 0 ∧
          ((r1.2.nodes 0).raw.raft.raftLog.log.entryAt 1).isSome = true)) = some true := by
    decide +kernel
  obtain ⟨c0, hc0, hrun⟩ := Option.bind_eq_some_iff.mp hrun
  obtain ⟨⟨out1, c1⟩, hc1, hrun⟩ := Option.bind_eq_some_iff.mp hrun
  obtain ⟨⟨out2, c2⟩, hc2, heq⟩ := Option.map_eq_some_iff.mp hrun
  obtain ⟨hi, hlead, hterm, hle, hb, hb', hsome⟩ := of_decide_eq_true heq
  have hids : Function.Injective Cluster.threeIds := fun a b hab => Fin.ext (Nat.succ.inj hab)
  have h1 : PlainSteps Cluster.threeIds Eq c0 c1 := playPlain_steps Eq hc1
  have h2 : PlainSteps Cluster.threeIds Eq c1 c2 := playPlain_steps Eq hc2
  exact ⟨c0, c1, c2, starts_three hc0, h1, h2, hsome, hlead, hterm, (leader_completeness hids Driver.faithful_eq
    plural_three (starts_three hc0) (fresh_three hc0) h1 h2 hi hlead hle).2 (hb.trans_lt Nat.one_pos)
    (hb'.trans_lt Nat.one_pos)⟩

end Network

end Raftz
