import Raftz.Base.Chronicle
import Raftz.LogMatching
import Raftz.ReadQueue

/-! # What is committed stays committed

Leader completeness and the agreement of committed prefixes, over every run of a cluster with a
fixed configuration in which messages come from nodes and no snapshot is installed.  Each node
has a full log that compaction does not shorten; the chronicle keeps the logs of the leaders of
all terms, where each of them started, and what nodes have acknowledged and stored.

A node commits in five ways: a leader by its quorum, a follower by an append, by a heartbeat, by
the answer to a read request, and every node by the commit position that a vote message carries.
All but the first pass on what is safe, so what has to be shown of them is that the log of the node
is, up to there, the log in which it is safe.

A follower that gets an outdated append answers with its commit index, also when the leader that
asks does not have what is committed there.  Such an answer is an acknowledgement that a later
leader has overruled, and it does no harm. -/

open Base

namespace Raftz

open Chronicle (Rooted Holds Misses Bears Borrowed Beyond top Safe Extends)

/-! ### Full logs -/

/-- `F` is the log as it would be if nothing had been compacted. -/
structure Log.Full (l : Log) (F : List Entry) : Prop where
  consecutive : Log.Consecutive 1 F
  le : l.base ≤ F.length
  entries : l.entries = F.drop l.base
  mark : (l.base = 0 ∧ l.baseTerm = 0) ∨ ∃ e, F[l.base - 1]? = some e ∧ e.term = l.baseTerm ∧ 0 < l.base

namespace Log.Full

variable {l : Log} {F : List Entry}

theorem last (h : l.Full F) : l.last = F.length := by
  have hle := h.le
  unfold Log.last
  rw [h.entries, List.length_drop]
  omega

theorem entryAt (h : l.Full F) {k : ℕ} (hk : l.base < k) : l.entryAt k = F[k - 1]? := by
  rw [Log.entryAt_of_gt hk, h.entries, List.getElem?_drop]
  congr 1
  omega

theorem getElem? (h : l.Full F) {k : ℕ} {e : Entry} (he : l.entryAt k = some e) :
    0 < k ∧ F[k - 1]? = some e := by
  have hk := (Log.entryAt_bounds he).1
  exact ⟨by omega, (h.entryAt hk).symm.trans he⟩

theorem termAt (h : l.Full F) {k t : ℕ} (ht : l.termAt k = some t) :
    (k = 0 ∧ t = 0) ∨ (0 < k ∧ ∃ e, F[k - 1]? = some e ∧ e.term = t) := by
  rcases eq_or_ne k l.base with rfl | hne
  · rw [Log.termAt_base] at ht
    cases ht
    rcases h.mark with ⟨h1, h2⟩ | ⟨e, h1, h2, h3⟩
    · exact Or.inl ⟨h1, h2⟩
    · exact Or.inr ⟨h3, e, h1, h2⟩
  · rw [Log.termAt_of_ne_base hne] at ht
    obtain ⟨e, he, rfl⟩ := Option.map_eq_some_iff.mp ht
    obtain ⟨h1, h2⟩ := h.getElem? he
    exact Or.inr ⟨h1, e, h2, rfl⟩

theorem index_eq (h : l.Full F) {k : ℕ} {e : Entry} (he : F[k]? = some e) : e.index = k + 1 := by
  obtain ⟨hlt, rfl⟩ := List.getElem?_eq_some_iff.mp he
  have := Log.consecutive_iff.mp h.consecutive k hlt
  simp only [List.get_eq_getElem] at this
  omega

theorem top_eq (h : l.Full F) : l.term l.last = top Entry.term F := by
  have hlast := h.last
  rcases h.termAt (Log.termAt_eq_some_term Log.base_le_last le_rfl) with ⟨h1, h2⟩ | ⟨h1, e, he, h2⟩
  · rw [h2]
    have hnil : F = [] := List.length_eq_zero_iff.mp (by omega)
    rw [hnil]
    rfl
  · rw [← h2]
    unfold top
    rw [List.getLast?_eq_getElem?, ← hlast, he]
    rfl

theorem splice (h : l.Full F) {i : ℕ} {es : List Entry} (h1 : l.base < i) (h2 : i ≤ l.last + 1)
    (hes : Log.Consecutive i es) : (l.splice i es).Full (F.take (i - 1) ++ es) := by
  have hlast := h.last
  have hlen : (F.take (i - 1)).length = i - 1 := by
    rw [List.length_take]
    omega
  refine ⟨?_, ?_, ?_, ?_⟩
  · refine (h.consecutive.take (i - 1)).append ?_
    rw [hlen, show 1 + (i - 1) = i by omega]
    exact hes
  · show l.base ≤ _
    rw [List.length_append, hlen]
    omega
  · show l.entries.take (i - l.base - 1) ++ es = (F.take (i - 1) ++ es).drop l.base
    rw [List.drop_append_of_le_length (by omega), h.entries, List.drop_take,
      show i - 1 - l.base = i - l.base - 1 by omega]
  · show (l.base = 0 ∧ l.baseTerm = 0) ∨ ∃ e, (F.take (i - 1) ++ es)[l.base - 1]? = some e ∧
      e.term = l.baseTerm ∧ 0 < l.base
    refine h.mark.imp_right ?_
    rintro ⟨e, he, ht, hpos⟩
    refine ⟨e, ?_, ht, hpos⟩
    rw [List.getElem?_append_left (by omega), List.getElem?_take_of_lt (by omega)]
    exact he

theorem compact (h : l.Full F) {i t : ℕ} (h1 : l.base ≤ i) (h2 : i ≤ l.last) (ht : l.termAt i = some t) :
    (l.compact i t).Full F := by
  have hlast := h.last
  refine ⟨h.consecutive, ?_, ?_, ?_⟩
  · show i ≤ _
    omega
  · show l.entries.drop (i - l.base) = F.drop i
    rw [h.entries, List.drop_drop]
    congr 1
    omega
  · rcases h.termAt ht with ⟨h1, h2⟩ | ⟨h1, e, he, h2⟩
    · exact Or.inl ⟨h1, h2⟩
    · exact Or.inr ⟨e, he, h2, h1⟩

end Log.Full

/-! ### Messages -/

/-- A quorum of the configuration. -/
def Quorum (cs : ConfState) (Q : Set ℕ) : Prop :=
  ∃ (V : JointConfiguration) (i : ℕ), V.Lists cs.replayed ∧ V.contains i = true ∧ V.Wins Q

/-- A node has said something about its vote. -/
def Told (sent : List Message) (v t : ℕ) : Prop := ∃ m ∈ sent, ∃ i, m.Tells v t i

theorem quorums_meet {cs : ConfState} (Q Q' : Set ℕ) (hQ : Quorum cs Q) (hQ' : Quorum cs Q') :
    ∃ v, v ∈ Q ∧ v ∈ Q' := by
  obtain ⟨V, i, hV, hi, hw⟩ := hQ
  obtain ⟨W, -, hW, -, hw'⟩ := hQ'
  obtain ⟨v, -, hv, hv'⟩ := JointConfiguration.wins_meet ⟨i, hi⟩ hw (hW.wins hV hw')
  exact ⟨v, hv, hv'⟩

namespace Message

/-- An acknowledgement of entries. -/
def Acks (x : Message) : Prop := x.msgType = .appendResponse ∧ x.reject = false ∧ x.index ≠ 0

/-- Messages that nodes send each other. -/
def Travels (m : Message) : Prop :=
  m.FromPeer ∨ m.msgType = .appendResponse ∨ m.msgType = .readIndexResp ∨ Raft.isVoteMessage m.msgType = true

/-- A message that a node may process: it was sent to it, or it is of a kind that stays within the node; and
it is no snapshot. -/
def Genuine (sent : List Message) (id : ℕ) (m : Message) : Prop :=
  m.msgType ≠ .snapshot ∧ (m.Travels → m ∈ sent ∧ m.dest = id)

theorem Genuine.arrives {sent : List Message} {id : ℕ} {m : Message} (h : m.Genuine sent id) :
    m.Arrives sent id := by
  by_cases hf : m.FromPeer
  · exact Or.inl (h.2 (Or.inl hf))
  · exact Or.inr hf

/-- What a message says about logs and commit indexes is true. -/
structure Grounded (cs : ConfState) (H : Chronicle Entry) (x : Message) : Prop where
  append : x.msgType = .append → ∃ L, H.log x.term = some L ∧
    (∀ e ∈ x.entries, 0 < e.index ∧ L[e.index - 1]? = some e) ∧
    (x.logTerm ≠ 0 → ∃ e, L[x.index - 1]? = some e ∧ e.term = x.logTerm) ∧
    H.Safe Entry.term (Quorum cs) L x.commit
  heartbeat : x.msgType = .heartbeat → x.commit = 0 ∨ ∃ L, H.log x.term = some L ∧
    (∀ n, 0 < n → n ≤ x.commit → H.ack x.dest x.term n) ∧ H.Safe Entry.term (Quorum cs) L x.commit
  readIndexResp : x.msgType = .readIndexResp → ∃ L, H.log x.term = some L ∧
    H.Safe Entry.term (Quorum cs) L x.index
  vote : Raft.isVoteMessage x.msgType = true → x.commit = 0 ∨ x.commitTerm = 0 ∨ ∃ L : List Entry,
    H.Safe Entry.term (Quorum cs) L x.commit ∧ ∃ e, L[x.commit - 1]? = some e ∧ e.term = x.commitTerm

theorem Grounded.of_other {cs : ConfState} {H : Chronicle Entry} {x : Message} (h1 : x.msgType ≠ .append)
    (h2 : x.msgType ≠ .heartbeat) (h3 : x.msgType ≠ .readIndexResp)
    (h4 : Raft.isVoteMessage x.msgType ≠ true) : x.Grounded cs H :=
  ⟨fun h => absurd h h1, fun h => absurd h h2, fun h => absurd h h3, fun h => absurd h h4⟩

theorem Grounded.extends {cs : ConfState} {H H' : Chronicle Entry} {x : Message} (h : x.Grounded cs H)
    (hext : Extends Entry.term H H') : x.Grounded cs H' where
  append := by
    intro hk
    obtain ⟨L, hL, hes, hterm, hsafe⟩ := h.append hk
    obtain ⟨L', hL', hp, -⟩ := hext.log _ L hL
    have hget : ∀ (k : ℕ) (e : Entry), L[k]? = some e → L'[k]? = some e := fun k e he =>
      (Chronicle.getElem?_of_isPrefix hp (List.getElem?_eq_some_iff.mp he).1).trans he
    refine ⟨L', hL', fun e he => ⟨(hes e he).1, hget _ e (hes e he).2⟩, fun hne => ?_,
      (hsafe.extends hext).congr (Chronicle.take_of_isPrefix hp hsafe.le_length)⟩
    obtain ⟨e, he, ht⟩ := hterm hne
    exact ⟨e, hget _ e he, ht⟩
  heartbeat := by
    intro hk
    refine (h.heartbeat hk).imp_right ?_
    rintro ⟨L, hL, hacks, hsafe⟩
    obtain ⟨L', hL', hp, -⟩ := hext.log _ L hL
    exact ⟨L', hL', fun n hn hle => hext.ack _ _ _ (hacks n hn hle),
      (hsafe.extends hext).congr (Chronicle.take_of_isPrefix hp hsafe.le_length)⟩
  readIndexResp := by
    intro hk
    obtain ⟨L, hL, hsafe⟩ := h.readIndexResp hk
    obtain ⟨L', hL', hp, -⟩ := hext.log _ L hL
    exact ⟨L', hL', (hsafe.extends hext).congr (Chronicle.take_of_isPrefix hp hsafe.le_length)⟩
  vote := by
    intro hk
    rcases h.vote hk with h0 | h0 | ⟨L, hsafe, he⟩
    · exact Or.inl h0
    · exact Or.inr (Or.inl h0)
    · exact Or.inr (Or.inr ⟨L, hsafe.extends hext, he⟩)

end Message

/-- Who votes for `i` in term `t` has acknowledged nothing of an earlier term that `i` does not have, unless
it has been overruled. -/
def Vouches (H : Chronicle Entry) (asked : Message → Prop) (t' i t n : ℕ) : Prop :=
  H.Borrowed Entry.term t n ∨
    (∃ q, asked q ∧ q.msgType = .requestVote ∧ q.sender = i ∧ q.term = t' ∧ Beyond q.index q.logTerm t n) ∨
    ∃ u, t < u ∧ H.Misses Entry.term t n u

theorem Vouches.mono {H H' : Chronicle Entry} {asked asked' : Message → Prop} {t' i t n : ℕ}
    (h : Vouches H asked t' i t n) (hext : Extends Entry.term H H') (hask : ∀ q, asked q → asked' q) :
    Vouches H' asked' t' i t n := by
  rcases h with h | ⟨q, hq, hrest⟩ | ⟨u, htu, hu⟩
  · exact Or.inl (h.extends hext)
  · exact Or.inr (Or.inl ⟨q, hask q hq, hrest⟩)
  · exact Or.inr (Or.inr ⟨u, htu, hu.extends hext⟩)

/-- What holds of the chronicle and of what has been sent. -/
structure Witnessed (cs : ConfState) (sent : List Message) (H : Chronicle Entry) : Prop where
  sound : H.Sound Entry.term (Quorum cs) (Told sent)
  ground : ∀ x ∈ sent, x.Grounded cs H
  certified : ∀ t L, H.log t = some L → ∃ i, Elected cs sent i t
  acks : ∀ x ∈ sent, x.Acks → 0 < x.term ∧ ∀ n, 0 < n → n ≤ x.index → H.ack x.sender x.term n
  vouch : ∀ y ∈ sent, ∀ v t' i, y.Tells v t' i → ∀ t n, H.ack v t n → t < t' → 0 < n →
    Vouches H (· ∈ sent) t' i t n

/-- More has happened, in terms that have been won; who acknowledges something has not told a vote of a later
term. -/
theorem Witnessed.grow {cs : ConfState} {sent : List Message} {H H' : Chronicle Entry} (h : Witnessed cs sent H)
    (hs : H'.Sound Entry.term (Quorum cs) (Told sent)) (hext : Extends Entry.term H H')
    (hwon : ∀ t L, H'.log t = some L → H.log t = none → ∃ i, Elected cs sent i t)
    (hnew : ∀ v t n, H'.ack v t n → H.ack v t n ∨ ∀ t', t < t' → ¬ Told sent v t') : Witnessed cs sent H' where
  sound := hs
  ground := fun x hx => (h.ground x hx).extends hext
  certified := by
    intro t L hL
    cases ht : H.log t with
    | none => exact hwon t L hL ht
    | some W => exact h.certified t W ht
  acks := fun x hx hk => ⟨(h.acks x hx hk).1, fun n hn hle => hext.ack _ _ _ ((h.acks x hx hk).2 n hn hle)⟩
  vouch := by
    intro y hy v t' i ht t n hack htt hn
    rcases hnew v t n hack with hold | hnone
    · exact (h.vouch y hy v t' i ht t n hold htt hn).mono hext fun _ hq => hq
    · exact absurd ⟨y, hy, i, ht⟩ (hnone t' htt)

/-! ### One node -/

namespace Peer

/-- The logs of a node: `F` is its full log and `S` what is stored of it. -/
structure Logs (cs : ConfState) (H : Chronicle Entry) (F S : List Entry) (c : Peer) : Prop where
  full : c.log.Full F
  stored : c.store.log.Full S
  base_eq : c.store.log.base = c.log.base
  pending : c.pending = none
  rooted : H.Rooted Entry.term F
  rootedS : H.Rooted Entry.term S
  below : ∀ e ∈ F, e.term ≤ c.term
  belowS : ∀ e ∈ S, e.term ≤ c.store.hardState.term
  base_le : c.log.base ≤ c.committed
  base_persisted : c.log.base ≤ c.persisted
  persisted_le : c.persisted ≤ F.length
  persisted : S.take c.persisted = F.take c.persisted
  safe : H.Safe Entry.term (Quorum cs) F c.committed
  saved_le : c.store.hardState.commit ≤ c.committed
  saved : H.Safe Entry.term (Quorum cs) S c.store.hardState.commit

/-- What a node has said about its logs, or is about to say. -/
structure Speech (cs : ConfState) (sent : List Message) (H : Chronicle Entry) (F S : List Entry) (c : Peer) :
    Prop where
  queue : ∀ x ∈ c.out, x.Grounded cs H
  acking : ∀ x ∈ c.out, x.Acks → x.sender = c.id ∧ 0 < x.term ∧ x.term ≤ c.term ∧
    ∀ n, 0 < n → n ≤ x.index → H.Recalls Entry.term (Quorum cs) F c.term x.term n
  order : ∀ x ∈ c.out, x.Acks → ∀ t, Told sent c.id t → t ≤ x.term
  told : ∀ t, Told sent c.id t → t ≤ c.store.hardState.term
  acked : ∀ t n, H.ack c.id t n → t ≤ c.term ∧ t ≤ c.store.hardState.term ∧
    H.Recalls Entry.term (Quorum cs) F c.term t n ∧
    H.Recalls Entry.term (Quorum cs) S c.store.hardState.term t n
  vouch : ∀ y, y ∈ sent ∨ y ∈ c.out → ∀ t' i, y.Tells c.id t' i → ∀ t n,
    (H.ack c.id t n ∨ ∃ x ∈ c.out, x.Acks ∧ x.term = t ∧ n ≤ x.index) → t < t' → 0 < n →
    Vouches H (fun q => q ∈ sent ∨ q ∈ c.out) t' i t n

/-- A leader's log is that of its term, and what it counts has been acknowledged. -/
structure Leading (cs : ConfState) (H : Chronicle Entry) (F : List Entry) (c : Peer) : Prop where
  log : H.log c.term = some F
  term : ∀ x ∈ c.out, x.msgType = .append → x.term = c.term
  quiet : ∀ x ∈ c.out, ¬ x.Acks
  matched : ∀ v n, 0 < n → n ≤ c.matched v → H.ack v c.term n
  reads : ∀ key st, c.reads.pending.lookup key = some st → H.Safe Entry.term (Quorum cs) F st.index

/-- A candidate's log ends as it says, and nobody has written in its term. -/
structure Standing (cs : ConfState) (sent : List Message) (H : Chronicle Entry) (F : List Entry) (c : Peer) :
    Prop where
  free : Elected cs sent c.id c.term → H.log c.term = none
  below : ∀ e ∈ F, e.term < c.term
  asked : ∀ q, q ∈ sent ∨ q ∈ c.out → q.msgType = .requestVote → q.sender = c.id → q.term = c.term →
    q.index = F.length ∧ q.logTerm = top Entry.term F
  drained : Told sent c.id c.term → ∀ x ∈ c.out, x.msgType ≠ .append ∧ ¬ x.Acks

/-- A node whose logs, acknowledgements and votes are those of the chronicle. -/
structure Records (cs : ConfState) (sent : List Message) (H : Chronicle Entry) (F S : List Entry) (c : Peer) :
    Prop where
  logs : Logs cs H F S c
  speech : Speech cs sent H F S c
  leading : c.role = .leader → Leading cs H F c
  standing : c.role = .candidate → Standing cs sent H F c

variable {honest : Prop} {cs : ConfState} {sent : List Message} {H H' : Chronicle Entry} {F F' S : List Entry}
  {c c' : Peer} {m x : Message}

/-- Somebody who has told a vote of a term stands in it or later. -/
theorem Electing.told_le (he : Electing cs sent c) {t : ℕ} (h : Told sent c.id t) : t ≤ c.term := by
  obtain ⟨y, hy, i, ht⟩ := h
  rcases he.bound y (Or.inl hy) t i ht with h | ⟨h, -⟩
  · exact h.le
  · exact h.le

/-- More has been written and acknowledged; this node, if it leads, has acknowledged what it holds. -/
theorem Records.grow (h : Records cs sent H F S c) (he : Electing cs sent c) (hext : Extends Entry.term H H')
    (hlog : c.role = .leader → H'.log c.term = H.log c.term)
    (hfree : c.role = .candidate → Elected cs sent c.id c.term → H'.log c.term = none)
    (hack : ∀ t n, H'.ack c.id t n → H.ack c.id t n ∨
      (t = c.term ∧ c.term ≤ c.store.hardState.term ∧ H'.Holds F t n ∧ H'.Holds S t n)) :
    Records cs sent H' F S c where
  logs := { h.logs with
    rooted := h.logs.rooted.extends hext
    rootedS := h.logs.rootedS.extends hext
    safe := h.logs.safe.extends hext
    saved := h.logs.saved.extends hext }
  speech := {
    queue := fun x hx => (h.speech.queue x hx).extends hext
    acking := by
      intro x hx hk
      obtain ⟨h1, h2, h3, h4⟩ := h.speech.acking x hx hk
      exact ⟨h1, h2, h3, fun n hn hle => (h4 n hn hle).extends hext⟩
    order := h.speech.order
    told := h.speech.told
    acked := by
      intro t n ha
      rcases hack t n ha with ha | ⟨rfl, h1, h2, h3⟩
      · obtain ⟨h1, h2, h3, h4⟩ := h.speech.acked t n ha
        exact ⟨h1, h2, h3.extends hext, h4.extends hext⟩
      · exact ⟨le_rfl, h1, .of_holds h2, .of_holds h3⟩
    vouch := by
      intro y hy t' i ht t n ha htt hn
      have hle : t' ≤ c.term := by
        rcases he.bound y hy t' i ht with h | ⟨h, -⟩
        · exact h.le
        · exact h.le
      rcases ha with ha | ha
      · rcases hack t n ha with ha | ⟨rfl, -⟩
        · exact (h.speech.vouch y hy t' i ht t n (Or.inl ha) htt hn).mono hext fun _ hq => hq
        · omega
      · exact (h.speech.vouch y hy t' i ht t n (Or.inr ha) htt hn).mono hext fun _ hq => hq }
  leading := by
    intro hr
    have hl := h.leading hr
    exact { hl with
      log := (hlog hr).trans hl.log
      matched := fun v n hn hle => hext.ack _ _ _ (hl.matched v n hn hle)
      reads := fun key st hst => (hl.reads key st hst).extends hext }
  standing := by
    intro hr
    exact { h.standing hr with free := hfree hr }

/-- The node changes its role or its term. -/
theorem Records.turn (h : Records cs sent H F S c)
    (hsame : (c'.id, c'.log, c'.store, c'.out, c'.pending, c'.committed, c'.persisted) =
      (c.id, c.log, c.store, c.out, c.pending, c.committed, c.persisted)) (hterm : c.term ≤ c'.term)
    (hl : c'.role = .leader → Leading cs H F c') (hst : c'.role = .candidate → Standing cs sent H F c') :
    Records cs sent H F S c' := by
  simp only [Prod.mk.injEq] at hsame
  obtain ⟨hid, hlog, hstore, hout, hp, hc, hpers⟩ := hsame
  refine ⟨?_, ?_, hl, hst⟩
  · have hlogs := h.logs
    refine ⟨?_, ?_, ?_, ?_, hlogs.rooted, hlogs.rootedS, fun e he => (hlogs.below e he).trans hterm, ?_, ?_, ?_,
      ?_, ?_, ?_, ?_, ?_⟩ <;> simp only [hlog, hstore, hp, hc, hpers]
    · exact hlogs.full
    · exact hlogs.stored
    · exact hlogs.base_eq
    · exact hlogs.pending
    · exact hlogs.belowS
    · exact hlogs.base_le
    · exact hlogs.base_persisted
    · exact hlogs.persisted_le
    · exact hlogs.persisted
    · exact hlogs.safe
    · exact hlogs.saved_le
    · exact hlogs.saved
  · refine ⟨?_, ?_, ?_, ?_, ?_, ?_⟩ <;> simp only [hid, hout, hstore]
    · exact h.speech.queue
    · intro x hx hk
      obtain ⟨h1, h2, h3, h4⟩ := h.speech.acking x hx hk
      exact ⟨h1, h2, h3.trans hterm, fun n hn hle => (h4 n hn hle).raise h3 hterm⟩
    · exact h.speech.order
    · exact h.speech.told
    · intro t n ha
      obtain ⟨h1, h2, h3, h4⟩ := h.speech.acked t n ha
      exact ⟨h1.trans hterm, h2, h3.raise h1 hterm, h4⟩
    · exact h.speech.vouch

/-- The commit index grows to what is safe. -/
theorem Records.commit (h : Records cs sent H F S c) {i : ℕ} (hi : c.committed ≤ i)
    (hs : H.Safe Entry.term (Quorum cs) F i) : Records cs sent H F S { c with committed := i } where
  logs := { h.logs with
    base_le := h.logs.base_le.trans hi
    safe := hs
    saved_le := h.logs.saved_le.trans hi }
  speech := { h.speech with }
  leading := fun hr => { h.leading hr with }
  standing := fun hr => { h.standing hr with }

/-- The queue gets another message. -/
theorem Records.post (h : Records cs sent H F S c) (he : Electing cs sent c) (hx : x.Grounded cs H)
    (hack : x.Acks → c.role = .follower ∧ x.sender = c.id ∧ x.term = c.term ∧ 0 < c.term ∧
      ∀ n, 0 < n → n ≤ x.index → H.Recalls Entry.term (Quorum cs) F c.term x.term n)
    (happ : x.msgType = .append → c.role = .leader ∧ x.term = c.term)
    (hask : x.msgType = .requestVote → x.sender = c.id → x.term = c.term →
      x.index = F.length ∧ x.logTerm = top Entry.term F)
    (htell : ∀ i t', x.Tells c.id t' i → t' = c.term ∧ ∀ t n, H.Bears Entry.term F t n → t < t' → 0 < n →
      Vouches H (fun q => q ∈ sent ∨ q ∈ (c.post x).out) t' i t n) : Records cs sent H F S (c.post x) := by
  have hmem : ∀ {y}, y ∈ (c.post x).out → y ∈ c.out ∨ y = x := fun hy =>
    (List.mem_append.mp hy).imp_right List.mem_singleton.mp
  refine ⟨{ h.logs with }, ⟨fun y hy => ?_, fun y hy hk => ?_, fun y hy hk t ht => ?_,
      h.speech.told, h.speech.acked, ?_⟩, fun hr => ?_, fun hr => ?_⟩
  · rcases hmem hy with hy | rfl
    · exact h.speech.queue y hy
    · exact hx
  · rcases hmem hy with hy | rfl
    · exact h.speech.acking y hy hk
    · obtain ⟨-, hs, ht, hpos, hb⟩ := hack hk
      exact ⟨hs, by omega, ht.le, hb⟩
  · rcases hmem hy with hy | rfl
    · exact h.speech.order y hy hk t ht
    · rw [(hack hk).2.2.1]
      exact he.told_le ht
  · intro y hy t' i ht t n ha htt hn
    -- what has been acknowledged, or is about to be, is borne by the log
    have hborne : t < c.term → (H.ack c.id t n ∨ ∃ z ∈ c.out, z.Acks ∧ z.term = t ∧ n ≤ z.index) ∧
        H.Bears Entry.term F t n := by
      intro hlt
      rcases ha with ha | ⟨z, hz, hk, rfl, hle⟩
      · exact ⟨Or.inl ha, (h.speech.acked t n ha).2.2.1.1⟩
      · rcases hmem hz with hz | rfl
        · exact ⟨Or.inr ⟨z, hz, hk, rfl, hle⟩, ((h.speech.acking z hz hk).2.2.2 n hn hle).1⟩
        · have := (hack hk).2.2.1
          omega
    have hold : (y ∈ sent ∨ y ∈ c.out) → Vouches H (fun q => q ∈ sent ∨ q ∈ (c.post x).out) t' i t n := by
      intro hy
      have hle : t' ≤ c.term := by
        rcases he.bound y hy t' i ht with h | ⟨h, -⟩
        · exact h.le
        · exact h.le
      refine (h.speech.vouch y hy t' i ht t n (hborne (by omega)).1 htt hn).mono .refl fun q hq => ?_
      exact hq.imp_right fun hq => List.mem_append_left _ hq
    rcases hy with hy | hy
    · exact hold (Or.inl hy)
    · rcases hmem hy with hy | rfl
      · exact hold (Or.inr hy)
      · obtain ⟨heq, hv⟩ := htell i t' ht
        exact hv t n (hborne (by omega)).2 htt hn
  · have hl := h.leading hr
    refine { hl with term := fun y hy hk => ?_, quiet := fun y hy hk => ?_ }
    · rcases hmem hy with hy | rfl
      · exact hl.term y hy hk
      · exact (happ hk).2
    · rcases hmem hy with hy | rfl
      · exact hl.quiet y hy hk
      · rw [show c.role = .leader from hr] at hack
        cases (hack hk).1
  · have hst := h.standing hr
    refine { hst with asked := fun q hq => ?_, drained := fun ht y hy => ?_ }
    · rcases hq with hq | hq
      · exact hst.asked q (Or.inl hq)
      · rcases hmem hq with hq | rfl
        · exact hst.asked q (Or.inr hq)
        · exact hask
    · rw [show c.role = .candidate from hr] at hack happ
      rcases hmem hy with hy | rfl
      · exact hst.drained ht y hy
      · exact ⟨fun hk => (by cases (happ hk).1), fun hk => by cases (hack hk).1⟩

/-- A message that acknowledges nothing and tells of no vote. -/
theorem Records.postOther (h : Records cs sent H F S c) (he : Electing cs sent c) (hx : x.Grounded cs H)
    (h1 : ¬ x.Acks) (h2 : x.msgType ≠ .append) (h3 : x.msgType ≠ .requestVote) (h4 : ¬ x.Grants) :
    Records cs sent H F S (c.post x) :=
  h.post he hx (fun hk => absurd hk h1) (fun hk => absurd hk h2) (fun hk => absurd hk h3) fun _ _ ht =>
    absurd ht.kind (not_or.mpr ⟨h4, h3⟩)

/-- A node that tells of its vote bears what it has acknowledged, and the log it votes for goes beyond. -/
theorem vouches_of_bears (hs : H.Sound Entry.term (Quorum cs) (Told sent)) (hr : H.Rooted Entry.term F)
    {asked : Message → Prop} {q : Message} {t' i t n : ℕ} (hb : H.Bears Entry.term F t n) (hn : 0 < n)
    (hq : asked q) (hkind : q.msgType = .requestVote) (hsender : q.sender = i) (hterm : q.term = t')
    (hu : top Entry.term F < q.logTerm ∨ (q.logTerm = top Entry.term F ∧ F.length ≤ q.index)) :
    Vouches H asked t' i t n := by
  rcases hb with ⟨L, hL, hle, htake⟩ | hmiss
  · obtain ⟨a, ha⟩ : ∃ a, L[n - 1]? = some a := ⟨L[n - 1], List.getElem?_eq_getElem (by omega)⟩
    by_cases hat : a.term = t
    · have hF : F[n - 1]? = some a := (Chronicle.getElem?_of_take htake (by omega)).trans ha
      have hlen := (List.getElem?_eq_some_iff.mp hF).1
      -- the last entry is at least of that term
      obtain ⟨b, hb⟩ : ∃ b, F[F.length - 1]? = some b :=
        ⟨F[F.length - 1], List.getElem?_eq_getElem (by omega)⟩
      have htop : top Entry.term F = b.term := by
        unfold top
        rw [List.getLast?_eq_getElem?, hb]
        rfl
      have hsorted := hs.sorted hr (by omega) hF hb
      refine Or.inr (Or.inl ⟨q, hq, hkind, hsender, hterm, ?_⟩)
      rcases hu with hu | ⟨hu, hlast⟩
      · exact Or.inl (by omega)
      · rcases Nat.lt_or_ge t q.logTerm with hlt | hge
        · exact Or.inl hlt
        · exact Or.inr ⟨by omega, by omega⟩
    · exact Or.inl ⟨L, a, hL, ha, hat⟩
  · exact Or.inr (Or.inr hmiss)

/-- What a leader sends of its log. -/
theorem grounded_append (h : Logs cs H F S c) (hl : H.log c.term = some F) (hterm : x.term = c.term)
    (hkind : x.msgType = .append) (hlog : x.logTerm = c.log.term x.index)
    (hseg : c.log.Segment (x.index + 1) x.entries) (hc : x.commit = c.committed) : x.Grounded cs H := by
  refine ⟨fun _ => ⟨F, by rw [hterm]; exact hl, fun e he => ?_, fun hne => ?_, by rw [hc]; exact h.safe⟩,
    fun hk => ?_, fun hk => ?_, fun hk => ?_⟩
  · obtain ⟨k, hk⟩ := List.getElem?_of_mem he
    obtain ⟨h1, h2⟩ := h.full.getElem? (hseg.entryAt hk).2
    have hidx := h.full.index_eq h2
    rw [show e.index - 1 = x.index + 1 + k - 1 by omega]
    exact ⟨by omega, h2⟩
  · rw [hlog] at hne ⊢
    rcases h.full.termAt (Log.termAt_of_term_ne hne) with ⟨-, h2⟩ | ⟨-, h2⟩
    · exact absurd h2 hne
    · exact h2
  · rw [hkind] at hk
    cases hk
  · rw [hkind] at hk
    cases hk
  · rw [hkind] at hk
    cases hk

/-- A leader adds entries of its log to a queued append. -/
theorem Records.batch (h : Records cs sent H F S c) {k : ℕ} (hk : c.out[k]? = some x)
    (hkind : x.msgType = .append) (hr : c.role = .leader) {es : List Entry} {j : ℕ}
    (hseg : c.log.Segment j es) : Records cs sent H F S { c with
      out := c.out.set k { x with entries := x.entries ++ es, commit := c.committed } } := by
  have hl := h.leading hr
  have hmem := List.mem_of_getElem? hk
  have hterm := hl.term x hmem hkind
  obtain ⟨L, hL, hes, hlt, -⟩ := (h.speech.queue x hmem).append hkind
  have hLF : L = F := by
    rw [hterm, hl.log] at hL
    exact (Option.some.inj hL).symm
  subst hLF
  have hcases : ∀ y ∈ c.out.set k { x with entries := x.entries ++ es, commit := c.committed },
      y ∈ c.out ∨ y = { x with entries := x.entries ++ es, commit := c.committed } := fun y hy =>
    List.mem_or_eq_of_mem_set hy
  have hnot : ¬ ({ x with entries := x.entries ++ es, commit := c.committed } : Message).Acks := by
    rintro ⟨hk', -⟩
    rw [hkind] at hk'
    cases hk'
  refine ⟨{ h.logs with }, ⟨fun y hy => ?_, fun y hy hk' => ?_, fun y hy hk' => ?_, h.speech.told, h.speech.acked, ?_⟩,
    fun _ => { hl with term := fun y hy hk' => ?_, quiet := fun y hy hk' => ?_ }, fun hr' => ?_⟩
  · rcases hcases y hy with hy | rfl
    · exact h.speech.queue y hy
    · refine ⟨fun _ => ⟨L, hL, fun e he => ?_, hlt, h.logs.safe⟩, fun hk' => ?_, fun hk' => ?_, fun hk' => ?_⟩
      · rcases List.mem_append.mp he with he | he
        · exact hes e he
        · obtain ⟨i, hi⟩ := List.getElem?_of_mem he
          obtain ⟨h1, h2⟩ := h.logs.full.getElem? (hseg.entryAt hi).2
          have hidx := h.logs.full.index_eq h2
          rw [show e.index - 1 = j + i - 1 by omega]
          exact ⟨by omega, h2⟩
      · rw [hkind] at hk'
        cases hk'
      · rw [hkind] at hk'
        cases hk'
      · rw [hkind] at hk'
        cases hk'
  · rcases hcases y hy with hy | rfl
    · exact h.speech.acking y hy hk'
    · exact absurd hk' hnot
  · rcases hcases y hy with hy | rfl
    · exact h.speech.order y hy hk'
    · exact absurd hk' hnot
  · intro y hy t' i ht t n ha htt hn
    have hy : y ∈ sent ∨ y ∈ c.out := by
      refine hy.imp_right fun hy => (hcases y hy).resolve_right ?_
      rintro rfl
      rcases ht.kind with hg | hv
      · rw [hg.1] at hkind
        cases hkind
      · have hv : x.msgType = .requestVote := hv
        rw [hv] at hkind
        cases hkind
    have ha : H.ack c.id t n ∨ ∃ z ∈ c.out, z.Acks ∧ z.term = t ∧ n ≤ z.index := by
      refine ha.imp_right ?_
      rintro ⟨z, hz, hk', hrest⟩
      rcases hcases z hz with hz | rfl
      · exact ⟨z, hz, hk', hrest⟩
      · exact absurd hk' hnot
    have hv := h.speech.vouch y hy t' i ht t n ha htt hn
    rcases hv with hv | ⟨q, hq, hqk, hrest⟩ | hv
    · exact Or.inl hv
    · refine Or.inr (Or.inl ⟨q, hq.imp_right fun hq => ?_, hqk, hrest⟩)
      obtain ⟨p, hp⟩ := List.getElem?_of_mem hq
      have hne : k ≠ p := by
        rintro rfl
        rw [hk] at hp
        cases hp
        rw [hkind] at hqk
        cases hqk
      refine List.mem_of_getElem? (i := p) ?_
      rw [List.getElem?_set_ne hne]
      exact hp
    · exact Or.inr (Or.inr hv)
  · rcases hcases y hy with hy | rfl
    · exact hl.term y hy hk'
    · exact hterm
  · rcases hcases y hy with hy | rfl
    · exact hl.quiet y hy hk'
    · exact hnot hk'
  · rw [show c.role = .candidate from hr'] at hr
    cases hr

/-- Another log that begins with everything that was acknowledged and committed. -/
theorem Records.rewrite (h : Records cs sent H F S c) {l : Log} {p : ℕ} (hrole : c.role = .follower)
    (hfull : l.Full F') (hbase : l.base = c.log.base) (hroot : H.Rooted Entry.term F')
    (hbelow : ∀ e ∈ F', e.term ≤ c.term) (hp : p ≤ c.persisted) (hbp : c.log.base ≤ p) (hpl : p ≤ F'.length)
    (hpers : F'.take p = F.take p) (hcom : F'.take c.committed = F.take c.committed)
    (hrecalls : ∀ t n, t ≤ c.term → H.Recalls Entry.term (Quorum cs) F c.term t n →
      H.Recalls Entry.term (Quorum cs) F' c.term t n) : Records cs sent H F' S { c with log := l, persisted := p } where
  logs := { h.logs with
    full := hfull
    base_eq := h.logs.base_eq.trans hbase.symm
    rooted := hroot
    below := hbelow
    base_le := hbase.le.trans h.logs.base_le
    base_persisted := hbase.le.trans hbp
    persisted_le := hpl
    persisted := (Chronicle.take_of_take h.logs.persisted hp).trans hpers.symm
    safe := h.logs.safe.congr hcom }
  speech := { h.speech with
    acking := by
      intro x hx hk
      obtain ⟨h1, h2, h3, h4⟩ := h.speech.acking x hx hk
      exact ⟨h1, h2, h3, fun n hn hle => hrecalls _ n h3 (h4 n hn hle)⟩
    acked := by
      intro t n ha
      obtain ⟨h1, h2, h3, h4⟩ := h.speech.acked t n ha
      exact ⟨h1, h2, hrecalls t n h1 h3, h4⟩ }
  leading := by
    intro hr
    rw [show c.role = .leader from hr] at hrole
    cases hrole
  standing := by
    intro hr
    rw [show c.role = .candidate from hr] at hrole
    cases hrole

/-- A leader's entries are merged: what the leader does not contradict stays. -/
theorem Records.merge (h : Records cs sent H F S c) (hs : H.Sound Entry.term (Quorum cs) (Told sent))
    (hg : m.Grounded cs H) (hkind : m.msgType = .append) (hrole : c.role = .follower) (hterm : m.term = c.term)
    {l : Log} {p : ℕ} (hc : c.committed ≤ m.index) (ht : c.log.termAt m.index = some m.logTerm)
    (hi : Log.Consecutive (m.index + 1) m.entries) (hl : c.log.Merged c.committed m.entries l)
    (hp : p ≤ c.persisted) (hp' : min c.persisted c.committed ≤ p)
    (hst : ∀ i ≤ p, l.entryAt i = c.log.entryAt i) :
    ∃ F', Records cs sent H F' S { c with log := l, persisted := p } := by
  obtain ⟨L, hL, hes, hlt, -⟩ := hg.append hkind
  rw [hterm] at hL
  have hlogs := h.logs
  have hbp : c.log.base ≤ p := by
    have h1 := hlogs.base_le
    have h2 := hlogs.base_persisted
    omega
  have hrootL := hs.rooted _ L hL
  cases hl with
  | same _ =>
      exact ⟨F, h.rewrite hrole hlogs.full rfl hlogs.rooted hlogs.below hp hbp (hp.trans hlogs.persisted_le) rfl
        rfl fun _ _ _ hb => hb⟩
  | spliced pre e post hents hpre hne hcom hle =>
      have hmem : e ∈ m.entries := by rw [hents]; simp
      rw [hents] at hi
      obtain ⟨hcp, hce⟩ := RaftLog.consecutive_append_iff.mp hi
      have hidx : e.index = m.index + 1 + pre.length := hce.1
      have hb : c.log.base ≤ m.index := hlogs.base_le.trans hc
      have hlast := hlogs.full.last
      obtain ⟨hepos, heL⟩ := hes e hmem
      have hfull : (c.log.splice e.index (e :: post)).Full (F.take (e.index - 1) ++ e :: post) :=
        hlogs.full.splice (by omega) hle (by rw [hidx]; exact hce)
      have hlen : (F.take (e.index - 1)).length = e.index - 1 := by
        rw [List.length_take]
        omega
      -- below the conflict nothing changes, from there on it is the leader's log
      have hold : ∀ n, n ≤ e.index - 1 → (F.take (e.index - 1) ++ e :: post).take n = F.take n := by
        intro n hn
        rw [List.take_append_of_le_length (by omega), List.take_take, Nat.min_eq_left hn]
      have hnew : ∀ (k : ℕ) (a : Entry), e.index - 1 ≤ k → (F.take (e.index - 1) ++ e :: post)[k]? = some a →
          L[k]? = some a := by
        intro k a hk ha
        have hindex := hfull.index_eq ha
        rw [List.getElem?_append_right (by omega)] at ha
        have hmem' : a ∈ m.entries := by
          rw [hents]
          exact List.mem_append_right _ (List.mem_of_getElem? ha)
        have hget := (hes a hmem').2
        rwa [hindex, Nat.add_sub_cancel] at hget
      have hseam : (F.take (e.index - 1)) = L.take (e.index - 1) := by
        have hFpos : ∀ (k : ℕ) (a b : Entry), F[k]? = some a → L[k]? = some b → a.term = b.term →
            F.take (k + 1) = L.take (k + 1) := fun k a b h1 h2 h3 => hlogs.rooted.agree hrootL h1 h2 h3
        rcases List.eq_nil_or_concat pre with rfl | ⟨rest, a, rfl⟩
        · have hi' : e.index - 1 = m.index := by simp [hidx]
          rw [hi']
          rcases hlogs.full.termAt ht with ⟨h0, -⟩ | ⟨hpos, b, hbF, hbt⟩
          · rw [h0]
            rfl
          · obtain ⟨W, hW, -⟩ := hlogs.rooted _ b hbF
            have hne0 : m.logTerm ≠ 0 := by
              rw [← hbt]
              exact (hs.pos _ W hW).ne'
            obtain ⟨a, haL, hat⟩ := hlt hne0
            have heq := hFpos _ b a hbF haL (hbt.trans hat.symm)
            rwa [Nat.sub_add_cancel hpos] at heq
        · have hlen' : (rest.concat a).length = rest.length + 1 := List.length_concat
          have ha : a.index = m.index + 1 + rest.length := by
            have hk := Log.consecutive_iff.mp hcp rest.length (by omega)
            simpa using hk
          have hmem' : a ∈ rest.concat a := by simp
          obtain ⟨hapos, haL⟩ := hes a (by rw [hents]; exact List.mem_append_left _ hmem')
          rcases hlogs.full.termAt (hpre a hmem') with ⟨h0, -⟩ | ⟨-, b, hbF, hbt⟩
          · omega
          · have heq := hFpos _ b a hbF haL hbt
            rwa [Nat.sub_add_cancel hapos, show a.index = e.index - 1 by omega] at heq
      have hroot : H.Rooted Entry.term (F.take (e.index - 1) ++ e :: post) := by
        have hfrom : ∀ k, e.index - 1 ≤ k → k < (F.take (e.index - 1) ++ e :: post).length →
            (F.take (e.index - 1) ++ e :: post).take (k + 1) = L.take (k + 1) := by
          intro k hk hklen
          refine List.ext_getElem? fun i => ?_
          rw [List.getElem?_take, List.getElem?_take]
          split
          · rename_i hik
            rcases Nat.lt_or_ge i (e.index - 1) with hlt' | hge
            · rw [List.getElem?_append_left (by omega), hseam, List.getElem?_take_of_lt hlt']
            · have hget := List.getElem?_eq_getElem (l := F.take (e.index - 1) ++ e :: post) (i := i) (by omega)
              rw [hget]
              exact (hnew i _ hge hget).symm
          · rfl
        intro k a ha
        rcases Nat.lt_or_ge k (e.index - 1) with hlt' | hge
        · have haF : F[k]? = some a := by
            rw [List.getElem?_append_left (by omega), List.getElem?_take_of_lt hlt'] at ha
            exact ha
          obtain ⟨W, hW, htake⟩ := hlogs.rooted k a haF
          exact ⟨W, hW, htake.trans (hold (k + 1) (by omega)).symm⟩
        · obtain ⟨W, hW, htake⟩ := hrootL k a (hnew k a hge ha)
          exact ⟨W, hW, htake.trans (hfrom k hge (List.getElem?_eq_some_iff.mp ha).1).symm⟩
      have hbelow : ∀ a ∈ F.take (e.index - 1) ++ e :: post, a.term ≤ c.term := by
        intro a ha
        obtain ⟨k, hk⟩ := List.getElem?_of_mem ha
        rcases Nat.lt_or_ge k (e.index - 1) with hlt' | hge
        · rw [List.getElem?_append_left (by omega), List.getElem?_take_of_lt hlt'] at hk
          exact hlogs.below a (List.mem_of_getElem? hk)
        · have hkL := hnew k a hge hk
          rcases Nat.lt_or_ge k (H.start c.term) with hst' | hst'
          · exact (hs.before _ L k a hL hkL hst').1.le
          · exact (hs.after _ L k a hL hkL hst').le
      -- the conflict is above what is persisted still, and above what is borne
      have hlow : ∀ n, n ≤ F.length → F.take n = L.take n → n ≤ e.index - 1 := by
        intro n hn htake
        by_contra hnot
        refine hne ?_
        have hFe : F[e.index - 1]? = some e := (Chronicle.getElem?_of_take htake (by omega)).trans heL
        refine Log.termAt_of_entryAt ?_
        rw [hlogs.full.entryAt (by omega)]
        exact hFe
      have hplow : p ≤ e.index - 1 := by
        by_contra hnot
        have hsame := hst e.index (by omega)
        rw [Log.entryAt_splice_ge (by omega) hle le_rfl, Nat.sub_self] at hsame
        refine hne (Log.termAt_of_entryAt (e := e) ?_)
        rw [← hsame]
        rfl
      have hpl := hlogs.persisted_le
      refine ⟨_, h.rewrite hrole hfull rfl hroot hbelow hp hbp ?_ (hold p hplow) (hold _ (by omega)) ?_⟩
      · rw [List.length_append, hlen]
        omega
      · rintro t n htle ⟨hb, hkeeps⟩
        refine ⟨?_, fun heq => ?_⟩
        · rcases hb with ⟨W, hW, hnW, htake⟩ | hmiss
          swap
          · exact Or.inr hmiss
          have hnF := Chronicle.length_of_take htake hnW
          by_cases hsame : n ≤ e.index - 1
          · exact Or.inl ⟨W, hW, hnW, (hold n hsame).trans htake⟩
          · -- the leader's log differs there, so it is of a later term and does not start with it
            have hne' : F.take n ≠ L.take n := fun heq => hsame (hlow n hnF heq)
            rcases eq_or_lt_of_le htle with rfl | hlt'
            · rw [hL] at hW
              cases hW
              exact absurd htake hne'
            · exact Or.inr ⟨c.term, hlt', hs.misses hW hL fun hall => hne' (htake.trans hall.2.2.symm)⟩
        · subst heq
          rcases hkeeps rfl with ⟨W, hW, hnW, htake⟩ | ⟨G, W, hG, hr, hW, hkeep⟩
          · rw [hL] at hW
            cases hW
            exact Or.inl ⟨L, hL, hnW, (hold n (hlow n (Chronicle.length_of_take htake hnW) htake)).trans htake⟩
          · rw [hL] at hW
            cases hW
            refine Or.inr ⟨G, L, hG, hr, hL, fun j hj hjL heq => ?_⟩
            have h1 := hkeep j hj hjL heq
            have h2 := h1.trans heq
            exact (hold j (hlow j (Chronicle.length_of_take h2 hjL) h2)).trans h1

/-- A follower answers for nothing. -/
theorem Records.follow (h : Records cs sent H F S c)
    (hsame : (c'.id, c'.log, c'.store, c'.out, c'.pending, c'.committed, c'.persisted) =
      (c.id, c.log, c.store, c.out, c.pending, c.committed, c.persisted)) (hterm : c.term ≤ c'.term)
    (hl : c'.role ≠ .leader) (hc : c'.role ≠ .candidate) : Records cs sent H F S c' :=
  h.turn hsame hterm (fun hr => absurd hr hl) fun hr => absurd hr hc

/-- A step that changes nothing that is recorded. -/
theorem Records.quiet (h : Records cs sent H F S c)
    (hsame : (c'.id, c'.log, c'.store, c'.out, c'.pending, c'.committed, c'.persisted) =
      (c.id, c.log, c.store, c.out, c.pending, c.committed, c.persisted))
    (hsame' : (c'.term, c'.role, c'.matched, c'.reads) = (c.term, c.role, c.matched, c.reads)) :
    Records cs sent H F S c' := by
  have hall := hsame
  simp only [Prod.mk.injEq] at hsame hsame'
  obtain ⟨hid, -, -, hout, -⟩ := hsame
  obtain ⟨hterm, hrole, hmatched, hreads⟩ := hsame'
  refine h.turn hall hterm.ge (fun hr => ?_) fun hr => ?_
  · have hl := h.leading (hrole.symm.trans hr)
    refine ⟨?_, ?_, ?_, ?_, ?_⟩ <;> simp only [hterm, hout, hmatched, hreads]
    · exact hl.log
    · exact hl.term
    · exact hl.quiet
    · exact hl.matched
    · exact hl.reads
  · have hst := h.standing (hrole.symm.trans hr)
    refine ⟨?_, ?_, ?_, ?_⟩ <;> simp only [hterm, hout, hid]
    · exact hst.free
    · exact hst.below
    · exact hst.asked
    · exact hst.drained

/-- A leader that counts and remembers what is true. -/
theorem Records.lead (h : Records cs sent H F S c) {M : ℕ → ℕ} {ro : ReadOnly}
    (hM : c.role = .leader → ∀ v n, 0 < n → n ≤ M v → H.ack v c.term n)
    (hro : c.role = .leader → ∀ key st, ro.pending.lookup key = some st →
      H.Safe Entry.term (Quorum cs) F st.index) : Records cs sent H F S { c with matched := M, reads := ro } where
  logs := { h.logs with }
  speech := { h.speech with }
  leading := fun hr => { h.leading hr with matched := hM hr, reads := hro hr }
  standing := fun hr => { h.standing hr with }

/-- A new term in which nothing has been said. -/
theorem Records.campaign (h : Records cs sent H F S c) (hcs : cs.Plural) (he : Electing cs sent c)
    (hsent : ∀ x ∈ sent, x.Sincere cs sent) (M : ℕ → ℕ) :
    Records cs sent H F S { c.reset (c.term + 1) M with vote := c.id, role := .candidate } := by
  have hquiet : ∀ q, q ∈ sent ∨ q ∈ c.out → ∀ i, ¬ q.Tells c.id (c.term + 1) i := by
    intro q hq i ht
    rcases he.bound q hq _ i ht with hlt | ⟨heq, -⟩
    · omega
    · omega
  refine h.turn rfl (Nat.le_succ _) nofun fun _ => ⟨fun hwon => ?_, fun e he' => ?_, fun q hq hk hs ht => ?_, ?_⟩
  · obtain ⟨q, hq, -, ht⟩ := hwon.asked hcs hsent
    exact absurd ht (hquiet q (Or.inl hq) _)
  · exact Nat.lt_succ_of_le (h.logs.below e he')
  · exact absurd ⟨hs, ht, Or.inr ⟨hk, rfl⟩⟩ (hquiet q hq c.id)
  · rintro ⟨q, hq, i, ht⟩
    exact absurd ht (hquiet q (Or.inl hq) i)

/-- A node acknowledges, in its own term, what it has written. -/
def own (c : Peer) (v t n : ℕ) : Prop := v = c.id ∧ t = c.term ∧ 0 < n ∧ n ≤ c.persisted

theorem own_le (he : Electing cs sent c) : ∀ v t n, own c v t n → ∀ u, t < u → ¬ Told sent v u := by
  rintro v t n ⟨rfl, rfl, -⟩ u hu ht
  have := he.told_le ht
  omega

theorem witnessed_own (h : Witnessed cs sent H) (he : Electing cs sent c) :
    Witnessed cs sent (H.acknowledge (own c)) := by
  refine h.grow (h.sound.acknowledge (own_le he)) (Chronicle.extends_acknowledge H _) (fun t L hL hn => ?_)
    fun v t n ha => ha.imp_right fun ho => own_le he v t n ho
  have hL : H.log t = some L := hL
  rw [hn] at hL
  cases hL

/-- A leader acknowledges its own log. -/
theorem Records.own (h : Records cs sent H F S c) (he : Electing cs sent c) (hl : H.log c.term = some F)
    (hfree : c.role ≠ .candidate) (htold : Told sent c.id c.term) :
    Records cs sent (H.acknowledge (own c)) F S c := by
  refine h.grow he (Chronicle.extends_acknowledge H _) (fun _ => rfl) (fun hr => absurd hr hfree) ?_
  rintro t n (ha | ⟨-, rfl, -, hn⟩)
  · exact Or.inl ha
  · have hlen := h.logs.persisted_le
    have hF : H.Holds F c.term n := ⟨F, hl, hn.trans hlen, rfl⟩
    have hS : H.Holds S c.term n := ⟨F, hl, hn.trans hlen, Chronicle.take_of_take h.logs.persisted hn⟩
    have hext : Extends Entry.term H (H.acknowledge (Peer.own c)) := Chronicle.extends_acknowledge H _
    exact Or.inr ⟨rfl, h.speech.told _ htold, hF.extends hext, hS.extends hext⟩

/-- A winner starts its term. -/
theorem Records.win (h : Records cs sent H F S c) (hcs : cs.Plural) (he : Electing cs sent c)
    (hsent : ∀ x ∈ sent, x.Sincere cs sent) (hW : Witnessed cs sent H) (hr : c.role = .candidate)
    (hw : c.voters.Wins {v | c.votes v = some true}) {M : ℕ → ℕ} (hM : c.Cleared M) :
    ∃ H', Extends Entry.term H H' ∧ (∀ t, t ≠ c.term → H'.log t = H.log t) ∧
      (∀ v, v ≠ c.id → ∀ t n, H'.ack v t n → H.ack v t n) ∧ Witnessed cs sent H' ∧
      Records cs sent H' F S { c.reset c.term M with role := .leader, pendingConf := c.log.last } := by
  have hst := h.standing hr
  have hwon := he.elected hr hsent hw
  have hfree := hst.free hwon
  obtain ⟨q0, hq0, hk0, ht0⟩ := hwon.asked hcs hsent
  have htold : Told sent c.id c.term := ⟨q0, hq0, c.id, ht0⟩
  have hwon' := hwon
  obtain ⟨V, hV, hVi, hVw⟩ := hwon'
  have hVw := hVw.resolve_left (hcs V hV c.id)
  have hquorum : Quorum cs {v | ∃ m ∈ sent, m.Tells v c.term c.id} := ⟨V, c.id, hV, hVi, hVw⟩
  have hlt : ∀ (k : ℕ) (a : Entry), F[k]? = some a → a.term < c.term := fun k a ha =>
    hst.below a (List.mem_of_getElem? ha)
  have hpos : 0 < c.term := (he.stands (Or.inl hr)).1
  -- who voted has compared
  have hsound : (H.choose c.term F).Sound Entry.term (Quorum cs) (Told sent) := by
    refine hW.sound.choose hfree hpos h.logs.rooted hlt hquorum ?_
    rintro v ⟨y, hy, hty⟩
    refine ⟨⟨y, hy, c.id, hty⟩, fun t n hack htt hn => ?_⟩
    rcases hW.vouch y hy v c.term c.id hty t n hack htt hn with hb | ⟨q, hq, hqk, hqs, hqt, hb⟩ | hb
    · exact Or.inl hb
    · obtain ⟨h1, h2⟩ := hst.asked q (Or.inl hq) hqk hqs hqt
      rw [h1, h2] at hb
      exact Or.inr (Or.inl hb)
    · exact Or.inr (Or.inr hb)
  have hext : Extends Entry.term H (H.choose c.term F) := Chronicle.extends_choose hfree
  have hW1 : Witnessed cs sent (H.choose c.term F) := by
    refine hW.grow hsound hext (fun t L hL hn => ?_) fun v t n ha => Or.inl ha
    rcases eq_or_ne t c.term with rfl | hne
    · exact ⟨c.id, hwon⟩
    · rw [Chronicle.log_choose_of_ne hne, hn] at hL
      cases hL
  -- the node as a follower, until it has acknowledged its own log
  have hef : Electing cs sent { c with role := .follower } :=
    he.turn hsent (.follower rfl rfl rfl he.voters he.pending (Or.inr ⟨rfl, fun _ => rfl⟩) rfl)
  have hleft : Records cs sent H F S { c with role := .follower } := h.follow rfl le_rfl nofun nofun
  have hmid : Records cs sent (H.choose c.term F) F S { c with role := .follower } :=
    hleft.grow hef hext nofun nofun fun t n ha => Or.inl ha
  have hown := hmid.own hef Chronicle.log_choose nofun htold
  refine ⟨(H.choose c.term F).acknowledge (Peer.own c), hext.trans (Chronicle.extends_acknowledge _ _),
    fun t ht => Chronicle.log_choose_of_ne ht, fun v hv t n ha => ha.resolve_right fun ho => hv ho.1,
    witnessed_own hW1 he, hown.turn rfl le_rfl (fun _ => ?_) nofun⟩
  refine ⟨Chronicle.log_choose, fun x hx hk => ?_, fun x hx => ?_, fun v n hn hle => ?_, fun key st hl => ?_⟩
  · exact absurd hk (hst.drained htold x hx).1
  · exact (hst.drained htold x hx).2
  · rcases hM v with h0 | ⟨rfl, hp⟩
    · have hle : n ≤ M v := hle
      omega
    · have hle : n ≤ M c.id := hle
      exact Or.inr ⟨rfl, rfl, hn, hle.trans hp.le⟩
  · cases hl

/-- A leader writes to its log. -/
theorem Records.extend (h : Records cs sent H F S c) (hW : Witnessed cs sent H)
    (hr : c.role = .leader) {es : List Entry} (hi : Log.Consecutive (c.log.last + 1) es)
    (ht : ∀ e ∈ es, e.term = c.term) (pc : ℕ) :
    Witnessed cs sent (H.goOn c.term es) ∧ Records cs sent (H.goOn c.term es) (F ++ es) S
      { c with log := c.log.splice (c.log.last + 1) es, pendingConf := pc } := by
  have hl := h.leading hr
  have hext : Extends Entry.term H (H.goOn c.term es) := Chronicle.extends_goOn hl.log ht
  have hlogs := h.logs
  have hlast := hlogs.full.last
  have hW' : Witnessed cs sent (H.goOn c.term es) := by
    refine hW.grow (hW.sound.goOn hl.log ht) hext (fun t L hL hn => ?_) fun v t n ha => Or.inl ha
    rcases eq_or_ne t c.term with rfl | hne
    · exact absurd hn (by rw [hl.log]; simp)
    · rw [Chronicle.log_goOn_of_ne hne, hn] at hL
      cases hL
  have hkeep : ∀ n, n ≤ F.length → (F ++ es).take n = F.take n := fun n hn => List.take_append_of_le_length hn
  have hlow : c.log.base < c.log.last + 1 := Nat.lt_succ_of_le Log.base_le_last
  have hfull : (c.log.splice (c.log.last + 1) es).Full (F ++ es) := by
    have hf := hlogs.full.splice hlow le_rfl hi
    rwa [Nat.add_sub_cancel, hlast, List.take_length, ← hlast] at hf
  have hnew : (H.goOn c.term es).log c.term = some (F ++ es) := Chronicle.log_goOn hl.log
  have hsafe : ∀ i, H.Safe Entry.term (Quorum cs) F i → (H.goOn c.term es).Safe Entry.term (Quorum cs) (F ++ es) i :=
    fun i hs => (hs.extends hext).congr (hkeep i hs.le_length)
  refine ⟨hW', ⟨?_, ?_, fun _ => ?_, fun hr' => ?_⟩⟩
  · exact { hlogs with
      full := hfull
      base_eq := hlogs.base_eq
      rooted := hW'.sound.rooted _ _ hnew
      rootedS := hlogs.rootedS.extends hext
      below := by
        intro e he'
        rcases List.mem_append.mp he' with he' | he'
        · exact hlogs.below e he'
        · exact (ht e he').le
      persisted_le := by
        rw [List.length_append]
        exact hlogs.persisted_le.trans (Nat.le_add_right _ _)
      persisted := hlogs.persisted.trans (hkeep _ hlogs.persisted_le).symm
      safe := hsafe _ hlogs.safe
      saved := hlogs.saved.extends hext }
  · refine ⟨fun x hx => (h.speech.queue x hx).extends hext, fun x hx hk => absurd hk (hl.quiet x hx),
      fun x hx hk => absurd hk (hl.quiet x hx), h.speech.told, fun t n ha => ?_,
      fun y hy t' i hty t n ha htt hn => ?_⟩
    · obtain ⟨h1, h2, h3, h4⟩ := h.speech.acked t n ha
      exact ⟨h1, h2, (h3.extends hext).append es, h4.extends hext⟩
    · exact (h.speech.vouch y hy t' i hty t n ha htt hn).mono hext fun _ hq => hq
  · exact ⟨hnew, hl.term, hl.quiet, fun v n hn hle => hext.ack _ _ _ (hl.matched v n hn hle),
      fun key st hst => hsafe _ (hl.reads key st hst)⟩
  · rw [show c.role = .candidate from hr'] at hr
    cases hr

/-- A report of durability. -/
theorem Records.persist (h : Records cs sent H F S c) {i : ℕ} (hlt : c.persisted < i)
    (hst : ∀ j, c.log.base < j → j ≤ i → c.store.log.entryAt j = c.log.entryAt j) (hle : i ≤ c.log.last) :
    Records cs sent H F S { c with persisted := i } where
  logs := { h.logs with
    base_persisted := h.logs.base_persisted.trans hlt.le
    persisted_le := by
      rw [← h.logs.full.last]
      exact hle
    persisted := by
      have hlast := h.logs.full.last
      refine List.ext_getElem? fun k => ?_
      rw [List.getElem?_take, List.getElem?_take]
      split
      · rename_i hk
        rcases Nat.lt_or_ge k c.persisted with hlt' | hge
        · exact Chronicle.getElem?_of_take h.logs.persisted hlt'
        · have hb := h.logs.base_persisted
          have hk : k < i := hk
          have hsame := hst (k + 1) (by omega) hk
          rw [h.logs.full.entryAt (by omega), Nat.add_sub_cancel] at hsame
          obtain ⟨e, he⟩ : ∃ e, F[k]? = some e := ⟨F[k], List.getElem?_eq_getElem (by omega)⟩
          rw [he] at hsame ⊢
          exact (h.logs.stored.getElem? hsame).2
      · rfl }
  speech := { h.speech with }
  leading := fun hr => { h.leading hr with }
  standing := fun hr => { h.standing hr with }

/-! ### Commits and answers -/

/-- A log that has all that an append carries agrees with the leader's, up to there. -/
theorem Logs.matches (h : Logs cs H F S c) (hs : H.Sound Entry.term (Quorum cs) (Told sent)) (hg : m.Grounded cs H)
    (hkind : m.msgType = .append) (hh : c.log.Holds m) : ∃ L, H.log m.term = some L ∧
      m.index + m.entries.length ≤ L.length ∧
      F.take (m.index + m.entries.length) = L.take (m.index + m.entries.length) ∧
      H.Safe Entry.term (Quorum cs) L m.commit := by
  obtain ⟨L, hL, hes, hlt, hsafe⟩ := hg.append hkind
  obtain ⟨hterm, hcons, hents⟩ := hh
  have hrootL := hs.rooted _ L hL
  -- both have an entry of the same term where the message ends
  have hmeet : m.index + m.entries.length = 0 ∨ ∃ a b, F[m.index + m.entries.length - 1]? = some b ∧
      L[m.index + m.entries.length - 1]? = some a ∧ b.term = a.term := by
    rcases List.eq_nil_or_concat m.entries with hnil | ⟨rest, a, hconcat⟩
    · rw [hnil, List.length_nil, Nat.add_zero]
      rcases h.full.termAt hterm with ⟨h0, -⟩ | ⟨-, b, hb, hbt⟩
      · exact Or.inl h0
      · obtain ⟨W, hW, -⟩ := h.rooted _ b hb
        obtain ⟨a, ha, hat⟩ := hlt (by rw [← hbt]; exact (hs.pos _ W hW).ne')
        exact Or.inr ⟨a, b, hb, ha, hbt.trans hat.symm⟩
    · have hlen : m.entries.length = rest.length + 1 := by rw [hconcat, List.length_concat]
      have hmem : a ∈ m.entries := by
        rw [hconcat]
        simp
      have hidx : a.index = m.index + m.entries.length := by
        have hk := Log.consecutive_iff.mp hcons rest.length (by omega)
        simp only [hconcat, List.get_eq_getElem, List.concat_eq_append, List.getElem_concat_length] at hk
        omega
      obtain ⟨hpos, ha⟩ := hes a hmem
      rcases h.full.termAt (hents a hmem) with ⟨h0, -⟩ | ⟨-, b, hb, hbt⟩
      · omega
      · rw [← hidx]
        exact Or.inr ⟨a, b, hb, ha, hbt⟩
  refine ⟨L, hL, ?_, ?_, hsafe⟩
  · rcases hmeet with h0 | ⟨a, b, -, ha, -⟩
    · omega
    · have := (List.getElem?_eq_some_iff.mp ha).1
      omega
  · rcases hmeet with h0 | ⟨a, b, hb, ha, hab⟩
    · rw [h0]
      rfl
    · rcases Nat.eq_zero_or_pos (m.index + m.entries.length) with h0 | hpos
      · rw [h0]
        rfl
      · have heq := h.rooted.agree hrootL hb ha hab
        rwa [Nat.sub_add_cancel hpos] at heq

/-- A commit position that comes with a vote message. -/
theorem Logs.safe_vote (h : Logs cs H F S c) (hs : H.Sound Entry.term (Quorum cs) (Told sent)) (hg : m.Grounded cs H)
    (hkind : Raft.isVoteMessage m.msgType = true) (h0 : m.commitTerm ≠ 0)
    (ht : c.log.termAt m.commit = some m.commitTerm) : H.Safe Entry.term (Quorum cs) F m.commit := by
  rcases h.full.termAt ht with ⟨hzero, -⟩ | ⟨hpos, b, hb, hbt⟩
  · exact Or.inl hzero
  rcases hg.vote hkind with hc | hc | ⟨L, hsafe, e, he, het⟩
  · omega
  · exact absurd hc h0
  · rcases hsafe with hc | ⟨t, n, W, hchosen, hW, hle, htake⟩
    · omega
    · have heW : W[m.commit - 1]? = some e := (Chronicle.getElem?_of_take htake (by omega)).symm.trans he
      have heq := h.rooted.agree (hs.rooted _ W hW) hb heW (hbt.trans het.symm)
      rw [Nat.sub_add_cancel hpos] at heq
      exact Or.inr ⟨t, n, W, hchosen, hW, hle, heq⟩

/-- **What is committed is safe.** -/
theorem Records.commits (h : Records cs sent H F S c) (hW : Witnessed cs sent H) (he : Electing cs sent c)
    (hsent : ∀ x ∈ sent, x.Sincere cs sent) (hm : m.Genuine sent c.id) {i : ℕ} (hlt : c.committed < i)
    (hc : Commits m c i) : H.Safe Entry.term (Quorum cs) F i := by
  have hs := hW.sound
  have hmeet := @quorums_meet cs
  cases hc with
  | append hkind hr hcur hh hc hl =>
      have hmem := (hm.2 (Or.inl (Or.inl hkind))).1
      obtain ⟨L, -, -, htake, hsafe⟩ := h.logs.matches hs (hW.ground m hmem) hkind hh
      exact (hsafe.mono hc).congr (Chronicle.take_of_take htake hl)
  | heartbeat hkind hr hcur hc =>
      obtain ⟨hmem, hdest⟩ := hm.2 (Or.inl (Or.inr (Or.inl hkind)))
      have hpos := (hsent m hmem).term (Or.inr (Or.inl hkind))
      have hterm : m.term = c.term := hcur.resolve_right hpos.ne'
      rcases (hW.ground m hmem).heartbeat hkind with hc0 | ⟨L, hL, hacks, hsafe⟩
      · omega
      · have hack := hacks i (by omega) hc.le
        rw [hdest, hterm] at hack
        rw [hterm] at hL
        rw [← hc] at hsafe
        have hkeeps := (h.speech.acked _ _ hack).2.2.1.2 rfl
        exact hsafe.congr (hkeeps.holds hs hmeet hL hsafe)
  | vote hkind hr hc ht h0 hterm hconf =>
      have hmem := (hm.2 (Or.inr (Or.inr (Or.inr hkind)))).1
      rw [hc] at ht ⊢
      exact h.logs.safe_vote hs (hW.ground m hmem) hkind h0 ht
  | readIndexResp hkind hr hcur hc ht =>
      have hmem := (hm.2 (Or.inr (Or.inr (Or.inl hkind)))).1
      obtain ⟨L, hL, hsafe⟩ := (hW.ground m hmem).readIndexResp hkind
      rcases h.logs.full.termAt ht with ⟨h0, -⟩ | ⟨hpos, b, hb, hbt⟩
      · omega
      · obtain ⟨W, hW', htake⟩ := h.logs.rooted _ b hb
        rw [hbt, hL] at hW'
        cases hW'
        rw [Nat.sub_add_cancel hpos] at htake
        rw [← hc] at hsafe
        exact hsafe.congr htake.symm
  | snapshot s hkind => exact absurd hkind hm.1
  | quorum hr ht hw =>
      have hl := h.leading hr
      rcases h.logs.full.termAt ht with ⟨h0, -⟩ | ⟨hpos, b, hb, hbt⟩
      · omega
      · refine Or.inr ⟨c.term, i, F, ⟨⟨hpos, F, b, hl.log, hb, hbt⟩, {v | i ≤ c.matched v}, ?_, fun v hv => ?_⟩,
          hl.log, le_rfl, rfl⟩
        · exact ⟨c.voters, c.id, he.voters, he.member (by rw [hr]; exact nofun), hw⟩
        · exact hl.matched v i hpos hv

theorem grounded_commitOf (h : Logs cs H F S c) (hc : x.CommitOf c) : x.commit = 0 ∨ x.commitTerm = 0 ∨
    ∃ L : List Entry, H.Safe Entry.term (Quorum cs) L x.commit ∧ ∃ e, L[x.commit - 1]? = some e ∧
      e.term = x.commitTerm := by
  rcases hc with ⟨h0, -⟩ | ⟨h1, h2⟩
  · exact Or.inl h0
  · by_cases hne : x.commitTerm = 0
    · exact Or.inr (Or.inl hne)
    · rw [h2] at hne
      rcases h.full.termAt (Log.termAt_of_term_ne hne) with ⟨-, h0⟩ | ⟨-, he⟩
      · exact absurd h0 hne
      · rw [h1, h2]
        exact Or.inr (Or.inr ⟨F, h.safe, he⟩)

/-- A vote message says where the node has committed. -/
theorem grounded_vote (h : Logs cs H F S c) (hkind : Raft.isVoteMessage x.msgType = true)
    (hc : x.commit = 0 ∨ x.CommitOf c) : x.Grounded cs H := by
  refine ⟨fun hk => ?_, fun hk => ?_, fun hk => ?_, fun _ => hc.elim Or.inl (grounded_commitOf h)⟩ <;>
    (rw [hk] at hkind; cases hkind)

/-- A queued message is of one of the kinds that are sent. -/
theorem Records.send (h : Records cs sent H F S c) (hW : Witnessed cs sent H) (he : Electing cs sent c)
    (hsent : ∀ x ∈ sent, x.Sincere cs sent) (hm : m.Genuine sent c.id) (hx : Sends honest m c x) :
    Records cs sent H F S (c.post x) := by
  have hother : ∀ k : MessageType, x.msgType = k → k ≠ .append → k ≠ .heartbeat → k ≠ .readIndexResp →
      Raft.isVoteMessage k ≠ true → k ≠ .appendResponse → Records cs sent H F S (c.post x) := by
    rintro k rfl h1 h2 h3 h4 h5
    refine h.postOther he (.of_other h1 h2 h3 h4) (fun hk => h5 hk.1) h1 (fun hk => h4 (by rw [hk]; rfl)) ?_
    exact fun hk => h4 (by rw [hk.1]; rfl)
  have hcanvass : ∀ k : MessageType, x.msgType = k → Raft.isVoteMessage k = true → k ≠ .requestVote →
      (k ≠ .requestVoteResponse ∨ x.reject = true) → (x.commit = 0 ∨ x.CommitOf c) →
      Records cs sent H F S (c.post x) := by
    rintro k rfl h1 h2 h3 h4
    refine h.postOther he (grounded_vote h.logs h1 h4) (fun hk => ?_) (fun hk => ?_) h2 fun hk => ?_
    · rw [hk.1] at h1
      cases h1
    · rw [hk] at h1
      cases h1
    · rcases h3 with h3 | h3
      · exact h3 hk.1
      · rw [hk.2] at h3
        cases h3
  cases hx with
  | append hr ht hs htm hl he' hc =>
      refine h.post he (grounded_append h.logs (h.leading hr).log htm ht hl he' hc) (fun hk => ?_)
        (fun _ => ⟨hr, htm⟩) (fun hk => ?_) fun i t' hk => ?_
      · rw [hk.1] at ht
        cases ht
      · rw [hk] at ht
        cases ht
      · rcases hk.kind with hk | hk
        · rw [hk.1] at ht
          cases ht
        · rw [hk] at ht
          cases ht
  | heartbeat hr ht hs htm hc hctx =>
      have hl := h.leading hr
      refine h.postOther he ⟨fun hk => ?_, fun _ => ?_, fun hk => ?_, fun hk => ?_⟩ (fun hk => ?_) (fun hk => ?_)
        (fun hk => ?_) fun hk => ?_
      · rw [hk] at ht
        cases ht
      · refine Or.inr ⟨F, by rw [htm]; exact hl.log, fun n hn hle => ?_, ?_⟩
        · rw [htm]
          exact hl.matched _ n hn (hle.trans (hc.le.trans (min_le_left _ _)))
        · exact h.logs.safe.mono (hc.le.trans (min_le_right _ _))
      · rw [hk] at ht
        cases ht
      · rw [ht] at hk
        cases hk
      · rw [hk.1] at ht
        cases ht
      · rw [hk] at ht
        cases ht
      · rw [hk] at ht
        cases ht
      · rw [hk.1] at ht
        cases ht
  | appendResponse ht hs htm hi =>
      have hground : x.Grounded cs H := .of_other (by rw [ht]; nofun) (by rw [ht]; nofun) (by rw [ht]; nofun)
        (by rw [ht]; nofun)
      refine h.post he hground (fun hk => ?_) (fun hk => ?_) (fun hk => ?_) fun i t' hk => ?_
      · obtain ⟨-, hrej, hidx⟩ := hk
        rcases hi with hi | ⟨hi, -⟩ | ⟨hcur, hr, hi⟩
        · rw [hrej] at hi
          cases hi
        · exact absurd hi hidx
        · have hkind : m.msgType = .append := by
            rcases hi with ⟨hk | hk, -⟩ | ⟨hk, -⟩
            · exact hk
            · exact absurd hk hm.1
            · exact hk
          have hmem := (hm.2 (Or.inl (Or.inl hkind))).1
          have hpos := (hsent m hmem).term (Or.inl hkind)
          have hterm : m.term = c.term := hcur.resolve_right hpos.ne'
          refine ⟨hr, hs, htm, hterm ▸ hpos, fun n hn hle => ?_⟩
          rw [htm, ← hterm]
          rcases hi with ⟨-, hi⟩ | ⟨-, hh, hi⟩
          · -- what is committed is acknowledged to an append that is behind it
            obtain ⟨L, hL, -⟩ := (hW.ground m hmem).append hkind
            exact .of_safe hW.sound quorums_meet h.logs.rooted (h.logs.safe.mono (hle.trans hi.le)) hn hL
          · obtain ⟨L, hL, hlen, htake, -⟩ := h.logs.matches hW.sound (hW.ground m hmem) hkind hh
            exact .of_holds ⟨L, hL, by omega, Chronicle.take_of_take htake (by omega)⟩
      · rw [hk] at ht
        cases ht
      · rw [hk] at ht
        cases ht
      · rcases hk.kind with hk | hk
        · rw [hk.1] at ht
          cases ht
        · rw [hk] at ht
          cases ht
  | requestVote hr ht hs htm hd hi hl hc =>
      have hlast : x.index = F.length := hi.trans h.logs.full.last
      have htop : x.logTerm = top Entry.term F := hl.trans h.logs.full.top_eq
      refine h.post he (grounded_vote h.logs (by rw [ht]; rfl) (Or.inr hc)) (fun hk => ?_) (fun hk => ?_)
        (fun _ _ _ => ⟨hlast, htop⟩) fun i t' hk => ?_
      · rw [hk.1] at ht
        cases ht
      · rw [hk] at ht
        cases ht
      · have hown : c.id = i := by
          rcases hk.vote with ⟨hg, -⟩ | ⟨-, hi⟩
          · rw [hg.1] at ht
            cases ht
          · exact hi
        have hterm' : t' = c.term := hk.term.symm.trans htm
        refine ⟨hterm', fun t n hb _ hn => ?_⟩
        exact vouches_of_bears hW.sound h.logs.rooted hb hn (Or.inr (List.mem_append_right _ (List.mem_singleton.mpr rfl)))
          ht (hs.trans hown) hk.term (Or.inr ⟨htop, hlast.ge⟩)
  | requestPreVote hr ht hs htm hd hi hl hc =>
      exact hcanvass _ ht rfl nofun (Or.inl nofun) (Or.inr hc)
  | voteReject ht hs htm hrej hc =>
      rcases ht with ht | ht
      · exact hcanvass _ ht rfl nofun (Or.inr hrej) (Or.inr hc)
      · exact hcanvass _ ht rfl nofun (Or.inl nofun) (Or.inr hc)
  | preVoteGrant hk ht hs htm hrej hc => exact hcanvass _ ht rfl nofun (Or.inl nofun) (Or.inl hc)
  | snapshot s hr ht => exact hother _ ht nofun nofun nofun nofun nofun
  | heartbeatResponse hr hk hcur ht => exact hother _ ht nofun nofun nofun nofun nofun
  | timeoutNow hr ht => exact hother _ ht nofun nofun nofun nofun nofun
  | forward hk ht he' htm =>
      rcases hk with hk | hk | hk <;> rw [hk] at ht <;> exact hother _ ht nofun nofun nofun nofun nofun

/-- A node grants its vote to somebody whose log goes as far. -/
theorem Records.grant (h : Records cs sent H F S c) (hW : Witnessed cs sent H) (he : Electing cs sent c)
    (hsent : ∀ x ∈ sent, x.Sincere cs sent) (hm : m.Genuine sent c.id) (hkind : m.msgType = .requestVote)
    (hcur : c.Current m) (hu : c.log.UpToDate m.index m.logTerm) (ht : x.msgType = .requestVoteResponse) (hd : x.dest = m.sender) (htm : x.term = m.term)
    (hc : x.commit = 0) : Records cs sent H F S { c with vote := m.sender, out := c.out ++ [x] } := by
  have hmem := (hm.2 (Or.inl (Or.inr (Or.inr (Or.inr (Or.inl hkind)))))).1
  have hpos := (hsent m hmem).term (Or.inr (Or.inr (Or.inr (Or.inl hkind))))
  have hterm : m.term = c.term := hcur.resolve_right hpos.ne'
  have hpost := h.post he (grounded_vote h.logs (by rw [ht]; rfl) (Or.inl hc)) (fun hk => (by rw [hk.1] at ht; cases ht))
    (fun hk => (by rw [hk] at ht; cases ht)) (fun hk => (by rw [hk] at ht; cases ht)) fun i t' hk => ?_
  · exact hpost.quiet rfl rfl
  · have hgoes : x.dest = i := by
      rcases hk.vote with ⟨-, hi⟩ | ⟨hv, -⟩
      · exact hi
      · rw [ht] at hv
        cases hv
    have hterm' : m.term = t' := htm.symm.trans hk.term
    refine ⟨hterm'.symm.trans hterm, fun t n hb _ hn => ?_⟩
    refine vouches_of_bears hW.sound h.logs.rooted hb hn (Or.inl hmem) hkind (hd.symm.trans hgoes) hterm' ?_
    rw [← h.logs.full.top_eq, ← h.logs.full.last]
    exact hu

/-- A leader answers a read request with what is safe. -/
theorem Records.answer (h : Records cs sent H F S c) (he : Electing cs sent c) {req : Message} {i : ℕ}
    (ha : Answers m c req i) (ht : x.msgType = .readIndexResp) (htm : x.term = c.term) (hi : x.index = i) :
    Records cs sent H F S (c.post x) := by
  obtain ⟨hr, hsafe⟩ : c.role = .leader ∧ H.Safe Entry.term (Quorum cs) F i := by
    cases ha with
    | released key st hr hst hreq hi hrel => exact ⟨hr, hi ▸ (h.leading hr).reads key st hst⟩
    | direct hr hreq hi hin hs => exact ⟨hr, hi ▸ h.logs.safe⟩
  refine h.postOther he ⟨fun hk => ?_, fun hk => ?_, fun _ => ?_, fun hk => ?_⟩ (fun hk => ?_) (fun hk => ?_)
    (fun hk => ?_) fun hk => ?_
  · rw [hk] at ht
    cases ht
  · rw [hk] at ht
    cases ht
  · rw [htm, hi]
    exact ⟨F, (h.leading hr).log, hsafe⟩
  · rw [ht] at hk
    cases hk
  · rw [hk.1] at ht
    cases ht
  · rw [hk] at ht
    cases ht
  · rw [hk] at ht
    cases ht
  · rw [hk.1] at ht
    cases ht

end Peer

namespace ReadOnly

variable {P : ℕ → Prop} {ro ro' : ReadOnly}

/-- A registered request waits at the index that it was registered with. -/
theorem lookup_addRequest (h : ∀ key st, ro.pending.lookup key = some st → P st.index) {i id : ℕ} {req : Message}
    (hi : P i) : ∀ key st, (ro.addRequest i req id).pending.lookup key = some st → P st.index := by
  intro key st hst
  unfold addRequest at hst
  split at hst
  · exact h key st hst
  · rename_i e rest _
    split at hst
    · exact h key st hst
    · by_cases hkey : key = e.data
      · subst hkey
        rw [AList.lookup_insert] at hst
        cases hst
        exact hi
      · rw [AList.lookup_insert_ne hkey] at hst
        exact h key st hst

theorem lookup_recvACK (h : ∀ key st, ro.pending.lookup key = some st → P st.index) {id : ℕ} {ctx : Bytes} :
    ∀ key st, (ro.recvACK id ctx).1.pending.lookup key = some st → P st.index := by
  intro key st hst
  unfold recvACK at hst
  split at hst
  · exact h key st hst
  · rename_i st' hst'
    by_cases hkey : key = ctx
    · subst hkey
      rw [AList.lookup_insert] at hst
      cases hst
      exact h key st' hst'
    · rw [AList.lookup_insert_ne hkey] at hst
      exact h key st hst

theorem lookup_advance (h : ∀ key st, ro.pending.lookup key = some st → P st.index) {ctx : Bytes}
    {sts : List ReadIndexStatus} (ha : ro.advance ctx = .ok (ro', sts)) :
    ∀ key st, ro'.pending.lookup key = some st → P st.index := by
  intro key st hst
  unfold advance at ha
  split at ha
  · dsimp only at ha
    split at ha
    · cases ha
      rw [lookup_foldl_erase] at hst
      split at hst
      · cases hst
      · exact h key st hst
    · cases ha
  · cases ha
    exact h key st hst

end ReadOnly

open Peer

variable {honest : Prop} {cs : ConfState} {sent : List Message} {H H' H'' : Chronicle Entry} {F S : List Entry}
  {c c' : Peer} {m : Message}

/-- What node `id` adds to the chronicle: logs of terms that it has won, and its own acknowledgements. -/
structure Adds (cs : ConfState) (sent : List Message) (id : ℕ) (H H' : Chronicle Entry) : Prop where
  grows : Extends Entry.term H H'
  log : ∀ t, H'.log t = H.log t ∨ Elected cs sent id t
  ack : ∀ v, v ≠ id → ∀ t n, H'.ack v t n → H.ack v t n

theorem Adds.refl {id : ℕ} : Adds cs sent id H H := ⟨.refl, fun _ => Or.inl rfl, fun _ _ _ _ h => h⟩

theorem Adds.trans {id : ℕ} (h : Adds cs sent id H H') (h' : Adds cs sent id H' H'') : Adds cs sent id H H'' where
  grows := h.grows.trans h'.grows
  log := by
    intro t
    rcases h'.log t with h1 | h1
    · rcases h.log t with h2 | h2
      · exact Or.inl (h1.trans h2)
      · exact Or.inr h2
    · exact Or.inr h1
  ack := fun v hv t n ha => h.ack v hv t n (h'.ack v hv t n ha)

/-- A quiet step of a node. -/
theorem recorded (hW : Witnessed cs sent H) (h : Records cs sent H F S c') :
    ∃ H' F', Adds cs sent c.id H H' ∧ Witnessed cs sent H' ∧ Records cs sent H' F' S c' :=
  ⟨H, F, .refl, hW, h⟩

/-- Every protocol step of a node on a genuine message keeps its logs, its acknowledgements and its votes those
of the chronicle. -/
theorem Micro.records (hcs : cs.Plural) (he : Electing cs sent c) (hsent : ∀ x ∈ sent, x.Sincere cs sent)
    (hm : m.Genuine sent c.id) (hW : Witnessed cs sent H) (h : Records cs sent H F S c)
    (hstep : Micro honest m c c') :
    ∃ H' F', Adds cs sent c.id H H' ∧ Witnessed cs sent H' ∧ Records cs sent H' F' S c' := by
  cases hstep with
  | follow t M ht hM =>
      have hle : c.term ≤ t := by
        cases ht with
        | same ht hl => exact ht.ge
        | higher hlt ht hr => exact hlt.le
        | unstamped h0 hk =>
            have hp : m.FromPeer := by
              rcases hk with hk | hk | hk
              · exact Or.inl hk
              · exact Or.inr (Or.inl hk)
              · exact Or.inr (Or.inr (Or.inl hk))
            have hpos := (hsent m (hm.2 (Or.inl hp)).1).term hp
            omega
      exact recorded hW (h.follow rfl hle nofun nofun)
  | preCampaign hr hv hn => exact recorded hW (h.follow rfl le_rfl nofun nofun)
  | campaign M hr hv hM => exact recorded hW (h.campaign hcs he hsent M)
  | tally v b hr hv => exact recorded hW (h.quiet rfl rfl)
  | lead M hmay hr hw hM =>
      obtain ⟨H', hext, hlog, hack, hW', h'⟩ := h.win hcs he hsent hW hr hw hM
      refine ⟨H', F, ⟨hext, fun t => ?_, hack⟩, hW', h'⟩
      rcases eq_or_ne t c.term with rfl | hne
      · exact Or.inr (he.elected hr hsent hw)
      · exact Or.inl (hlog t hne)
  | extend es pc hr hi ht hconf =>
      obtain ⟨hW', h'⟩ := h.extend hW hr hi ht pc
      refine ⟨H.goOn c.term es, F ++ es, ⟨Chronicle.extends_goOn (h.leading hr).log ht, fun t => ?_,
        fun _ _ _ _ ha => ha⟩, hW', h'⟩
      rcases eq_or_ne t c.term with rfl | hne
      · exact Or.inr (he.leads hr)
      · exact Or.inl (Chronicle.log_goOn_of_ne hne)
  | merge l p hkind hr hcur hc ht hi hl hp hp' hst =>
      have hmem := (hm.2 (Or.inl (Or.inl hkind))).1
      have hpos := (hsent m hmem).term (Or.inl hkind)
      obtain ⟨F', h'⟩ := h.merge hW.sound (hW.ground m hmem) hkind hr (hcur.resolve_right hpos.ne') hc ht hi hl hp hp' hst
      exact ⟨H, F', .refl, hW, h'⟩
  | commit i hlt hle hc => exact recorded hW (h.commit hlt.le (h.commits hW he hsent hm hlt hc))
  | commitDown i M hlt hle hkind hr hc ht h0 hterm hM =>
      have hmem := (hm.2 (Or.inr (Or.inr (Or.inr hkind)))).1
      rw [hc] at ht hlt
      have hsafe := h.logs.safe_vote hW.sound (hW.ground m hmem) hkind h0 ht
      rw [hc]
      exact recorded hW ((h.commit hlt.le hsafe).follow rfl le_rfl nofun nofun)
  | restore s t n k hkind => exact absurd hkind hm.1
  | ack hkind hrej hr hcur =>
      have hmem := (hm.2 (Or.inr (Or.inl hkind))).1
      refine recorded hW (h.lead (fun hr v n hn hle => ?_) fun hr => (h.leading hr).reads)
      rcases eq_or_ne v m.sender with rfl | hne
      · rw [Function.update_self] at hle
        rcases le_max_iff.mp hle with hle | hle
        · exact (h.leading hr).matched _ n hn hle
        · obtain ⟨hpos, hacks⟩ := hW.acks m hmem ⟨hkind, hrej, by omega⟩
          have hterm : m.term = c.term := hcur.resolve_right hpos.ne'
          exact hterm ▸ hacks n hn hle
      · rw [Function.update_of_ne hne] at hle
        exact (h.leading hr).matched v n hn hle
  | persist i hkind hlt hst hle => exact recorded hW (h.persist hlt hst hle)
  | selfAck hr =>
      obtain ⟨q, hq, -, ht⟩ := (he.leads hr).asked hcs hsent
      have hl := h.leading hr
      have hown := h.own he hl.log (by rw [hr]; nofun) ⟨q, hq, c.id, ht⟩
      refine ⟨H.acknowledge (Peer.own c), F, ⟨Chronicle.extends_acknowledge H _, fun _ => Or.inl rfl,
        fun v hv t n ha => ha.resolve_right fun ho => hv ho.1⟩, witnessed_own hW he,
        hown.lead (fun _ v n hn hle => ?_) fun hr => (hown.leading hr).reads⟩
      rcases eq_or_ne v c.id with rfl | hne
      · rw [Function.update_self] at hle
        rcases le_max_iff.mp hle with hle | hle
        · exact Or.inl (hl.matched _ n hn hle)
        · exact Or.inr ⟨rfl, rfl, hn, hle⟩
      · rw [Function.update_of_ne hne] at hle
        exact Or.inl (hl.matched v n hn hle)
  | apply i h1 h2 => exact recorded hW (h.quiet rfl rfl)
  | grant msg hkind hcur hv hu ht hs hd htm hrej hc =>
      exact recorded hW (h.grant hW he hsent hm hkind hcur hu ht hd htm hc)
  | send msg hx => exact recorded hW (h.send hW he hsent hm hx)
  | batch k msg es hk hkind hr hes j hj => exact recorded hW (h.batch hk hkind hr hj)
  | postpone hkind hr => exact recorded hW (h.quiet rfl rfl)
  | register req hr hin hreq =>
      exact recorded hW (h.lead (fun hr => (h.leading hr).matched) fun hr =>
        ReadOnly.lookup_addRequest (h.leading hr).reads h.logs.safe)
  | clear => exact recorded hW (h.quiet rfl rfl)
  | ackRead v ctx hr hv =>
      exact recorded hW (h.lead (fun hr => (h.leading hr).matched) fun hr =>
        ReadOnly.lookup_recvACK (h.leading hr).reads)
  | answerLocal req i ha hs => exact recorded hW (h.quiet rfl rfl)
  | answerRemote req i msg ha ht hd hs htm hi he' => exact recorded hW (h.answer he ha ht htm hi)
  | dropReads ctx ro sts ha =>
      exact recorded hW (h.lead (fun hr => (h.leading hr).matched) fun hr =>
        ReadOnly.lookup_advance (h.leading hr).reads ha)
  | deliver e hkind hr hcur he' => exact recorded hW (h.quiet rfl rfl)

/-- A run of protocol steps on genuine messages. -/
theorem Acts.records {ok : Message → Prop} (hcs : cs.Plural) (he : Electing cs sent c)
    (hsent : ∀ x ∈ sent, x.Sincere cs sent) (hok : ∀ m, ok m → m.Genuine sent c.id) (hW : Witnessed cs sent H)
    (h : Records cs sent H F S c) (hacts : Acts honest ok c c') :
    ∃ H' F', Adds cs sent c.id H H' ∧ Witnessed cs sent H' ∧ Records cs sent H' F' S c' := by
  induction hacts with
  | refl => exact recorded hW h
  | tail hprev hstep ih =>
      obtain ⟨m, hm, hstep⟩ := hstep
      obtain ⟨H1, F1, hadds, hW1, h1⟩ := ih
      have hid := (Acts.moved hprev).id
      have hgenuine := hok m hm
      rw [← hid] at hgenuine
      have he1 := Acts.electing he hsent (fun m hm => (hok m hm).arrives) hprev
      obtain ⟨H2, F2, hadds2, hW2, h2⟩ := hstep.records hcs he1 hsent hgenuine hW1 h1
      rw [hid] at hadds2
      exact ⟨H2, F2, hadds.trans hadds2, hW2, h2⟩

end Raftz
