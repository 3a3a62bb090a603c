import Raftz.Base.Ledger
import Raftz.Elections

/-! # Log matching

What the leaders of all terms have appended is one ledger: an index and a term determine an
entry and the term below it.  Every log of every node, the stored logs and the append messages
under way are drawn from that ledger, whatever is lost, repeated, delayed or reordered, and
however often nodes compact their logs, install snapshots, crash and are started again.  So two
logs that hold an entry of the same index and term agree from there down.

A leader writes only above what has been written in its term.  The reason is that a term is won
by one node, and by that node once: to win, it must be heard by others, so its hard state has
been written before and a restarted node stands in a later term. -/

open Base

namespace Raftz

/-- What the leaders have appended, by index and term. -/
abbrev Book := Ledger Entry ℕ

/-! ### Logs and append messages -/

namespace Log

variable (l : Log)

/-- A log as a piece of a sequence. -/
def piece : Piece Entry.term := ⟨l.entryAt, l.termAt, fun _ _ h => termAt_of_entryAt h⟩

/-- The log agrees with what an append message says, as far down as the log goes. -/
structure Quotes (m : Message) : Prop where
  index : l.base ≤ m.index → m.logTerm ≠ 0 → l.termAt m.index = some m.logTerm
  entries : ∀ e ∈ m.entries, l.base ≤ e.index → l.termAt e.index = some e.term

variable {l}

/-- A log that starts higher up, or goes further, quotes no less. -/
theorem Quotes.mono {l' : Log} {m : Message} (h : l.Quotes m) (hb : l.base ≤ l'.base)
    (hterm : ∀ i t, l'.base ≤ i → l.termAt i = some t → l'.termAt i = some t) : l'.Quotes m where
  index := fun hi hne => hterm _ _ hi (h.index (hb.trans hi) hne)
  entries := fun e he hi => hterm _ _ hi (h.entries e he (hb.trans hi))

theorem termAt_of_term_ne {i : ℕ} (h : l.term i ≠ 0) : l.termAt i = some (l.term i) := by
  by_contra hnot
  refine h (term_of_not_mem ?_)
  by_contra hin
  exact hnot (termAt_eq_some_term (by omega) (by omega))

theorem termAt_above {i t : ℕ} (h : l.termAt i = some t) (hi : l.base < i) :
    ∃ e, l.entryAt i = some e ∧ e.term = t := by
  rw [termAt_of_ne_base hi.ne'] at h
  exact Option.map_eq_some_iff.mp h

theorem Segment.entryAt {j : ℕ} {es : List Entry} (h : l.Segment j es) {k : ℕ} {e : Entry}
    (he : es[k]? = some e) : l.base < j ∧ l.entryAt (j + k) = some e := by
  have hne : es ≠ [] := fun hnil => by rw [hnil] at he; cases he
  obtain ⟨hb, hp⟩ := h hne
  obtain ⟨rest, hrest⟩ := hp
  refine ⟨hb, ?_⟩
  have hk := (List.getElem?_eq_some_iff.mp he).1
  have hget : (l.slice j (l.last + 1))[k]? = some e := by
    rw [← hrest, List.getElem?_append_left hk]
    exact he
  rw [slice_prefix_getElem? hb] at hget
  split at hget
  · exact hget
  · cases hget

end Log

/-- What an append message says, as a log. -/
def Message.log (m : Message) : Log := ⟨m.index, m.logTerm, m.entries⟩

/-- An append message that can be merged is drawn from the book. -/
def Message.From (B : Book) (m : Message) : Prop :=
  m.msgType = .append → Log.Consecutive (m.index + 1) m.entries → B.Draws m.log.piece

section logs
variable {B : Book} {l l' : Log} {m : Message} {committed : ℕ}

theorem Message.entryAt_log {k : ℕ} {e : Entry} (h : m.log.entryAt k = some e) :
    m.index < k ∧ m.entries[k - m.index - 1]? = some e := by
  have hk : m.index < k := (Log.entryAt_bounds h).1
  rw [Log.entryAt_of_gt (l := m.log) hk] at h
  exact ⟨hk, h⟩

theorem Message.termAt_log {k t : ℕ} (h : m.log.termAt k = some t) :
    (k = m.index ∧ t = m.logTerm) ∨ ∃ e, m.log.entryAt k = some e ∧ e.term = t := by
  rcases eq_or_ne k m.index with rfl | hne
  · have hbase : m.log.termAt m.index = some m.logTerm := Log.termAt_base
    rw [hbase] at h
    exact Or.inl ⟨rfl, (Option.some.inj h).symm⟩
  · have hne' : k ≠ m.log.base := hne
    rw [Log.termAt_of_ne_base hne'] at h
    exact Or.inr (Option.map_eq_some_iff.mp h)

theorem Message.log_contiguous (h : Log.Consecutive (m.index + 1) m.entries) : m.log.Contiguous := h

/-- From the first entry that is not held, a merged log is what the message says. -/
theorem Log.Merged.drawn (h : l.Merged committed m.entries l') (hb : l.base ≤ m.index)
    (hcons : Log.Consecutive (m.index + 1) m.entries) (ht : l.termAt m.index = some m.logTerm)
    (hl : B.Draws l.piece) (hm : B.Draws m.log.piece) : B.Draws l'.piece := by
  cases h with
  | same _ => exact hl
  | spliced pre e post hents hpre hne hc hle =>
      rw [hents] at hcons
      obtain ⟨hcp, hce⟩ := RaftLog.consecutive_append_iff.mp hcons
      have he : e.index = m.index + 1 + pre.length := hce.1
      -- what is new is what the message says
      have hnew : ∀ k, e.index ≤ k → (l.splice e.index (e :: post)).entryAt k = m.log.entryAt k := by
        intro k hk
        have hlow : m.log.base < k := by
          show m.index < k
          omega
        rw [Log.entryAt_splice_ge (by omega) hle hk, Log.entryAt_of_gt hlow]
        show _ = m.entries[k - m.index - 1]?
        rw [hents, List.getElem?_append_right (by omega)]
        congr 1
        omega
      have hold : ∀ k, k < e.index → (l.splice e.index (e :: post)).entryAt k = l.entryAt k := fun k hk =>
        Log.entryAt_splice_lt hle hk
      -- just below, the log says what the message says
      have hseam : l.termAt (e.index - 1) = m.log.termAt (e.index - 1) := by
        rcases List.eq_nil_or_concat pre with rfl | ⟨rest, a, rfl⟩
        · have hidx : e.index - 1 = m.index := by simp [he]
          rw [hidx, ht]
          exact (Log.termAt_base (l := m.log)).symm
        · have hlen : (rest.concat a).length = rest.length + 1 := List.length_concat
          have ha : a.index = m.index + 1 + rest.length := by
            have hk := Log.consecutive_iff.mp hcp rest.length (by omega)
            simpa using hk
          have hmem : a ∈ rest.concat a := by simp
          have hidx : e.index - 1 = a.index := by omega
          rw [hidx, hpre a hmem]
          refine (Log.termAt_of_entryAt (l := m.log) ?_).symm
          have hlow : m.log.base < a.index := by
            show m.index < a.index
            omega
          rw [Log.entryAt_of_gt hlow]
          show m.entries[a.index - m.index - 1]? = some a
          rw [hents, List.getElem?_append_left (by omega), show a.index - m.index - 1 = rest.length by omega]
          simp
      refine hl.join hm (fun k a ha => ?_) fun k a s ha hs _ => ?_
      · rcases Nat.lt_or_ge k e.index with hk | hk
        · exact Or.inl ((hold k hk).symm.trans ha)
        · exact Or.inr ((hnew k hk).symm.trans ha)
      · rcases Nat.lt_or_ge (k + 1) e.index with hk | hk
        · exact Or.inl ⟨(hold _ hk).symm.trans ha, (Log.termAt_splice_lt hle (by omega)).symm.trans hs⟩
        · refine Or.inr ⟨(hnew _ hk).symm.trans ha, ?_⟩
          rcases Nat.lt_or_ge k e.index with hlt | hge
          · have hk' : k = e.index - 1 := by omega
            have hs : l.termAt k = some s := (Log.termAt_splice_lt hle hlt).symm.trans hs
            rw [hk'] at hs ⊢
            exact hseam.symm.trans hs
          · obtain ⟨b, hb', rfl⟩ := Log.termAt_above (l := l.splice e.index (e :: post)) hs (by
              show l.base < k
              omega)
            exact Log.termAt_of_entryAt ((hnew k hge).symm.trans hb')

theorem Log.Merged.contiguous (h : l.Merged committed m.entries l') (hb : l.base ≤ m.index)
    (hcons : Log.Consecutive (m.index + 1) m.entries) (hc : l.Contiguous) : l'.Contiguous := by
  cases h with
  | same _ => exact hc
  | spliced pre e post hents hpre hne hcom hle =>
      rw [hents] at hcons
      obtain ⟨-, hce⟩ := RaftLog.consecutive_append_iff.mp hcons
      have he : e.index = m.index + 1 + pre.length := hce.1
      refine hc.splice (by omega) hle ?_
      rw [he]
      exact hce

/-- What a leader sends is a piece of its log. -/
theorem Message.from_of_segment (hl : B.Draws l.piece) (hterm : m.logTerm = l.term m.index)
    (hseg : l.Segment (m.index + 1) m.entries) : m.From B := by
  intro _ _
  refine hl.part (fun k a ha => ?_) fun k a s ha hs hne => ?_
  · obtain ⟨hk, hget⟩ := Message.entryAt_log ha
    have hentry := (hseg.entryAt hget).2
    rwa [show m.index + 1 + (k - m.index - 1) = k by omega] at hentry
  · obtain ⟨hk, hget⟩ := Message.entryAt_log ha
    rcases Message.termAt_log hs with ⟨rfl, rfl⟩ | ⟨b, hb, rfl⟩
    · rw [hterm] at hne ⊢
      exact Log.termAt_of_term_ne hne
    · obtain ⟨hk', hget'⟩ := Message.entryAt_log hb
      have hentry := (hseg.entryAt hget').2
      rw [show m.index + 1 + (k - m.index - 1) = k by omega] at hentry
      exact Log.termAt_of_entryAt hentry

theorem Log.quotes_of_segment (hc : l.Contiguous) (hterm : m.logTerm = l.term m.index)
    (hseg : l.Segment (m.index + 1) m.entries) : l.Quotes m where
  index := by
    intro _ hne
    rw [hterm] at hne ⊢
    exact Log.termAt_of_term_ne hne
  entries := by
    intro e he _
    obtain ⟨k, hk⟩ := List.getElem?_of_mem he
    have hentry := (hseg.entryAt hk).2
    rw [hc.index_eq hentry]
    exact Log.termAt_of_entryAt hentry

/-- Entries of the log are added to a message that the log agrees with. -/
theorem Message.From.batch (hm : m.From B) (hl : B.Draws l.piece) (hc : l.Contiguous) (hq : l.Quotes m)
    {es : List Entry} {j commit : ℕ} (hseg : l.Segment j es) :
    ({ m with entries := m.entries ++ es, commit := commit } : Message).From B := by
  intro hkind hcons
  have hcons : Log.Consecutive (m.index + 1) (m.entries ++ es) := hcons
  obtain ⟨hcm, hce⟩ := RaftLog.consecutive_append_iff.mp hcons
  have hm := hm hkind hcm
  -- an added entry is where the log has it
  have hadded : ∀ k a, ({ m with entries := m.entries ++ es, commit := commit } : Message).log.entryAt k =
      some a → m.index + m.entries.length < k → l.base < k ∧ l.entryAt k = some a := by
    intro k a ha hk
    obtain ⟨-, hget⟩ := Message.entryAt_log ha
    have hget : (m.entries ++ es)[k - m.index - 1]? = some a := hget
    rw [List.getElem?_append_right (by omega)] at hget
    obtain ⟨hb, hentry⟩ := hseg.entryAt hget
    have hidx : a.index = k := by
      obtain ⟨hlt, rfl⟩ := List.getElem?_eq_some_iff.mp hget
      have hk' := Log.consecutive_iff.mp hce _ hlt
      simp only [List.get_eq_getElem] at hk'
      omega
    have heq := hc.index_eq hentry
    rw [← heq, hidx] at hentry
    exact ⟨by omega, hentry⟩
  have hkept : ∀ k a, ({ m with entries := m.entries ++ es, commit := commit } : Message).log.entryAt k =
      some a → k ≤ m.index + m.entries.length → m.log.entryAt k = some a := by
    intro k a ha hk
    obtain ⟨hlow, hget⟩ := Message.entryAt_log ha
    have hlow : m.index < k := hlow
    have hget : (m.entries ++ es)[k - m.index - 1]? = some a := hget
    rw [List.getElem?_append_left (by omega)] at hget
    rw [Log.entryAt_of_gt (l := m.log) hlow]
    exact hget
  refine hm.join hl (fun k a ha => ?_) fun k a s ha hs hne => ?_
  · rcases Nat.lt_or_ge (m.index + m.entries.length) k with hk | hk
    · exact Or.inr (hadded k a ha hk).2
    · exact Or.inl (hkept k a ha hk)
  · rcases Nat.lt_or_ge (m.index + m.entries.length) (k + 1) with hk | hk
    · obtain ⟨hb, hentry⟩ := hadded (k + 1) a ha hk
      refine Or.inr ⟨hentry, ?_⟩
      rcases Message.termAt_log hs with ⟨rfl, rfl⟩ | ⟨b, hb', rfl⟩
      · exact hq.index (Nat.le_of_lt_succ hb) hne
      · rcases Nat.lt_or_ge (m.index + m.entries.length) k with hk' | hk'
        · exact Log.termAt_of_entryAt (hadded k b hb' hk').2
        · -- the last entry that was there before
          obtain ⟨hlow, hget⟩ := Message.entryAt_log (hkept k b hb' hk')
          have hidx : b.index = k := Log.Contiguous.index_eq (Message.log_contiguous hcm) (hkept k b hb' hk')
          have hterm := hq.entries b (List.mem_of_getElem? hget)
          rw [hidx] at hterm
          exact hterm (Nat.le_of_lt_succ hb)
    · refine Or.inl ⟨hkept _ a ha hk, ?_⟩
      rcases Message.termAt_log hs with ⟨rfl, rfl⟩ | ⟨b, hb', rfl⟩
      · exact Log.termAt_base (l := m.log)
      · exact Log.termAt_of_entryAt (hkept k b hb' (by omega))

theorem Log.Quotes.batch (hq : l.Quotes m) (hc : l.Contiguous) {es : List Entry} {j commit : ℕ}
    (hseg : l.Segment j es) : l.Quotes { m with entries := m.entries ++ es, commit := commit } where
  index := hq.index
  entries := by
    intro e he hi
    rcases List.mem_append.mp he with he | he
    · exact hq.entries e he hi
    · obtain ⟨k, hk⟩ := List.getElem?_of_mem he
      have hentry := (hseg.entryAt hk).2
      rw [hc.index_eq hentry]
      exact Log.termAt_of_entryAt hentry

end logs

/-! ### Who has won -/

/-- No node is a quorum by itself. -/
def ConfState.Plural (cs : ConfState) : Prop := ∀ V : JointConfiguration, V.Lists cs.replayed → ∀ i, ¬ V.Wins {i}

/-- Only a node that has asked for votes wins. -/
theorem Elected.asked {cs : ConfState} {sent : List Message} {i t : ℕ} (hcs : cs.Plural)
    (hsent : ∀ x ∈ sent, x.Sincere cs sent) (h : Elected cs sent i t) :
    ∃ q ∈ sent, q.msgType = .requestVote ∧ q.Tells i t i := by
  obtain ⟨V, hV, -, hw⟩ := h
  have hw := hw.resolve_left (hcs V hV i)
  by_contra hnone
  refine hcs V hV i (hw.mono ?_)
  rintro v - ⟨m, hm, ht⟩
  by_contra hne
  rcases ht.vote with ⟨hg, hd⟩ | ⟨-, rfl⟩
  · obtain ⟨q, hq, hreq, hs, hterm⟩ := (hsent m hm).asked hg
    exact hnone ⟨q, hq, hreq, hs.trans hd, hterm.trans ht.term, Or.inr ⟨hreq, rfl⟩⟩
  · exact hne rfl

/-- Every entry of the book was written in a term that somebody has won. -/
def Certified (cs : ConfState) (sent : List Message) (B : Book) : Prop :=
  ∀ k t e, B.item k t = some e → e.term = t ∧ 0 < t ∧ ∃ i, Elected cs sent i t

namespace Peer

/-- A node whose logs and messages are drawn from the book, and that writes to it what is new. -/
structure Writing (cs : ConfState) (sent : List Message) (B : Book) (c : Peer) : Prop where
  contiguous : c.log.Contiguous
  log : B.Draws c.log.piece
  stored : B.Draws c.store.log.piece
  queue : ∀ x ∈ c.out, x.From B
  leads : c.role = .leader → ∀ k e, B.item k c.term = some e →
    k ≤ c.log.last ∧ (c.log.base < k → c.log.entryAt k = some e)
  quotes : c.role = .leader → ∀ x ∈ c.out, x.msgType = .append → c.log.Quotes x
  stands : c.role = .candidate → Elected cs sent c.id c.term → ∀ k, B.item k c.term = none
  asked : c.role = .candidate → (∃ q ∈ sent, q.Tells c.id c.term c.id) → ∀ x ∈ c.out, x.msgType ≠ .append

variable {honest : Prop} {cs : ConfState} {sent : List Message} {B B' : Book} {c c' : Peer} {m : Message}

/-- Nothing has been written above the log of a leader in its term. -/
theorem Writing.free (h : Writing cs sent B c) (hr : c.role = .leader) :
    ∀ k, c.log.last < k → B.item k c.term = none := by
  intro k hk
  cases he : B.item k c.term with
  | none => rfl
  | some e => exact absurd (h.leads hr k e he).1 (Nat.not_le_of_lt hk)

/-- A step that leaves log, queue and storage alone, after which the node leads and stands no more than
before. -/
theorem Writing.quiet (h : Writing cs sent B c)
    (hsame : (c'.id, c'.log, c'.store.log, c'.out) = (c.id, c.log, c.store.log, c.out))
    (hrole : c'.role = .leader ∨ c'.role = .candidate → c'.role = c.role ∧ c'.term = c.term) :
    Writing cs sent B c' := by
  simp only [Prod.mk.injEq] at hsame
  obtain ⟨hid, hlog, hstore, hout⟩ := hsame
  refine {
    contiguous := by rw [hlog]; exact h.contiguous
    log := by rw [hlog]; exact h.log
    stored := by rw [hstore]; exact h.stored
    queue := by rw [hout]; exact h.queue
    leads := fun hr => ?_
    quotes := fun hr => ?_
    stands := fun hr => ?_
    asked := fun hr => ?_ }
  · obtain ⟨h1, h2⟩ := hrole (Or.inl hr)
    rw [hlog, h2]
    exact h.leads (h1.symm.trans hr)
  · obtain ⟨h1, -⟩ := hrole (Or.inl hr)
    rw [hlog, hout]
    exact h.quotes (h1.symm.trans hr)
  · obtain ⟨h1, h2⟩ := hrole (Or.inr hr)
    rw [hid, h2]
    exact h.stands (h1.symm.trans hr)
  · obtain ⟨h1, h2⟩ := hrole (Or.inr hr)
    rw [hid, h2, hout]
    exact h.asked (h1.symm.trans hr)

/-- Another log is drawn by a node that does not lead. -/
theorem Writing.redrawn (h : Writing cs sent B c) (hsame : (c'.id, c'.store.log, c'.out) =
    (c.id, c.store.log, c.out)) (hrole : c'.role = .follower) (hc : c'.log.Contiguous)
    (hl : B.Draws c'.log.piece) : Writing cs sent B c' := by
  simp only [Prod.mk.injEq] at hsame
  obtain ⟨hid, hstore, hout⟩ := hsame
  refine ⟨hc, hl, hstore ▸ h.stored, hout ▸ h.queue, fun hr => ?_, fun hr => ?_, fun hr => ?_, fun hr => ?_⟩ <;>
    (rw [hrole] at hr; cases hr)

/-- A message is queued. -/
theorem Writing.post (h : Writing cs sent B c) {x : Message}
    (hx : x.msgType = .append → c.role = .leader ∧ x.From B ∧ c.log.Quotes x) : Writing cs sent B (c.post x) where
  contiguous := h.contiguous
  log := h.log
  stored := h.stored
  queue := by
    intro y hy
    rcases List.mem_append.mp hy with hy | hy
    · exact h.queue y hy
    · rw [List.mem_singleton.mp hy]
      exact fun hkind => (hx hkind).2.1 hkind
  leads := h.leads
  quotes := by
    intro hr y hy hkind
    rcases List.mem_append.mp hy with hy | hy
    · exact h.quotes hr y hy hkind
    · rw [List.mem_singleton.mp hy] at hkind ⊢
      exact (hx hkind).2.2
  stands := h.stands
  asked := by
    intro hr hq y hy hkind
    rcases List.mem_append.mp hy with hy | hy
    · exact h.asked hr hq y hy hkind
    · rw [List.mem_singleton.mp hy] at hkind
      rw [show c.role = .candidate from hr] at hx
      cases (hx hkind).1

theorem Writing.send (h : Writing cs sent B c) {x : Message} (hx : Sends honest m c x) :
    Writing cs sent B (c.post x) := by
  refine h.post fun hkind => ?_
  cases hx with
  | append hr ht hs htm hl he hc =>
      exact ⟨hr, Message.from_of_segment h.log hl he, Log.quotes_of_segment h.contiguous hl he⟩
  | forward hm ht he htm =>
      rw [hkind] at ht
      rcases hm with hm | hm | hm <;> rw [hm] at ht <;> cases ht
  | voteReject ht hs htm hrej hc =>
      rw [hkind] at ht
      rcases ht with ht | ht <;> cases ht
  | snapshot s hr ht => rw [hkind] at ht; cases ht
  | heartbeat hr ht => rw [hkind] at ht; cases ht
  | appendResponse ht => rw [hkind] at ht; cases ht
  | heartbeatResponse hr hm hcur ht => rw [hkind] at ht; cases ht
  | requestVote hr ht => rw [hkind] at ht; cases ht
  | requestPreVote hr ht => rw [hkind] at ht; cases ht
  | preVoteGrant hm ht => rw [hkind] at ht; cases ht
  | timeoutNow hr ht => rw [hkind] at ht; cases ht

/-- A leader adds entries to a queued append. -/
theorem Writing.batch (h : Writing cs sent B c) {k : ℕ} {x : Message} (hk : c.out[k]? = some x)
    (hkind : x.msgType = .append) (hr : c.role = .leader) {es : List Entry} {j : ℕ}
    (hseg : c.log.Segment j es) : Writing cs sent B { c with
      out := c.out.set k { x with entries := x.entries ++ es, commit := c.committed } } := by
  have hmem := List.mem_of_getElem? hk
  have hq := h.quotes hr x hmem hkind
  refine {
    contiguous := h.contiguous
    log := h.log
    stored := h.stored
    queue := fun y hy => ?_
    leads := h.leads
    quotes := fun _ y hy hy' => ?_
    stands := h.stands
    asked := fun hr' => ?_ }
  · rcases List.mem_or_eq_of_mem_set hy with hy | rfl
    · exact h.queue y hy
    · exact (h.queue x hmem).batch h.log h.contiguous hq hseg
  · rcases List.mem_or_eq_of_mem_set hy with hy | rfl
    · exact h.quotes hr y hy hy'
    · exact hq.batch h.contiguous hseg
  · rw [show c.role = .candidate from hr'] at hr
    cases hr

/-- A leader writes entries of its term above its log. -/
theorem Writing.extend (h : Writing cs sent B c) (hr : c.role = .leader) {es : List Entry} {pc : ℕ}
    (hi : Log.Consecutive (c.log.last + 1) es) (ht : ∀ e ∈ es, e.term = c.term) :
    Ledger.Grows (· = c.term) B (B.write c.log.last c.term (c.log.term c.log.last) es) ∧
      Writing cs sent (B.write c.log.last c.term (c.log.term c.log.last) es)
        { c with log := c.log.splice (c.log.last + 1) es, pendingConf := pc } := by
  have hfree := h.free hr
  have hg : Ledger.Grows (· = c.term) B (B.write c.log.last c.term (c.log.term c.log.last) es) :=
    Ledger.grows_write hfree
  have hlow : c.log.base < c.log.last + 1 := Nat.lt_succ_of_le Log.base_le_last
  have hlast : (c.log.splice (c.log.last + 1) es).last = c.log.last + es.length := Log.last_splice hlow le_rfl
  have hterm : ∀ i t, c.log.termAt i = some t → (c.log.splice (c.log.last + 1) es).termAt i = some t := by
    intro i t hit
    have hi : i ≤ c.log.last := (Log.termAt_isSome_iff.mp (by rw [hit]; rfl)).2
    rw [Log.termAt_splice_lt le_rfl (Nat.lt_succ_of_le hi)]
    exact hit
  refine ⟨hg, {
    contiguous := h.contiguous.splice hlow le_rfl hi
    log := ?_
    stored := h.stored.grow hg
    queue := fun x hx hkind hcons => (h.queue x hx hkind hcons).grow hg
    leads := fun _ k e hk => ?_
    quotes := fun _ x hx hkind => (h.quotes hr x hx hkind).mono le_rfl fun i t _ => hterm i t
    stands := fun hr' => ?_
    asked := fun hr' => ?_ }⟩
  · have hget : ∀ k a, c.log.last < k → (c.log.splice (c.log.last + 1) es).entryAt k = some a →
        es[k - c.log.last - 1]? = some a ∧ a.term = c.term := by
      intro k a hk ha
      rw [Log.entryAt_splice_ge hlow le_rfl hk] at ha
      have hidx : k - (c.log.last + 1) = k - c.log.last - 1 := by omega
      rw [hidx] at ha
      exact ⟨ha, ht a (List.mem_of_getElem? ha)⟩
    refine Ledger.draws_write h.log hfree (fun k hk => Log.entryAt_splice_lt le_rfl (Nat.lt_succ_of_le hk))
      (fun k hk => Log.termAt_splice_lt le_rfl (Nat.lt_succ_of_le hk)) ?_ hget fun k u hk hu => ?_
    · exact hterm _ _ (Log.termAt_eq_some_term Log.base_le_last le_rfl)
    · obtain ⟨a, ha, rfl⟩ := Log.termAt_above (l := c.log.splice (c.log.last + 1) es) hu
        (lt_of_le_of_lt (Log.base_le_last (l := c.log)) hk)
      exact (hget k a hk ha).2
  · -- above the old end it is one of the new entries
    have hk : (B.write c.log.last c.term (c.log.term c.log.last) es).item k c.term = some e := hk
    show k ≤ (c.log.splice (c.log.last + 1) es).last ∧ (c.log.base < k →
      (c.log.splice (c.log.last + 1) es).entryAt k = some e)
    rcases Nat.lt_or_ge c.log.last k with hlt | hge
    · rcases Nat.lt_or_ge (c.log.last + es.length) k with hgt | hle
      · rw [Ledger.item_write_of_gt hgt, hfree k hlt] at hk
        cases hk
      · obtain ⟨a, ha⟩ : ∃ a, es[k - c.log.last - 1]? = some a :=
          ⟨es[k - c.log.last - 1], List.getElem?_eq_getElem (by omega)⟩
        rw [Ledger.item_write_of_lt hlt ha] at hk
        cases hk
        refine ⟨by rw [hlast]; exact hle, fun _ => ?_⟩
        rw [Log.entryAt_splice_ge hlow le_rfl hlt, show k - (c.log.last + 1) = k - c.log.last - 1 by omega]
        exact ha
    · rw [Ledger.item_write_of_le hge] at hk
      obtain ⟨h1, h2⟩ := h.leads hr k e hk
      refine ⟨by omega, fun hb => ?_⟩
      rw [Log.entryAt_splice_lt le_rfl (by omega)]
      exact h2 hb
  · rw [show c.role = .candidate from hr'] at hr
    cases hr
  · rw [show c.role = .candidate from hr'] at hr
    cases hr

/-- The book of others grows in terms that this node has not won. -/
theorem Writing.grow {T : ℕ → Prop} (h : Writing cs sent B c) (he : Electing cs sent c) (hg : Ledger.Grows T B B')
    (hT : ∀ t, T t → ¬ Elected cs sent c.id t) : Writing cs sent B' c where
  contiguous := h.contiguous
  log := h.log.grow hg
  stored := h.stored.grow hg
  queue := fun x hx hkind hcons => (h.queue x hx hkind hcons).grow hg
  leads := by
    intro hr k e hk
    rw [hg.only k _ fun ht => hT _ ht (he.leads hr)] at hk
    exact h.leads hr k e hk
  quotes := h.quotes
  stands := fun hr hwon k => (hg.only k _ fun ht => hT _ ht hwon).trans (h.stands hr hwon k)
  asked := h.asked

/-- A win leads to a term in which nothing has been written. -/
theorem Writing.lead (h : Writing cs sent B c) (hcs : cs.Plural) (he : Electing cs sent c)
    (hsent : ∀ x ∈ sent, x.Sincere cs sent) (hr : c.role = .candidate)
    (hw : c.voters.Wins {v | c.votes v = some true}) (M : ℕ → ℕ) :
    Writing cs sent B { c.reset c.term M with role := .leader, pendingConf := c.log.last } := by
  have hwon := he.elected hr hsent hw
  obtain ⟨q, hq, -, htell⟩ := hwon.asked hcs hsent
  exact {
    contiguous := h.contiguous
    log := h.log
    stored := h.stored
    queue := h.queue
    leads := fun _ k e hk => by
      have hk : B.item k c.term = some e := hk
      rw [h.stands hr hwon k] at hk
      cases hk
    quotes := fun _ x hx hkind => absurd hkind (h.asked hr ⟨q, hq, htell⟩ x hx)
    stands := nofun
    asked := nofun }

/-- A new term in which nothing has been said. -/
theorem Writing.campaign (h : Writing cs sent B c) (hcs : cs.Plural) (he : Electing cs sent c)
    (hsent : ∀ x ∈ sent, x.Sincere cs sent) (M : ℕ → ℕ) :
    Writing cs sent B { c.reset (c.term + 1) M with vote := c.id, role := .candidate } := by
  have hquiet : ∀ q ∈ sent, ∀ i, ¬ q.Tells c.id (c.term + 1) i := by
    intro q hq i ht
    rcases he.bound q (Or.inl hq) _ i ht with hlt | ⟨heq, -⟩
    · omega
    · omega
  exact {
    contiguous := h.contiguous
    log := h.log
    stored := h.stored
    queue := h.queue
    leads := nofun
    quotes := nofun
    stands := by
      intro _ hwon
      obtain ⟨q, hq, -, ht⟩ := hwon.asked hcs hsent
      exact absurd ht (hquiet q hq _)
    asked := by
      rintro _ ⟨q, hq, ht⟩
      exact absurd ht (hquiet q hq _) }

end Peer

open Peer

variable {honest : Prop} {cs : ConfState} {sent : List Message} {B : Book} {c c' : Peer} {m : Message}

/-- A winner writes. -/
theorem Certified.write (h : Certified cs sent B) {n t s i : ℕ} {es : List Entry}
    (hfree : ∀ k, n < k → B.item k t = none) (ht : ∀ e ∈ es, e.term = t) (hpos : 0 < t)
    (hwon : Elected cs sent i t) : Certified cs sent (B.write n t s es) := by
  intro k u e he
  rcases Ledger.item_write he with hold | ⟨rfl, hmem⟩
  · exact h k u e hold
  · exact ⟨ht e hmem, hpos, i, hwon⟩

/-- Every protocol step keeps a node within the book; what it writes to the book is in a term that it
has won. -/
theorem Micro.writing (hcs : cs.Plural) (he : Electing cs sent c) (hsent : ∀ x ∈ sent, x.Sincere cs sent)
    (hfrom : ∀ x ∈ sent, x.From B) (hB : Certified cs sent B) (hm : m.Arrives sent c.id)
    (h : Writing cs sent B c) (hstep : Micro honest m c c') :
    ∃ B', Ledger.Grows (Elected cs sent c.id) B B' ∧ Certified cs sent B' ∧ Writing cs sent B' c' := by
  cases hstep with
  | extend es pc hr hi ht hconf =>
      obtain ⟨hg, hw⟩ : _ ∧ Writing cs sent _ { c with
        log := c.log.splice (c.log.last + 1) es, pendingConf := pc } := h.extend hr hi ht
      refine ⟨_, hg.mono fun t ht => ht ▸ he.leads hr, ?_, hw⟩
      exact hB.write (h.free hr) ht (he.stands (Or.inr hr)).1 (he.leads hr)
  | follow t M ht hM => exact ⟨B, .refl _ _, hB, h.quiet rfl (by rintro (hr | hr) <;> cases hr)⟩
  | preCampaign hr hv hn => exact ⟨B, .refl _ _, hB, h.quiet rfl (by rintro (hr | hr) <;> cases hr)⟩
  | campaign M hr hv hM => exact ⟨B, .refl _ _, hB, h.campaign hcs he hsent M⟩
  | lead M hmay hr hw hM => exact ⟨B, .refl _ _, hB, h.lead hcs he hsent hr hw M⟩
  | merge l p hkind hr hcur hc ht hi hl hp hp' hst =>
      have hmem := (hm.was_sent (Or.inl hkind)).1
      have hb : c.log.base ≤ m.index := (Log.termAt_isSome_iff.mp (by rw [ht]; rfl)).1
      have hdrawn := hl.drawn hb hi ht h.log (hfrom m hmem hkind hi)
      exact ⟨B, .refl _ _, hB, h.redrawn rfl hr (hl.contiguous hb hi h.contiguous) hdrawn⟩
  | commitDown i M hlt hle hvm hr hc ht h0 hterm hM =>
      exact ⟨B, .refl _ _, hB, h.quiet rfl (by rintro (hr | hr) <;> cases hr)⟩
  | restore s t n k hkind hs hr hcur hle hlt ht =>
      refine ⟨B, .refl _ _, hB, h.redrawn rfl hr trivial (Ledger.draws_of_empty fun i => ?_)⟩
      show (⟨s.metadata.index, s.metadata.term, []⟩ : Log).entryAt i = none
      unfold Log.entryAt
      split <;> rfl
  | grant msg hreq hcur hv hu ht hs hd htm hrej hc =>
      have hvoted : Writing cs sent B { c with vote := m.sender } := h.quiet rfl fun _ => ⟨rfl, rfl⟩
      refine ⟨B, .refl _ _, hB, hvoted.post fun hkind => ?_⟩
      rw [ht] at hkind
      cases hkind
  | send msg hx => exact ⟨B, .refl _ _, hB, h.send hx⟩
  | answerRemote req i msg ha ht hd hs htm hi he' =>
      refine ⟨B, .refl _ _, hB, h.post fun hkind => ?_⟩
      rw [ht] at hkind
      cases hkind
  | batch k msg es hk hkind hr hes j hj => exact ⟨B, .refl _ _, hB, h.batch hk hkind hr hj⟩
  | _ => exact ⟨B, .refl _ _, hB, h.quiet rfl fun _ => ⟨rfl, rfl⟩⟩

theorem Message.From.grow {T : ℕ → Prop} {B B' : Book} {x : Message} (h : x.From B) (hg : Ledger.Grows T B B') :
    x.From B' := fun hkind hcons => (h hkind hcons).grow hg

/-- A run of protocol steps on messages that may be processed. -/
theorem Acts.writing {ok : Message → Prop} (hcs : cs.Plural) (he : Electing cs sent c)
    (hsent : ∀ x ∈ sent, x.Sincere cs sent) (hfrom : ∀ x ∈ sent, x.From B) (hB : Certified cs sent B)
    (hok : ∀ m, ok m → m.Arrives sent c.id) (h : Writing cs sent B c) (hacts : Acts honest ok c c') :
    ∃ B', Ledger.Grows (Elected cs sent c.id) B B' ∧ Certified cs sent B' ∧ Writing cs sent B' c' := by
  induction hacts with
  | refl => exact ⟨B, .refl _ _, hB, h⟩
  | tail hprev hstep ih =>
      obtain ⟨m, hm, hstep⟩ := hstep
      obtain ⟨B1, hg1, hB1, h1⟩ := ih
      have hid := (Acts.moved hprev).id
      have harrives := hok m hm
      rw [← hid] at harrives
      obtain ⟨B2, hg2, hB2, h2⟩ := hstep.writing hcs (Acts.electing he hsent hok hprev) hsent
        (fun x hx => (hfrom x hx).grow hg1) hB1 harrives h1
      rw [hid] at hg2
      exact ⟨B2, hg1.trans hg2, hB2, h2⟩

/-! ### One node and its storage -/

/-- Two logs of one book that span the same positions and end with the same term are one. -/
theorem Log.eq_of_draws {l l' : Log} (hpos : ∀ k t e, B.item k t = some e → e.term ≠ 0) (hl : B.Draws l.piece)
    (hl' : B.Draws l'.piece) (hb : l'.base = l.base) (hbt : l'.baseTerm = l.baseTerm) (hlast : l'.last = l.last)
    (ht : l'.termAt l.last = l.termAt l.last) : l' = l := by
  have hentry : ∀ i, l.base < i → i ≤ l.last → l'.entryAt i = l.entryAt i := by
    intro i h1 h2
    obtain ⟨a, ha⟩ := Log.exists_entryAt (l := l) (lt_of_lt_of_le h1 h2) le_rfl
    obtain ⟨b, hb'⟩ := Log.exists_entryAt (l := l') (i := l.last) (by omega) (by omega)
    rw [Log.termAt_of_entryAt ha, Log.termAt_of_entryAt hb'] at ht
    refine hl'.agree hl hpos h2 hb' ha (Option.some.inj ht) fun j hj hj' => ?_
    exact ⟨Log.entryAt_isSome_iff.mpr (by omega), Log.entryAt_isSome_iff.mpr (by omega)⟩
  have hents : l'.entries = l.entries := by
    refine List.ext_getElem? fun k => ?_
    rcases Nat.lt_or_ge k l.entries.length with hk | hk
    · have h := hentry (l.base + 1 + k) (by omega) (by unfold Log.last; omega)
      rw [Log.entryAt_of_gt (by omega), Log.entryAt_of_gt (by omega)] at h
      rw [show l.base + 1 + k - l'.base - 1 = k by omega, show l.base + 1 + k - l.base - 1 = k by omega] at h
      exact h
    · unfold Log.last at hlast
      rw [List.getElem?_eq_none_iff.mpr hk, List.getElem?_eq_none_iff.mpr (by omega)]
  cases l
  cases l'
  simp_all

theorem Certified.mono {sent' : List Message} (h : Certified cs sent B) (hsub : ∀ x ∈ sent, x ∈ sent') :
    Certified cs sent' B := by
  intro k t e he
  obtain ⟨h1, h2, i, hi⟩ := h k t e he
  exact ⟨h1, h2, i, hi.mono hsub⟩

theorem Certified.term_ne (h : Certified cs sent B) : ∀ k t e, B.item k t = some e → e.term ≠ 0 := by
  intro k t e he
  obtain ⟨rfl, hpos, -⟩ := h k t e he
  exact hpos.ne'

variable {σ : Type} [LawfulStorage σ]

namespace RawNode

variable {n : RawNode σ} {rd : Ready}

/-- The buffer still ends where the batch does. -/
def TailHeld (rd : Ready) (l : RaftLog σ) : Prop :=
  ∀ e, rd.entries.getLast? = some e →
    ∃ tail, l.unstable.entries.getLast? = some tail ∧ tail.index = e.index ∧ tail.term = e.term

theorem tail_of_stableEntries {u u' : Unstable} {index term : ℕ} (h : u.stableEntries index term = some u') :
    ∃ tail, u.entries.getLast? = some tail ∧ tail.index = index ∧ tail.term = term := by
  unfold Unstable.stableEntries at h
  split at h
  · rename_i tail _ htail
    split at h
    · rename_i hit
      exact ⟨tail, htail, hit⟩
    · cases h
  · cases h

omit [LawfulStorage σ] in
/-- A batch is reported as written only while the buffer ends where it does. -/
theorem wp_commitReady_tail (hrec : ∀ rec ∈ n.records, rec.number = rd.number → rec = rd.record) :
    (commitReady rd).wp (fun _ _ => TailHeld rd n.raft.raftLog) (fun _ _ => True) n := by
  unfold commitReady
  rw [Act.wp_bind, Act.wp_modify, Act.wp_bind, Act.wp_get]
  split
  · trivial
  · rename_i record hlast
    rw [Act.wp_bind, Act.wp_assert]
    intro hnum
    rw [hrec record (List.mem_of_getLast? hlast) (of_decide_eq_true hnum)]
    -- dropping the entries looks at the end of the buffer
    have hdrop : ∀ n1 : RawNode σ, n1.raft.raftLog.unstable.entries = n.raft.raftLog.unstable.entries →
        (stabilizeEntries rd.record : Act Err (RawNode σ) Unit).wp
          (fun _ _ => TailHeld rd n.raft.raftLog) (fun _ _ => True) n1 := by
      intro n1 hn1
      unfold stabilizeEntries onRaft Raft.onLog RaftLog.stableEntries Ready.record
      cases he : rd.entries.getLast? with
      | none =>
          dsimp only [Option.map_none]
          rw [Act.wp_pure]
          intro e he'
          rw [he] at he'
          cases he'
      | some e =>
          dsimp only [Option.map_some]
          rw [Act.wp_zoom, Act.wp_zoom, Act.wp_bind, Act.wp_get, Act.wp_bind, Act.wp_orPanic]
          intro u hu
          rw [Act.wp_modify]
          intro e' he'
          rw [he] at he'
          cases he'
          rw [← hn1]
          exact tail_of_stableEntries hu
    rw [Act.wp_bind]
    unfold stabilizeSnapshot onRaft Raft.onLog RaftLog.stableSnapshot Ready.record
    cases hs : rd.snapshot with
    | none =>
        dsimp only [Option.map_none]
        rw [Act.wp_pure]
        exact hdrop _ rfl
    | some s =>
        dsimp only [Option.map_some]
        rw [Act.wp_zoom, Act.wp_zoom, Act.wp_bind, Act.wp_get, Act.wp_bind, Act.wp_orPanic]
        intro u hu
        rw [Act.wp_modify]
        refine hdrop _ ?_
        unfold Unstable.stableSnapshot at hu
        split at hu
        · split at hu
          · cases hu
            rfl
          · cases hu
        · cases hu

theorem wp_advanceAppend_tail (hrec : ∀ rec ∈ n.records, rec.number = rd.number → rec = rd.record)
    (hfails : (commitReady rd).wp (fun _ _ => True) (fun _ _ => False) n) :
    (advanceAppend rd).wp (fun _ _ => TailHeld rd n.raft.raftLog) (fun _ _ => TailHeld rd n.raft.raftLog) n := by
  have hconst : ∀ {α : Type} (x : Act Err (RawNode σ) α) (s : RawNode σ), TailHeld rd n.raft.raftLog →
      x.wp (fun _ _ => TailHeld rd n.raft.raftLog) (fun _ _ => TailHeld rd n.raft.raftLog) s := by
    intro α x s h
    unfold Act.wp
    split
    · exact h
    · exact h
    · trivial
  unfold advanceAppend
  rw [Act.wp_bind]
  exact Act.wp_mono (Act.wp_and (wp_commitReady_tail hrec) hfails) (fun _ n1 h1 => hconst _ n1 h1.1)
    fun _ _ h1 => h1.2.elim

/-- Dropping a written batch from the buffer of a node whose logs are drawn from the book changes
nothing. -/
theorem Reported.log_eq {n' : RawNode σ} (hr : Reported rd n n') (ht : TailHeld rd n.raft.raftLog)
    (hwf : n.raft.raftLog.WF) (hw : rd.Written n.raft.raftLog.storeLog)
    (hterm : ∀ s s', rd.snapshot = some s → n.raft.raftLog.unstable.snapshot = some s' →
      s'.metadata.index = s.metadata.index → s'.metadata.term = s.metadata.term)
    (hB : Certified cs sent B) (h : Writing cs sent B n.raft.core) : n'.raft.core.log = n.raft.core.log := by
  obtain ⟨l', hset, rfl⟩ := hr.result
  show l'.log = n.raft.raftLog.log
  rcases hset.log with hsame | ⟨hstore, hne⟩
  · exact hsame
  rw [hstore]
  obtain ⟨e, he⟩ : ∃ e, rd.entries.getLast? = some e := by
    rw [← Option.isSome_iff_exists]
    cases hlast : rd.entries.getLast? with
    | some e => rfl
    | none => exact absurd (List.getLast?_eq_none_iff.mp hlast) hne
  obtain ⟨tail, htail, hidx, hterm'⟩ := ht e he
  obtain ⟨hlast, hstored⟩ := hw.entries e he
  have hb : n.raft.raftLog.storeLog.base = n.raft.raftLog.log.base := hstore ▸ hset.base
  have hl : n.raft.raftLog.storeLog.last = n.raft.raftLog.log.last := hstore ▸ hset.last
  -- the entry at the end of the buffer is the last of the log
  have hend : n.raft.raftLog.log.termAt n.raft.raftLog.log.last = some tail.term := by
    have hpos : 0 < n.raft.raftLog.unstable.entries.length :=
      List.length_pos_iff.mpr fun hnil => by rw [hnil] at htail; cases htail
    have heq := hwf.last_eq
    refine Log.termAt_of_entryAt ?_
    rw [hwf.entryAt_ge (by omega), ← htail, List.getLast?_eq_getElem?]
    congr 1
    omega
  have hbt : n.raft.raftLog.storeLog.baseTerm = n.raft.raftLog.log.baseTerm := by
    cases hsnap : n.raft.raftLog.unstable.snapshot with
    | none =>
        rw [RaftLog.log_of_none hsnap]
        rfl
    | some s' =>
        rcases hset.snapshot with heq | ⟨-, s, hs, hbase⟩
        · rw [← hstore, RaftLog.log_of_snapshot (heq.trans hsnap), RaftLog.log_of_snapshot hsnap]
        · have hidx' : s'.metadata.index = s.metadata.index := by
            rw [RaftLog.log_of_snapshot hsnap] at hbase
            exact hbase
          rw [RaftLog.log_of_snapshot hsnap, (hw.snapshot s hs).2.1]
          exact (hterm s s' hs hsnap hidx').symm
  refine Log.eq_of_draws hB.term_ne h.log h.stored hb hbt hl ?_
  rw [← hl, hlast, hstored, ← hidx]
  rw [hlast, ← hidx] at hl
  rw [hl, hend, hterm']

end RawNode

namespace Peer

/-- The queue has been sent. -/
theorem Writing.drain (h : Writing cs sent B c) (hid : c'.id = c.id) (hlog : c'.log = c.log)
    (hstored : B.Draws c'.store.log.piece) (hout : c'.out = []) (hterm : c'.term = c.term)
    (hrole : c'.role = c.role) : Writing cs sent B c' := by
  have hnone : ∀ x, x ∉ c'.out := by
    rw [hout]
    exact fun _ => List.not_mem_nil
  refine {
    contiguous := by rw [hlog]; exact h.contiguous
    log := by rw [hlog]; exact h.log
    stored := hstored
    queue := fun x hx => absurd hx (hnone x)
    leads := by rw [hrole, hlog, hterm]; exact h.leads
    quotes := fun _ x hx => absurd hx (hnone x)
    stands := by rw [hrole, hid, hterm]; exact h.stands
    asked := fun _ _ x hx => absurd hx (hnone x) }

/-- The storage is another one that is drawn from the book, or the log starts higher up. -/
theorem Writing.restore (h : Writing cs sent B c) (hstored : B.Draws c'.store.log.piece)
    (hsame : (c'.id, c'.term, c'.role, c'.out) = (c.id, c.term, c.role, c.out)) (hc : c'.log.Contiguous)
    (hl : B.Draws c'.log.piece) (hb : c.log.base ≤ c'.log.base) (hlast : c'.log.last = c.log.last)
    (hentry : ∀ i, c'.log.base < i → c'.log.entryAt i = c.log.entryAt i)
    (hkeep : ∀ i t, c'.log.base ≤ i → c.log.termAt i = some t → c'.log.termAt i = some t) :
    Writing cs sent B c' := by
  simp only [Prod.mk.injEq] at hsame
  obtain ⟨hid, hterm, hrole, hout⟩ := hsame
  refine ⟨hc, hl, hstored, by rw [hout]; exact h.queue, ?_, ?_, ?_, ?_⟩
  · rw [hrole, hlast, hterm]
    intro hr k e hk
    obtain ⟨h1, h2⟩ := h.leads hr k e hk
    exact ⟨h1, fun hk' => (hentry k hk').trans (h2 (lt_of_le_of_lt hb hk'))⟩
  · rw [hrole, hout]
    exact fun hr x hx hkind => (h.quotes hr x hx hkind).mono hb hkeep
  · rw [hrole, hid, hterm]
    exact h.stands
  · rw [hrole, hid, hterm, hout]
    exact h.asked

/-- More has been sent, by others or of this node's own queue, which is empty then. -/
theorem Writing.heard {sent' : List Message} (h : Writing cs sent B c) (hB : Certified cs sent B)
    (hsub : ∀ x ∈ sent, x ∈ sent')
    (honce : ∀ x ∈ sent', ∀ y ∈ sent', ∀ v t i j, x.Tells v t i → y.Tells v t j → i = j)
    (hown : c.out = [] ∨ ∀ q ∈ sent', ∀ t i, q.Tells c.id t i → q ∈ sent) : Writing cs sent' B c where
  contiguous := h.contiguous
  log := h.log
  stored := h.stored
  queue := h.queue
  leads := h.leads
  quotes := h.quotes
  stands := by
    intro hr hwon k
    cases hk : B.item k c.term with
    | none => rfl
    | some e =>
        -- whoever wrote it has won the term, so it was this node, and nothing had been written
        obtain ⟨-, -, j, hj⟩ := hB k _ e hk
        have hij := (hj.mono hsub).unique hwon fun x hx y hy v a b => honce x hx y hy v _ a b
        rw [hij] at hj
        rw [h.stands hr hj k] at hk
        cases hk
  asked := by
    rintro hr ⟨q, hq, ht⟩ x hx
    rcases hown with hnil | hown
    · rw [hnil] at hx
      cases hx
    · exact h.asked hr ⟨q, hown q hq _ _ ht, ht⟩ x hx

end Peer

/-- Compaction keeps what is above. -/
theorem Log.termAt_compact {l : Log} {i t j u : ℕ} (h1 : l.base ≤ i) (ht : l.termAt i = some t) (hj : i ≤ j)
    (hu : l.termAt j = some u) : (l.compact i t).termAt j = some u := by
  rcases eq_or_lt_of_le hj with rfl | hlt
  · rw [ht] at hu
    rw [← Option.some.inj hu]
    exact Log.termAt_base (l := l.compact i t)
  · obtain ⟨e, he, rfl⟩ := Log.termAt_above hu (lt_of_le_of_lt h1 hlt)
    exact Log.termAt_of_entryAt ((Log.entryAt_compact h1 hlt).trans he)

theorem Log.draws_compact {l : Log} {i t : ℕ} (h1 : l.base ≤ i) (ht : l.termAt i = some t)
    (hl : B.Draws l.piece) : B.Draws (l.compact i t).piece := by
  have hentry : ∀ k e, (l.compact i t).entryAt k = some e → i < k ∧ l.entryAt k = some e := by
    intro k e he
    have hk : i < k := (Log.entryAt_bounds he).1
    exact ⟨hk, (Log.entryAt_compact h1 hk).symm.trans he⟩
  refine hl.part (fun k e he => (hentry k e he).2) fun k e u he hu _ => ?_
  have hk := Nat.le_of_lt_succ (hentry _ e he).1
  rcases eq_or_lt_of_le hk with rfl | hlt
  · have hbase : (l.compact i t).termAt i = some t := Log.termAt_base
    have hu : (l.compact i t).termAt i = some u := hu
    rw [hbase] at hu
    rw [← Option.some.inj hu]
    exact ht
  · obtain ⟨a, ha, rfl⟩ := Log.termAt_above (l := l.compact i t) hu hlt
    exact Log.termAt_of_entryAt (hentry k a ha).2

namespace Driver

variable {d d' : Driver σ}

/-- What a step leaves: the node goes on within the book, which grows in terms that the node has won, and
what it sends is drawn from it. -/
def Drafted (cs : ConfState) (sent : List Message) (B : Book) (d : Driver σ) (msgs : List Message)
    (d' : Driver σ) : Prop :=
  ∃ B', Ledger.Grows (Elected cs sent d.raw.raft.core.id) B B' ∧ Certified cs sent B' ∧
    Writing cs sent B' d'.raw.raft.core ∧ (∀ x ∈ msgs, x.From B') ∧ (msgs = [] ∨ d'.raw.raft.core.out = [])

theorem Drafted.silent (hB : Certified cs sent B) (h : Writing cs sent B d'.raw.raft.core) :
    Drafted cs sent B d [] d' := ⟨B, .refl _ _, hB, h, fun _ hx => absurd hx List.not_mem_nil, Or.inl rfl⟩

theorem Drafted.of_acts {ok : Message → Prop} {raw : RawNode σ} (hcs : cs.Plural) (hv : Votes cs sent d)
    (hsent : ∀ x ∈ sent, x.Sincere cs sent) (hfrom : ∀ x ∈ sent, x.From B) (hB : Certified cs sent B)
    (h : Writing cs sent B d.raw.raft.core) (hacts : Acts False ok d.raw.raft.core raw.raft.core)
    (hok : ∀ m, ok m → m.Arrives sent d.raw.raft.core.id) (p : Option Ready) :
    Drafted cs sent B d [] ⟨raw, p⟩ := by
  obtain ⟨B', hg, hB', hw⟩ := Acts.writing hcs hv.peer hsent hfrom hB hok h hacts
  exact ⟨B', hg, hB', hw, fun _ hx => absurd hx List.not_mem_nil, Or.inl rfl⟩

/-- A written batch is reported. -/
theorem writing_reported (hs : d.Sound) (h : Writing cs sent B d.raw.raft.core) (hB : Certified cs sent B)
    {rd : Ready} {n' : RawNode σ} (hp : d.pending = some rd) (hr : RawNode.Reported rd d.raw n')
    (ht : RawNode.TailHeld rd d.raw.raft.raftLog) : Writing cs sent B n'.raft.core := by
  have hb := hs.batch rd hp
  have hlog := hr.log_eq ht hs.raft.log hb.written hb.snapshot_term hB h
  obtain ⟨l', hset, rfl⟩ := hr.result
  have hstore : l'.store = d.raw.raft.raftLog.store := by rw [hset.same]
  refine h.quiet ?_ fun _ => ⟨rfl, rfl⟩
  show (d.raw.raft.core.id, l'.log, (LawfulStorage.view l'.store).log, d.raw.raft.core.out) = _
  rw [show l'.log = d.raw.raft.core.log from hlog, hstore]
  rfl

/-- Time and reports come from nobody. -/
theorem arrives_beat {m : Message} (h : m.msgType = .beat) (id : ℕ) : ∀ x, m = x → x.Arrives sent id := by
  rintro x rfl
  exact Or.inr (not_fromPeer_beat h)

theorem Sound.wp_advanceAppend_tail {d : Driver σ} (hs : d.Sound) {rd : Ready} (hp : d.pending = some rd) :
    (RawNode.advanceAppend rd).wp (fun _ _ => RawNode.TailHeld rd d.raw.raft.raftLog)
      (fun _ _ => RawNode.TailHeld rd d.raw.raft.raftLog) d.raw := by
  have hb := hs.batch rd hp
  have hfails := Act.wp_mono (RawNode.wp_commitReady hs.raft.log hb.written hb.snapshot_term hb.record)
    (fun _ _ _ => trivial) fun _ _ hf => hf
  exact RawNode.wp_advanceAppend_tail hb.record hfails

/-- A written batch is reported, and that it is durable. -/
theorem writing_advanced (hcs : cs.Plural) (hv : Votes cs sent d) (hsent : ∀ x ∈ sent, x.Sincere cs sent)
    (hfrom : ∀ x ∈ sent, x.From B) (hB : Certified cs sent B) (h : Writing cs sent B d.raw.raft.core)
    {rd : Ready} {n1 n2 : RawNode σ} (hp : d.pending = some rd) (h1 : RawNode.Reported rd d.raw n1)
    (h2 : RawNode.Persisted n1 n2) (ht : RawNode.TailHeld rd d.raw.raft.raftLog) :
    ∃ B', Ledger.Grows (Elected cs sent d.raw.raft.core.id) B B' ∧ Certified cs sent B' ∧
      Writing cs sent B' n2.raft.core := by
  have hw1 := writing_reported hv.sound h hB hp h1 ht
  have hv1 := hv.reported hsent hp h1
  have hid : n1.raft.core.id = d.raw.raft.core.id := by
    obtain ⟨l', -, rfl⟩ := h1.result
    rfl
  obtain ⟨r', recs, rfl, -, -, hmicros⟩ := h2.result
  have hacts : Acts False (Eq reportMessage) n1.raft.core r'.core := Acts.of_micros rfl hmicros
  obtain ⟨B', hg, hB', hw2⟩ := Acts.writing hcs hv1.peer hsent hfrom hB (arrives_beat rfl _) hw1 hacts
  have hg : Ledger.Grows (Elected cs sent n1.raft.core.id) B B' := hg
  rw [hid] at hg
  exact ⟨B', hg, hB', hw2⟩

/-- The storage of a node changes and holds at least as much of the same log. -/
theorem writing_setStore (h : Writing cs sent B d.raw.raft.core) {store : σ}
    (hstored : B.Draws (LawfulStorage.view store).log.piece)
    (hwf : ({ d.raw.raft.raftLog with store := store } : RaftLog σ).WF)
    (hlog : ({ d.raw.raft.raftLog with store := store } : RaftLog σ).log = d.raw.raft.raftLog.log ∨
      ∃ i t, d.raw.raft.raftLog.log.base ≤ i ∧ i ≤ d.raw.raft.raftLog.log.last ∧
        d.raw.raft.raftLog.log.termAt i = some t ∧
        ({ d.raw.raft.raftLog with store := store } : RaftLog σ).log = d.raw.raft.raftLog.log.compact i t) :
    Writing cs sent B (d.raw.setStore store).raft.core := by
  have hcore : (d.raw.setStore store).raft.core.log =
      ({ d.raw.raft.raftLog with store := store } : RaftLog σ).log := rfl
  have hc : (d.raw.setStore store).raft.core.log.Contiguous := hwf.contiguous
  have hlog' : d.raw.raft.core.log = d.raw.raft.raftLog.log := rfl
  rcases hlog with heq | ⟨i, t, h1, h2, ht, heq⟩
  · refine h.restore hstored rfl hc ?_ ?_ ?_ ?_ ?_
    · rw [hcore, heq]
      exact h.log
    · rw [hcore, heq, hlog']
    · rw [hcore, heq, hlog']
    · rw [hcore, heq, hlog']
      exact fun _ _ => rfl
    · rw [hcore, heq, hlog']
      exact fun _ _ _ hu => hu
  · refine h.restore hstored rfl hc ?_ ?_ ?_ ?_ ?_
    · rw [hcore, heq]
      exact Log.draws_compact h1 ht h.log
    · rw [hcore, heq]
      exact h1
    · rw [hcore, heq]
      exact Log.last_compact h1 h2
    · rw [hcore, heq]
      exact fun j hj => Log.entryAt_compact h1 hj
    · rw [hcore, heq]
      exact fun j u hj hu => Log.termAt_compact h1 ht hj hu

/-- Every step of a node keeps it within the book. -/
theorem Drafted.of_step {SameData : σ → σ → Prop} (hsame : Faithful SameData) (hcs : cs.Plural)
    (hv : Votes cs sent d) (hsent : ∀ x ∈ sent, x.Sincere cs sent) (hfrom : ∀ x ∈ sent, x.From B)
    (hB : Certified cs sent B) (h : Writing cs sent B d.raw.raft.core) {ev : Event} (hstep : Step SameData d ev d')
    (hcall : ∀ x, ev = .call x → x.Admitted sent d.raw.raft.core.id)
    (hready : ∀ rd, ev = .ready rd → d.pending = none) : Drafted cs sent B d ev.messages d' := by
  have hs := hv.sound
  cases hstep with
  | call x r hf hl =>
      have hx := hcall x rfl
      obtain ⟨c, hacts, rfl | ⟨cc, res, rfl, -⟩⟩ := (Raft.called_of_leaves hs.raft hf hl).acts
      · exact Drafted.of_acts hcs hv hsent hfrom hB h hacts (fun _ hm => hx.arrives hm) d.pending
      · exact hx.elim
  | ready rd raw store hr hw =>
      have hspec := Act.wp_ok (RawNode.wp_getReady hs.raft) hr
      obtain ⟨u, hu⟩ := hspec.raft
      have hraft : raw.raft.raftLog = d.raw.raft.raftLog := by rw [hu]
      have hw' : rd.write d.raw.raft.raftLog.store = .ok store := by
        rw [← hraft]
        exact hw
      obtain ⟨hvalid, hstore⟩ := Ready.write_ok hs.raft.log hspec.entries hspec.snapshot hw'
      obtain ⟨-, hlog⟩ := hs.raft.log.setStore hvalid hstore
      have hmessages : rd.light.messages = d.raw.raft.core.out := hspec.messages
      refine ⟨B, .refl _ _, hB, h.drain ?_ ?_ ?_ ?_ ?_ ?_, fun x hx => ?_, Or.inr ?_⟩
      · show raw.raft.id = _
        rw [hu]
        rfl
      · show ({ raw.raft.raftLog with store := store } : RaftLog σ).log = _
        rw [hraft, hlog]
        rfl
      · show B.Draws (LawfulStorage.view store).log.piece
        rw [hstore]
        exact h.log
      · show raw.raft.messages = []
        rw [hu]
      · show raw.raft.term = _
        rw [hu]
        rfl
      · show raw.raft.state = _
        rw [hu]
        rfl
      · have hx : x ∈ rd.light.messages := hx
        rw [hmessages] at hx
        exact h.queue x hx
      · show raw.raft.messages = []
        rw [hu]
  | failedReady e raw hr =>
      have heq := Act.wp_err (RawNode.wp_getReady hs.raft) hr
      rw [heq]
      exact .silent hB h
  | advanceAppendAsync rd raw hp hl =>
      have hb := hs.batch rd hp
      have hwp := Act.wp_and (RawNode.wp_commitReady hs.raft.log hb.written hb.snapshot_term hb.record)
        (RawNode.wp_commitReady_tail hb.record)
      obtain ⟨hr, ht⟩ := hl.of_wp (Act.wp_mono hwp (fun _ _ hr => hr) fun _ _ hf => hf.1.elim)
      exact .silent hB (writing_reported hs h hB hp hr ht)
  | onPersistReady number raw hl =>
      obtain ⟨r', recs, rfl, -, -, hmicros⟩ :=
        (hl.of_wp (RawNode.wp_onPersistReady hs.raft number)).result
      have hacts : Acts False (Eq reportMessage) d.raw.raft.core r'.core := Acts.of_micros rfl hmicros
      exact Drafted.of_acts hcs hv hsent hfrom hB h hacts (arrives_beat rfl _) d.pending
  | advanceAppend rd l raw hp hr =>
      have hb := hs.batch rd hp
      have ht := Act.wp_ok (hs.wp_advanceAppend_tail hp) hr
      obtain ⟨n1, n2, n3, h1, h2, h3, hs', rfl⟩ := (Act.wp_ok (RawNode.wp_advanceAppend hs.raft
        hb.written hb.snapshot_term hb.record) hr).result
      obtain ⟨B', hg, hB', hw2⟩ := writing_advanced hcs hv hsent hfrom hB h hp h1 h2 ht
      obtain ⟨u, hu⟩ := h3.raft
      have hmessages : l.messages = n2.raft.core.out := h3.messages
      have hcore : n3.raft.core = { n2.raft.core with out := [] } := by
        rw [hu]
        rfl
      refine ⟨B', hg, hB', ?_, fun x hx => ?_, Or.inr ?_⟩
      · show Writing cs sent B' n3.raft.core
        rw [hcore]
        exact hw2.drain rfl rfl hw2.stored rfl rfl rfl
      · have hx : x ∈ l.messages := hx
        rw [hmessages] at hx
        exact hw2.queue x hx
      · show n3.raft.core.out = []
        rw [hcore]
  | failedAdvance rd e raw hp hr =>
      have hb := hs.batch rd hp
      have ht := Act.wp_err (hs.wp_advanceAppend_tail hp) hr
      obtain ⟨n1, h1, h2⟩ := (Act.wp_err (RawNode.wp_advanceAppend hs.raft
        hb.written hb.snapshot_term hb.record) hr).result
      obtain ⟨B', hg, hB', hw2⟩ := writing_advanced hcs hv hsent hfrom hB h hp h1 h2 ht
      exact ⟨B', hg, hB', hw2, fun _ hx => absurd hx List.not_mem_nil, Or.inl rfl⟩
  | advanceApply raw hl =>
      obtain ⟨hmicros, -⟩ := hl.of_wp (wp_advanceApply_acts hs.raft)
      have hacts : Acts False (Eq idleMessage) d.raw.raft.core raw.raft.core := Acts.of_micros rfl hmicros
      exact Drafted.of_acts hcs hv hsent hfrom hB h hacts (arrives_beat rfl _) d.pending
  | compact snap rs store hp hi hd ht hst hc hw =>
      obtain ⟨hvalid, hview, hlo, hhi⟩ := LawfulStorage.applyLocalSnapshot_ok hs.raft.log.valid hw
      obtain ⟨hwf, hlog⟩ := compact_ok hs hi hd hw
      obtain ⟨t, hterm, hterm'⟩ := LawfulStorage.term_eq hs.raft.log.valid hlo.le hhi
      have heq : snap.metadata.term = t := Except.ok.inj (ht.symm.trans hterm)
      rw [← heq] at hterm'
      refine .silent hB (writing_setStore h ?_ hwf ?_)
      · rw [hview]
        exact Log.draws_compact hlo.le hterm' h.stored
      · rw [hlog]
        split
        · rename_i hsnap
          have hlt : snap.metadata.index < d.raw.raft.raftLog.unstable.offset :=
            lt_of_le_of_lt hd hs.raft.log.persisted_lt
          have hin : d.raw.raft.raftLog.log.termAt snap.metadata.index = some snap.metadata.term :=
            (hs.raft.log.termAt_lt hsnap hlt).trans hterm'
          have hbounds := Log.termAt_isSome_iff.mp (by rw [hin]; rfl)
          exact Or.inr ⟨_, _, hbounds.1, hbounds.2, hin, rfl⟩
        · exact Or.inl rfl
  | drift store hst =>
      obtain ⟨hvalid, hview⟩ := hsame _ _ hst hs.raft.log.valid
      have hlog : (LawfulStorage.view store).log = d.raw.raft.raftLog.storeLog := by
        rw [hview]
        rfl
      obtain ⟨hwf, heq⟩ := hs.raft.log.driftStore hvalid hlog
      refine .silent hB (writing_setStore h ?_ hwf (Or.inl heq))
      rw [hlog]
      exact h.stored

/-- A node that takes over its hard state has what the storage says. -/
theorem booted_of_starts {config : Config} {prng : List ℕ} {store : σ} (hv : LawfulStorage.Valid store)
    (hres : Resumes config store) (h : Starts config prng store d) :
    Raft.Booted config store d.raw.raft.core := by
  have hload : Raft.loadedState config (LawfulStorage.view store) = (LawfulStorage.view store).hardState := by
    unfold Raft.loadedState
    split
    · rfl
    · rename_i hnot
      exact (hres.load.resolve_left hnot).symm
  exact (sound_of_starts hv (by rw [hload]; exact hres.applied) h).2.1

/-- A started node goes on from what was stored. -/
theorem writing_of_starts {config : Config} {prng : List ℕ} {store : σ} (hv : LawfulStorage.Valid store)
    (hres : Resumes config store) (h : Starts config prng store d)
    (hstored : B.Draws (LawfulStorage.view store).log.piece) : Writing cs sent B d.raw.raft.core := by
  have hboot := booted_of_starts hv hres h
  have hrole := hboot.role
  refine {
    contiguous := by rw [hboot.log]; exact LawfulStorage.contiguous hv
    log := by rw [hboot.log]; exact hstored
    stored := by rw [hboot.store]; exact hstored
    queue := fun x hx => ?_
    leads := fun hr => ?_
    quotes := fun hr => ?_
    stands := fun hr => ?_
    asked := fun hr => ?_ }
  · rw [hboot.out] at hx
    cases hx
  all_goals
    rw [hrole] at hr
    cases hr

end Driver

/-! ### Clusters -/

namespace Network

variable {ι : Type} [DecidableEq ι] {ids : ι → ℕ} {SameData : σ → σ → Prop} {c c' : Network ι σ}

/-- A log of a node: the one it works with, or the stored one. -/
def Keeps (c : Network ι σ) (i : ι) (l : Log) : Prop :=
  l = (c.nodes i).raw.raft.raftLog.log ∨ l = (c.nodes i).raw.raft.raftLog.storeLog

/-- Every log and every message of the cluster is drawn from the book. -/
structure Drawn (cs : ConfState) (ids : ι → ℕ) (B : Book) (c : Network ι σ) : Prop where
  inv : Inv cs ids c
  certified : Certified cs c.sent B
  sent : ∀ x ∈ c.sent, x.From B
  writing : ∀ i, Writing cs c.sent B (c.nodes i).raw.raft.core

omit [DecidableEq ι] in
theorem drawn_of_starts (h : Starts ids cs c) (hempty : ∀ i l, c.Keeps i l → l.entries = []) :
    Drawn cs ids Ledger.blank c := by
  have hinv := inv_of_starts h
  obtain ⟨hnodes, hsent⟩ := h
  refine ⟨hinv, fun k t e he => (by cases he), fun x hx => ?_, fun i => ?_⟩
  · rw [hsent] at hx
    cases hx
  · obtain ⟨config, prng, store, -, hv, -, hres, hst⟩ := hnodes i
    refine Driver.writing_of_starts hv hres hst (Ledger.draws_of_empty fun k => ?_)
    have hnil : (c.nodes i).raw.raft.raftLog.storeLog.entries = [] := hempty i _ (Or.inr rfl)
    have hsame : (c.nodes i).raw.raft.raftLog.storeLog = (LawfulStorage.view store).log :=
      congrArg StoreView.log (Driver.booted_of_starts hv hres hst).store
    rw [hsame] at hnil
    show (LawfulStorage.view store).log.entryAt k = none
    unfold Log.entryAt
    rw [hnil]
    split <;> rfl

/-- A step of node `i`. -/
theorem Drawn.act (hids : Function.Injective ids) (h : Drawn cs ids B c) {i : ι} {d : Driver σ}
    {msgs : List Message} (hd : Driver.Drafted cs c.sent B (c.nodes i) msgs d)
    (hinv : Inv cs ids ⟨Function.update c.nodes i d, c.sent ++ msgs⟩)
    (hspoken : Driver.Spoken cs c.sent (ids i) msgs) :
    ∃ B', Ledger.Grows (fun _ => True) B B' ∧
      Drawn cs ids B' ⟨Function.update c.nodes i d, c.sent ++ msgs⟩ := by
  obtain ⟨B', hg, hB', hw, hmsgs, hout⟩ := hd
  have hsub : ∀ x ∈ c.sent, x ∈ c.sent ++ msgs := fun _ hx => List.mem_append_left _ hx
  refine ⟨B', hg.mono fun _ _ => trivial, hinv, hB'.mono hsub, fun x hx => ?_, fun j => ?_⟩
  · rcases List.mem_append.mp hx with hx | hx
    · exact (h.sent x hx).grow hg
    · exact hmsgs x hx
  · by_cases hij : j = i
    · subst hij
      dsimp only
      rw [Function.update_self]
      refine hw.heard hB' hsub hinv.once ?_
      rcases hout with rfl | hout
      · exact Or.inr fun q hq _ _ _ => by simpa using hq
      · exact Or.inl hout
    · dsimp only
      rw [Function.update_of_ne hij]
      have hne : (c.nodes j).raw.raft.core.id ≠ (c.nodes i).raw.raft.core.id := by
        rw [h.inv.id j, h.inv.id i]
        exact fun heq => hij (hids heq)
      have hgrown := (h.writing j).grow (h.inv.votes j).peer hg fun t hwon hwon' =>
        hne (hwon'.unique hwon fun x hx y hy v a b => h.inv.once x hx y hy v t a b)
      refine hgrown.heard hB' hsub hinv.once (Or.inr fun q hq t a hqt => ?_)
      refine (List.mem_append.mp hq).resolve_right fun hq => hij (hids ?_)
      exact (h.inv.id j).symm.trans ((hspoken q hq).2 _ t a hqt)

theorem Drawn.step (hids : Function.Injective ids) (hsame : Driver.Faithful SameData) (hcs : cs.Plural)
    (h : Drawn cs ids B c) (hstep : Step ids SameData c c') :
    ∃ B', Ledger.Grows (fun _ => True) B B' ∧ Drawn cs ids B' c' := by
  have hinv := h.inv.step hids hsame hstep
  cases hstep with
  | act i ev d hd hcall hready =>
      have hcall' : ∀ x, ev = .call x → x.Admitted c.sent (c.nodes i).raw.raft.core.id := by
        rw [h.inv.id i]
        exact hcall
      have hvoted := (h.inv.votes i).step hsame h.inv.sincere hd hcall' hready
      refine h.act hids (Driver.Drafted.of_step hsame hcs (h.inv.votes i) h.inv.sincere h.sent h.certified
        (h.writing i) hd hcall' hready) hinv ?_
      rw [← h.inv.id i]
      exact hvoted.spoken
  | restart i config prng d hid hres hd =>
      have hw : Writing cs c.sent B d.raw.raft.core :=
        Driver.writing_of_starts (h.inv.votes i).sound.raft.log.valid hres hd (h.writing i).stored
      have hdraft : Driver.Drafted cs c.sent B (c.nodes i) [] d := .silent h.certified hw
      have hact := h.act hids (i := i) (d := d) hdraft (by rw [List.append_nil]; exact hinv)
        (Driver.spoken_nil _ _ _)
      rw [List.append_nil] at hact
      exact hact

theorem Drawn.steps (hids : Function.Injective ids) (hsame : Driver.Faithful SameData) (hcs : cs.Plural)
    (h : Drawn cs ids B c) (hsteps : Steps ids SameData c c') :
    ∃ B', Ledger.Grows (fun _ => True) B B' ∧ Drawn cs ids B' c' := by
  induction hsteps with
  | refl => exact ⟨B, .refl _ _, h⟩
  | tail _ hstep ih =>
      obtain ⟨B1, hg1, h1⟩ := ih
      obtain ⟨B2, hg2, h2⟩ := h1.step hids hsame hcs hstep
      exact ⟨B2, hg1.trans hg2, h2⟩

omit [DecidableEq ι] in
theorem Drawn.keeps (h : Drawn cs ids B c) {i : ι} {l : Log} (hl : c.Keeps i l) : B.Draws l.piece := by
  rcases hl with rfl | rfl
  · exact (h.writing i).log
  · exact (h.writing i).stored

section runs
variable (hids : Function.Injective ids) (hsame : Driver.Faithful SameData) (hcs : cs.Plural)
  {c0 c1 c2 : Network ι σ} (hstart : Starts ids cs c0) (hempty : ∀ i l, c0.Keeps i l → l.entries = [])
  (h1 : Steps ids SameData c0 c1) (h2 : Steps ids SameData c1 c2)
include hids hsame hcs hstart hempty h1 h2

/-- One book for two moments of a run. -/
theorem drawn_twice : ∃ B1 B2, Ledger.Grows (fun _ => True) B1 B2 ∧ Drawn cs ids B1 c1 ∧ Drawn cs ids B2 c2 := by
  obtain ⟨B1, -, hB1⟩ := (drawn_of_starts hstart hempty).steps hids hsame hcs h1
  obtain ⟨B2, hg, hB2⟩ := hB1.steps hids hsame hcs h2
  exact ⟨B1, B2, hg, hB1, hB2⟩

/-- **Log matching.**  Whatever is lost, repeated, delayed or reordered, and however often nodes compact
their logs, install snapshots and are started again: two logs, of any nodes and at any two moments of a
run, that hold entries of the same term at an index hold the same entries from there down, as far as
both go. -/
theorem log_matching {i j : ι} {l l' : Log} (hl : c1.Keeps i l) (hl' : c2.Keeps j l') {n k : ℕ}
    {a b : Entry} (ha : l.entryAt n = some a) (hb : l'.entryAt n = some b) (hterm : a.term = b.term)
    (hk : k ≤ n) (hkl : l.base < k) (hkl' : l'.base < k) : l.entryAt k = l'.entryAt k := by
  obtain ⟨B1, B2, hg, hB1, hB2⟩ := drawn_twice hids hsame hcs hstart hempty h1 h2
  have hn := Log.entryAt_bounds ha
  have hn' := Log.entryAt_bounds hb
  refine ((hB1.keeps hl).grow hg).agree (hB2.keeps hl') hB2.certified.term_ne hk ha hb hterm fun m hm hmn => ?_
  exact ⟨Log.entryAt_isSome_iff.mpr (by omega), Log.entryAt_isSome_iff.mpr (by omega)⟩

end runs

/-! ### An entry that is replicated -/

/-- Of three voters none decides alone. -/
theorem plural_three : threeVoters.Plural := by
  intro V hV i hw
  have hmem : ∀ v, v ∈ threeVoters.replayed.incoming → V.incoming.voters.toFinset = threeVoters.replayed.incoming →
      v ∈ V.incoming.voters := fun v hv heq => IdSet.mem_toFinset.mp (heq ▸ hv)
  have h1 : 1 = i := hw.1.only (hmem 1 (by decide) hV.incoming)
  have h2 : 2 = i := hw.1.only (hmem 2 (by decide) hV.incoming)
  exact absurd (h1.trans h2.symm) (by decide)

theorem empty_three {c : Network (Fin 3) MemoryStorage} (h : three = some c) :
    ∀ i l, c.Keeps i l → l.entries = [] := by
  have hrun : three.map (fun c => decide (∀ i : Fin 3, (c.nodes i).raw.raft.raftLog.log.entries = [] ∧
      (c.nodes i).raw.raft.raftLog.storeLog.entries = [])) = some true := by
    decide +kernel
  rw [h] at hrun
  have hall := of_decide_eq_true (Option.some.inj hrun)
  rintro i l (rfl | rfl)
  · exact (hall i).1
  · exact (hall i).2

/-- Node 1 is elected and its first entry reaches node 2. -/
def replicates : List (Cluster.Move (Fin 3)) := elects ++ [.own 0 .ready, .own 0 .advanceAppend, .deliver 1 3]

theorem replicates_ends : (three.bind fun c0 => (play Cluster.threeIds replicates c0).map fun c =>
    decide ((c.nodes 0).raw.raft.state = .leader ∧ (c.nodes 0).raw.raft.term = 1 ∧
      (c.nodes 0).raw.raft.raftLog.log.base = 0 ∧ (c.nodes 1).raw.raft.raftLog.log.base = 0 ∧
      ((c.nodes 0).raw.raft.raftLog.log.entryAt 1).map Entry.term = some 1 ∧
      ((c.nodes 1).raw.raft.raftLog.log.entryAt 1).map Entry.term = some 1)) = some true := by
  decide +kernel

/-- Both nodes hold the entry of the first leader. -/
theorem log_matching_three : ∃ c0 c : Network (Fin 3) MemoryStorage, Starts Cluster.threeIds threeVoters c0 ∧
    Steps Cluster.threeIds Eq c0 c ∧ ((c.nodes 0).raw.raft.raftLog.log.entryAt 1).isSome ∧
      (c.nodes 0).raw.raft.raftLog.log.entryAt 1 = (c.nodes 1).raw.raft.raftLog.log.entryAt 1 := by
  obtain ⟨c0, hc0, hrun⟩ := Option.bind_eq_some_iff.mp replicates_ends
  obtain ⟨c, hc, heq⟩ := Option.map_eq_some_iff.mp hrun
  obtain ⟨-, -, hb, hb', ha, ha'⟩ := of_decide_eq_true heq
  obtain ⟨a, ha, hat⟩ := Option.map_eq_some_iff.mp ha
  obtain ⟨b, hb1, hbt⟩ := Option.map_eq_some_iff.mp ha'
  have hids : Function.Injective Cluster.threeIds := fun a b hab => Fin.ext (Nat.succ.inj hab)
  have hsteps := play_steps Eq hc
  refine ⟨c0, c, starts_three hc0, hsteps, by rw [ha]; rfl, ?_⟩
  exact log_matching hids Driver.faithful_eq plural_three (starts_three hc0) (empty_three hc0) hsteps .refl
    (Or.inl rfl) (Or.inl rfl) ha hb1 (hat.trans hbt.symm) le_rfl (by omega) (by omega)

section runs
variable (hids : Function.Injective ids) (hsame : Driver.Faithful SameData) (hcs : cs.Plural)
  {c0 c1 c2 : Network ι σ} (hstart : Starts ids cs c0) (hempty : ∀ i l, c0.Keeps i l → l.entries = [])
  (h1 : Steps ids SameData c0 c1) (h2 : Steps ids SameData c1 c2)
include hids hsame hcs hstart hempty h1 h2

/-- **A leader has everything of its term.**  An entry of term `t` that any log holds, or held at an
earlier moment of the run, is in the log of a node that leads in `t`, unless it has been compacted there,
and so is what was below it. -/
theorem leader_has_term {i j : ι} {l : Log} (hl : c1.Keeps i l) {n : ℕ} {a : Entry} (ha : l.entryAt n = some a)
    (hlead : (c2.nodes j).raw.raft.state = .leader) (hterm : a.term = (c2.nodes j).raw.raft.term) :
    n ≤ (c2.nodes j).raw.raft.raftLog.log.last ∧
      ∀ k ≤ n, l.base < k → (c2.nodes j).raw.raft.raftLog.log.base < k →
        (c2.nodes j).raw.raft.raftLog.log.entryAt k = l.entryAt k := by
  obtain ⟨B1, B2, hg, hB1, hB2⟩ := drawn_twice hids hsame hcs hstart hempty h1 h2
  have hdraws := (hB1.keeps hl).grow hg
  have hitem : B2.item n (c2.nodes j).raw.raft.core.term = some a := by
    show B2.item n (c2.nodes j).raw.raft.term = some a
    rw [← hterm]
    exact hdraws.item n a ha
  obtain ⟨hle, hown⟩ := (hB2.writing j).leads hlead n a hitem
  refine ⟨hle, fun k hk hkl hkl' => ?_⟩
  have hown := hown (lt_of_lt_of_le hkl' hk)
  have hn := Log.entryAt_bounds ha
  refine (hB2.writing j).log.agree hdraws hB2.certified.term_ne hk hown ha rfl fun m hm hmn => ?_
  have hle : n ≤ (c2.nodes j).raw.raft.core.log.last := hle
  have hkl' : (c2.nodes j).raw.raft.core.log.base < k := hkl'
  exact ⟨Log.entryAt_isSome_iff.mpr (by omega), Log.entryAt_isSome_iff.mpr (by omega)⟩

end runs

/-- The leader holds what the other node has of its term. -/
theorem leader_has_term_three : ∃ c0 c : Network (Fin 3) MemoryStorage, Starts Cluster.threeIds threeVoters c0 ∧
    Steps Cluster.threeIds Eq c0 c ∧ ((c.nodes 1).raw.raft.raftLog.log.entryAt 1).isSome ∧
      (c.nodes 0).raw.raft.raftLog.log.entryAt 1 = (c.nodes 1).raw.raft.raftLog.log.entryAt 1 := by
  obtain ⟨c0, hc0, hrun⟩ := Option.bind_eq_some_iff.mp replicates_ends
  obtain ⟨c, hc, heq⟩ := Option.map_eq_some_iff.mp hrun
  obtain ⟨hlead, hterm, hb, hb', -, ha'⟩ := of_decide_eq_true heq
  obtain ⟨b, hb1, hbt⟩ := Option.map_eq_some_iff.mp ha'
  have hids : Function.Injective Cluster.threeIds := fun a b hab => Fin.ext (Nat.succ.inj hab)
  have hsteps := play_steps Eq hc
  refine ⟨c0, c, starts_three hc0, hsteps, by rw [hb1]; rfl, ?_⟩
  exact (leader_has_term hids Driver.faithful_eq plural_three (starts_three hc0) (empty_three hc0) hsteps .refl
    (Or.inl rfl) hb1 hlead (hbt.trans hterm.symm)).2 1 le_rfl (by omega) (by omega)

end Network

end Raftz
