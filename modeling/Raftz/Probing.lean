import Mathlib.Logic.Relation
import Mathlib.Order.Bounds.Basic
import Raftz.LogView
import Raftz.Raft.Step

/-! # Probing for the last common entry

A leader that does not know how far a follower's log agrees with its own sends an
append after some entry `p`; the follower rejects it with a hint, and the leader
computes the next entry to try.  Both sides walk back to a term that the other log
can hold there (`findConflictByTerm`), and `maybeDecTo` clamps the result.

`M` is the largest index at which the two logs have the same term.  The terms are those
of the whole logs (`Log.Terms`), of which either side may have compacted any part.  One
round moves the next index strictly down and never to `M` or below (`probe_round`), so
rejections lead to `M + 1` (`rejections_reach`). -/

open Base

namespace Raftz

/-- `T` gives the terms of the whole log, of which `l` is what compaction has left. -/
structure Log.Terms (l : Log) (T : ℕ → ℕ) : Prop where
  visible : ∀ i, l.base ≤ i → i ≤ l.last → l.termAt i = some (T i)
  mono : ∀ i j, i ≤ j → j ≤ l.last → T i ≤ T j
  zero : T 0 = 0

namespace Log.Terms

variable {l : Log} {T : ℕ → ℕ} (h : l.Terms T)
include h

theorem term_eq {i : ℕ} (h1 : l.base ≤ i) (h2 : i ≤ l.last) : l.term i = T i :=
  term_of_termAt (h.visible i h1 h2)

/-- What the log answers is the term or, where it has been compacted, zero. -/
theorem term_le {i : ℕ} (hi : i ≤ l.last) : l.term i ≤ T i := by
  rcases Nat.lt_or_ge i l.base with hlt | hge
  · rw [term_of_not_mem (Or.inl hlt)]
    exact Nat.zero_le _
  · exact (h.term_eq hge hi).le

theorem term_zero : l.term 0 = 0 := by
  have := h.term_le (Nat.zero_le l.last)
  rw [h.zero] at this
  exact Nat.le_zero.mp this

end Log.Terms

namespace RaftLog

variable {σ : Type}

section walk
variable [LawfulStorage σ] {l : RaftLog σ}

/-- The walk ends at the last index up to `i` whose term does not exceed `t`. -/
theorem WF.conflictByTerm_eq (h : l.WF) (h0 : l.log.term 0 = 0) (t i : ℕ) :
    ∃ c, l.conflictByTerm t i = .ok (c, l.log.term c) ∧ c ≤ i ∧ l.log.term c ≤ t ∧
      ∀ j, j ≤ i → l.log.term j ≤ t → j ≤ c := by
  induction i with
  | zero =>
      refine ⟨0, ?_, le_rfl, by omega, fun j hj _ => hj⟩
      unfold conflictByTerm
      rw [h.term_eq]
      dsimp only
      rw [h0, if_neg (Nat.not_lt_zero t)]
  | succ i ih =>
      unfold conflictByTerm
      rw [h.term_eq]
      dsimp only
      split
      · rename_i hgt
        obtain ⟨c, hc, hci, hct, hmax⟩ := ih
        refine ⟨c, hc, by omega, hct, fun j hj hjt => hmax j ?_ hjt⟩
        rcases Nat.lt_or_ge i j with hij | hij
        · have : j = i + 1 := by omega
          subst this
          omega
        · exact hij
      · exact ⟨i + 1, rfl, le_rfl, by omega, fun j hj _ => hj⟩

theorem WF.findConflictByTerm_eq (h : l.WF) (h0 : l.log.term 0 = 0) {i : ℕ} (t : ℕ)
    (hi : i ≤ l.log.last) :
    ∃ c, l.findConflictByTerm i t = .ok (c, some (l.log.term c)) ∧ c ≤ i ∧ l.log.term c ≤ t ∧
      ∀ j, j ≤ i → l.log.term j ≤ t → j ≤ c := by
  obtain ⟨c, hc, hspec⟩ := h.conflictByTerm_eq h0 t i
  refine ⟨c, ?_, hspec⟩
  unfold findConflictByTerm
  rw [h.lastIndex_eq, if_neg (by omega), hc]

end walk

/-- The answer of a follower whose log does not hold the previous entry of an append. -/
def rejection [Storage σ] (l : RaftLog σ) (m : Message) : Except Err Message := do
  let fc ← l.findConflictByTerm (min m.index l.lastIndex) m.logTerm
  return {
    msgType := .appendResponse
    dest := m.sender
    index := m.index
    reject := true
    rejectHint := fc.1
    logTerm := fc.2.getD 0
    commit := l.committed }

end RaftLog

namespace Raft

variable {σ τ : Type}

/-- The follower waits for no snapshot, has not committed past the previous entry of the append, and does
not hold it. -/
def Rejects [Storage τ] (f : Raft τ) (m : Message) : Prop :=
  f.pendingRequestSnapshot = invalidIndex ∧ f.raftLog.committed ≤ m.index ∧
    f.raftLog.matchTerm m.index m.logTerm = .ok false

theorem handleAppendEntries_rejects [Storage τ] {f : Raft τ} {m resp : Message} (h : f.Rejects m)
    (hresp : f.raftLog.rejection m = .ok resp) : handleAppendEntries m f = send resp f := by
  obtain ⟨hsnap, hcom, hmatch⟩ := h
  have hmerge : RaftLog.maybeAppend m.index m.logTerm m.commit m.entries f.raftLog =
      .ok ⟨false, 0, 0⟩ f.raftLog :=
    Act.bind_run (Act.query_run (f := fun l : RaftLog τ => l.matchTerm m.index m.logTerm) hmatch)
  obtain ⟨fc, hfc, hresp⟩ := bind_eq_ok.mp hresp
  cases hresp
  unfold handleAppendEntries
  refine (Act.bind_run (Act.get_run f)).trans ?_
  rw [if_neg (not_not.mpr hsnap), if_neg (not_lt.mpr hcom)]
  have hlog : onLog (RaftLog.maybeAppend m.index m.logTerm m.commit m.entries) f = .ok ⟨false, 0, 0⟩ f := by
    unfold onLog Act.zoom
    rw [hmerge]
  refine (Act.bind_run hlog).trans ((Act.bind_run (Act.get_run f)).trans ?_)
  rw [if_neg (by decide)]
  exact Act.bind_run (Act.query_run (f := fun f : Raft τ =>
    f.raftLog.findConflictByTerm (min m.index f.raftLog.lastIndex) m.logTerm) hfc)

/-- A rejected append, back at the leader: its progress for the follower, and whether it moved. -/
def probeAgain [Storage σ] [Storage τ] (r : Raft σ) (f : Raft τ) (m : Message) (pr : Progress) :
    Except Err (Progress × Bool) := do
  let resp ← f.raftLog.rejection m
  let next ← r.nextProbe resp
  return ({ pr with recentActive := true }.updateCommitted resp.commit).maybeDecTo resp.index next
    resp.requestSnapshot

/-- `m` is the append a leader sends to a follower it probes, which has acknowledged nothing past `M`. -/
structure Probes [LawfulStorage σ] (r : Raft σ) (M : ℕ) (m : Message) (pr : Progress) : Prop where
  probe : pr.state = .probe
  matched : pr.matched ≤ M
  next : pr.nextIdx = m.index + 1
  term : r.raftLog.log.termAt m.index = some m.logTerm

theorem Probes.visible [LawfulStorage σ] {r : Raft σ} {M : ℕ} {m : Message} {pr : Progress}
    (h : r.Probes M m pr) : r.raftLog.log.base ≤ m.index ∧ m.index ≤ r.raftLog.log.last :=
  Log.termAt_isSome_iff.mp (by rw [h.term]; rfl)

/-- The two logs, with what compaction may have taken: they match, and `M` is the last index at which they
have the same term. -/
structure Compared [LawfulStorage σ] [LawfulStorage τ] (r : Raft σ) (f : Raft τ) (L F : ℕ → ℕ) (M : ℕ) :
    Prop where
  leader : r.raftLog.WF
  follower : f.raftLog.WF
  leaderTerms : r.raftLog.log.Terms L
  followerTerms : f.raftLog.log.Terms F
  matching : ∀ i, i ≤ r.raftLog.log.last → i ≤ f.raftLog.log.last → L i = F i → ∀ j, j ≤ i → L j = F j
  common : IsGreatest { i | i ≤ r.raftLog.log.last ∧ i ≤ f.raftLog.log.last ∧ L i = F i } M

section rounds
variable [LawfulStorage σ] [LawfulStorage τ] {r : Raft σ} {f : Raft τ} {L F : ℕ → ℕ} {M : ℕ}

/-- Only an entry past the common ones is rejected. -/
theorem Compared.lt_of_rejects (h : Compared r f L F M) {m : Message} {pr : Progress} (hp : r.Probes M m pr)
    (hr : f.Rejects m) : M < m.index := by
  obtain ⟨-, hcom, hmatch⟩ := hr
  rw [h.follower.matchTerm_eq] at hmatch
  by_contra hle
  obtain ⟨⟨hML, hMF, hM⟩, -⟩ := h.common
  have hL := h.leaderTerms.visible m.index hp.visible.1 hp.visible.2
  have hF := h.followerTerms.visible m.index (h.follower.base_le.trans hcom) (by omega)
  have hsame := h.matching M hML hMF hM m.index (by omega)
  rw [hp.term] at hL
  rw [hF, ← hsame, ← hL] at hmatch
  simp at hmatch

/-- The follower's hint lies between the last common entry and the rejected one, and its term is at least
that of every common entry, unless it has been compacted. -/
theorem Compared.hint (h : Compared r f L F M) {m : Message} {pr : Progress} (hp : r.Probes M m pr)
    (hlt : M < m.index) :
    ∃ resp, f.raftLog.rejection m = .ok resp ∧ resp.reject = true ∧ resp.index = m.index ∧
      resp.requestSnapshot = invalidIndex ∧ M ≤ resp.rejectHint ∧ resp.rejectHint ≤ m.index ∧
      (0 < resp.logTerm → L M ≤ resp.logTerm) := by
  obtain ⟨⟨hML, hMF, hM⟩, -⟩ := h.common
  obtain ⟨hbase, hlast⟩ := hp.visible
  have hterm := h.leaderTerms.visible m.index hbase hlast
  rw [hp.term] at hterm
  have ht : m.logTerm = L m.index := by simpa using hterm
  have hfrom : min m.index f.raftLog.lastIndex ≤ f.raftLog.log.last := by
    rw [h.follower.lastIndex_eq]
    exact Nat.min_le_right _ _
  obtain ⟨c, hc, hci, -, hmax⟩ := h.follower.findConflictByTerm_eq h.followerTerms.term_zero m.logTerm hfrom
  have hMc : M ≤ c := by
    refine hmax M ?_ ?_
    · rw [h.follower.lastIndex_eq]
      omega
    · calc f.raftLog.log.term M ≤ F M := h.followerTerms.term_le hMF
        _ = L M := hM.symm
        _ ≤ L m.index := h.leaderTerms.mono M m.index hlt.le hlast
        _ = m.logTerm := ht.symm
  refine ⟨_, bind_eq_ok.mpr ⟨_, hc, rfl⟩, rfl, rfl, rfl, hMc, hci.trans (Nat.min_le_left _ _), fun hpos => ?_⟩
  change 0 < f.raftLog.log.term c at hpos
  change L M ≤ f.raftLog.log.term c
  have hcl : c ≤ f.raftLog.log.last := hci.trans hfrom
  have hcb : f.raftLog.log.base ≤ c := by
    by_contra hlt
    rw [Log.term_of_not_mem (Or.inl (by omega))] at hpos
    omega
  rw [h.followerTerms.term_eq hcb hcl, hM]
  exact h.followerTerms.mono M c hMc hcl

/-- The leader's own walk does not pass the last common entry either. -/
theorem Compared.nextProbe (h : Compared r f L F M) {resp : Message} (hMh : M ≤ resp.rejectHint)
    (hterm : 0 < resp.logTerm → L M ≤ resp.logTerm) :
    ∃ next, r.nextProbe resp = .ok next ∧ M ≤ next := by
  obtain ⟨⟨hML, -, -⟩, -⟩ := h.common
  unfold Raft.nextProbe
  split
  · rename_i hcond
    rcases Nat.lt_or_ge r.raftLog.log.last resp.rejectHint with hout | hin
    · refine ⟨resp.rejectHint, ?_, hMh⟩
      unfold RaftLog.findConflictByTerm
      rw [h.leader.lastIndex_eq, if_pos hout]
    · obtain ⟨c, hc, -, -, hmax⟩ := h.leader.findConflictByTerm_eq h.leaderTerms.term_zero resp.logTerm hin
      refine ⟨c, by rw [hc], hmax M hMh ?_⟩
      exact (h.leaderTerms.term_le hML).trans (hterm hcond.2)
  · exact ⟨_, rfl, hMh⟩

/-- One round: the next index moves back, to the first entry past the common ones at the furthest. -/
theorem probe_round (h : Compared r f L F M) {m : Message} {pr : Progress} (hp : r.Probes M m pr)
    (hr : f.Rejects m) :
    ∃ pr', r.probeAgain f m pr = .ok (pr', true) ∧ pr'.state = .probe ∧ pr'.matched = pr.matched ∧
      M + 1 ≤ pr'.nextIdx ∧ pr'.nextIdx ≤ m.index := by
  have hlt := h.lt_of_rejects hp hr
  obtain ⟨resp, hresp, -, hindex, hreq, hMh, -, hterm⟩ := h.hint hp hlt
  obtain ⟨next, hnext, hMn⟩ := h.nextProbe hMh hterm
  have hmatched := hp.matched
  have hn : ({ pr with recentActive := true }.updateCommitted resp.commit).nextIdx = m.index + 1 := by
    simpa using hp.next
  obtain ⟨pr', hdec, hstate, hmatch, hn⟩ := Progress.maybeDecTo_probe next (by simpa using hp.probe) hn
  refine ⟨pr', ?_, hstate, by simpa using hmatch, ?_, ?_⟩
  · refine bind_eq_ok.mpr ⟨resp, hresp, bind_eq_ok.mpr ⟨next, hnext, ?_⟩⟩
    rw [hindex, hreq, hdec]
    rfl
  · rw [hn]
    omega
  · rw [hn, Progress.updateCommitted_matched]
    have : ({ pr with recentActive := true } : Progress).matched = pr.matched := rfl
    omega

/-! ### Rounds -/

/-- The follower rejected a probe, and `pr'` is the leader's progress after that. -/
def Rejected (r : Raft σ) (f : Raft τ) (M : ℕ) (pr pr' : Progress) : Prop :=
  ∃ m, r.Probes M m pr ∧ f.Rejects m ∧ r.probeAgain f m pr = .ok (pr', true)

/-- Probing is over: the next entry is the first one past the common ones, or the leader has compacted the
one before it, or the follower has committed it (either only when `M` itself is out of reach). -/
def Settled (r : Raft σ) (f : Raft τ) (M : ℕ) (pr : Progress) : Prop :=
  pr.nextIdx = M + 1 ∨ (M < r.raftLog.log.base ∧ pr.nextIdx ≤ r.raftLog.log.base) ∨
    (M < f.raftLog.committed ∧ pr.nextIdx ≤ f.raftLog.committed)

theorem Compared.rejected (h : Compared r f L F M) {pr pr' : Progress} (hr : Rejected r f M pr pr') :
    pr'.state = .probe ∧ pr'.matched ≤ M ∧ M + 1 ≤ pr'.nextIdx ∧ pr'.nextIdx < pr.nextIdx := by
  obtain ⟨m, hp, hf, hround⟩ := hr
  obtain ⟨q, hq, hstate, hmatch, hlow, hhigh⟩ := probe_round h hp hf
  cases hq.symm.trans hround
  refine ⟨hstate, hmatch.trans_le hp.matched, hlow, ?_⟩
  rw [hp.next]
  omega

/-- As long as probing is not over, the follower rejects the next probe. -/
theorem Compared.rejected_of_not_settled (h : Compared r f L F M) {pr : Progress} (hstate : pr.state = .probe)
    (hmatched : pr.matched ≤ M) (hlow : M + 1 ≤ pr.nextIdx) (hhigh : pr.nextIdx ≤ r.raftLog.log.last + 1)
    (hsnap : f.pendingRequestSnapshot = invalidIndex) (hns : ¬Settled r f M pr) :
    ∃ pr', Rejected r f M pr pr' := by
  obtain ⟨p, hp⟩ : ∃ p, pr.nextIdx = p + 1 := ⟨pr.nextIdx - 1, by omega⟩
  have hMp : p ≠ M := fun he => hns (Or.inl (by omega))
  have hbase : r.raftLog.log.base ≤ p := by
    by_contra hlt
    exact hns (Or.inr (Or.inl (by omega)))
  have hcom : f.raftLog.committed ≤ p := by
    by_contra hlt
    exact hns (Or.inr (Or.inr (by omega)))
  have hlast : p ≤ r.raftLog.log.last := by omega
  have hprobe : r.Probes M { msgType := .append, index := p, logTerm := L p } pr :=
    ⟨hstate, hmatched, hp, h.leaderTerms.visible p hbase hlast⟩
  have hrejects : f.Rejects { msgType := .append, index := p, logTerm := L p } := by
    refine ⟨hsnap, hcom, ?_⟩
    rw [h.follower.matchTerm_eq]
    refine congrArg Except.ok (decide_eq_false fun hterm => hMp ?_)
    have hvis := Log.termAt_isSome_iff.mp (by rw [hterm]; rfl)
    have hF := h.followerTerms.visible p hvis.1 hvis.2
    rw [hterm] at hF
    have hle := h.common.2 ⟨hlast, hvis.2, by simpa using hF⟩
    omega
  obtain ⟨pr', hround, -⟩ := probe_round h hprobe hrejects
  exact ⟨pr', _, hprobe, hrejects, hround⟩

theorem Compared.run (h : Compared r f L F M) {pr pr' : Progress}
    (hrun : Relation.ReflTransGen (Rejected r f M) pr pr') (hstate : pr.state = .probe)
    (hmatched : pr.matched ≤ M) (hlow : M + 1 ≤ pr.nextIdx) :
    pr'.state = .probe ∧ pr'.matched ≤ M ∧ M + 1 ≤ pr'.nextIdx ∧ pr'.nextIdx ≤ pr.nextIdx := by
  induction hrun with
  | refl => exact ⟨hstate, hmatched, hlow, le_rfl⟩
  | tail _ hround ih =>
      obtain ⟨hs, hm, hl, hlt⟩ := h.rejected hround
      exact ⟨hs, hm, hl, hlt.le.trans ih.2.2.2⟩

/-- Rejections, in the end, bring probing to its end. -/
theorem Compared.settles (h : Compared r f L F M) (hsnap : f.pendingRequestSnapshot = invalidIndex) :
    ∀ (n : ℕ) (pr : Progress), pr.nextIdx = n → pr.state = .probe → pr.matched ≤ M → M + 1 ≤ pr.nextIdx →
      pr.nextIdx ≤ r.raftLog.log.last + 1 →
      ∃ pr', Relation.ReflTransGen (Rejected r f M) pr pr' ∧ Settled r f M pr' := by
  intro n
  induction n using Nat.strong_induction_on with
  | h n ih =>
      intro pr hn hstate hmatched hlow hhigh
      by_cases hset : Settled r f M pr
      · exact ⟨pr, .refl, hset⟩
      · obtain ⟨q, hq⟩ := h.rejected_of_not_settled hstate hmatched hlow hhigh hsnap hset
        obtain ⟨hs, hm, hl, hlt⟩ := h.rejected hq
        obtain ⟨pr', hrun, hend⟩ := ih q.nextIdx (by omega) q rfl hs hm hl (by omega)
        exact ⟨pr', .head hq hrun, hend⟩

/-- Rejected probes lead back to the first entry past the common ones, and never further: every round moves
strictly back, no sequence of rejections is infinite, and none passes `M + 1`. -/
theorem probing_converges (h : Compared r f L F M) :
    (∀ m pr, r.Probes M m pr → f.Rejects m → M < m.index ∧ ∃ pr', r.probeAgain f m pr = .ok (pr', true) ∧
      M + 1 ≤ pr'.nextIdx ∧ pr'.nextIdx ≤ m.index) ∧
    (∀ pr, pr.state = .probe → pr.matched ≤ M → M + 1 ≤ pr.nextIdx → pr.nextIdx ≤ r.raftLog.log.last + 1 →
      ∀ pr', Relation.ReflTransGen (Rejected r f M) pr pr' → M + 1 ≤ pr'.nextIdx ∧
        (f.pendingRequestSnapshot = invalidIndex →
          ∃ pr'', Relation.ReflTransGen (Rejected r f M) pr' pr'' ∧ Settled r f M pr'')) ∧
    ∀ s : ℕ → Progress, ∃ k, ¬Rejected r f M (s k) (s (k + 1)) := by
  refine ⟨fun m pr hp hr => ?_, fun pr hstate hmatched hlow hhigh pr' hrun => ?_, fun s => ?_⟩
  · obtain ⟨pr', hround, -, -, hbounds⟩ := probe_round h hp hr
    exact ⟨h.lt_of_rejects hp hr, pr', hround, hbounds⟩
  · obtain ⟨hs, hm, hl, hle⟩ := h.run hrun hstate hmatched hlow
    exact ⟨hl, fun hsnap => h.settles hsnap _ pr' rfl hs hm hl (by omega)⟩
  · by_contra hall
    push Not at hall
    have hdrop : ∀ k, (s k).nextIdx + k ≤ (s 0).nextIdx := by
      intro k
      induction k with
      | zero => exact le_rfl
      | succ k ih =>
          have := (h.rejected (hall k)).2.2.2
          omega
    have := hdrop ((s 0).nextIdx + 1)
    omega

end rounds

/-! ### Two logs of three entries -/

/-- What is left of a log of three entries with the given terms, all of them stored. -/
def storedLog (a b c : ℕ) : RaftLog MemoryStorage where
  store := { entries := [{ term := a, index := 1 }, { term := b, index := 2 }, { term := c, index := 3 }] }
  unstable := { offset := 4 }
  committed := 0
  persisted := 3
  applied := 0
  maxApplyUnpersistedLogLimit := 0

/-- The terms of such a log. -/
def storedTerm (a b c i : ℕ) : ℕ := if i = 0 then 0 else if i = 1 then a else if i = 2 then b else c

theorem storedLog_wf (a b c : ℕ) : (storedLog a b c).WF where
  valid := show Log.Consecutive 1 _ from ⟨rfl, rfl, rfl, trivial⟩
  entries := trivial
  snapshot := fun s hs => by cases hs
  stored := fun _ => ⟨Nat.zero_lt_succ 3, le_rfl⟩
  drained := fun _ _ => rfl
  base_le := le_rfl
  committed_le := Nat.zero_le _
  persisted_lt := Nat.lt_succ_self 3
  applied_le := le_rfl

theorem storedLog_terms {a b c : ℕ} (hab : a ≤ b) (hbc : b ≤ c) :
    (storedLog a b c).log.Terms (storedTerm a b c) where
  visible := fun i _ hi => by
    change i ≤ 3 at hi
    obtain rfl | rfl | rfl | rfl : i = 0 ∨ i = 1 ∨ i = 2 ∨ i = 3 := by omega
    all_goals rfl
  mono := fun i j hij hj => by
    unfold storedTerm
    split_ifs <;> omega
  zero := rfl

/-- A leader with terms 1, 1, 3 and a follower with terms 1, 1, 2: after one rejection the leader sends
entry 3, the first that differs. -/
theorem probing_converges_three : ∃ r f : Raft MemoryStorage,
    r.raftLog = storedLog 1 1 3 ∧ f.raftLog = storedLog 1 1 2 ∧
      ∃ pr', r.probeAgain f { index := 3, logTerm := 3 } { Progress.init 4 1 with state := .probe } =
        .ok (pr', true) ∧ 2 + 1 ≤ pr'.nextIdx ∧ pr'.nextIdx ≤ 3 := by
  have hr : ∃ r : Raft MemoryStorage,
      Raft.init { id := 1 } [] (storedLog 1 1 3).store = .ok r () ∧ r.raftLog = storedLog 1 1 3 := ⟨_, rfl, rfl⟩
  have hf : ∃ f : Raft MemoryStorage, Raft.init { id := 2 } [] (storedLog 1 1 2).store = .ok f () ∧
      f.raftLog = storedLog 1 1 2 ∧ f.pendingRequestSnapshot = invalidIndex := ⟨_, rfl, rfl, rfl⟩
  obtain ⟨r, -, hr⟩ := hr
  obtain ⟨f, -, hf, hsnap⟩ := hf
  have hcompared : Compared r f (storedTerm 1 1 3) (storedTerm 1 1 2) 2 := by
    refine ⟨?_, ?_, ?_, ?_, ?_, ?_⟩
    · rw [hr]
      exact storedLog_wf 1 1 3
    · rw [hf]
      exact storedLog_wf 1 1 2
    · rw [hr]
      exact storedLog_terms (by decide) (by decide)
    · rw [hf]
      exact storedLog_terms (by decide) (by decide)
    · intro i _ _ hi j hj
      unfold storedTerm at hi ⊢
      split_ifs at hi ⊢ <;> omega
    · rw [hr, hf]
      refine ⟨⟨by decide, by decide, rfl⟩, fun i hi => ?_⟩
      have hi := hi.2.2
      unfold storedTerm at hi
      split_ifs at hi <;> omega
  refine ⟨r, f, hr, hf, ((probing_converges hcompared).1 _ _ ⟨rfl, by decide, rfl, ?_⟩ ⟨hsnap, ?_, ?_⟩).2⟩
  · rw [hr]
    rfl
  · rw [hf]
    decide
  · rw [hf]
    rfl

/-- At the leader, a rejection of its probe is that move and another append. -/
theorem handleAppendResponse_rejected [Storage σ] {r : Raft σ} {resp : Message} {pr pr' : Progress} {next : ℕ}
    (hget : r.progressTracker.get resp.sender = some pr) (hreject : resp.reject = true)
    (hnext : r.nextProbe resp = .ok next) (hstate : pr'.state = .probe)
    (hdec : ({ pr with recentActive := true }.updateCommitted resp.commit).maybeDecTo resp.index next
      resp.requestSnapshot = (pr', true)) :
    handleAppendResponse resp r = (do setProgress resp.sender pr'; sendAppend resp.sender) r := by
  unfold handleAppendResponse
  refine (Act.bind_run (Act.query_run (f := fun r : Raft σ => r.nextProbe resp) hnext)).trans
    ((Act.bind_run (Act.get_run r)).trans ?_)
  rw [hget]
  dsimp only
  rw [if_pos hreject]
  unfold handleAppendReject
  rw [hdec]
  dsimp only
  rw [if_pos rfl, if_neg (by rw [hstate]; decide)]

end Raft

end Raftz
