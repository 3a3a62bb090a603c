import Raftz.LogView

/-! # Merging a leader's entries

`maybeAppend` in full: it never aborts, an error or a mismatch leaves the log as it
was, and a success leaves the old log up to the first conflict followed by the
leader's entries from there (`Log.merge`), or the old log when nothing conflicts.  The
same entries then merge into the result without a change. -/

open Base

namespace Raftz

namespace Log

/-- The entries from the first one that the log does not hold. -/
def conflicting (l : Log) (ents : List Entry) : List Entry :=
  ents.dropWhile fun e => decide (l.termAt e.index = some e.term)

/-- The log up to the first conflict, followed by the entries from there. -/
def merge (l : Log) (ents : List Entry) : Log :=
  match l.conflicting ents with
  | [] => l
  | e :: es => l.splice e.index (e :: es)

variable {l : Log} {ents : List Entry}

/-- What is held is skipped. -/
theorem conflicting_cases (l : Log) (ents : List Entry) :
    (l.conflicting ents = [] ∧ ∀ e ∈ ents, l.termAt e.index = some e.term) ∨
      ∃ pre e post, ents = pre ++ e :: post ∧ l.conflicting ents = e :: post ∧
        (∀ e' ∈ pre, l.termAt e'.index = some e'.term) ∧ l.termAt e.index ≠ some e.term := by
  induction ents with
  | nil => exact Or.inl ⟨rfl, by simp⟩
  | cons a ents ih =>
      unfold conflicting at ih ⊢
      by_cases ha : l.termAt a.index = some a.term
      · rw [List.dropWhile_cons_of_pos (by simpa using ha)]
        rcases ih with ⟨hnil, hall⟩ | ⟨pre, e, post, rfl, hdrop, hpre, hne⟩
        · exact Or.inl ⟨hnil, by simpa using ⟨ha, hall⟩⟩
        · exact Or.inr ⟨a :: pre, e, post, rfl, hdrop, by simpa using ⟨ha, hpre⟩, hne⟩
      · rw [List.dropWhile_cons_of_neg (by simpa using ha)]
        exact Or.inr ⟨[], a, ents, rfl, rfl, by simp, ha⟩

theorem merge_of_held (h : ∀ e ∈ ents, l.termAt e.index = some e.term) : l.merge ents = l := by
  rcases conflicting_cases l ents with ⟨hnil, -⟩ | ⟨pre, e, post, rfl, -, -, hne⟩
  · unfold merge
    rw [hnil]
  · exact absurd (h e (by simp)) hne

theorem merge_of_conflict {pre post : List Entry} {e : Entry}
    (hpre : ∀ e' ∈ pre, l.termAt e'.index = some e'.term) (hne : l.termAt e.index ≠ some e.term) :
    l.merge (pre ++ e :: post) = l.splice e.index (e :: post) := by
  have hdrop : l.conflicting (pre ++ e :: post) = e :: post := by
    unfold conflicting
    rw [List.dropWhile_append_of_pos (fun a ha => decide_eq_true (hpre a ha)),
      List.dropWhile_cons_of_neg (by simpa using hne)]
  unfold merge
  rw [hdrop]

/-- Entries merge into the log in one way. -/
theorem Merged.eq_merge {l' : Log} {committed : ℕ} (h : l.Merged committed ents l') : l' = l.merge ents := by
  cases h with
  | same h => exact (merge_of_held h).symm
  | spliced pre e post hents hpre hne hc hl =>
      rw [hents]
      exact (merge_of_conflict hpre hne).symm

end Log

namespace RaftLog

variable {σ : Type} [LawfulStorage σ] {l : RaftLog σ} {idx term committed : ℕ} {ents : List Entry}

theorem TermsFrom.suffix {t : ℕ} {pre post : List Entry} {e : Entry}
    (h : TermsFrom t (pre ++ e :: post)) :
    TermsFrom ((pre.getLast?.map Entry.term).getD t) (e :: post) := by
  induction pre generalizing t with
  | nil => exact h
  | cons a pre ih =>
      have := ih h.2
      rw [List.getLast?_cons]
      cases hlast : pre.getLast? with
      | none =>
          rw [hlast] at this
          exact this
      | some b =>
          rw [hlast] at this
          exact this

/-! ### When an append is refused -/

/-- Entries that follow the log without a gap, a decreasing term or the largest index are accepted. -/
theorem validateAppend_of (h : l.WF) {e : Entry} {es : List Entry} (h1 : l.committed < e.index)
    (h2 : e.index ≤ l.log.last + 1) (hcons : Log.Consecutive e.index (e :: es))
    (hterms : TermsFrom (l.log.term (e.index - 1)) (e :: es)) (hlast : l.log.last < maxU64)
    (hend : e.index + es.length < maxU64) : l.validateAppend e es = .ok () := by
  have hb := h.base_le
  have htail : ((e :: es).getLast (List.cons_ne_nil e es)).index ≠ maxU64 := by
    have := hcons.mem_bounds (List.getLast_mem (List.cons_ne_nil e es))
    rw [List.length_cons] at this
    omega
  unfold validateAppend
  rw [h.lastIndex_eq, h.firstIndex_eq, if_neg htail, if_neg (by omega), if_neg (by omega),
    if_neg (by omega), if_pos (by omega), h.term_eq]
  dsimp only
  rw [if_neg (not_lt.mpr hterms.1), if_pos (validTail_iff.mpr ⟨hcons.2, hterms.2⟩)]

/-- An append that is not refused is carried out. -/
theorem WF.twp_append (h : l.WF) (e : Entry) (es : List Entry) :
    (append (e :: es)).twp
      (fun _ l' => l'.WF ∧ l'.log = l.log.splice e.index (e :: es) ∧ l'.committed = l.committed)
      (fun err l' => l' = l ∧ l.validateAppend e es = .error err) l := by
  unfold append
  rw [Act.twp_bind, Act.twp_query]
  refine ⟨fun _ hv => ?_, fun err hv => ⟨rfl, hv⟩⟩
  obtain ⟨h1, h2, h3, -⟩ := validateAppend_ok h hv
  -- within the bounds the buffer has no gap
  obtain ⟨u, hu⟩ : ∃ u, l.unstable.truncateAndAppend (e :: es) = some u := by
    have hlast := h.last_eq
    unfold Unstable.truncateAndAppend
    dsimp only
    split
    · exact ⟨_, rfl⟩
    · split
      · exact ⟨_, rfl⟩
      · rw [if_pos (by omega)]
        exact ⟨_, rfl⟩
  rw [Act.twp_bind, Act.twp_get, Act.twp_bind, Act.twp_orPanic hu, Act.twp_bind, Act.twp_modify,
    Act.twp_gets]
  obtain ⟨hwf, hlog⟩ := h.truncateAndAppend hu h1 h2 h3 (p := min l.persisted (e.index - 1))
    (min_le_left _ _) (by omega)
  exact ⟨hwf, hlog, rfl⟩

theorem WF.twp_commitTo (h : l.WF) (i : ℕ) :
    (commitTo i).twp (fun _ l' => i ≠ maxU64 ∧ l' = { l with committed := max l.committed i })
      (fun _ l' => l' = l ∧ (i = maxU64 ∨ l.log.last < i)) l := by
  unfold commitTo
  rw [Act.twp_bind, Act.twp_get, h.lastIndex_eq, Act.twp_ite]
  refine ⟨fun hmax => ⟨rfl, Or.inl hmax⟩, fun hmax => ?_⟩
  rw [Act.twp_ite]
  refine ⟨fun hle => ⟨hmax, ?_⟩, fun hgt => ?_⟩
  · rw [max_eq_left hle]
  · rw [Act.twp_ite]
    refine ⟨fun hlast => ⟨rfl, Or.inr hlast⟩, fun _ => ⟨hmax, ?_⟩⟩
    rw [max_eq_right (by omega)]

/-! ### Merging -/

/-- What a leader sends after an entry of term `term`: the entries follow one another with terms that
do not decrease, and the largest 64-bit index is reached neither by them nor by the log. -/
structure Sendable (l : RaftLog σ) (idx term : ℕ) (ents : List Entry) : Prop where
  consecutive : Log.Consecutive (idx + 1) ents
  terms : TermsFrom term ents
  below : idx + ents.length < maxU64
  last : l.log.last < maxU64

/-- No committed entry is contradicted. -/
def Agrees (l : RaftLog σ) (ents : List Entry) : Prop :=
  ∀ e ∈ ents, e.index ≤ l.committed → l.log.termAt e.index = some e.term

/-- The suffix that is appended follows the log, and it is refused only when a leader would not have
sent it. -/
theorem WF.twp_appendConflict (h : l.WF) {c : ℕ} (hm : l.log.termAt idx = some term)
    (hcons : Log.Consecutive (idx + 1) ents) (hc : l.findConflict ents = .ok c) :
    (appendConflict idx c ents).twp
      (fun _ l' => l'.WF ∧ l'.log = l.log.merge ents ∧ l'.committed = l.committed ∧
        idx + ents.length ≤ l'.log.last ∧ (ents = [] → l' = l))
      (fun _ l' => l' = l ∧ ¬ (l.Agrees ents ∧ l.Sendable idx term ents)) l := by
  have hidx := (Log.termAt_isSome_iff.mp (by rw [hm]; rfl : (l.log.termAt idx).isSome = true))
  obtain ⟨c', hc', hcase⟩ := h.findConflict_eq ents
  cases hc.symm.trans hc'
  unfold appendConflict
  rw [Act.twp_bind, Act.twp_get, Act.twp_ite]
  refine ⟨fun h0 => ?_, fun hne0 => ?_⟩
  · -- no conflict: the log holds all the entries
    have hall : ∀ e ∈ ents, l.log.termAt e.index = some e.term := by
      rcases hcase with ⟨_, hall⟩ | ⟨pre, e, post, rfl, he, _, _⟩
      · exact hall
      · have := (consecutive_append_iff.mp hcons).2.1
        omega
    refine ⟨h, (Log.merge_of_held hall).symm, rfl, ?_, fun _ => rfl⟩
    rcases List.eq_nil_or_concat ents with rfl | ⟨front, e, rfl⟩
    · simpa using hidx.2
    · rw [List.concat_eq_append] at hcons
      have he := (consecutive_append_iff.mp hcons).2.1
      have hterm := hall e (by simp)
      have := (Log.termAt_isSome_iff.mp (by rw [hterm]; rfl : (l.log.termAt e.index).isSome = true)).2
      simp only [List.concat_eq_append, List.length_append, List.length_singleton]
      omega
  · rcases hcase with ⟨h0, _⟩ | ⟨pre, e, post, rfl, rfl, hpre, hne⟩
    · exact absurd h0 hne0
    have hei := (consecutive_append_iff.mp hcons).2.1
    have hdrop : (pre ++ e :: post).drop (e.index - (idx + 1)) = e :: post := by
      have : e.index - (idx + 1) = pre.length := by omega
      rw [this, List.drop_left]
    -- the entry before the conflict is the last one that the log holds
    have hprev : l.log.termAt (e.index - 1) = some ((pre.getLast?.map Entry.term).getD term) ∧
        e.index ≤ l.log.last + 1 := by
      rcases List.eq_nil_or_concat pre with rfl | ⟨front, a, rfl⟩
      · have : e.index - 1 = idx := by
          rw [hei]
          simp
        rw [this]
        exact ⟨hm, by omega⟩
      · rw [List.concat_eq_append] at hcons hei hpre ⊢
        have ha := (consecutive_append_iff.mp (consecutive_append_iff.mp hcons).1).2.1
        have hheld := hpre a (by simp)
        have hin := (Log.termAt_isSome_iff.mp (by rw [hheld]; rfl : (l.log.termAt a.index).isSome = true)).2
        have : e.index - 1 = a.index := by
          rw [hei, ha, List.length_append, List.length_singleton]
          omega
        rw [this, List.getLast?_concat]
        exact ⟨hheld, by omega⟩
    rw [Act.twp_ite]
    refine ⟨fun hle => ⟨rfl, fun hgood => ?_⟩, fun hgt => ?_⟩
    · exact hne (hgood.1 e (by simp) hle)
    · rw [Act.twp_bind, hdrop]
      refine Act.twp_mono (h.twp_append e post) ?_ ?_
      · rintro _ l' ⟨hwf, hlog, hcom⟩
        have hb := h.base_le
        refine ⟨hwf, ?_, hcom, ?_, fun hnil => absurd hnil (by simp)⟩
        · rw [hlog, Log.merge_of_conflict hpre hne]
        · rw [hlog, Log.last_splice (by omega) hprev.2, List.length_append]
          omega
      · rintro err l' ⟨rfl, hv⟩
        refine ⟨rfl, fun hgood => ?_⟩
        have hok := validateAppend_of h (by omega) hprev.2 ⟨rfl, by
            have := (consecutive_append_iff.mp hcons).2.2
            rwa [← hei] at this⟩
          (by
            rw [Log.term_of_termAt hprev.1]
            exact hgood.2.terms.suffix) hgood.2.last (by
            have := hgood.2.below
            rw [List.length_append, List.length_cons] at this
            omega)
        rw [hv] at hok
        cases hok

/-- `maybeAppend` does not abort; it reports a match exactly when the log holds the previous entry, and
an error leaves the log as it was. -/
theorem WF.twp_maybeAppend (h : l.WF) (idx term committed : ℕ) (ents : List Entry) :
    (maybeAppend idx term committed ents).twp
      (fun res l' => res.termMatched = decide (l.log.termAt idx = some term) ∧
        (res.termMatched = true → l'.WF ∧ l'.log = l.log.merge ents ∧
          l'.committed = max l.committed (min committed (idx + ents.length)) ∧
          idx + ents.length ≤ maxU64 ∧ (ents ≠ [] → idx + ents.length ≠ maxU64) ∧
          Log.Consecutive (idx + 1) ents ∧ min committed (idx + ents.length) ≠ maxU64))
      (fun _ l' => l' = l ∧ l.log.termAt idx = some term ∧
        ¬ (l.Agrees ents ∧ l.Sendable idx term ents)) l := by
  unfold maybeAppend
  rw [Act.twp_bind, Act.twp_query]
  refine ⟨fun b hb => ?_, fun e he => ?_⟩
  swap
  · rw [h.matchTerm_eq] at he
    cases he
  rw [h.matchTerm_eq] at hb
  cases hb
  rw [Act.twp_ite]
  refine ⟨fun hm => ⟨hm.symm, fun hf => by cases hf⟩, fun hm => ?_⟩
  have hm : l.log.termAt idx = some term := by simpa using hm
  rw [Act.twp_ite]
  refine ⟨fun hover => ⟨rfl, hm, fun hgood => ?_⟩, fun hover => ?_⟩
  · have := hgood.2.below
    omega
  rw [Act.twp_ite]
  refine ⟨fun hend => ⟨rfl, hm, fun hgood => ?_⟩, fun hend => ?_⟩
  · have := hgood.2.below
    omega
  rw [Act.twp_ite]
  refine ⟨fun hgap => ⟨rfl, hm, fun hgood => ?_⟩, fun hcont => ?_⟩
  · rw [contiguousAfter_iff.mpr hgood.2.consecutive] at hgap
    cases hgap
  have hcons := contiguousAfter_iff.mp (by simpa using hcont)
  rw [Act.twp_bind, Act.twp_query]
  refine ⟨fun c hc => ?_, fun e he => ?_⟩
  swap
  · obtain ⟨c, hc, -⟩ := h.findConflict_eq ents
    rw [hc] at he
    cases he
  rw [Act.twp_bind]
  refine Act.twp_mono (h.twp_appendConflict hm hcons hc) ?_ ?_
  swap
  · rintro _ l' ⟨rfl, hbad⟩
    exact ⟨rfl, hm, hbad⟩
  rintro _ l1 ⟨hwf, hlog, hcom, hlast, hsame⟩
  rw [Act.twp_bind]
  refine Act.twp_mono (hwf.twp_commitTo _) ?_ ?_
  · rintro _ l' ⟨hmax, rfl⟩
    refine ⟨(decide_eq_true hm).symm, fun _ => ⟨hwf.setCommitted (le_max_left _ _) ?_, hlog, ?_,
      by omega, fun hne hmax' => hend ⟨hne, hmax'⟩, hcons, hmax⟩⟩
    · have := hwf.committed_le
      omega
    · rw [← hcom]
  · -- only an empty batch at the largest index gets here
    rintro _ l' ⟨rfl, hbad⟩
    have hmax : min committed (idx + ents.length) = maxU64 := by omega
    have hempty : ents = [] := by
      by_contra hne
      exact hend ⟨hne, by omega⟩
    have hback := hsame hempty
    subst hback
    refine ⟨rfl, hm, fun hgood => ?_⟩
    have := hgood.2.below
    omega

/-- Entries that the log holds, after an entry that it holds, change nothing when they are committed
already. -/
theorem maybeAppend_held (h : l.WF) (hm : l.log.termAt idx = some term)
    (hcons : Log.Consecutive (idx + 1) ents) (hall : ∀ e ∈ ents, l.log.termAt e.index = some e.term)
    (hle : idx + ents.length ≤ maxU64) (hend : ents ≠ [] → idx + ents.length ≠ maxU64)
    (hmax : min committed (idx + ents.length) ≠ maxU64)
    (hcom : min committed (idx + ents.length) ≤ l.committed) :
    maybeAppend idx term committed ents l = .ok ⟨true, 0, idx + ents.length⟩ l := by
  have hfind : l.findConflict ents = .ok 0 := by
    obtain ⟨c, hc, ⟨rfl, -⟩ | ⟨pre, e, post, rfl, -, -, hne⟩⟩ := h.findConflict_eq ents
    · exact hc
    · exact absurd (hall e (by simp)) hne
  have hmatch : l.matchTerm idx term = .ok true := by
    rw [h.matchTerm_eq, decide_eq_true hm]
  have hcont := contiguousAfter_iff.mpr hcons
  have hnone : appendConflict idx 0 ents l = .ok () l := rfl
  have hcommit : commitTo (min committed (idx + ents.length)) l = .ok () l := by
    unfold commitTo
    refine (Act.bind_run (Act.get_run l)).trans ?_
    rw [if_neg hmax, if_pos hcom]
    rfl
  unfold maybeAppend
  refine (Act.bind_run (Act.query_run (f := fun l : RaftLog σ => l.matchTerm idx term) hmatch)).trans ?_
  dsimp only
  rw [if_neg (by decide), if_neg (not_lt.mpr hle), if_neg fun hbad => hend hbad.1 hbad.2,
    if_neg (by rw [hcont]; decide)]
  refine (Act.bind_run (Act.query_run (f := fun l : RaftLog σ => l.findConflict ents) hfind)).trans ?_
  refine (Act.bind_run hnone).trans ?_
  exact (Act.bind_run hcommit).trans rfl

/-- After an entry of the log, what a leader sends and what contradicts no committed entry is merged;
the commit index rises to what the leader has committed, as far as the batch reaches, and merging the
batch again changes nothing.  Without a match or with an error the log stays as it was; nothing
aborts. -/
theorem maybeAppend_merges (h : l.WF) (idx term committed : ℕ) (ents : List Entry) :
    (l.log.termAt idx = some term → l.Agrees ents → l.Sendable idx term ents →
      ∃ res l', maybeAppend idx term committed ents l = .ok res l' ∧ res.termMatched = true) ∧
    (∀ res l', maybeAppend idx term committed ents l = .ok res l' → res.termMatched = true →
      l'.log = l.log.merge ents ∧ l'.committed = max l.committed (min committed (idx + ents.length)) ∧
        ∃ res', maybeAppend idx term committed ents l' = .ok res' l') ∧
    (∀ res l', maybeAppend idx term committed ents l = .ok res l' → res.termMatched = false → l' = l) ∧
    (∀ e l', maybeAppend idx term committed ents l = .err e l' → l' = l) ∧
    maybeAppend idx term committed ents l ≠ .panic := by
  have hmerge := h.wp_maybeAppend idx term committed ents
  rcases Act.twp_cases (h.twp_maybeAppend idx term committed ents) with
    ⟨res, l', hrun, hmatched, hspec⟩ | ⟨e, l', hrun, rfl, hm, hbad⟩
  · refine ⟨fun hm _ _ => ⟨res, l', hrun, by rw [hmatched, decide_eq_true hm]⟩, ?_, ?_, ?_, ?_⟩
    · intro res' l'' hrun' htrue
      cases hrun.symm.trans hrun'
      obtain ⟨hwf, hlog, hcom, hle, hend, hcons, hmax⟩ := hspec htrue
      have hm : l.log.termAt idx = some term := by
        rw [htrue] at hmatched
        exact of_decide_eq_true hmatched.symm
      refine ⟨hlog, hcom, _, maybeAppend_held hwf ?_ hcons ?_ hle hend hmax ?_⟩
      · rcases Act.wp_ok hmerge hrun with ⟨hfalse, -⟩ | ⟨-, hspec⟩
        · rw [htrue] at hfalse
          cases hfalse
        · rw [hspec.merged.termAt_le hcons le_rfl]
          exact hm
      · rcases Act.wp_ok hmerge hrun with ⟨hfalse, -⟩ | ⟨-, hspec⟩
        · rw [htrue] at hfalse
          cases hfalse
        · exact hspec.merged.holds h.base_le hcons
      · rw [hcom]
        exact le_max_right _ _
    · intro res' l'' hrun' hfalse
      rcases Act.wp_ok hmerge hrun' with ⟨-, hsame⟩ | ⟨htrue, -⟩
      · exact hsame
      · rw [hfalse] at htrue
        cases htrue
    · intro e l'' hrun'
      cases hrun.symm.trans hrun'
    · rw [hrun]
      exact fun hp => by cases hp
  · refine ⟨fun _ hagrees hsend => absurd ⟨hagrees, hsend⟩ hbad, ?_, ?_, ?_, ?_⟩
    · intro res l'' hrun'
      cases hrun.symm.trans hrun'
    · intro res l'' hrun'
      cases hrun.symm.trans hrun'
    · intro e' l'' hrun'
      cases hrun.symm.trans hrun'
      rfl
    · rw [hrun]
      exact fun hp => by cases hp

/-- A log of one stored entry, of term 2. -/
def oneEntry : RaftLog MemoryStorage where
  store := { entries := [{ index := 1, term := 2 }] }
  unstable := { offset := 2 }
  committed := 0
  persisted := 1
  applied := 0
  maxApplyUnpersistedLogLimit := 0

theorem oneEntry_wf : oneEntry.WF where
  valid := show Log.Consecutive 1 _ by decide
  entries := trivial
  snapshot := fun s hs => by cases hs
  stored := fun _ => by decide
  drained := fun _ _ => by decide
  base_le := by decide
  committed_le := by decide
  persisted_lt := by decide
  applied_le := by decide

theorem maybeAppend_merges_two :
    ∃ res l', maybeAppend 1 2 2 [{ index := 2, term := 2 }, { index := 3, term := 4 }] oneEntry = .ok res l' ∧
      res.termMatched = true :=
  (maybeAppend_merges oneEntry_wf 1 2 2 _).1 (by decide) (by unfold Agrees; decide)
    ⟨by decide, by simp [TermsFrom], by decide, by decide⟩

/-- A batch whose terms decrease is refused, although the previous entry matches, the indexes follow one
another and nothing is contradicted. -/
theorem maybeAppend_decreasing :
    oneEntry.WF ∧ oneEntry.log.termAt 1 = some 2 ∧ Log.Consecutive 2 [{ index := 2, term := 1 }] ∧
      oneEntry.Agrees [{ index := 2, term := 1 }] ∧
      maybeAppend 1 2 0 [{ index := 2, term := 1 }] oneEntry = .err .fatal oneEntry ∧
      oneEntry.log ≠ oneEntry.log.merge [{ index := 2, term := 1 }] :=
  ⟨oneEntry_wf, by decide, by decide, by unfold Agrees; decide, rfl, by decide⟩

end RaftLog

end Raftz
