import Mathlib.Data.Finset.Lattice.Fold
import Mathlib.Order.Bounds.Basic
import Mathlib.Order.Lattice.Nat
import Raftz.Quorum

/-! # What the two quorum computations compute

`committedIndex` sorts the acknowledged indexes and picks one; `getVoteResult`
counts.  Here both are described without order or counting loop: the committed
index is the largest one that a strict majority of each non-empty half has
acknowledged, a tally is won by strict majorities, and lost when no answer of the
voters still missing could win it (`quorum_exact`).

With group commit the scan of the sorted indexes returns the smaller of the quorum
index and the second largest of the groups' maxima, once two groups occur
(`committedIndex_groupCommit`). -/

open Base

namespace Raftz

/-- The index a voter has acknowledged, zero when nothing is known of it. -/
def indexOf (acked : ℕ → Option Index) (v : ℕ) : ℕ := ((acked v).getD ⟨0, 0⟩).index

/-- The group a voter belongs to, zero for none. -/
def groupOf (acked : ℕ → Option Index) (v : ℕ) : ℕ := ((acked v).getD ⟨0, 0⟩).groupId

namespace MajorityConfig

variable {c : MajorityConfig} {acked : ℕ → Option Index} {check : ℕ → Option Bool}

/-- More than half of the voters have the property. -/
def StrictMajority (c : MajorityConfig) (p : ℕ → Prop) [DecidablePred p] : Prop :=
  c.count < 2 * (c.voters.toFinset.filter p).card

theorem strictMajority_iff {p : ℕ → Prop} [DecidablePred p] :
    c.StrictMajority p ↔ majority c.count ≤ c.voters.ids.countP (fun v => decide (p v)) := by
  have hcount : c.voters.ids.countP (fun v => decide (p v)) = (c.voters.toFinset.filter p).card := by
    rw [IdSet.countP_ids]
    exact congrArg Finset.card (Finset.filter_congr fun v _ => decide_eq_true_iff)
  unfold StrictMajority majority
  rw [hcount]
  omega

theorem StrictMajority.mono {p q : ℕ → Prop} [DecidablePred p] [DecidablePred q]
    (h : c.StrictMajority p) (hpq : ∀ v, p v → q v) : c.StrictMajority q := by
  have hle : (c.voters.toFinset.filter p).card ≤ (c.voters.toFinset.filter q).card :=
    Finset.card_le_card (Finset.monotone_filter_right _ fun v _ => hpq v)
  unfold StrictMajority at h ⊢
  omega

theorem StrictMajority.exists {p : ℕ → Prop} [DecidablePred p] (h : c.StrictMajority p) :
    ∃ v ∈ c.voters, p v := by
  unfold StrictMajority at h
  obtain ⟨v, hv⟩ := Finset.card_pos.mp (show 0 < (c.voters.toFinset.filter p).card by omega)
  rw [Finset.mem_filter, IdSet.mem_toFinset] at hv
  exact ⟨v, hv⟩

/-! ### The quorum index -/

/-- The quorum index reaches a bound exactly when a strict majority does. -/
theorem le_quorumIndex_iff (hne : c.isEmpty = false) {i : ℕ} :
    i ≤ c.quorumIndex acked ↔ c.StrictMajority (fun v => i ≤ indexOf acked v) := by
  have hpos := count_pos hne
  have hlen := length_sortedMatched c acked
  have hq : majority c.count - 1 < (c.sortedMatched acked).length := by
    unfold majority
    omega
  unfold quorumIndex
  rw [List.getD_eq_getElem _ _ hq, le_getElem_iff_lt_countP (sortedMatched_pairwise c acked) hq,
    (sortedMatched_perm c acked).countP_eq, List.countP_map, strictMajority_iff]
  exact ⟨Nat.le_of_pred_lt (m := majority c.count), fun h => (Nat.sub_lt (Nat.succ_pos _) Nat.one_pos).trans_le h⟩

/-- Without group commit the committed index is the quorum index. -/
theorem committedIndex_false (hne : c.isEmpty = false) :
    c.committedIndex false acked = ⟨c.quorumIndex acked, false⟩ := by
  unfold committedIndex quorumIndex
  rw [if_neg (by simp [hne]), ← length_sortedMatched c acked]
  rfl

/-! ### Tallies -/

theorem won_iff_strictMajority :
    c.getVoteResult check = .won ↔
      (c.isEmpty = false → c.StrictMajority fun v => check v = some true) := by
  unfold getVoteResult
  cases hne : c.isEmpty with
  | true => simp
  | false =>
      rw [strictMajority_iff]
      simp only [Bool.false_eq_true, if_false, forall_const, beq_eq_decide]
      constructor
      · intro h
        by_contra hlt
        rw [if_neg hlt] at h
        split at h <;> cases h
      · exact fun h => if_pos h

/-- A tally is lost when the voters that have not said no are no strict majority. -/
theorem lost_iff_strictMajority :
    c.getVoteResult check = .lost ↔
      c.isEmpty = false ∧ ¬ c.StrictMajority fun v => check v ≠ some false := by
  -- a voter that has not said no has said yes or is missing
  have hsum : c.voters.ids.countP (fun v => decide (check v ≠ some false)) =
      c.voters.ids.countP (fun v => check v == some true) +
        c.voters.ids.countP (fun v => check v == none) := by
    induction c.voters.ids with
    | nil => rfl
    | cons v l ih =>
        rw [List.countP_cons, List.countP_cons, List.countP_cons, ih]
        cases check v with
        | none =>
            simp
            omega
        | some b =>
            cases b <;> simp
            omega
  unfold getVoteResult
  cases hne : c.isEmpty with
  | true => simp
  | false =>
      rw [strictMajority_iff, hsum]
      simp only [Bool.false_eq_true, if_false, true_and]
      constructor
      · intro h
        split at h
        · cases h
        · split at h
          · cases h
          · assumption
      · intro h
        rw [if_neg (by omega), if_neg h]

end MajorityConfig

namespace JointConfiguration

open MajorityConfig

/-- The two halves of a configuration. -/
def halves (c : JointConfiguration) : List MajorityConfig := [c.incoming, c.outgoing]

/-- Each half that has a voter has a strict majority with the property. -/
def StrictMajorities (c : JointConfiguration) (p : ℕ → Prop) [DecidablePred p] : Prop :=
  ∀ half ∈ c.halves, half.isEmpty = false → half.StrictMajority p

theorem strictMajorities_iff {c : JointConfiguration} {p : ℕ → Prop} [DecidablePred p] :
    c.StrictMajorities p ↔ (c.incoming.isEmpty = false → c.incoming.StrictMajority p) ∧
      (c.outgoing.isEmpty = false → c.outgoing.StrictMajority p) := by
  simp [StrictMajorities, halves]

theorem lost_iff {c : JointConfiguration} {check : ℕ → Option Bool} :
    c.getVoteResult check = .lost ↔ ¬ c.StrictMajorities fun v => check v ≠ some false := by
  have hlost : c.getVoteResult check = .lost ↔
      c.incoming.getVoteResult check = .lost ∨ c.outgoing.getVoteResult check = .lost := by
    unfold getVoteResult
    cases c.incoming.getVoteResult check <;> cases c.outgoing.getVoteResult check <;> simp
  rw [hlost, lost_iff_strictMajority, lost_iff_strictMajority, strictMajorities_iff]
  tauto

/-- The committed index is the largest one acknowledged by a strict majority of each half that has a
voter.  A tally is won exactly by a strict majority of yes in each of them, and lost exactly when no
way of answering for the missing voters wins it. -/
theorem quorum_exact (c : JointConfiguration) :
    (∀ acked : ℕ → Option Index, c.incoming.isEmpty = false →
      (∀ v i, acked v = some i → i.index ≤ maxU64) →
        IsGreatest {i | c.StrictMajorities fun v => i ≤ indexOf acked v}
          (c.committedIndex false acked).index) ∧
      ∀ check : ℕ → Option Bool,
        (c.getVoteResult check = .won ↔ c.StrictMajorities fun v => check v = some true) ∧
        (c.getVoteResult check = .lost ↔
          ∀ votes : ℕ → Bool, (∀ v b, check v = some b → votes v = b) →
            c.getVoteResult (fun v => some (votes v)) ≠ .won) := by
  have hwon : ∀ check : ℕ → Option Bool,
      c.getVoteResult check = .won ↔ c.StrictMajorities fun v => check v = some true := by
    intro check
    rw [won_iff, won_iff_strictMajority, won_iff_strictMajority, strictMajorities_iff]
  refine ⟨fun acked hne hmax => ?_, fun check => ⟨hwon check, ?_⟩⟩
  · have hle : ∀ i, i ≤ (c.committedIndex false acked).index ↔ i ≤ c.incoming.quorumIndex acked ∧
        (c.outgoing.isEmpty = false → i ≤ c.outgoing.quorumIndex acked) := by
      intro i
      unfold committedIndex
      dsimp only
      rw [le_min_iff, committedIndex_false hne]
      refine and_congr_right fun hi => ?_
      cases ho : c.outgoing.isEmpty with
      | false => simp [committedIndex_false ho]
      | true =>
          -- an empty half commits everything a 64-bit index can name
          have hq : c.incoming.quorumIndex acked ≤ maxU64 := by
            obtain ⟨v, -, hv⟩ := ((le_quorumIndex_iff hne).mp (le_refl
              (c.incoming.quorumIndex acked))).exists
            refine hv.trans ?_
            unfold indexOf
            cases ha : acked v with
            | none => exact Nat.zero_le _
            | some j => exact hmax v j ha
          have htop : (c.outgoing.committedIndex false acked).index = maxU64 := by
            unfold MajorityConfig.committedIndex
            rw [if_pos ho]
          rw [htop]
          simp only [hi.trans hq, Bool.true_eq_false, false_implies]
    have hmem : ∀ i, c.StrictMajorities (fun v => i ≤ indexOf acked v) ↔
        i ≤ (c.committedIndex false acked).index := by
      intro i
      rw [hle, strictMajorities_iff, le_quorumIndex_iff hne]
      refine and_congr ⟨fun h => h hne, fun h _ => h⟩ (forall_congr' fun ho => ?_)
      rw [le_quorumIndex_iff ho]
    exact ⟨(hmem _).mpr le_rfl, fun i hi => (hmem i).mp hi⟩
  · rw [lost_iff]
    constructor
    · intro hlost votes hvotes hw
      refine hlost fun half hhalf hne => ((hwon _).mp hw half hhalf hne).mono fun v hv hno => ?_
      rw [Option.some.injEq, hvotes v false hno] at hv
      cases hv
    · intro hall hpossible
      refine hall (fun v => (check v).getD true) (fun v b hv => by simp [hv]) ?_
      rw [hwon]
      refine fun half hhalf hne => (hpossible half hhalf hne).mono fun v hv => ?_
      cases hc : check v with
      | none => rfl
      | some b =>
          cases b with
          | true => rfl
          | false => exact absurd hc hv

theorem quorum_exact_five :
    IsGreatest {i | (⟨⟨[1, 2, 3], by decide⟩, ⟨[3, 4, 5], by decide⟩⟩ : JointConfiguration).StrictMajorities
        fun v => i ≤ indexOf (fun v => some ⟨v % 4, 0⟩) v}
      ((⟨⟨[1, 2, 3], by decide⟩, ⟨[3, 4, 5], by decide⟩⟩ : JointConfiguration).committedIndex false
        fun v => some ⟨v % 4, 0⟩).index := by
  refine (quorum_exact _).1 _ (by decide) fun v i h => ?_
  cases h
  exact (Nat.mod_lt v (by decide : 0 < 4)).le.trans (by decide)

end JointConfiguration

namespace MajorityConfig

variable {c : MajorityConfig} {acked : ℕ → Option Index}

/-! ### Group commit -/

/-- The groups of the voters. -/
def groups (c : MajorityConfig) (acked : ℕ → Option Index) : Finset ℕ :=
  (c.voters.toFinset.image (groupOf acked)).erase 0

/-- The largest index acknowledged in a group. -/
def groupMax (c : MajorityConfig) (acked : ℕ → Option Index) (g : ℕ) : ℕ :=
  (c.voters.toFinset.filter (groupOf acked · = g)).sup (indexOf acked)

/-- The second largest of the groups' largest indexes. -/
def secondGroupMax (c : MajorityConfig) (acked : ℕ → Option Index) : ℕ :=
  ranked ((c.groups acked).val.map (c.groupMax acked)) 1

theorem mem_groups {g : ℕ} : g ∈ c.groups acked ↔ g ≠ 0 ∧ ∃ v ∈ c.voters, groupOf acked v = g := by
  simp [groups]

theorem le_groupMax {v : ℕ} (hv : v ∈ c.voters) : indexOf acked v ≤ c.groupMax acked (groupOf acked v) :=
  Finset.le_sup (Finset.mem_filter.mpr ⟨IdSet.mem_toFinset.mpr hv, rfl⟩)

theorem groupMax_le {g i : ℕ} (h : ∀ v ∈ c.voters, groupOf acked v = g → indexOf acked v ≤ i) :
    c.groupMax acked g ≤ i := by
  refine Finset.sup_le fun v hv => ?_
  rw [Finset.mem_filter, IdSet.mem_toFinset] at hv
  exact h v hv.1 hv.2

/-- The second largest maximum reaches a bound when those of two groups do. -/
theorem le_secondGroupMax_iff (h : 1 < (c.groups acked).card) {i : ℕ} :
    i ≤ c.secondGroupMax acked ↔ ∃ g ∈ c.groups acked, ∃ g' ∈ c.groups acked,
      i ≤ c.groupMax acked g ∧ i ≤ c.groupMax acked g' ∧ g ≠ g' := by
  unfold secondGroupMax
  rw [le_ranked_iff (by rwa [Multiset.card_map]), Multiset.countP_map]
  show 1 < ((c.groups acked).filter (i ≤ c.groupMax acked ·)).card ↔ _
  rw [Finset.one_lt_card]
  simp only [Finset.mem_filter]
  constructor
  · rintro ⟨g, ⟨hg, hi⟩, g', ⟨hg', hi'⟩, hne⟩
    exact ⟨g, hg, g', hg', hi, hi', hne⟩
  · rintro ⟨g, hg, g', hg', hi, hi', hne⟩
    exact ⟨g, ⟨hg, hi⟩, g', ⟨hg', hi'⟩, hne⟩

/-! ### The scan -/

/-- A scan that starts from a group stops at the first member of another one. -/
theorem scanGroups_eq {q g : ℕ} (hg : g ≠ 0) (single : Bool) (l : List Index) :
    scanGroups q g single l =
      match l.find? (fun m => decide (m.groupId ≠ 0 ∧ m.groupId ≠ g)) with
      | some m => .inl ⟨min m.index q, true⟩
      | none => .inr (single && l.all fun m => decide (m.groupId ≠ 0)) := by
  induction l generalizing single with
  | nil => simp [scanGroups]
  | cons m ms ih =>
      unfold scanGroups
      by_cases h0 : m.groupId = 0
      · rw [if_pos h0, ih, List.find?_cons_of_neg (by simp [h0])]
        simp [h0]
      · rw [if_neg h0, if_neg hg]
        by_cases hm : g = m.groupId
        · rw [if_pos hm, ih, List.find?_cons_of_neg (by simp [hm])]
          simp [h0]
        · rw [if_neg hm, List.find?_cons_of_pos (by simp [h0, Ne.symm hm])]

/-- A scan that starts from no group is one that starts from the first group there is. -/
theorem scanGroups_zero {q : ℕ} (single : Bool) (l : List Index) :
    scanGroups q 0 single l =
      match l.find? (fun m => decide (m.groupId ≠ 0)) with
      | some m => scanGroups q m.groupId single l
      | none => .inr (single && l.all fun m => decide (m.groupId ≠ 0)) := by
  induction l generalizing single with
  | nil => simp [scanGroups]
  | cons m ms ih =>
      rw [scanGroups]
      by_cases h0 : m.groupId = 0
      · rw [if_pos h0, ih, List.find?_cons_of_neg (by simp [h0])]
        cases ms.find? (fun m => decide (m.groupId ≠ 0)) with
        | none => simp [h0]
        | some m' =>
            dsimp only
            rw [scanGroups, if_pos h0]
      · rw [if_neg h0, if_pos rfl, List.find?_cons_of_pos (by simp [h0])]
        dsimp only
        rw [scanGroups, if_neg h0, if_neg h0, if_pos rfl]

/-- What a search in a list sorted downwards finds is the largest there is. -/
theorem find?_spec {l : List Index} (hs : l.Pairwise (fun a b => b.index ≤ a.index)) {p : Index → Bool}
    {m : Index} (h : l.find? p = some m) :
    m ∈ l ∧ p m = true ∧ ∀ x ∈ l, p x = true → x.index ≤ m.index := by
  induction l with
  | nil => cases h
  | cons a l ih =>
      obtain ⟨hhead, htail⟩ := List.pairwise_cons.mp hs
      cases hp : p a with
      | true =>
          rw [List.find?_cons_of_pos hp] at h
          cases h
          refine ⟨List.mem_cons_self, hp, fun x hx _ => ?_⟩
          rcases List.mem_cons.mp hx with rfl | hx
          · exact le_rfl
          · exact hhead x hx
      | false =>
          rw [List.find?_cons_of_neg (by simp [hp])] at h
          obtain ⟨hm, hpm, hmax⟩ := ih htail h
          refine ⟨List.mem_cons_of_mem _ hm, hpm, fun x hx hpx => ?_⟩
          rcases List.mem_cons.mp hx with rfl | hx
          · rw [hp] at hpx
            cases hpx
          · exact hmax x hx hpx

/-- The scan of a sorted list, begun at the group of one of its members with index `q`.  Either it
stops at the largest member `m` outside some group `g`, which has a member as large as `m` or the
`q` of the quorum, or no two groups occur. -/
theorem scanGroups_spec {l : List Index} (hs : l.Pairwise (fun a b => b.index ≤ a.index)) {b : Index}
    (hb : b ∈ l) :
    (∃ g m, g ≠ 0 ∧ m ∈ l ∧ m.groupId ≠ 0 ∧ m.groupId ≠ g ∧
        (∀ x ∈ l, x.groupId ≠ 0 → x.groupId ≠ g → x.index ≤ m.index) ∧
        (∃ x ∈ l, x.groupId = g ∧ min m.index b.index ≤ x.index) ∧
        scanGroups b.index b.groupId true l = .inl ⟨min m.index b.index, true⟩) ∨
      (∀ x ∈ l, ∀ y ∈ l, x.groupId ≠ 0 → y.groupId ≠ 0 → x.groupId = y.groupId) ∧
        scanGroups b.index b.groupId true l = .inr (l.all fun m => decide (m.groupId ≠ 0)) := by
  -- a scan from the group of a member `x` that is not below the member it stops at
  have hfrom : ∀ x ∈ l, x.groupId ≠ 0 →
      (∀ y ∈ l, y.groupId ≠ 0 → min y.index b.index ≤ x.index) →
      scanGroups b.index b.groupId true l = scanGroups b.index x.groupId true l →
        (∃ g m, g ≠ 0 ∧ m ∈ l ∧ m.groupId ≠ 0 ∧ m.groupId ≠ g ∧
          (∀ x ∈ l, x.groupId ≠ 0 → x.groupId ≠ g → x.index ≤ m.index) ∧
          (∃ x ∈ l, x.groupId = g ∧ min m.index b.index ≤ x.index) ∧
          scanGroups b.index b.groupId true l = .inl ⟨min m.index b.index, true⟩) ∨
        (∀ x ∈ l, ∀ y ∈ l, x.groupId ≠ 0 → y.groupId ≠ 0 → x.groupId = y.groupId) ∧
          scanGroups b.index b.groupId true l = .inr (l.all fun m => decide (m.groupId ≠ 0)) := by
    intro x hx h0 hle heq
    rw [scanGroups_eq h0] at heq
    cases hfind : l.find? (fun m => decide (m.groupId ≠ 0 ∧ m.groupId ≠ x.groupId)) with
    | some m =>
        rw [hfind] at heq
        obtain ⟨hm, hpm, hmax⟩ := find?_spec hs hfind
        rw [decide_eq_true_eq] at hpm
        exact Or.inl ⟨x.groupId, m, h0, hm, hpm.1, hpm.2,
          fun y hy hy0 hyg => hmax y hy (decide_eq_true ⟨hy0, hyg⟩), ⟨x, hx, rfl, hle m hm hpm.1⟩, heq⟩
    | none =>
        rw [hfind, Bool.true_and] at heq
        have hone : ∀ y ∈ l, y.groupId ≠ 0 → y.groupId = x.groupId := by
          intro y hy hy0
          have := List.find?_eq_none.mp hfind y hy
          simp only [decide_eq_true_eq, not_and, not_not] at this
          exact this hy0
        exact Or.inr ⟨fun y hy z hz hy0 hz0 => (hone y hy hy0).trans (hone z hz hz0).symm, heq⟩
  by_cases h0 : b.groupId = 0
  · cases hfind : l.find? (fun m => decide (m.groupId ≠ 0)) with
    | some x =>
        obtain ⟨hx, hpx, hmax⟩ := find?_spec hs hfind
        refine hfrom x hx (of_decide_eq_true hpx) (fun y hy hy0 => ?_) ?_
        · exact (min_le_left _ _).trans (hmax y hy (decide_eq_true hy0))
        · rw [h0, scanGroups_zero, hfind]
    | none =>
        have hno : ∀ y ∈ l, y.groupId = 0 := by
          intro y hy
          simpa using List.find?_eq_none.mp hfind y hy
        refine Or.inr ⟨fun y hy _ _ hy0 => absurd (hno y hy) hy0, ?_⟩
        rw [h0, scanGroups_zero, hfind, Bool.true_and]
  · exact hfrom b hb h0 (fun y _ _ => min_le_right _ _) rfl

/-! ### The committed index of groups -/

theorem mem_sortedMatched {x : Index} :
    x ∈ c.sortedMatched acked ↔ ∃ v ∈ c.voters, (acked v).getD ⟨0, 0⟩ = x := by
  rw [(sortedMatched_perm c acked).mem_iff, List.mem_map]
  rfl

/-- The code's committed index in terms of the scan. -/
theorem committedIndex_true (acked : ℕ → Option Index) (hne : c.isEmpty = false) :
    ∃ b ∈ c.sortedMatched acked, b.index = c.quorumIndex acked ∧
      c.committedIndex true acked =
        match scanGroups b.index b.groupId true (c.sortedMatched acked) with
        | .inl r => r
        | .inr true => ⟨c.quorumIndex acked, false⟩
        | .inr false =>
            ⟨((c.sortedMatched acked).getD ((c.sortedMatched acked).length - 1) default).index, false⟩ := by
  have hpos := count_pos hne
  have hlen := length_sortedMatched c acked
  have hq : majority c.count - 1 < (c.sortedMatched acked).length := by
    unfold majority
    omega
  refine ⟨(c.sortedMatched acked).getD (majority c.count - 1) default, ?_, rfl, ?_⟩
  · rw [List.getD_eq_getElem _ _ hq]
    exact List.getElem_mem hq
  · unfold committedIndex quorumIndex
    rw [if_neg (by simp [hne]), ← hlen]
    rfl

/-- The last of the sorted indexes is the smallest. -/
theorem isLeast_last (hne : c.isEmpty = false) :
    IsLeast {i | ∃ v ∈ c.voters, indexOf acked v = i}
      ((c.sortedMatched acked).getD ((c.sortedMatched acked).length - 1) default).index := by
  have hpos := count_pos hne
  have hlen := length_sortedMatched c acked
  have hlast : (c.sortedMatched acked).length - 1 < (c.sortedMatched acked).length := by omega
  rw [List.getD_eq_getElem _ _ hlast]
  constructor
  · obtain ⟨v, hv, hx⟩ := mem_sortedMatched.mp (List.getElem_mem hlast)
    exact ⟨v, hv, congrArg Index.index hx⟩
  · rintro i ⟨v, hv, rfl⟩
    obtain ⟨k, hk, hx⟩ := List.getElem_of_mem (mem_sortedMatched.mpr ⟨v, hv, rfl⟩)
    show _ ≤ ((acked v).getD ⟨0, 0⟩).index
    rw [← hx]
    rcases Nat.lt_or_ge k ((c.sortedMatched acked).length - 1) with hlt | hge
    · exact List.pairwise_iff_getElem.mp (sortedMatched_pairwise c acked) _ _ _ _ hlt
    · have : k = (c.sortedMatched acked).length - 1 := by omega
      subst this
      exact le_rfl

/-- Two groups occur: the smaller of the quorum index and the second largest maximum. -/
theorem committedIndex_groups (hne : c.isEmpty = false) (h : 1 < (c.groups acked).card) :
    c.committedIndex true acked = ⟨min (c.quorumIndex acked) (c.secondGroupMax acked), true⟩ := by
  obtain ⟨b, hb, hbq, heq⟩ := committedIndex_true acked hne
  rcases scanGroups_spec (sortedMatched_pairwise c acked) hb with
      ⟨g, m, hg0, hm, hm0, hmg, hmax, ⟨x, hx, hxg, hle⟩, hscan⟩ | ⟨hone, -⟩
  · rw [heq, hscan]
    obtain ⟨v, hv, hvm⟩ := mem_sortedMatched.mp hm
    obtain ⟨w, hw, hwx⟩ := mem_sortedMatched.mp hx
    have hgv : groupOf acked v = m.groupId := congrArg Index.groupId hvm
    have hgw : groupOf acked w = g := (congrArg Index.groupId hwx).trans hxg
    have hiv : indexOf acked v = m.index := congrArg Index.index hvm
    have hiw : indexOf acked w = x.index := congrArg Index.index hwx
    -- outside `g` no maximum is larger than `m`
    have hother : ∀ g' ∈ c.groups acked, g' ≠ g → c.groupMax acked g' ≤ m.index := by
      intro g' hg' hne'
      refine groupMax_le fun u hu hug => ?_
      refine hmax _ (mem_sortedMatched.mpr ⟨u, hu, rfl⟩) ?_ ?_
      · exact fun h => (mem_groups.mp hg').1 (hug.symm.trans h)
      · exact fun h => hne' (hug.symm.trans h)
    have hupper : c.secondGroupMax acked ≤ m.index := by
      obtain ⟨g1, hg1, g2, hg2, h1, h2, h12⟩ := (le_secondGroupMax_iff h).mp le_rfl
      by_cases h1g : g1 = g
      · exact h2.trans (hother g2 hg2 fun h2g => h12 (h1g.trans h2g.symm))
      · exact h1.trans (hother g1 hg1 h1g)
    have hlower : min m.index b.index ≤ c.secondGroupMax acked := by
      refine (le_secondGroupMax_iff h).mpr ⟨g, mem_groups.mpr ⟨hg0, w, hw, hgw⟩, m.groupId,
        mem_groups.mpr ⟨hm0, v, hv, hgv⟩, ?_, ?_, hmg.symm⟩
      · rw [← hgw]
        exact hle.trans (hiw ▸ le_groupMax hw)
      · rw [← hgv]
        exact (min_le_left _ _).trans (hiv ▸ le_groupMax hv)
    dsimp only
    rw [hbq] at hlower ⊢
    rw [CommittedIndexResult.mk.injEq]
    refine ⟨?_, rfl⟩
    omega
  · obtain ⟨g, hg, g', hg', hgg⟩ := Finset.one_lt_card.mp h
    obtain ⟨hg0, v, hv, rfl⟩ := mem_groups.mp hg
    obtain ⟨hg0', v', hv', rfl⟩ := mem_groups.mp hg'
    exact absurd (hone _ (mem_sortedMatched.mpr ⟨v, hv, rfl⟩) _ (mem_sortedMatched.mpr ⟨v', hv', rfl⟩)
      hg0 hg0') hgg

/-- At most one group occurs: the quorum index when every voter has a group, else the smallest
index. -/
theorem committedIndex_single (hne : c.isEmpty = false) (h : ¬ 1 < (c.groups acked).card) :
    ((∀ v ∈ c.voters, groupOf acked v ≠ 0) →
        c.committedIndex true acked = ⟨c.quorumIndex acked, false⟩) ∧
      ((∃ v ∈ c.voters, groupOf acked v = 0) →
        (c.committedIndex true acked).useGroupCommit = false ∧
          IsLeast {i | ∃ v ∈ c.voters, indexOf acked v = i} (c.committedIndex true acked).index) := by
  obtain ⟨b, hb, hbq, heq⟩ := committedIndex_true acked hne
  rcases scanGroups_spec (sortedMatched_pairwise c acked) hb with
      ⟨g, m, hg0, hm, hm0, hmg, -, ⟨x, hx, hxg, -⟩, -⟩ | ⟨-, hscan⟩
  · obtain ⟨v, hv, rfl⟩ := mem_sortedMatched.mp hm
    obtain ⟨w, hw, rfl⟩ := mem_sortedMatched.mp hx
    refine absurd (Finset.one_lt_card.mpr ⟨g, mem_groups.mpr ⟨hg0, w, hw, hxg⟩, _,
      mem_groups.mpr ⟨hm0, v, hv, rfl⟩, hmg.symm⟩) h
  · refine ⟨fun hall => ?_, ?_⟩
    · have htrue : (c.sortedMatched acked).all (fun m => decide (m.groupId ≠ 0)) = true := by
        refine List.all_eq_true.mpr fun x hx => decide_eq_true ?_
        obtain ⟨v, hv, rfl⟩ := mem_sortedMatched.mp hx
        exact hall v hv
      rw [heq, hscan, htrue]
    · rintro ⟨v, hv, hv0⟩
      have hfalse : (c.sortedMatched acked).all (fun m => decide (m.groupId ≠ 0)) = false := by
        refine List.all_eq_false.mpr ⟨_, mem_sortedMatched.mpr ⟨v, hv, rfl⟩, ?_⟩
        exact fun htrue => of_decide_eq_true htrue hv0
      rw [heq, hscan, hfalse]
      exact ⟨rfl, isLeast_last hne⟩

/-- The result does not depend on the order in which the voters are visited. -/
theorem committedIndex_congr {c' : MajorityConfig} (hne : c.isEmpty = false)
    (h : ∀ v, v ∈ c'.voters ↔ v ∈ c.voters) : c'.committedIndex true acked = c.committedIndex true acked := by
  have hset : c'.voters.toFinset = c.voters.toFinset := by
    ext v
    rw [IdSet.mem_toFinset, IdSet.mem_toFinset, h]
  have hne' : c'.isEmpty = false := by
    refine Bool.eq_false_iff.mpr fun he => ?_
    have hnone := IdSet.isEmpty_iff.mp he
    exact Bool.eq_false_iff.mp hne (IdSet.isEmpty_iff.mpr fun v hv => hnone v ((h v).mpr hv))
  have hcount : c'.count = c.count := by
    show c'.voters.count = c.voters.count
    rw [← IdSet.card_toFinset, ← IdSet.card_toFinset, hset]
  have hquorum : c'.quorumIndex acked = c.quorumIndex acked := by
    refine eq_of_forall_le_iff fun i => ?_
    rw [le_quorumIndex_iff hne', le_quorumIndex_iff hne]
    unfold StrictMajority
    rw [hcount, hset]
  have hgroups : c'.groups acked = c.groups acked := by
    unfold groups
    rw [hset]
  have hmax : c'.groupMax acked = c.groupMax acked := by
    funext g
    unfold groupMax
    rw [hset]
  by_cases htwo : 1 < (c.groups acked).card
  · rw [committedIndex_groups hne htwo, committedIndex_groups hne' (by rwa [hgroups]), hquorum]
    unfold secondGroupMax
    rw [hgroups, hmax]
  · obtain ⟨hall, hsome⟩ := committedIndex_single hne htwo
    obtain ⟨hall', hsome'⟩ := committedIndex_single hne' (by rwa [hgroups])
    by_cases h0 : ∃ v ∈ c.voters, groupOf acked v = 0
    · obtain ⟨hg, hleast⟩ := hsome h0
      obtain ⟨hg', hleast'⟩ := hsome' (by simpa only [h] using h0)
      have hindex := hleast'.unique (by simpa only [h] using hleast)
      calc c'.committedIndex true acked
          = ⟨(c'.committedIndex true acked).index, (c'.committedIndex true acked).useGroupCommit⟩ := rfl
        _ = ⟨(c.committedIndex true acked).index, (c.committedIndex true acked).useGroupCommit⟩ := by
            rw [hindex, hg, hg']
    · push Not at h0
      rw [hall h0, hall' fun v hv => h0 v ((h v).mp hv), hquorum]

/-- The result is monotone in the acknowledged indexes. -/
theorem committedIndex_mono {acked' : ℕ → Option Index} (hne : c.isEmpty = false)
    (hg : ∀ v, groupOf acked' v = groupOf acked v) (hi : ∀ v, indexOf acked v ≤ indexOf acked' v) :
    (c.committedIndex true acked).index ≤ (c.committedIndex true acked').index := by
  have hgroupOf : groupOf acked' = groupOf acked := funext hg
  have hgroups : c.groups acked' = c.groups acked := by
    unfold groups
    rw [hgroupOf]
  have hquorum : c.quorumIndex acked ≤ c.quorumIndex acked' :=
    (le_quorumIndex_iff hne).mpr (((le_quorumIndex_iff hne).mp le_rfl).mono fun v hv => hv.trans (hi v))
  have hmax : ∀ g, c.groupMax acked g ≤ c.groupMax acked' g := by
    refine fun g => groupMax_le fun v hv hvg => (hi v).trans ?_
    rw [← hvg, ← hg v]
    exact le_groupMax hv
  by_cases htwo : 1 < (c.groups acked).card
  · have htwo' : 1 < (c.groups acked').card := by rwa [hgroups]
    have hsecond : c.secondGroupMax acked ≤ c.secondGroupMax acked' := by
      obtain ⟨g, hg1, g', hg2, h1, h2, hgg⟩ := (le_secondGroupMax_iff htwo).mp le_rfl
      refine (le_secondGroupMax_iff htwo').mpr ⟨g, ?_, g', ?_, h1.trans (hmax g), h2.trans (hmax g'), hgg⟩
      · rwa [hgroups]
      · rwa [hgroups]
    rw [committedIndex_groups hne htwo, committedIndex_groups hne htwo']
    exact min_le_min hquorum hsecond
  · obtain ⟨hall, hsome⟩ := committedIndex_single hne htwo
    have htwo' : ¬ 1 < (c.groups acked').card := by rwa [hgroups]
    obtain ⟨hall', hsome'⟩ := committedIndex_single hne htwo'
    by_cases h0 : ∃ v ∈ c.voters, groupOf acked v = 0
    · obtain ⟨-, hleast⟩ := hsome h0
      obtain ⟨-, ⟨v, hv, hvi⟩, -⟩ := hsome' (by simpa only [hg] using h0)
      rw [← hvi]
      exact (hleast.2 ⟨v, hv, rfl⟩).trans (hi v)
    · push Not at h0
      rw [hall h0, hall' fun v hv => by rw [hg]; exact h0 v hv]
      exact hquorum

/-- With group commit the committed index is the smaller of the quorum index and the second largest of
the groups' maxima when two groups occur, the quorum index when all voters are in one group, and the
smallest index otherwise.  It never exceeds the quorum index, does not depend on the order of the
voters, and is monotone. -/
theorem committedIndex_groupCommit (c : MajorityConfig) (hne : c.isEmpty = false)
    (acked : ℕ → Option Index) :
    (2 ≤ (c.groups acked).card → c.committedIndex true acked =
        ⟨min (c.committedIndex false acked).index (c.secondGroupMax acked), true⟩) ∧
      ((∃ g ≠ 0, ∀ v ∈ c.voters, groupOf acked v = g) →
        c.committedIndex true acked = ⟨(c.committedIndex false acked).index, false⟩) ∧
      (¬ 2 ≤ (c.groups acked).card → ¬ (∃ g ≠ 0, ∀ v ∈ c.voters, groupOf acked v = g) →
        (c.committedIndex true acked).useGroupCommit = false ∧
          IsLeast {i | ∃ v ∈ c.voters, indexOf acked v = i} (c.committedIndex true acked).index) ∧
      (c.committedIndex true acked).index ≤ (c.committedIndex false acked).index ∧
      (∀ c' : MajorityConfig, (∀ v, v ∈ c'.voters ↔ v ∈ c.voters) →
        c'.committedIndex true acked = c.committedIndex true acked) ∧
      ∀ acked' : ℕ → Option Index,
        (∀ v, groupOf acked' v = groupOf acked v ∧ indexOf acked v ≤ indexOf acked' v) →
          (c.committedIndex true acked).index ≤ (c.committedIndex true acked').index := by
  refine ⟨fun htwo => ?_, ?_, fun htwo hone => ?_, ?_, fun c' h => committedIndex_congr hne h,
    fun acked' h => committedIndex_mono hne (fun v => (h v).1) fun v => (h v).2⟩
  · rw [committedIndex_groups hne htwo, committedIndex_false hne]
  · rintro ⟨g, hg0, hg⟩
    have htwo : ¬ 1 < (c.groups acked).card := by
      refine not_lt.mpr (Finset.card_le_one.mpr fun g1 h1 g2 h2 => ?_)
      obtain ⟨-, v1, hv1, rfl⟩ := mem_groups.mp h1
      obtain ⟨-, v2, hv2, rfl⟩ := mem_groups.mp h2
      rw [hg v1 hv1, hg v2 hv2]
    rw [committedIndex_false hne]
    refine (committedIndex_single hne htwo).1 fun v hv => ?_
    rw [hg v hv]
    exact hg0
  · refine (committedIndex_single hne htwo).2 ?_
    by_contra h0
    push Not at h0
    obtain ⟨v, hv⟩ : ∃ v, v ∈ c.voters := by
      by_contra hno
      push Not at hno
      exact Bool.eq_false_iff.mp hne (IdSet.isEmpty_iff.mpr hno)
    refine hone ⟨groupOf acked v, h0 v hv, fun w hw => ?_⟩
    exact Finset.card_le_one.mp (not_lt.mp htwo) _ (mem_groups.mpr ⟨h0 w hw, w, hw, rfl⟩) _
      (mem_groups.mpr ⟨h0 v hv, v, hv, rfl⟩)
  · rw [committedIndex_false hne]
    exact committedIndex_le hne true

/-- Three voters of which the two furthest ones share a group: the third one's index is committed. -/
theorem committedIndex_groupCommit_three :
    (⟨⟨[1, 2, 3], by decide⟩⟩ : MajorityConfig).committedIndex true
        (fun v => some ⟨10 - v, v / 3 + 1⟩) =
      ⟨min ((⟨⟨[1, 2, 3], by decide⟩⟩ : MajorityConfig).committedIndex false
          (fun v => some ⟨10 - v, v / 3 + 1⟩)).index
        ((⟨⟨[1, 2, 3], by decide⟩⟩ : MajorityConfig).secondGroupMax
          (fun v => some ⟨10 - v, v / 3 + 1⟩)), true⟩ :=
  (committedIndex_groupCommit _ (by decide) _).1 (by decide)

end MajorityConfig

end Raftz
