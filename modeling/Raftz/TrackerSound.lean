import Mathlib.Data.Nat.ModEq
import Raftz.ConfChanger

/-! # Soundness of the progress tracker

What holds of every ring of in-flight messages (`Inflights.Sound`), of every
progress (`Progress.Sound`), of every configuration relative to the peers that
are followed (`TrackerConfiguration.Sound`) and of the tracker as a whole
(`ProgressTracker.Sound`), and that the operations on them keep it. -/

open Base

namespace Raftz

/-! ### Rings of in-flight messages -/

namespace Inflights

variable {f : Inflights} {bound : ℕ}

/-- The `i`-th oldest index in flight. -/
def slot (f : Inflights) (i : ℕ) : ℕ := f.buffer.getD ((f.start + i) % f.capacity) 0

/-- The ring is laid out within its buffer; its indexes increase and stay below `bound`. -/
structure Sound (f : Inflights) (bound : ℕ) : Prop where
  incoming : f.incomingCapacity = none
  count_le : f.count ≤ f.buffer.length
  length_le : f.buffer.length ≤ f.capacity
  layout : f.start + f.count ≤ f.buffer.length ∨ f.buffer.length = f.capacity
  start_lt : f.start < f.capacity ∨ f.start = 0
  increasing : ∀ i, i + 1 < f.count → f.slot i < f.slot (i + 1)
  bounded : ∀ i < f.count, f.slot i < bound

theorem Sound.mono (h : f.Sound bound) {b : ℕ} (hb : bound ≤ b) : f.Sound b :=
  { h with bounded := fun i hi => (h.bounded i hi).trans_le hb }

/-- An empty ring is sound for every bound. -/
theorem sound_empty (capacity : ℕ) : ({ capacity := capacity } : Inflights).Sound bound where
  incoming := rfl
  count_le := le_rfl
  length_le := Nat.zero_le _
  layout := Or.inl le_rfl
  start_lt := Or.inr rfl
  increasing := fun _ hi => absurd hi (Nat.not_lt_zero _)
  bounded := fun _ hi => absurd hi (Nat.not_lt_zero _)

theorem sound_reset (f : Inflights) : f.reset.Sound bound := sound_empty _

/-- The scan stops at an offset `k` within the ring and returns the slot of that offset. -/
theorem freeScan_eq {u : ℕ} (hs : f.start < f.capacity) (n i : ℕ)
    (hi : i + n = f.count) :
    ∃ k, k ≤ f.count ∧ f.freeScan u n i ((f.start + i) % f.capacity) =
      (k, (f.start + k) % f.capacity) := by
  induction n generalizing i with
  | zero => exact ⟨i, by omega, rfl⟩
  | succ n ih =>
      unfold freeScan
      split
      · exact ⟨i, by omega, rfl⟩
      · have hslot : (if f.capacity ≤ (f.start + i) % f.capacity + 1 then
            (f.start + i) % f.capacity + 1 - f.capacity
            else (f.start + i) % f.capacity + 1) = (f.start + (i + 1)) % f.capacity := by
          have hlt := Nat.mod_lt (f.start + i) (by omega : f.capacity > 0)
          rw [← Nat.add_assoc, ← Nat.mod_add_mod (f.start + i)]
          split
          · have : (f.start + i) % f.capacity + 1 = f.capacity := by omega
            rw [this, Nat.mod_self, Nat.sub_self]
          · rw [Nat.mod_eq_of_lt (by omega : (f.start + i) % f.capacity + 1 < f.capacity)]
        rw [hslot]
        exact ih (i + 1) (by omega)

/-- Dropping the `k` oldest indexes. -/
theorem Sound.advance (h : f.Sound bound) {k : ℕ} (hs : f.start < f.capacity) (hk : k ≤ f.count) :
    ({ f with count := f.count - k, start := (f.start + k) % f.capacity } : Inflights).Sound
      bound := by
  have hat : ∀ i, ({ f with count := f.count - k, start := (f.start + k) % f.capacity } :
      Inflights).slot i = f.slot (k + i) := by
    intro i
    show f.buffer.getD (((f.start + k) % f.capacity + i) % f.capacity) 0 = _
    unfold slot
    rw [Nat.mod_add_mod, Nat.add_assoc]
  exact {
    incoming := h.incoming
    count_le := (Nat.sub_le _ _).trans h.count_le
    length_le := h.length_le
    layout := by
      rcases h.layout with hl | hl
      · left
        have hlen := h.length_le
        have : (f.start + k) % f.capacity ≤ f.start + k := Nat.mod_le _ _
        show (f.start + k) % f.capacity + (f.count - k) ≤ f.buffer.length
        omega
      · exact Or.inr hl
    start_lt := Or.inl (Nat.mod_lt _ (by omega))
    increasing := by
      intro i hi
      have hi : i + 1 < f.count - k := hi
      rw [hat, hat]
      exact h.increasing (k + i) (by omega)
    bounded := by
      intro i hi
      have hi : i < f.count - k := hi
      rw [hat]
      exact h.bounded (k + i) (by omega) }

theorem Sound.freeTo (h : f.Sound bound) (upTo : ℕ) : (f.freeTo upTo).Sound bound := by
  unfold Inflights.freeTo
  split
  · exact h
  · rename_i hne
    have hpos : f.count ≠ 0 := fun h0 => hne (Or.inl h0)
    have hcap := h.count_le.trans h.length_le
    have hs : f.start < f.capacity := by
      rcases h.start_lt with hs | hs <;> omega
    obtain ⟨k, hk, hscan⟩ := freeScan_eq (u := upTo) hs f.count 0 (by omega)
    rw [Nat.add_zero, Nat.mod_eq_of_lt hs] at hscan
    dsimp only
    rw [hscan]
    split
    · rename_i hz
      have hz : f.count - k = 0 := hz
      have hadv := h.advance hs hk
      rw [hz] at hadv
      rw [h.incoming] at hadv ⊢
      exact hadv
    · exact h.advance hs hk

theorem Sound.freeFirstOne (h : f.Sound bound) : f.freeFirstOne.Sound bound := by
  unfold Inflights.freeFirstOne
  split
  · exact h.freeTo _
  · exact h

theorem freeTo_count_le (f : Inflights) (upTo : ℕ) : (f.freeTo upTo).count ≤ f.count := by
  unfold freeTo
  split
  · exact le_rfl
  · dsimp only
    split
    · split <;> exact Nat.zero_le _
    · exact Nat.sub_le _ _

/-- `g` holds one index more than `f`: the youngest. -/
structure Pushed (f g : Inflights) (i : ℕ) : Prop where
  count : g.count = f.count + 1
  old : ∀ j < f.count, g.slot j = f.slot j
  youngest : g.slot f.count = i

namespace Pushed

variable {g : Inflights} {i : ℕ}

theorem increasing (hp : Pushed f g i) (h : f.Sound bound) (hi : bound ≤ i) (j : ℕ)
    (hj : j + 1 < g.count) : g.slot j < g.slot (j + 1) := by
  rw [hp.count] at hj
  rcases Nat.lt_or_ge (j + 1) f.count with hj' | hj'
  · rw [hp.old j (by omega), hp.old (j + 1) hj']
    exact h.increasing j hj'
  · have hjc : j + 1 = f.count := by omega
    rw [hjc, hp.youngest, hp.old j (by omega)]
    exact (h.bounded j (by omega)).trans_le hi

theorem bounded (hp : Pushed f g i) (h : f.Sound bound) (hi : bound ≤ i) (j : ℕ) (hj : j < g.count) :
    g.slot j < i + 1 := by
  rw [hp.count] at hj
  rcases Nat.lt_or_ge j f.count with hj' | hj'
  · rw [hp.old j hj']
    have := h.bounded j hj'
    omega
  · have hjc : j = f.count := by omega
    rw [hjc, hp.youngest]
    omega

end Pushed

/-- No slot in use is the next one. -/
theorem slot_ne_next (hc : f.count < f.capacity) {j : ℕ} (hj : j < f.count) :
    (f.start + j) % f.capacity ≠ (f.start + f.count) % f.capacity := by
  intro heq
  have hd : f.capacity ∣ f.start + f.count - (f.start + j) :=
    (Nat.modEq_iff_dvd' (by omega)).mp heq
  have := Nat.le_of_dvd (by omega) hd
  omega

/-- The buffer grows. -/
theorem pushed_append (hlt : f.buffer.length < f.capacity) (hnext : f.start + f.count = f.buffer.length)
    (i : ℕ) : Pushed f { f with buffer := f.buffer ++ [i], allocated := true, count := f.count + 1 } i where
  count := rfl
  old := by
    intro j hj
    unfold slot
    dsimp only
    rw [Nat.mod_eq_of_lt (by omega), List.getD_append _ _ _ _ (by omega)]
  youngest := by
    unfold slot
    dsimp only
    rw [hnext, Nat.mod_eq_of_lt hlt, List.getD_append_right _ _ _ _ le_rfl, Nat.sub_self]
    rfl

/-- A freed slot is used again. -/
theorem pushed_set (hc : f.count < f.capacity) (hlt : (f.start + f.count) % f.capacity < f.buffer.length)
    (i : ℕ) : Pushed f { f with
      buffer := f.buffer.set ((f.start + f.count) % f.capacity) i, allocated := true
      count := f.count + 1 } i where
  count := rfl
  old := by
    intro j hj
    unfold slot
    dsimp only
    rw [List.getD_eq_getElem?_getD, List.getElem?_set_ne (slot_ne_next hc hj).symm,
      List.getD_eq_getElem?_getD]
  youngest := by
    unfold slot
    dsimp only
    rw [List.getD_eq_getElem?_getD, List.getElem?_set_self hlt]
    rfl

theorem Sound.grow (h : f.Sound bound) {i : ℕ} (hi : bound ≤ i) (hs : f.start < f.capacity)
    (hlt : f.buffer.length < f.capacity) (hnext : f.start + f.count = f.buffer.length) :
    ({ f with buffer := f.buffer ++ [i], allocated := true, count := f.count + 1 } : Inflights).Sound (i + 1) where
  incoming := h.incoming
  count_le := by
    rw [List.length_append, List.length_singleton]
    exact Nat.succ_le_succ h.count_le
  length_le := by
    rw [List.length_append, List.length_singleton]
    exact hlt
  layout := by
    rw [List.length_append, List.length_singleton]
    dsimp only
    omega
  start_lt := Or.inl hs
  increasing := (pushed_append hlt hnext i).increasing h hi
  bounded := (pushed_append hlt hnext i).bounded h hi

theorem Sound.reuse (h : f.Sound bound) {i : ℕ} (hi : bound ≤ i) (hs : f.start < f.capacity)
    (hc : f.count < f.capacity) (hlt : (f.start + f.count) % f.capacity < f.buffer.length) :
    ({ f with
      buffer := f.buffer.set ((f.start + f.count) % f.capacity) i, allocated := true
      count := f.count + 1 } : Inflights).Sound (i + 1) := by
  have hroom : f.start + f.count + 1 ≤ f.buffer.length ∨ f.buffer.length = f.capacity := by
    rcases h.layout with hl | hl
    · have := h.length_le
      rcases Nat.lt_or_ge (f.start + f.count) f.capacity with hn | hn
      · rw [Nat.mod_eq_of_lt hn] at hlt
        omega
      · omega
    · exact Or.inr hl
  exact {
    incoming := h.incoming
    count_le := by
      rw [List.length_set]
      dsimp only
      omega
    length_le := by
      rw [List.length_set]
      exact h.length_le
    layout := by
      rw [List.length_set]
      exact hroom
    start_lt := Or.inl hs
    increasing := (pushed_set hc hlt i).increasing h hi
    bounded := (pushed_set hc hlt i).bounded h hi }

/-- A new index at or above the bound is the youngest. -/
theorem Sound.add (h : f.Sound bound) {i : ℕ} {g : Inflights} (hg : f.add i = some g)
    (hi : bound ≤ i) : g.Sound (i + 1) := by
  have hcl := h.count_le
  have hll := h.length_le
  unfold Inflights.add at hg
  split at hg
  · cases hg
  · rename_i hfull
    split at hg
    · cases hg
    · have hcount : f.count ≠ f.capacity := by
        intro hc
        apply hfull
        unfold full
        rw [hc, beq_self_eq_true]
        rfl
      have hc : f.count < f.capacity := by omega
      have hs : f.start < f.capacity := by
        rcases h.start_lt with hs | hs <;> omega
      have hnext : (if f.capacity ≤ f.start + f.count then f.start + f.count - f.capacity
          else f.start + f.count) = (f.start + f.count) % f.capacity := by
        split
        · rw [Nat.mod_eq_sub_mod (by omega), Nat.mod_eq_of_lt (by omega)]
        · rw [Nat.mod_eq_of_lt (by omega)]
      have hnlt := Nat.mod_lt (f.start + f.count) (by omega : f.capacity > 0)
      dsimp only at hg
      rw [hnext] at hg
      split at hg
      · cases hg
      · split at hg
        · rename_i heq
          cases hg
          have hlt : f.buffer.length < f.capacity := by omega
          have hlay : f.start + f.count ≤ f.buffer.length := by
            rcases h.layout with hl | hl <;> omega
          rw [Nat.mod_eq_of_lt (by omega)] at heq
          exact h.grow hi hs hlt heq
        · cases hg
          exact h.reuse hi hs hc (by omega)

end Inflights

/-! ### Progress -/

namespace Progress

variable {p : Progress}

/-- The next index follows the match, and only a streaming peer has messages in flight. -/
structure Sound (p : Progress) : Prop where
  next_pos : 0 < p.nextIdx
  next_gt : p.state ≠ .snapshot → p.matched < p.nextIdx
  inflights : p.inflights.Sound p.nextIdx
  idle : p.state ≠ .replicate → p.inflights.count = 0

theorem sound_init {nextIdx : ℕ} (h : 0 < nextIdx) (maxInflight : ℕ) :
    (init nextIdx maxInflight).Sound where
  next_pos := h
  next_gt := fun _ => h
  inflights := Inflights.sound_empty _
  idle := fun _ => rfl

theorem sound_reset (p : Progress) (lastIndex : ℕ) : (p.reset (lastIndex + 1)).Sound where
  next_pos := Nat.succ_pos _
  next_gt := fun _ => Nat.succ_pos _
  inflights := Inflights.sound_reset _
  idle := fun _ => rfl

theorem sound_becomeReplicate (p : Progress) : p.becomeReplicate.Sound where
  next_pos := Nat.succ_pos _
  next_gt := fun _ => Nat.lt_succ_self _
  inflights := Inflights.sound_reset _
  idle := fun _ => rfl

theorem sound_becomeProbe (p : Progress) : p.becomeProbe.Sound := by
  unfold becomeProbe
  split
  · exact {
      next_pos := by
        dsimp only
        omega
      next_gt := fun _ => by
        show p.matched < max (p.matched + 1) (p.pendingSnapshot + 1)
        omega
      inflights := Inflights.sound_reset _
      idle := fun _ => rfl }
  · exact {
      next_pos := Nat.succ_pos _
      next_gt := fun _ => Nat.lt_succ_self _
      inflights := Inflights.sound_reset _
      idle := fun _ => rfl }

theorem Sound.becomeSnapshot (h : p.Sound) (i : ℕ) : (p.becomeSnapshot i).Sound where
  next_pos := h.next_pos
  next_gt := fun hs => absurd rfl hs
  inflights := Inflights.sound_reset _
  idle := fun _ => rfl

/-- Flags and the peer's commit index do not matter. -/
theorem Sound.of_eq {q : Progress} (h : p.Sound) (hm : q.matched = p.matched)
    (hn : q.nextIdx = p.nextIdx) (hs : q.state = p.state) (hi : q.inflights = p.inflights) :
    q.Sound where
  next_pos := hn ▸ h.next_pos
  next_gt := by
    rw [hm, hn, hs]
    exact h.next_gt
  inflights := by
    rw [hi, hn]
    exact h.inflights
  idle := by
    rw [hi, hs]
    exact h.idle

theorem Sound.updateCommitted (h : p.Sound) (i : ℕ) : (p.updateCommitted i).Sound := by
  unfold Progress.updateCommitted
  split
  · exact h.of_eq rfl rfl rfl rfl
  · exact h

theorem Sound.maybeUpdate (h : p.Sound) (n : ℕ) : (p.maybeUpdate n).1.Sound := by
  have hq : ∀ q : Progress, q.inflights = p.inflights → q.state = p.state →
      q.nextIdx = p.nextIdx → (q.matched = n ∨ q.matched = p.matched) →
      (if q.nextIdx < n + 1 then { q with nextIdx := n + 1 } else q).Sound := by
    intro q hi hs hn hm
    have hnext := h.next_pos
    split
    · exact {
        next_pos := Nat.succ_pos _
        next_gt := fun hst => by
          have := h.next_gt (hs ▸ hst)
          show q.matched < n + 1
          omega
        inflights := by
          show q.inflights.Sound (n + 1)
          rw [hi]
          exact h.inflights.mono (by omega)
        idle := by
          show q.state ≠ .replicate → q.inflights.count = 0
          rw [hi, hs]
          exact h.idle }
    · exact {
        next_pos := by omega
        next_gt := fun hst => by
          have := h.next_gt (hs ▸ hst)
          omega
        inflights := by
          rw [hi, hn]
          exact h.inflights
        idle := by
          rw [hi, hs]
          exact h.idle }
  unfold Progress.maybeUpdate
  dsimp only
  split
  · exact hq _ rfl rfl rfl (Or.inl rfl)
  · exact hq _ rfl rfl rfl (Or.inr rfl)

/-- Entries are sent from the next index on. -/
theorem Sound.updateState (h : p.Sound) {q : Progress} {last : ℕ} (hq : p.updateState last = some q)
    (hl : p.nextIdx ≤ last) : q.Sound := by
  unfold Progress.updateState at hq
  split at hq
  · cases hq
    exact h.of_eq rfl rfl rfl rfl
  · rename_i hs
    split at hq
    · rename_i f hf
      cases hq
      exact {
        next_pos := Nat.succ_pos _
        next_gt := fun _ => by
          have := h.next_gt (by rw [hs]; simp)
          show p.matched < last + 1
          omega
        inflights := h.inflights.add hf hl
        idle := fun hne => absurd hs hne }
    · cases hq
  · cases hq

theorem Sound.freeTo (h : p.Sound) (i : ℕ) :
    ({ p with inflights := p.inflights.freeTo i } : Progress).Sound where
  next_pos := h.next_pos
  next_gt := h.next_gt
  inflights := h.inflights.freeTo i
  idle := fun hs => Nat.le_zero.mp ((Inflights.freeTo_count_le _ _).trans (h.idle hs).le)

theorem Sound.freeFirstOne (h : p.Sound) :
    ({ p with inflights := p.inflights.freeFirstOne } : Progress).Sound := by
  unfold Inflights.freeFirstOne
  split
  · exact h.freeTo _
  · exact h

/-- A rejection leaves a sound progress, after the change to probing that follows it. -/
theorem Sound.maybeDecTo (h : p.Sound) (rejected hint snap : ℕ) :
    ((p.maybeDecTo rejected hint snap).2 = false → (p.maybeDecTo rejected hint snap).1.Sound) ∧
      ((p.maybeDecTo rejected hint snap).1.state ≠ .replicate →
        (p.maybeDecTo rejected hint snap).1.Sound) := by
  unfold Progress.maybeDecTo
  split
  · rename_i hs
    split
    · exact ⟨fun _ => h, fun _ => h⟩
    · split
      · exact ⟨fun hf => (by cases hf), fun hn => absurd hs hn⟩
      · exact ⟨fun hf => (by cases hf), fun hn => absurd hs hn⟩
  · rename_i hs
    split
    · exact ⟨fun _ => h, fun _ => h⟩
    · split
      · refine ⟨fun hf => (by cases hf), fun _ => ?_⟩
        have hempty := h.idle hs
        exact {
          next_pos := by
            dsimp only
            omega
          next_gt := fun _ => by
            dsimp only
            omega
          inflights := { h.inflights with
            bounded := fun i hi => by
              have hi : i < p.inflights.count := hi
              omega }
          idle := fun _ => hempty }
      · split
        · exact ⟨fun hf => (by cases hf), fun _ => h.of_eq rfl rfl rfl rfl⟩
        · exact ⟨fun hf => (by cases hf), fun _ => h.of_eq rfl rfl rfl rfl⟩

end Progress

/-! ### Configurations -/

/-- Every member is followed, nobody else is, and a learner is not a voter; a staged learner is
an outgoing voter that neither votes in the incoming half nor learns already. -/
structure TrackerConfiguration.Sound (c : TrackerConfiguration) (known : ℕ → Bool) : Prop where
  incoming : ∀ id ∈ c.voters.incoming.voters, known id = true
  outgoing : ∀ id ∈ c.voters.outgoing.voters, known id = true
  learners : ∀ id ∈ c.learners, known id = true ∧ id ∉ c.voters.incoming.voters ∧
    id ∉ c.voters.outgoing.voters
  learnersNext : ∀ id ∈ c.learnersNext, known id = true ∧ id ∈ c.voters.outgoing.voters ∧
    id ∉ c.voters.incoming.voters ∧ id ∉ c.learners
  known : ∀ id, known id = true → id ∈ c.voters.incoming.voters ∨ id ∈ c.voters.outgoing.voters ∨
    id ∈ c.learners ∨ id ∈ c.learnersNext

/-- Outside a joint configuration nothing is staged. -/
def TrackerConfiguration.Plain (c : TrackerConfiguration) : Prop :=
  joint c = false → c.learnersNext.count = 0 ∧ c.autoLeave = false

theorem checkInvariants_plain {c : TrackerConfiguration} {prs : IncrChangeMap}
    (h : checkInvariants c prs = .ok ()) : c.Plain := by
  unfold checkInvariants at h
  intro hj
  split at h
  · cases h
  · split at h
    · cases h
    · split at h
      · cases h
      · split at h
        · cases h
        · split at h
          · cases h
          · rename_i h1 h2
            refine ⟨?_, ?_⟩
            · by_contra hc
              exact h1 ⟨hj, hc⟩
            · by_contra hc
              exact h2 ⟨hj, by simpa using hc⟩

namespace IncrChangeMap

theorem contains_appendChange (m : IncrChangeMap) (id : ℕ) (k : MapChangeKind) (j : ℕ) :
    (m.appendChange id k).contains j = if j = id then k == .add else m.contains j := by
  unfold contains appendChange
  dsimp only
  rw [List.reverse_append, List.reverse_singleton, List.singleton_append, List.find?_cons]
  by_cases h : j = id
  · subst h
    simp
  · rw [if_neg h, beq_eq_false_iff_ne.mpr (Ne.symm h)]

end IncrChangeMap

namespace ConfChanger

/-- The working copy of a change is sound. -/
def CopySound (p : CheckAndCopyResult) : Prop := p.cfg.Sound p.prs.contains

variable {p : CheckAndCopyResult}

theorem contains_voters (c : MajorityConfig) (id : ℕ) : c.contains id = true ↔ id ∈ c.voters := by
  unfold MajorityConfig.contains
  exact decide_eq_true_iff

theorem CopySound.makeVoter (h : CopySound p) (id : ℕ) : CopySound (makeVoter p id) := by
  obtain ⟨h1, h2, h3, h4, h5⟩ := h
  unfold ConfChanger.makeVoter initProgress
  split
  · constructor <;>
      simp only [if_true, MajorityConfig.add, IncrChangeMap.contains_appendChange,
        IdSet.mem_add] <;> grind
  · constructor <;> simp only [MajorityConfig.add, IdSet.mem_add, IdSet.mem_remove] <;> grind

theorem CopySound.makeLearner (h : CopySound p) (id : ℕ) : CopySound (makeLearner p id) := by
  have hs := h
  obtain ⟨h1, h2, h3, h4, h5⟩ := h
  unfold ConfChanger.makeLearner initProgress
  split
  · constructor <;>
      simp only [Bool.true_eq_false, if_false, IncrChangeMap.contains_appendChange,
        IdSet.mem_add] <;> grind
  · split
    · exact hs
    · split
      · rename_i hout
        rw [contains_voters] at hout
        constructor <;> simp only [MajorityConfig.remove, IdSet.mem_add, IdSet.mem_remove] <;> grind
      · rename_i hout
        rw [contains_voters] at hout
        constructor <;> simp only [MajorityConfig.remove, IdSet.mem_add, IdSet.mem_remove] <;> grind

theorem CopySound.remove (h : CopySound p) (id : ℕ) : CopySound (remove p id) := by
  have hs := h
  obtain ⟨h1, h2, h3, h4, h5⟩ := h
  unfold ConfChanger.remove
  split
  · exact hs
  · dsimp only
    split
    · rename_i hout
      rw [contains_voters] at hout
      constructor <;> simp only [MajorityConfig.remove, IdSet.mem_remove] <;> grind
    · rename_i hout
      rw [contains_voters] at hout
      constructor <;>
        simp only [MajorityConfig.remove, IncrChangeMap.contains_appendChange, IdSet.mem_remove] <;>
        grind

theorem CopySound.applyChange (h : CopySound p) (cc : ConfChangeSingle) :
    CopySound (applyChange p cc) := by
  unfold ConfChanger.applyChange
  split
  · exact h
  · cases cc.changeType with
    | addNode => exact h.makeVoter _
    | removeNode => exact h.remove _
    | addLearnerNode => exact h.makeLearner _
    | updateNode => exact h

theorem CopySound.foldl (h : CopySound p) (ccs : List ConfChangeSingle) :
    CopySound (ccs.foldl ConfChanger.applyChange p) := by
  induction ccs generalizing p with
  | nil => exact h
  | cons cc ccs ih => exact ih (h.applyChange cc)

theorem CopySound.applyChanges (h : CopySound p) {ccs : List ConfChangeSingle}
    {q : CheckAndCopyResult} (hq : applyChanges p ccs = .ok q) : CopySound q := by
  unfold ConfChanger.applyChanges at hq
  dsimp only at hq
  split at hq
  · cases hq
  · cases hq
    exact h.foldl ccs

end ConfChanger

/-! ### The tracker -/

/-- Configuration and progress map fit together. -/
structure ProgressTracker.Fits (t : ProgressTracker) : Prop where
  conf : t.conf.Sound t.contains
  plain : t.conf.Plain

/-- Configuration and progress map fit together, and every progress is sound. -/
structure ProgressTracker.Sound (t : ProgressTracker) : Prop where
  conf : t.conf.Sound t.contains
  plain : t.conf.Plain
  progress : ∀ id p, t.get id = some p → p.Sound

namespace ProgressTracker

variable {t : ProgressTracker}

theorem contains_iff_get {id : ℕ} : t.contains id = true ↔ ∃ p, t.get id = some p := by
  unfold contains get
  rw [decide_eq_true_iff, ← AList.lookup_isSome, Option.isSome_iff_exists]

theorem contains_set (id : ℕ) (p : Progress) {q : Progress} (h : t.get id = some q) :
    (t.set id p).contains = t.contains := by
  funext j
  rw [Bool.eq_iff_iff, contains_iff_get, contains_iff_get, get_set]
  by_cases hj : j = id
  · subst hj
    rw [if_pos rfl]
    exact ⟨fun _ => ⟨q, h⟩, fun _ => ⟨p, rfl⟩⟩
  · rw [if_neg hj]

theorem Sound.set (h : t.Sound) {id : ℕ} {p q : Progress} (hq : t.get id = some q)
    (hp : p.Sound) : (t.set id p).Sound where
  conf := by
    rw [contains_set id p hq]
    exact h.conf
  plain := h.plain
  progress := by
    intro j p' hj
    rw [get_set] at hj
    split at hj
    · cases hj
      exact hp
    · exact h.progress j p' hj

/-- Votes and the list of peers do not matter. -/
theorem Sound.of_eq {u : ProgressTracker} (h : t.Sound) (hp : u.progress = t.progress)
    (hc : u.conf = t.conf) : u.Sound where
  conf := by
    have : u.contains = t.contains := by
      funext j
      unfold contains
      rw [hp]
    rw [hc, this]
    exact h.conf
  plain := by
    rw [hc]
    exact h.plain
  progress := by
    unfold get
    rw [hp]
    exact h.progress

/-- Updating every progress keeps the configuration sound. -/
theorem Sound.mapVals (h : t.Sound) {f : ℕ → Progress → Progress} {u : ProgressTracker}
    (hu : u.progress = Base.mapVals f t.progress) (hc : u.conf = t.conf)
    (hf : ∀ id p, t.get id = some p → (f id p).Sound) : u.Sound where
  conf := by
    have : u.contains = t.contains := by
      funext j
      unfold contains
      rw [hu]
      simp only [mem_mapVals]
    rw [hc, this]
    exact h.conf
  plain := by
    rw [hc]
    exact h.plain
  progress := by
    intro id p hp
    unfold get at hp
    rw [hu, lookup_mapVals, Option.map_eq_some_iff] at hp
    obtain ⟨q, hq, rfl⟩ := hp
    exact hf id q hq

theorem mem_applyChange {maxInflight nextIdx : ℕ} {m : ProgressMap} {c : MapChangeEntry} {id : ℕ} :
    id ∈ applyChange maxInflight nextIdx m c ↔
      (id = c.id ∧ c.kind = .add) ∨ (id ≠ c.id ∧ id ∈ m) := by
  unfold applyChange
  split
  · rename_i hk
    rw [AList.mem_insert]
    by_cases h : id = c.id <;> simp [h, hk]
  · rename_i hk
    rw [AList.mem_erase]
    by_cases h : id = c.id <;> simp [h, hk]

theorem foldl_applyChange_contains (base : ProgressMap) (maxInflight nextIdx : ℕ)
    (changes : List MapChangeEntry) (id : ℕ) :
    decide (id ∈ changes.foldl (applyChange maxInflight nextIdx) base) =
      IncrChangeMap.contains ⟨base, changes⟩ id := by
  induction changes using List.reverseRecOn with
  | nil => rfl
  | append_singleton changes c ih =>
      have happ := IncrChangeMap.contains_appendChange ⟨base, changes⟩ c.id c.kind id
      unfold IncrChangeMap.appendChange at happ
      rw [show (⟨base, changes ++ [c]⟩ : IncrChangeMap).contains id = _ from happ, ← ih,
        List.foldl_append]
      show decide (id ∈ applyChange maxInflight nextIdx _ c) = _
      simp only [mem_applyChange]
      by_cases h : id = c.id <;> cases hk : c.kind <;> simp [h]

/-- A property of every progress is kept by edits when a fresh progress has it. -/
theorem foldl_applyChange_forall {P : ℕ → Progress → Prop} {base : ProgressMap}
    {maxInflight nextIdx : ℕ} (hb : ∀ id p, base.lookup id = some p → P id p)
    (hinit : ∀ id, P id { Progress.init nextIdx maxInflight with recentActive := true })
    (changes : List MapChangeEntry) (id : ℕ) (p : Progress)
    (h : (changes.foldl (applyChange maxInflight nextIdx) base).lookup id = some p) : P id p := by
  induction changes generalizing base with
  | nil => exact hb id p h
  | cons c changes ih =>
      refine ih ?_ h
      intro j q hj
      unfold applyChange at hj
      cases hk : c.kind with
      | add =>
          rw [hk] at hj
          dsimp only at hj
          rw [lookup_insert_eq] at hj
          split at hj
          · cases hj
            exact hinit j
          · exact hb j q hj
      | remove =>
          rw [hk] at hj
          dsimp only at hj
          by_cases he : j = c.id
          · subst he
            rw [AList.lookup_erase] at hj
            cases hj
          · rw [AList.lookup_erase_ne he] at hj
            exact hb j q hj

theorem applyConf_forall {P : ℕ → Progress → Prop} (ht : ∀ id p, t.get id = some p → P id p)
    (conf : TrackerConfiguration) (changes : List MapChangeEntry) {nextIdx : ℕ}
    (hinit : ∀ id, P id { Progress.init nextIdx t.maxInflight with recentActive := true }) :
    ∀ id p, (t.applyConf conf changes nextIdx).get id = some p → P id p :=
  foldl_applyChange_forall ht hinit changes

theorem Sound.fits (h : t.Sound) : t.Fits := ⟨h.conf, h.plain⟩

/-- A configuration that fits its edits fits the tracker they are installed in. -/
theorem fits_applyConf {conf : TrackerConfiguration} {changes : List MapChangeEntry}
    (hc : conf.Sound (IncrChangeMap.contains ⟨t.progress, changes⟩)) (hp : conf.Plain) (nextIdx : ℕ) :
    (t.applyConf conf changes nextIdx).Fits where
  conf := by
    have : (t.applyConf conf changes nextIdx).contains =
        IncrChangeMap.contains ⟨t.progress, changes⟩ := by
      funext id
      exact foldl_applyChange_contains t.progress t.maxInflight nextIdx changes id
    rw [this]
    exact hc
  plain := hp

/-- Installing a sound working copy gives a sound tracker. -/
theorem Sound.applyConf (h : t.Sound) {conf : TrackerConfiguration} {changes : List MapChangeEntry}
    {nextIdx : ℕ} (hc : conf.Sound (IncrChangeMap.contains ⟨t.progress, changes⟩))
    (hp : conf.Plain) (hn : 0 < nextIdx) : (t.applyConf conf changes nextIdx).Sound where
  conf := (fits_applyConf hc hp nextIdx).conf
  plain := hp
  progress := applyConf_forall h.progress conf changes
    fun _ => (Progress.sound_init hn t.maxInflight).of_eq rfl rfl rfl rfl

theorem sound_init (maxInflight : ℕ) : (init maxInflight).Sound where
  conf := by
    constructor <;> intro id hid
    · exact absurd hid (IdSet.not_mem_empty id)
    · exact absurd hid (IdSet.not_mem_empty id)
    · exact absurd hid (IdSet.not_mem_empty id)
    · exact absurd hid (IdSet.not_mem_empty id)
    · exact absurd (of_decide_eq_true hid) (AList.notMem_empty id)
  plain := fun _ => ⟨rfl, rfl⟩
  progress := by
    intro id p hp
    exact absurd hp (by unfold get init; simp)

end ProgressTracker

/-! ### Changes of the configuration -/

namespace ConfChanger

variable {t : ProgressTracker}

/-- The result of a change can be installed. -/
def ResultSound (t : ProgressTracker) (r : ConfChangeResult) : Prop :=
  r.conf.Sound (IncrChangeMap.contains ⟨t.progress, r.changes⟩) ∧ r.conf.Plain

/-- Working copies keep the progress map they start from. -/
theorem foldl_applyChange_base (ccs : List ConfChangeSingle) (p : CheckAndCopyResult) :
    (ccs.foldl applyChange p).prs.base = p.prs.base := by
  induction ccs generalizing p with
  | nil => rfl
  | cons cc ccs ih =>
      rw [List.foldl_cons, ih]
      unfold applyChange
      split
      · rfl
      · cases cc.changeType with
        | addNode =>
            dsimp only
            unfold makeVoter initProgress
            split <;> rfl
        | removeNode =>
            dsimp only
            unfold remove
            split
            · rfl
            · dsimp only
              split <;> rfl
        | addLearnerNode =>
            dsimp only
            unfold makeLearner initProgress
            split
            · rfl
            · split
              · rfl
              · split <;> rfl
        | updateNode => rfl

theorem applyChanges_base {p q : CheckAndCopyResult} {ccs : List ConfChangeSingle}
    (h : applyChanges p ccs = .ok q) : q.prs.base = p.prs.base := by
  unfold applyChanges at h
  dsimp only at h
  split at h
  · cases h
  · cases h
    exact foldl_applyChange_base ccs p

theorem resultSound_of_copy {q : CheckAndCopyResult} (hq : CopySound q)
    (hb : q.prs.base = t.progress) (hi : checkInvariants q.cfg q.prs = .ok ()) :
    ResultSound t (finalize q) := by
  refine ⟨?_, checkInvariants_plain hi⟩
  obtain ⟨cfg, ⟨base, changes⟩⟩ := q
  cases hb
  exact hq

theorem simple_sound (h : t.Fits) {ccs : List ConfChangeSingle} {r : ConfChangeResult}
    (hr : simple t ccs = .ok r) : ResultSound t r := by
  unfold simple at hr
  obtain ⟨_, _, hr⟩ := bind_eq_ok.mp hr
  obtain ⟨p, hp, hr⟩ := bind_eq_ok.mp hr
  obtain ⟨q, hq, hr⟩ := bind_eq_ok.mp hr
  obtain ⟨_, _, hr⟩ := bind_eq_ok.mp hr
  obtain ⟨⟨⟩, hi, hr⟩ := bind_eq_ok.mp hr
  cases hr
  have hp := checkAndCopy_ok hp
  subst hp
  have hcopy : CopySound ⟨t.conf, { base := t.progress }⟩ := h.conf
  exact resultSound_of_copy (hcopy.applyChanges hq) (applyChanges_base hq) hi

/-- The working copy of a change that enters a joint configuration: the outgoing half starts as a
copy of the incoming one, which no learner belongs to. -/
theorem copySound_enter (h : t.Fits) (hj : joint t.conf = false) :
    CopySound ⟨{ t.conf with voters := { t.conf.voters with
      outgoing := ⟨t.conf.voters.outgoing.voters.addAll t.conf.voters.incoming.voters.ids⟩ } },
      { base := t.progress }⟩ := by
  have hempty : ∀ id, id ∉ t.conf.voters.outgoing.voters := by
    unfold joint MajorityConfig.isEmpty at hj
    exact IdSet.isEmpty_iff.mp (by simpa using hj)
  have hnext : ∀ id, id ∉ t.conf.learnersNext := by
    have hc := (h.plain hj).1
    unfold IdSet.count at hc
    intro id hid
    rw [List.length_eq_zero_iff] at hc
    rw [IdSet.mem_def, hc] at hid
    exact absurd hid List.not_mem_nil
  obtain ⟨h1, h2, h3, h4, h5⟩ := h.conf
  have hcon : ∀ id, IncrChangeMap.contains { base := t.progress } id = t.contains id :=
    fun id => rfl
  constructor <;> simp only [IdSet.mem_addAll, hcon, ← IdSet.mem_def] <;> grind

theorem enterJoint_sound (h : t.Fits) {autoLeave : Bool} {ccs : List ConfChangeSingle}
    {r : ConfChangeResult} (hr : enterJoint t autoLeave ccs = .ok r) : ResultSound t r := by
  unfold enterJoint at hr
  obtain ⟨_, hj, hr⟩ := bind_eq_ok.mp hr
  have hj := ensure_eq_ok.mp hj
  obtain ⟨p, hp, hr⟩ := bind_eq_ok.mp hr
  have hp := checkAndCopy_ok hp
  subst hp
  obtain ⟨_, _, hr⟩ := bind_eq_ok.mp hr
  obtain ⟨q, hq, hr⟩ := bind_eq_ok.mp hr
  obtain ⟨⟨⟩, hi, hr⟩ := bind_eq_ok.mp hr
  cases hr
  have hq' := (copySound_enter h hj).applyChanges hq
  refine resultSound_of_copy (q := { q with cfg := { q.cfg with autoLeave := autoLeave } }) ?_
    (applyChanges_base hq) hi
  obtain ⟨h1, h2, h3, h4, h5⟩ := hq'
  exact ⟨h1, h2, h3, h4, h5⟩

theorem foldl_remove_contains (l : List ℕ) (prs : IncrChangeMap) (id : ℕ) :
    (l.foldl (fun prs id => prs.appendChange id .remove) prs).contains id =
      (decide (id ∉ l) && prs.contains id) := by
  induction l generalizing prs with
  | nil => simp
  | cons a l ih =>
      rw [List.foldl_cons, ih, IncrChangeMap.contains_appendChange]
      by_cases h : id = a <;> simp [h]

theorem foldl_remove_base (l : List ℕ) (prs : IncrChangeMap) :
    (l.foldl (fun prs id => prs.appendChange id .remove) prs).base = prs.base := by
  induction l generalizing prs with
  | nil => rfl
  | cons a l ih => rw [List.foldl_cons, ih]; rfl

theorem leaveJoint_sound (h : t.Fits) {r : ConfChangeResult} (hr : leaveJoint t = .ok r) :
    ResultSound t r := by
  unfold leaveJoint at hr
  obtain ⟨_, _, hr⟩ := bind_eq_ok.mp hr
  obtain ⟨p, hp, hr⟩ := bind_eq_ok.mp hr
  have hp := checkAndCopy_ok hp
  subst hp
  obtain ⟨⟨⟩, hi, hr⟩ := bind_eq_ok.mp hr
  cases hr
  refine resultSound_of_copy ?_ (foldl_remove_base _ _) hi
  obtain ⟨h1, h2, h3, h4, h5⟩ := h.conf
  have hcon : ∀ id, IncrChangeMap.contains { base := t.progress } id = t.contains id :=
    fun id => rfl
  have hout : ∀ id, id ∉ ({} : MajorityConfig).voters := IdSet.not_mem_empty
  unfold CopySound leavers
  constructor <;>
    simp only [IdSet.mem_addAll, foldl_remove_contains, hcon, List.mem_filter, ← IdSet.mem_def,
      Bool.and_eq_true, decide_eq_true_iff, Bool.not_eq_true', ← Bool.not_eq_true,
      contains_voters, IdSet.not_mem_empty] <;> grind

/-- Every change of a tracker that fits its configuration can be installed. -/
theorem changeConf_sound (h : t.Fits) {cc : ConfChangeV2} {r : ConfChangeResult}
    (hr : changeConf t cc = .ok r) : ResultSound t r := by
  unfold changeConf at hr
  split at hr
  · exact leaveJoint_sound h hr
  · split at hr
    · exact enterJoint_sound h hr
    · exact simple_sound h hr

end ConfChanger

/-! ### Restored configurations -/

namespace ConfRestore

variable {t u : ProgressTracker} {nextIdx : ℕ}

theorem applySingly_sound {p q : CheckAndCopyResult} (ccs : List ConfChangeSingle)
    (h : ConfChanger.CopySound p) (hq : applySingly p ccs = .ok q) :
    ConfChanger.CopySound q ∧ q.prs.base = p.prs.base := by
  induction ccs generalizing p with
  | nil =>
      cases hq
      exact ⟨h, rfl⟩
  | cons cc ccs ih =>
      unfold applySingly at hq
      obtain ⟨p', hp', hq⟩ := bind_eq_ok.mp hq
      obtain ⟨h1, h2⟩ := ih (h.applyChanges hp') hq
      exact ⟨h1, h2.trans (ConfChanger.applyChanges_base hp')⟩

theorem simpleSingly_fits (ccs : List ConfChangeSingle) (h : t.Fits)
    (hu : simpleSingly nextIdx t ccs = .ok u) : u.Fits := by
  induction ccs generalizing t with
  | nil =>
      cases hu
      exact h
  | cons cc ccs ih =>
      unfold simpleSingly at hu
      obtain ⟨r, hr, hu⟩ := bind_eq_ok.mp hu
      obtain ⟨h1, h2⟩ := ConfChanger.simple_sound h hr
      exact ih (ProgressTracker.fits_applyConf h1 h2 nextIdx) hu

theorem restoreEmpty_fits {cs : ConfState} (h : t.Fits) (hu : restoreEmpty t nextIdx cs = .ok u) :
    u.Fits := by
  unfold restoreEmpty at hu
  split at hu
  · obtain ⟨p, hp, hu⟩ := bind_eq_ok.mp hu
    obtain ⟨q, hq, hu⟩ := bind_eq_ok.mp hu
    obtain ⟨⟨⟩, hi, hu⟩ := bind_eq_ok.mp hu
    cases hu
    have hp : p = ⟨t.conf, { base := t.progress }⟩ := by
      cases hc : ConfChanger.checkAndCopy t with
      | error e =>
          rw [hc] at hp
          cases hp
      | ok p' =>
          rw [hc] at hp
          cases hp
          exact ConfChanger.checkAndCopy_ok hc
    subst hp
    have hcopy : ConfChanger.CopySound ⟨t.conf, { base := t.progress }⟩ := h.conf
    obtain ⟨hq, hb⟩ := applySingly_sound _ hcopy hq
    obtain ⟨h1, h2⟩ := ConfChanger.resultSound_of_copy hq hb hi
    exact ProgressTracker.fits_applyConf h1 h2 nextIdx
  · obtain ⟨t', ht', hu⟩ := bind_eq_ok.mp hu
    obtain ⟨r, hr, hu⟩ := bind_eq_ok.mp hu
    cases hu
    obtain ⟨h1, h2⟩ := ConfChanger.enterJoint_sound (simpleSingly_fits _ h ht') hr
    exact ProgressTracker.fits_applyConf h1 h2 nextIdx

/-- The configuration of a restored tracker fits its progress map. -/
theorem restore_fits {cs : ConfState} (hu : restore t nextIdx cs = .ok u) : u.Fits := by
  unfold restore at hu
  refine restoreEmpty_fits (ProgressTracker.Sound.fits ?_) hu
  exact (ProgressTracker.sound_init t.maxInflight).of_eq rfl rfl

/-- What holds of the progress of all peers and of a fresh one is kept by the replay; votes and the
size of the windows are not touched. -/
theorem simpleSingly_forall {P : ℕ → Progress → Prop} (ccs : List ConfChangeSingle)
    (ht : ∀ id p, t.get id = some p → P id p)
    (hinit : ∀ id, P id { Progress.init nextIdx t.maxInflight with recentActive := true })
    (hu : simpleSingly nextIdx t ccs = .ok u) :
    (∀ id p, u.get id = some p → P id p) ∧ u.votes = t.votes ∧ u.maxInflight = t.maxInflight := by
  induction ccs generalizing t with
  | nil =>
      cases hu
      exact ⟨ht, rfl, rfl⟩
  | cons cc ccs ih =>
      unfold simpleSingly at hu
      obtain ⟨r, _, hu⟩ := bind_eq_ok.mp hu
      exact ih (t := t.applyConf r.conf r.changes nextIdx)
        (ProgressTracker.applyConf_forall ht _ _ hinit) hinit hu

/-- The progress of a restored tracker is fresh, and it has no votes. -/
theorem restore_forall {P : ℕ → Progress → Prop} {cs : ConfState}
    (hinit : ∀ id, P id { Progress.init nextIdx t.maxInflight with recentActive := true })
    (hu : restore t nextIdx cs = .ok u) : (∀ id p, u.get id = some p → P id p) ∧ u.votes = ∅ := by
  have hempty : ∀ id p, ({ ProgressTracker.init t.maxInflight with groupCommit := t.groupCommit } :
      ProgressTracker).get id = some p → P id p :=
    fun id p hp => absurd hp (by unfold ProgressTracker.get ProgressTracker.init; simp)
  unfold restore restoreEmpty at hu
  split at hu
  · obtain ⟨p, _, hu⟩ := bind_eq_ok.mp hu
    obtain ⟨q, _, hu⟩ := bind_eq_ok.mp hu
    obtain ⟨⟨⟩, _, hu⟩ := bind_eq_ok.mp hu
    cases hu
    exact ⟨ProgressTracker.applyConf_forall hempty _ _ hinit, rfl⟩
  · obtain ⟨t', ht', hu⟩ := bind_eq_ok.mp hu
    obtain ⟨r, _, hu⟩ := bind_eq_ok.mp hu
    cases hu
    obtain ⟨hall, hvotes, hmax⟩ := simpleSingly_forall _ hempty hinit ht'
    refine ⟨ProgressTracker.applyConf_forall hall _ _ ?_, hvotes⟩
    rw [hmax]
    exact hinit

/-- A restored tracker is sound. -/
theorem restore_sound {cs : ConfState} (hn : 0 < nextIdx)
    (hu : restore t nextIdx cs = .ok u) : u.Sound where
  conf := (restore_fits hu).conf
  plain := (restore_fits hu).plain
  progress := (restore_forall
    (fun _ => (Progress.sound_init hn t.maxInflight).of_eq rfl rfl rfl rfl) hu).1

/-- A tracker that has heard of no peer: no votes, no acknowledgements, no requests. -/
structure Fresh (t : ProgressTracker) : Prop where
  votes : t.votes = ∅
  progress : ∀ id p, t.get id = some p → p.matched = 0 ∧ p.pendingRequestSnapshot = 0

/-- A restored tracker has heard of no peer. -/
theorem restore_fresh {cs : ConfState} (hu : restore t nextIdx cs = .ok u) : Fresh u :=
  ⟨(restore_forall (P := fun _ _ => True) (fun _ => trivial) hu).2,
    (restore_forall (fun _ => ⟨rfl, rfl⟩) hu).1⟩

end ConfRestore

end Raftz
