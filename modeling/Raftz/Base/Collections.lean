import Mathlib.Data.List.AList
import Mathlib.Data.List.GetD
import Mathlib.Data.Multiset.Sort
import Mathlib.Data.Finset.Card
import Mathlib.Data.Finset.Lattice.Basic
import Mathlib.Data.Finset.SymmDiff
import Mathlib.Tactic.Common

/-! # Finite sets and maps with an iteration order

`IdSet` is a duplicate-free list of identifiers: a hash set together with the
order in which an iterator visits it.  The order is data, so a computation that
depends on it can be stated, and every membership fact forgets it through
`toFinset`.

Maps are Mathlib's association lists (`AList`); only the pointwise update of
all values is added here.

The `k`-th member of a list sorted downwards is described by counting
(`le_getElem_iff_lt_countP`), which forgets how ties were ordered.

The last section is the arithmetic of majorities: two majorities of one set
meet, and so do a majority of a set and a majority of a set that differs from
it in at most one member. -/

namespace Base

/-- A duplicate-free list of identifiers. -/
structure IdSet where
  ids : List ℕ
  nodup : ids.Nodup
  deriving DecidableEq, Repr

namespace IdSet

instance : Membership ℕ IdSet := ⟨fun s a => a ∈ s.ids⟩

instance (a : ℕ) (s : IdSet) : Decidable (a ∈ s) := inferInstanceAs (Decidable (a ∈ s.ids))

theorem mem_def {a : ℕ} {s : IdSet} : a ∈ s ↔ a ∈ s.ids := Iff.rfl

/-- The empty set. -/
def empty : IdSet := ⟨[], List.nodup_nil⟩

instance : EmptyCollection IdSet := ⟨empty⟩
instance : Inhabited IdSet := ⟨empty⟩

/-- Add a member; a new one is visited last. -/
def add (s : IdSet) (a : ℕ) : IdSet :=
  if h : a ∈ s.ids then s
  else ⟨s.ids ++ [a], by
    rw [List.nodup_append]
    refine ⟨s.nodup, List.nodup_singleton a, ?_⟩
    intro b hb c hc
    rw [List.mem_singleton] at hc
    subst hc
    exact fun hbc => h (hbc ▸ hb)⟩

/-- Remove a member. -/
def remove (s : IdSet) (a : ℕ) : IdSet := ⟨s.ids.erase a, s.nodup.erase a⟩

/-- Number of members. -/
def count (s : IdSet) : ℕ := s.ids.length

/-- Does the set have no member? -/
def isEmpty (s : IdSet) : Bool := s.ids.isEmpty

/-- Add every member of a list. -/
def addAll (s : IdSet) (l : List ℕ) : IdSet := l.foldl add s

/-- The members, without their order. -/
def toFinset (s : IdSet) : Finset ℕ := s.ids.toFinset

@[simp] theorem not_mem_empty (a : ℕ) : a ∉ (∅ : IdSet) := List.not_mem_nil

@[simp] theorem mem_add {s : IdSet} {a b : ℕ} : b ∈ s.add a ↔ b = a ∨ b ∈ s := by
  unfold add
  split
  · rename_i h
    constructor
    · exact Or.inr
    · rintro (rfl | hb)
      · exact h
      · exact hb
  · simp only [mem_def, List.mem_append, List.mem_singleton]
    exact Or.comm

@[simp] theorem mem_remove {s : IdSet} {a b : ℕ} : b ∈ s.remove a ↔ b ≠ a ∧ b ∈ s :=
  s.nodup.mem_erase_iff

@[simp] theorem mem_addAll {s : IdSet} {l : List ℕ} {b : ℕ} :
    b ∈ s.addAll l ↔ b ∈ s ∨ b ∈ l := by
  unfold addAll
  induction l generalizing s with
  | nil => simp
  | cons a l ih =>
      rw [List.foldl_cons, ih, mem_add, List.mem_cons]
      tauto

@[simp] theorem mem_toFinset {s : IdSet} {a : ℕ} : a ∈ s.toFinset ↔ a ∈ s := List.mem_toFinset

theorem card_toFinset (s : IdSet) : s.toFinset.card = s.count :=
  List.toFinset_card_of_nodup s.nodup

theorem isEmpty_iff {s : IdSet} : s.isEmpty = true ↔ ∀ a, a ∉ s := by
  unfold isEmpty
  rw [List.isEmpty_iff, List.eq_nil_iff_forall_not_mem]
  rfl

theorem toFinset_eq_empty_iff {s : IdSet} : s.toFinset = ∅ ↔ s.isEmpty = true := by
  rw [isEmpty_iff, Finset.eq_empty_iff_forall_notMem]
  simp only [mem_toFinset]

/-- Counting the members that satisfy `p` counts the filtered set. -/
theorem countP_ids (s : IdSet) (p : ℕ → Bool) :
    s.ids.countP p = (s.toFinset.filter (fun a => p a = true)).card := by
  rw [List.countP_eq_length_filter, ← List.toFinset_card_of_nodup (s.nodup.filter p),
    List.toFinset_filter]
  rfl

end IdSet

/-! ### Association lists -/

section assoc
variable {κ α : Type} [DecidableEq κ]

/-- Update every value of a map. -/
def mapVals (f : κ → α → α) (m : AList (fun _ : κ => α)) : AList (fun _ : κ => α) :=
  ⟨m.entries.map (fun e => ⟨e.1, f e.1 e.2⟩), by
    unfold List.NodupKeys List.keys
    rw [List.map_map]
    exact m.nodupKeys⟩

theorem dlookup_map (f : κ → α → α) (a : κ) (l : List (Sigma fun _ : κ => α)) :
    (l.map (fun e => (⟨e.1, f e.1 e.2⟩ : Sigma fun _ : κ => α))).dlookup a =
      (l.dlookup a).map (f a) := by
  induction l with
  | nil => rfl
  | cons e l ih =>
      obtain ⟨b, v⟩ := e
      by_cases h : b = a
      · subst h
        simp
      · rw [List.map_cons, List.dlookup_cons_ne _ _ (Ne.symm h),
          List.dlookup_cons_ne _ _ (Ne.symm h), ih]

@[simp] theorem lookup_mapVals (f : κ → α → α) (m : AList (fun _ : κ => α)) (a : κ) :
    (mapVals f m).lookup a = (m.lookup a).map (f a) := dlookup_map f a m.entries

omit [DecidableEq κ] in
@[simp] theorem keys_mapVals (f : κ → α → α) (m : AList (fun _ : κ => α)) :
    (mapVals f m).keys = m.keys := by
  unfold mapVals AList.keys List.keys
  rw [List.map_map]
  rfl

omit [DecidableEq κ] in
@[simp] theorem mem_mapVals (f : κ → α → α) (m : AList (fun _ : κ => α)) (a : κ) :
    a ∈ mapVals f m ↔ a ∈ m := by
  rw [AList.mem_keys, AList.mem_keys, keys_mapVals]

theorem lookup_insert_eq (m : AList (fun _ : κ => α)) (a b : κ) (v : α) :
    (m.insert a v).lookup b = if b = a then some v else m.lookup b := by
  by_cases h : b = a
  · subst h
    simp
  · rw [AList.lookup_insert_ne h, if_neg h]

end assoc

/-! ### Ranks in a sorted list -/

section ranks
variable {α β : Type} [LinearOrder β]

/-- In a list sorted downwards by `f`, the `k`-th member reaches a bound exactly when more than `k`
members do. -/
theorem le_getElem_iff_lt_countP {f : α → β} {l : List α} (hs : l.Pairwise (fun a b => f b ≤ f a))
    {k : ℕ} (hk : k < l.length) {i : β} : i ≤ f l[k] ↔ k < l.countP (fun a => decide (i ≤ f a)) := by
  induction l generalizing k with
  | nil => cases hk
  | cons a l ih =>
      obtain ⟨hhead, htail⟩ := List.pairwise_cons.mp hs
      rw [List.countP_cons]
      cases k with
      | zero =>
          rw [List.getElem_cons_zero]
          constructor
          · intro h
            rw [if_pos (decide_eq_true h)]
            exact Nat.succ_pos _
          · intro h
            by_contra hi
            -- nothing after a first member below the bound reaches it
            have hnone : l.countP (fun a => decide (i ≤ f a)) = 0 := by
              refine List.countP_eq_zero.mpr fun b hb => ?_
              simpa using lt_of_le_of_lt (hhead b hb) (not_le.mp hi)
            rw [hnone, if_neg (by simpa using hi)] at h
            exact absurd h (lt_irrefl 0)
      | succ k =>
          rw [List.getElem_cons_succ, ih htail (Nat.lt_of_succ_lt_succ hk)]
          by_cases hi : i ≤ f a
          · rw [if_pos (decide_eq_true hi)]
            omega
          · have hnone : l.countP (fun a => decide (i ≤ f a)) = 0 := by
              refine List.countP_eq_zero.mpr fun b hb => ?_
              simpa using lt_of_le_of_lt (hhead b hb) (not_le.mp hi)
            rw [hnone, if_neg (by simpa using hi)]
            omega

/-- The member of a multiset that `k` others precede when it is sorted downwards. -/
def ranked [Inhabited β] (s : Multiset β) (k : ℕ) : β := (s.sort (· ≥ ·)).getD k default

/-- A ranked member reaches a bound exactly when enough members do. -/
theorem le_ranked_iff [Inhabited β] {s : Multiset β} {k : ℕ} (hk : k < s.card) {i : β} :
    i ≤ ranked s k ↔ k < s.countP (i ≤ ·) := by
  have hlen : k < (s.sort (· ≥ ·)).length := by rwa [Multiset.length_sort]
  have hs : (s.sort (· ≥ ·)).Pairwise (fun a b => id b ≤ id a) := Multiset.pairwise_sort s (· ≥ ·)
  have hcount : s.countP (i ≤ ·) = (s.sort (· ≥ ·)).countP (fun a => decide (i ≤ a)) := by
    conv_lhs => rw [← Multiset.sort_eq s (· ≥ ·)]
    exact Multiset.coe_countP _ _
  unfold ranked
  rw [List.getD_eq_getElem _ _ hlen, hcount]
  exact le_getElem_iff_lt_countP hs hlen

end ranks

/-! ### Majorities -/

section majorities
variable {S T A B : Finset ℕ}

/-- Two majorities of one set meet. -/
theorem majorities_meet (hA : A ⊆ S) (hB : B ⊆ S) (hcA : S.card / 2 + 1 ≤ A.card)
    (hcB : S.card / 2 + 1 ≤ B.card) : ∃ v, v ∈ A ∧ v ∈ B := by
  have hlt : S.card < A.card + B.card := by omega
  obtain ⟨v, hv⟩ := Finset.inter_nonempty_of_card_lt_card_add_card hA hB hlt
  exact ⟨v, Finset.mem_inter.mp hv⟩

/-- A majority of a set and a majority of a set that differs from it in at most one member meet. -/
theorem majorities_meet_of_symmDiff (hA : A ⊆ S) (hB : B ⊆ T) (hcA : S.card / 2 + 1 ≤ A.card)
    (hcB : T.card / 2 + 1 ≤ B.card) (hd : (symmDiff S T).card ≤ 1) : ∃ v, v ∈ A ∧ v ∈ B := by
  -- both lie in the union, which has at most one member more than either set
  have hunion : A.card + B.card ≤ (S ∪ T).card + (A ∩ B).card := by
    rw [← Finset.card_union_add_card_inter A B]
    exact Nat.add_le_add_right (Finset.card_le_card (Finset.union_subset_union hA hB)) _
  have hS : (S ∪ T).card = S.card + (T \ S).card := by
    rw [← Finset.union_sdiff_self_eq_union, Finset.card_union_of_disjoint Finset.disjoint_sdiff]
  have hT : (S ∪ T).card = T.card + (S \ T).card := by
    rw [Finset.union_comm, ← Finset.union_sdiff_self_eq_union,
      Finset.card_union_of_disjoint Finset.disjoint_sdiff]
  have hsd : (S \ T).card + (T \ S).card ≤ 1 := by
    rw [← Finset.card_union_of_disjoint disjoint_sdiff_sdiff]
    exact hd
  have hpos : 0 < (A ∩ B).card := by omega
  obtain ⟨v, hv⟩ := Finset.card_pos.mp hpos
  exact ⟨v, Finset.mem_inter.mp hv⟩

end majorities

end Base
