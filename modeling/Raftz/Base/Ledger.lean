import Mathlib.Algebra.GroupWithZero.Nat
import Mathlib.Data.List.Basic
import Mathlib.Order.Basic

/-! # Ledgers

Many parties hold pieces of sequences whose items carry a stamp.  A ledger says what was
written at an index under a stamp, and under which stamp the item just below it stands.
Pieces that are drawn from one ledger agree: where two of them hold an item of the same
stamp, they hold the same items from there down.

The stamp `0` stands for a stamp that is not known. -/

namespace Base

variable {α τ : Type} {stamp : α → τ}

/-- A piece of a sequence: the items it holds, and the stamps it knows (often one more, below its
first item). -/
structure Piece (stamp : α → τ) where
  item : ℕ → Option α
  mark : ℕ → Option τ
  mark_item : ∀ k a, item k = some a → mark k = some (stamp a)

/-- What was written at an index under a stamp, and the stamp below. -/
structure Ledger (α τ : Type) where
  item : ℕ → τ → Option α
  below : ℕ → τ → τ

namespace Ledger

/-- Nothing has been written. -/
def blank [Zero τ] : Ledger α τ := ⟨fun _ _ => none, fun _ _ => 0⟩

/-- The piece agrees with the ledger. -/
structure Draws [Zero τ] (L : Ledger α τ) (p : Piece stamp) : Prop where
  item : ∀ k a, p.item k = some a → L.item k (stamp a) = some a
  below : ∀ k a s, p.item (k + 1) = some a → p.mark k = some s → s ≠ 0 → L.below (k + 1) (stamp a) = s

/-- What was written stays, and only stamps in `T` are written under. -/
structure Grows (T : τ → Prop) (L L' : Ledger α τ) : Prop where
  item : ∀ k t a, L.item k t = some a → L'.item k t = some a
  below : ∀ k t a, L.item k t = some a → L'.below k t = L.below k t
  only : ∀ k t, ¬ T t → L'.item k t = L.item k t

theorem Grows.refl (T : τ → Prop) (L : Ledger α τ) : Grows T L L :=
  ⟨fun _ _ _ h => h, fun _ _ _ _ => rfl, fun _ _ _ => rfl⟩

theorem Grows.trans {T : τ → Prop} {L L' L'' : Ledger α τ} (h : Grows T L L') (h' : Grows T L' L'') :
    Grows T L L'' where
  item := fun k t a ha => h'.item k t a (h.item k t a ha)
  below := fun k t a ha => (h'.below k t a (h.item k t a ha)).trans (h.below k t a ha)
  only := fun k t ht => (h'.only k t ht).trans (h.only k t ht)

theorem Grows.mono {T U : τ → Prop} {L L' : Ledger α τ} (h : Grows T L L') (hTU : ∀ t, T t → U t) :
    Grows U L L' where
  item := h.item
  below := h.below
  only := fun k t ht => h.only k t fun hT => ht (hTU t hT)

section drawn
variable [Zero τ] {L L' : Ledger α τ} {p q : Piece stamp}

/-- A piece of nothing. -/
theorem draws_of_empty (h : ∀ k, p.item k = none) : L.Draws p where
  item := by
    intro k a ha
    rw [h k] at ha
    cases ha
  below := by
    intro k a s ha
    rw [h (k + 1)] at ha
    cases ha

theorem Draws.grow {T : τ → Prop} (h : L.Draws p) (hg : Grows T L L') : L'.Draws p where
  item := fun k a ha => hg.item _ _ _ (h.item k a ha)
  below := fun k a s ha hs hne => (hg.below _ _ _ (h.item _ _ ha)).trans (h.below k a s ha hs hne)

/-- What each of two pieces vouches for. -/
theorem Draws.join {r : Piece stamp} (hp : L.Draws p) (hq : L.Draws q)
    (hitem : ∀ k a, r.item k = some a → p.item k = some a ∨ q.item k = some a)
    (hbelow : ∀ k a s, r.item (k + 1) = some a → r.mark k = some s → s ≠ 0 →
      (p.item (k + 1) = some a ∧ p.mark k = some s) ∨ (q.item (k + 1) = some a ∧ q.mark k = some s)) :
    L.Draws r where
  item := fun k a ha => (hitem k a ha).elim (hp.item k a) (hq.item k a)
  below := by
    intro k a s ha hs hne
    rcases hbelow k a s ha hs hne with ⟨h1, h2⟩ | ⟨h1, h2⟩
    · exact hp.below k a s h1 h2 hne
    · exact hq.below k a s h1 h2 hne

/-- A part of a piece. -/
theorem Draws.part (hp : L.Draws p) (hitem : ∀ k a, q.item k = some a → p.item k = some a)
    (hmark : ∀ k a s, q.item (k + 1) = some a → q.mark k = some s → s ≠ 0 → p.mark k = some s) : L.Draws q :=
  hp.join hp (fun k a ha => Or.inl (hitem k a ha)) fun k a s ha hs hne =>
    Or.inl ⟨hitem _ a ha, hmark k a s ha hs hne⟩

/-- **Agreement.**  Where two pieces hold items of the same stamp, they hold the same item, and the
same ones below as far down as both go. -/
theorem Draws.agree (hp : L.Draws p) (hq : L.Draws q) (hpos : ∀ k t a, L.item k t = some a → stamp a ≠ 0)
    {i k : ℕ} (hik : i ≤ k) {a b : α} (ha : p.item k = some a) (hb : q.item k = some b)
    (hab : stamp a = stamp b)
    (hheld : ∀ j, i ≤ j → j < k → (p.item j).isSome ∧ (q.item j).isSome) : p.item i = q.item i := by
  have hsame : ∀ {j : ℕ} {a b : α}, p.item j = some a → q.item j = some b → stamp a = stamp b →
      p.item j = q.item j := by
    intro j a b ha hb hab
    have h1 := hp.item j a ha
    rw [hab, hq.item j b hb] at h1
    rw [ha, hb, Option.some.inj h1]
  induction k generalizing a b with
  | zero =>
      rw [Nat.le_zero.mp hik]
      exact hsame ha hb hab
  | succ k ih =>
      rcases Nat.lt_or_eq_of_le hik with hlt | rfl
      swap
      · exact hsame ha hb hab
      have hik := Nat.le_of_lt_succ hlt
      obtain ⟨hpk, hqk⟩ := hheld k hik (Nat.lt_succ_self k)
      obtain ⟨a', ha'⟩ := Option.isSome_iff_exists.mp hpk
      obtain ⟨b', hb'⟩ := Option.isSome_iff_exists.mp hqk
      -- both items at `k + 1` say the same of the stamp at `k`
      have h1 := hp.below k a _ ha (p.mark_item k a' ha') (hpos k _ a' (hp.item k a' ha'))
      have h2 := hq.below k b _ hb (q.mark_item k b' hb') (hpos k _ b' (hq.item k b' hb'))
      rw [hab, h2] at h1
      exact ih hik ha' hb' h1.symm fun j h h' => hheld j h (Nat.lt_succ_of_lt h')

end drawn

/-! ### Writing -/

variable [DecidableEq τ]

/-- Write items above `n` under the stamp `t`; `s` is the stamp at `n`. -/
def write (L : Ledger α τ) (n : ℕ) (t s : τ) (as : List α) : Ledger α τ where
  item k u := if u = t ∧ n < k ∧ k ≤ n + as.length then as[k - n - 1]? else L.item k u
  below k u := if u = t ∧ n < k ∧ k ≤ n + as.length then (if k = n + 1 then s else t) else L.below k u

variable {L : Ledger α τ} {n : ℕ} {t s : τ} {as : List α}

theorem item_write_of_lt {k : ℕ} {a : α} (hk : n < k) (ha : as[k - n - 1]? = some a) :
    (L.write n t s as).item k t = some a := by
  have hlen := (List.getElem?_eq_some_iff.mp ha).1
  unfold write
  dsimp only
  rw [if_pos ⟨rfl, hk, by omega⟩]
  exact ha

theorem below_write_of_lt {k : ℕ} {a : α} (hk : n < k) (ha : as[k - n - 1]? = some a) :
    (L.write n t s as).below k t = if k = n + 1 then s else t := by
  have hlen := (List.getElem?_eq_some_iff.mp ha).1
  unfold write
  dsimp only
  rw [if_pos ⟨rfl, hk, by omega⟩]

/-- Above `n` nothing had been written under the stamp, so nothing is lost. -/
theorem grows_write (hfree : ∀ k, n < k → L.item k t = none) : Grows (· = t) L (L.write n t s as) := by
  have hold : ∀ k u a, L.item k u = some a → ¬ (u = t ∧ n < k ∧ k ≤ n + as.length) := by
    rintro k u a ha ⟨rfl, hk, -⟩
    rw [hfree k hk] at ha
    cases ha
  refine ⟨fun k u a ha => ?_, fun k u a ha => ?_, fun k u hu => ?_⟩
  · unfold write
    dsimp only
    rw [if_neg (hold k u a ha)]
    exact ha
  · unfold write
    dsimp only
    rw [if_neg (hold k u a ha)]
  · unfold write
    dsimp only
    rw [if_neg fun h => hu h.1]

/-- Nothing is written beyond the items. -/
theorem item_write_of_gt {k : ℕ} (hk : n + as.length < k) :
    (L.write n t s as).item k t = L.item k t := by
  unfold write
  dsimp only
  rw [if_neg (by omega)]

theorem item_write_of_le {k : ℕ} (hk : k ≤ n) : (L.write n t s as).item k t = L.item k t := by
  unfold write
  dsimp only
  rw [if_neg (by omega)]

/-- What the ledger holds after writing. -/
theorem item_write {k : ℕ} {u : τ} {a : α} (h : (L.write n t s as).item k u = some a) :
    L.item k u = some a ∨ (u = t ∧ a ∈ as) := by
  unfold write at h
  dsimp only at h
  split at h
  · rename_i hin
    exact Or.inr ⟨hin.1, List.mem_of_getElem? h⟩
  · exact Or.inl h

/-- A piece that is continued by what is written. -/
theorem draws_write [Zero τ] {p q : Piece stamp} (hp : L.Draws p) (hfree : ∀ k, n < k → L.item k t = none)
    (hitem : ∀ k, k ≤ n → q.item k = p.item k) (hmark : ∀ k, k ≤ n → q.mark k = p.mark k)
    (hs : q.mark n = some s) (hnew : ∀ k a, n < k → q.item k = some a → as[k - n - 1]? = some a ∧ stamp a = t)
    (hstamp : ∀ k u, n < k → q.mark k = some u → u = t) : (L.write n t s as).Draws q := by
  have hg : Grows (· = t) L (L.write n t s as) := grows_write hfree
  refine ⟨fun k a ha => ?_, fun k a u ha hu hne => ?_⟩
  · rcases Nat.lt_or_ge n k with hk | hk
    · obtain ⟨h1, h2⟩ := hnew k a hk ha
      rw [h2]
      exact item_write_of_lt hk h1
    · exact (hp.grow hg).item k a ((hitem k hk).symm.trans ha)
  · rcases Nat.lt_or_ge n (k + 1) with hk | hk
    · obtain ⟨h1, h2⟩ := hnew (k + 1) a hk ha
      rw [h2, below_write_of_lt hk h1]
      split
      · rename_i heq
        rw [Nat.succ.inj heq, hs] at hu
        exact Option.some.inj hu
      · exact (hstamp k u (by omega) hu).symm
    · exact (hp.grow hg).below k a u ((hitem _ hk).symm.trans ha) ((hmark k (by omega)).symm.trans hu) hne

end Ledger

end Base
