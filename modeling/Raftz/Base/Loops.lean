import Mathlib.Logic.Relation
import Mathlib.Order.WellFounded
import Raftz.Base.Act

/-! # Loops

The loop `while (try x) {}` runs `x` until it returns `false` or fails.  Its iterations are a
relation between states (`Act.Again`); a model of it needs a bound (`Act.repeats`).  When a measure
goes down in every iteration (`Act.Lowers`), no sequence of iterations is infinite
(`Lowers.acc`), a bound above the measure is never reached (`Lowers.twp_repeats`) and its value does
not matter (`Lowers.repeats_eq`). -/

namespace Base.Act

variable {ε σ : Type}

/-- `x` leads from `s` to `s'` and asks to be run again. -/
def Again (x : Act ε σ Bool) (s s' : σ) : Prop := x s = .ok true s'

/-- Run `x` until it returns `false`; the bound on the iterations aborts. -/
def repeats (x : Act ε σ Bool) : ℕ → Act ε σ Unit
  | 0 => panic
  | n + 1 => do
      let again ← x
      if again then repeats x n else return ()

/-- `x` never aborts, and where it asks to be run again it has kept the invariant and lowered the
measure. -/
def Lowers (x : Act ε σ Bool) (Inv : σ → Prop) (μ : σ → ℕ) : Prop :=
  ∀ s, Inv s → x.twp (fun again s' => again = true → Inv s' ∧ μ s' < μ s) (fun _ _ => True) s

namespace Lowers

variable {x : Act ε σ Bool} {Inv : σ → Prop} {μ : σ → ℕ} {s s' : σ}

theorem again (h : Lowers x Inv μ) (hs : Inv s) (hx : Again x s s') : Inv s' ∧ μ s' < μ s :=
  twp_ok (h s hs) hx rfl

/-- The invariant holds before every iteration. -/
theorem reached (h : Lowers x Inv μ) (hs : Inv s) (hx : Relation.ReflTransGen (Again x) s s') : Inv s' := by
  induction hx with
  | refl => exact hs
  | tail _ hlast ih => exact (h.again ih hlast).1

/-- The loop has no infinite sequence of iterations. -/
theorem acc (h : Lowers x Inv μ) (hs : Inv s) : Acc (fun s' s => Again x s s') s := by
  induction hn : μ s using Nat.strong_induction_on generalizing s with
  | _ n ih =>
      subst hn
      refine ⟨s, fun s' hx => ?_⟩
      obtain ⟨hs', hlt⟩ := h.again hs hx
      exact ih _ hlt hs' rfl

/-- A bound above the measure is not reached: the loop ends where an iteration returns `false` or
fails. -/
theorem twp_repeats (h : Lowers x Inv μ) (hs : Inv s) {n : ℕ} (hn : μ s < n) :
    (repeats x n).twp
      (fun _ s' => ∃ s₁, Relation.ReflTransGen (Again x) s s₁ ∧ x s₁ = .ok false s')
      (fun e s' => ∃ s₁, Relation.ReflTransGen (Again x) s s₁ ∧ x s₁ = .err e s') s := by
  induction n generalizing s with
  | zero => omega
  | succ n ih =>
      unfold repeats
      rw [twp_bind]
      rcases twp_cases (h s hs) with ⟨again, s', hx, hagain⟩ | ⟨e, s', hx, -⟩
      · unfold twp
        rw [hx]
        cases again with
        | false => exact ⟨s, .refl, hx⟩
        | true =>
            obtain ⟨hs', hlt⟩ := hagain rfl
            refine twp_mono (ih hs' (by omega)) ?_ ?_
            · rintro _ s'' ⟨s₁, hpath, hend⟩
              exact ⟨s₁, .head hx hpath, hend⟩
            · rintro e s'' ⟨s₁, hpath, hend⟩
              exact ⟨s₁, .head hx hpath, hend⟩
      · unfold twp
        rw [hx]
        exact ⟨s, .refl, hx⟩

/-- All bounds above the measure give the same loop. -/
theorem repeats_eq (h : Lowers x Inv μ) (hs : Inv s) {n n' : ℕ} (hn : μ s < n) (hn' : μ s < n') :
    repeats x n s = repeats x n' s := by
  induction n generalizing s n' with
  | zero => omega
  | succ n ih =>
      obtain ⟨n', rfl⟩ : ∃ k, n' = k + 1 := ⟨n' - 1, by omega⟩
      rcases twp_cases (h s hs) with ⟨again, s', hx, hagain⟩ | ⟨e, s', hx, -⟩
      · unfold repeats
        rw [bind_run hx, bind_run hx]
        cases again with
        | false => rfl
        | true =>
            obtain ⟨hs', hlt⟩ := hagain rfl
            exact ih hs' (by omega) (by omega)
      · unfold repeats
        rw [bind_run_err hx, bind_run_err hx]

end Lowers

end Base.Act
