import Mathlib.Tactic.Common

/-! # Fallible, aborting, stateful computations

A computation of type `Act ε σ α` runs on a state `σ` and ends in one of three
ways: with a value, with a reported error, or with an abort.  Value and error
both carry the state reached so far, as an error returned from the middle of a
method leaves the earlier writes in place; an abort ends the process and leaves
nothing.

`wp x Q E s` says what `x` guarantees when it is run on `s`: `Q` of the value
and the state when it returns, `E` of the error and the state when it fails.
An abort satisfies every postcondition, so `wp` is a rule of partial
correctness with respect to aborts only; `twp` is the same without aborts.  The
rules below push `wp` through every combinator, and `wp_each` is the invariant
rule of the loops. -/

namespace Base

/-- How a computation can end. -/
inductive Outcome (ε σ α : Type) where
  | ok (a : α) (s : σ)
  | err (e : ε) (s : σ)
  | panic
  deriving DecidableEq, Repr

/-! ### Fallible values -/

section fallible
variable {ε α β : Type}

theorem bind_eq_ok {x : Except ε α} {f : α → Except ε β} {b : β} :
    (x >>= f) = .ok b ↔ ∃ a, x = .ok a ∧ f a = .ok b := by
  cases x with
  | error e =>
      constructor
      · intro h
        cases h
      · rintro ⟨a, h, _⟩
        cases h
  | ok a =>
      constructor
      · intro h
        exact ⟨a, rfl, h⟩
      · rintro ⟨a', h, hf⟩
        cases h
        exact hf

/-- Fail unless the condition holds. -/
def ensure (c : Prop) [Decidable c] (e : ε) : Except ε Unit := if c then .ok () else .error e

theorem ensure_of {c : Prop} [Decidable c] {e : ε} (hc : c) : ensure c e = .ok () := if_pos hc

theorem ensure_of_not {c : Prop} [Decidable c] {e : ε} (hc : ¬ c) : ensure c e = .error e := if_neg hc

theorem ensure_eq_ok {c : Prop} [Decidable c] {e : ε} {u : Unit} : ensure c e = .ok u ↔ c := by
  unfold ensure
  by_cases hc : c <;> simp [hc]

end fallible

/-- A computation on a state `σ` with errors `ε` and result `α`. -/
def Act (ε σ α : Type) : Type := σ → Outcome ε σ α

namespace Act

variable {ε σ τ α β : Type}

/-! ### Combinators -/

/-- Run `f` on the value and state of a computation that returned. -/
def andThen (x : Act ε σ α) (f : α → Act ε σ β) : Act ε σ β := fun s =>
  match x s with
  | .ok a s' => f a s'
  | .err e s' => .err e s'
  | .panic => .panic

instance : Monad (Act ε σ) where
  pure a := fun s => .ok a s
  bind := andThen

/-- Read the state. -/
def get : Act ε σ σ := fun s => .ok s s
/-- Read a part of the state. -/
def gets (f : σ → α) : Act ε σ α := fun s => .ok (f s) s
/-- Change the state. -/
def modify (f : σ → σ) : Act ε σ Unit := fun s => .ok () (f s)
/-- Report an error. -/
def throw (e : ε) : Act ε σ α := fun s => .err e s
/-- Abort. -/
def panic : Act ε σ α := fun _ => .panic
/-- Abort unless the condition holds. -/
def assert (c : Bool) : Act ε σ Unit := fun s => if c then .ok () s else .panic

/-- The result of a query of the state that can fail. -/
def query (f : σ → Except ε α) : Act ε σ α := fun s =>
  match f s with
  | .ok a => .ok a s
  | .error e => .err e s

/-- Run `x`; when it reports an error, go on with the handler. -/
def catchErr (x : Act ε σ α) (h : ε → Act ε σ α) : Act ε σ α := fun s =>
  match x s with
  | .ok a s' => .ok a s'
  | .err e s' => h e s'
  | .panic => .panic

/-- Run `x` and return its value or the error it reported. -/
def attempt (x : Act ε σ α) : Act ε σ (Except ε α) := fun s =>
  match x s with
  | .ok a s' => .ok (.ok a) s'
  | .err e s' => .ok (.error e) s'
  | .panic => .panic

/-- Run `x` and ignore both its value and an error. -/
def ignore (x : Act ε σ α) : Act ε σ Unit := fun s =>
  match x s with
  | .ok _ s' => .ok () s'
  | .err _ s' => .ok () s'
  | .panic => .panic

/-- A value, or an abort when there is none. -/
def orPanic : Option α → Act ε σ α
  | some a => pure a
  | none => panic

/-- Run a computation on a component of the state. -/
def zoom (view : τ → σ) (put : τ → σ → τ) (x : Act ε σ α) : Act ε τ α := fun t =>
  match x (view t) with
  | .ok a s => .ok a (put t s)
  | .err e s => .err e (put t s)
  | .panic => .panic

/-- Run `x` only when the condition holds. -/
def when (c : Prop) [Decidable c] (x : Act ε σ Unit) : Act ε σ Unit := if c then x else pure ()

/-- Run `f` on the members of a list, in order. -/
def each : List α → (α → Act ε σ Unit) → Act ε σ Unit
  | [], _ => pure ()
  | a :: as, f => f a >>= fun _ => each as f

/-- A computation after one that returned. -/
theorem bind_run {x : Act ε σ α} {f : α → Act ε σ β} {s s' : σ} {a : α} (h : x s = .ok a s') :
    (x >>= f) s = f a s' := by
  show andThen x f s = f a s'
  unfold andThen
  rw [h]

/-- Nothing runs after a failure. -/
theorem bind_run_err {x : Act ε σ α} {f : α → Act ε σ β} {s s' : σ} {e : ε} (h : x s = .err e s') :
    (x >>= f) s = .err e s' := by
  show andThen x f s = .err e s'
  unfold andThen
  rw [h]

protected theorem bind_assoc {γ : Type} (x : Act ε σ α) (f : α → Act ε σ β) (g : β → Act ε σ γ) :
    (x >>= f) >>= g = x >>= fun a => f a >>= g := by
  funext s
  show andThen (andThen x f) g s = andThen x (fun a => andThen (f a) g) s
  unfold andThen
  cases x s <;> rfl

theorem get_run (s : σ) : (get : Act ε σ σ) s = .ok s s := rfl

theorem query_run {f : σ → Except ε α} {s : σ} {a : α} (h : f s = .ok a) : query f s = .ok a s := by
  unfold query
  rw [h]

theorem catchErr_run {x : Act ε σ α} {h : ε → Act ε σ α} {s s' : σ} {a : α} (hx : x s = .ok a s') :
    catchErr x h s = .ok a s' := by
  unfold catchErr
  rw [hx]

theorem query_run_err {f : σ → Except ε α} {s : σ} {e : ε} (h : f s = .error e) :
    query f s = .err e s := by
  unfold query
  rw [h]

/-! ### Weakest preconditions -/

/-- What `x` guarantees on the state `s`. -/
def wp (x : Act ε σ α) (Q : α → σ → Prop) (E : ε → σ → Prop) (s : σ) : Prop :=
  match x s with
  | .ok a s' => Q a s'
  | .err e s' => E e s'
  | .panic => True

section rules
variable {Q : α → σ → Prop} {R : β → σ → Prop} {E : ε → σ → Prop} {s : σ}

theorem wp_mono {x : Act ε σ α} {Q' : α → σ → Prop} {E' : ε → σ → Prop}
    (h : x.wp Q E s) (hQ : ∀ a s', Q a s' → Q' a s') (hE : ∀ e s', E e s' → E' e s') :
    x.wp Q' E' s := by
  unfold wp at h ⊢
  cases hx : x s with
  | ok a s' =>
      rw [hx] at h
      exact hQ a s' h
  | err e s' =>
      rw [hx] at h
      exact hE e s' h
  | panic => trivial

@[simp] theorem wp_pure (a : α) : wp (pure a : Act ε σ α) Q E s ↔ Q a s := Iff.rfl

@[simp] theorem wp_bind (x : Act ε σ α) (f : α → Act ε σ β) :
    wp (x >>= f) R E s ↔ x.wp (fun a s' => (f a).wp R E s') E s := by
  show wp (andThen x f) R E s ↔ _
  unfold wp andThen
  cases x s <;> rfl

@[simp] theorem wp_get {Q : σ → σ → Prop} : wp (get : Act ε σ σ) Q E s ↔ Q s s := Iff.rfl

@[simp] theorem wp_gets (f : σ → α) : wp (gets f : Act ε σ α) Q E s ↔ Q (f s) s := Iff.rfl

@[simp] theorem wp_modify {Q : Unit → σ → Prop} (f : σ → σ) :
    wp (modify f : Act ε σ Unit) Q E s ↔ Q () (f s) := Iff.rfl

@[simp] theorem wp_throw (e : ε) : wp (throw e : Act ε σ α) Q E s ↔ E e s := Iff.rfl

@[simp] theorem wp_panic : wp (panic : Act ε σ α) Q E s := trivial

@[simp] theorem wp_assert {Q : Unit → σ → Prop} (c : Bool) :
    wp (assert c : Act ε σ Unit) Q E s ↔ (c = true → Q () s) := by
  unfold wp assert
  cases c <;> simp

theorem wp_query (f : σ → Except ε α) :
    wp (query f : Act ε σ α) Q E s ↔
      (∀ a, f s = .ok a → Q a s) ∧ ∀ e, f s = .error e → E e s := by
  unfold wp query
  cases f s <;> simp

@[simp] theorem wp_catchErr (x : Act ε σ α) (h : ε → Act ε σ α) :
    wp (catchErr x h) Q E s ↔ x.wp Q (fun e s' => (h e).wp Q E s') s := by
  unfold wp catchErr
  cases x s <;> rfl

@[simp] theorem wp_attempt {x : Act ε σ α} {Q : Except ε α → σ → Prop} :
    wp (attempt x) Q E s ↔ x.wp (fun a => Q (.ok a)) (fun e => Q (.error e)) s := by
  unfold wp attempt
  cases x s <;> rfl

@[simp] theorem wp_ignore {x : Act ε σ α} {Q : Unit → σ → Prop} :
    wp (ignore x) Q E s ↔ x.wp (fun _ => Q ()) (fun _ => Q ()) s := by
  unfold wp ignore
  cases x s <;> rfl

theorem wp_orPanic (o : Option α) :
    wp (orPanic o : Act ε σ α) Q E s ↔ ∀ a, o = some a → Q a s := by
  cases o with
  | none =>
      constructor
      · rintro - a h
        cases h
      · exact fun _ => trivial
  | some a =>
      constructor
      · rintro h b hb
        cases hb
        exact h
      · exact fun h => h a rfl

@[simp] theorem wp_zoom {view : τ → σ} {put : τ → σ → τ} {x : Act ε σ α}
    {Q : α → τ → Prop} {E : ε → τ → Prop} {t : τ} :
    wp (zoom view put x) Q E t ↔
      x.wp (fun a s' => Q a (put t s')) (fun e s' => E e (put t s')) (view t) := by
  unfold wp zoom
  cases x (view t) <;> rfl

@[simp] theorem wp_ite (c : Prop) [Decidable c] (x y : Act ε σ α) :
    wp (if c then x else y) Q E s ↔ (c → x.wp Q E s) ∧ (¬ c → y.wp Q E s) := by
  by_cases hc : c <;> simp [hc]

@[simp] theorem wp_when {Q : Unit → σ → Prop} (c : Prop) [Decidable c] (x : Act ε σ Unit) :
    wp (when c x) Q E s ↔ (c → x.wp Q E s) ∧ (¬ c → Q () s) := by
  unfold when
  rw [wp_ite]
  rfl

/-- A property of the state that `f` keeps on every member of the list is kept by the loop. -/
theorem wp_each {Inv : σ → Prop} {E : ε → σ → Prop} {f : α → Act ε σ Unit} (l : List α)
    (hf : ∀ a ∈ l, ∀ s, Inv s → (f a).wp (fun _ => Inv) E s) {s : σ} (hs : Inv s) :
    (each l f).wp (fun _ => Inv) E s := by
  induction l generalizing s with
  | nil => exact hs
  | cons a as ih =>
      unfold each
      rw [wp_bind]
      refine wp_mono (hf a List.mem_cons_self s hs) ?_ fun _ _ h => h
      intro _ s' hs'
      exact ih (fun b hb => hf b (List.mem_cons_of_mem a hb)) hs'

/-- Two specifications of one run. -/
theorem wp_and {x : Act ε σ α} {Q' : α → σ → Prop} {E' : ε → σ → Prop} (h : x.wp Q E s)
    (h' : x.wp Q' E' s) : x.wp (fun a s' => Q a s' ∧ Q' a s') (fun e s' => E e s' ∧ E' e s') s := by
  unfold wp at h h' ⊢
  cases hx : x s with
  | ok a s' =>
      rw [hx] at h h'
      exact ⟨h, h'⟩
  | err e s' =>
      rw [hx] at h h'
      exact ⟨h, h'⟩
  | panic => trivial

/-- `wp` of a run whose outcome is known. -/
theorem wp_ok {x : Act ε σ α} {a : α} {s' : σ} (h : x.wp Q E s) (hx : x s = .ok a s') : Q a s' := by
  unfold wp at h
  rwa [hx] at h

theorem wp_err {x : Act ε σ α} {e : ε} {s' : σ} (h : x.wp Q E s) (hx : x s = .err e s') :
    E e s' := by
  unfold wp at h
  rwa [hx] at h

end rules

/-! ### Total correctness -/

/-- What `x` guarantees on the state `s`, among it that it does not abort. -/
def twp (x : Act ε σ α) (Q : α → σ → Prop) (E : ε → σ → Prop) (s : σ) : Prop :=
  match x s with
  | .ok a s' => Q a s'
  | .err e s' => E e s'
  | .panic => False

section total
variable {Q : α → σ → Prop} {R : β → σ → Prop} {E : ε → σ → Prop} {s : σ}

theorem twp_mono {x : Act ε σ α} {Q' : α → σ → Prop} {E' : ε → σ → Prop}
    (h : x.twp Q E s) (hQ : ∀ a s', Q a s' → Q' a s') (hE : ∀ e s', E e s' → E' e s') :
    x.twp Q' E' s := by
  unfold twp at h ⊢
  cases hx : x s with
  | ok a s' =>
      rw [hx] at h
      exact hQ a s' h
  | err e s' =>
      rw [hx] at h
      exact hE e s' h
  | panic =>
      rw [hx] at h
      exact h

@[simp] theorem twp_pure (a : α) : twp (pure a : Act ε σ α) Q E s ↔ Q a s := Iff.rfl

@[simp] theorem twp_bind (x : Act ε σ α) (f : α → Act ε σ β) :
    twp (x >>= f) R E s ↔ x.twp (fun a s' => (f a).twp R E s') E s := by
  show twp (andThen x f) R E s ↔ _
  unfold twp andThen
  cases x s <;> rfl

@[simp] theorem twp_get {Q : σ → σ → Prop} : twp (get : Act ε σ σ) Q E s ↔ Q s s := Iff.rfl

@[simp] theorem twp_gets (f : σ → α) : twp (gets f : Act ε σ α) Q E s ↔ Q (f s) s := Iff.rfl

@[simp] theorem twp_modify {Q : Unit → σ → Prop} (f : σ → σ) :
    twp (modify f : Act ε σ Unit) Q E s ↔ Q () (f s) := Iff.rfl

@[simp] theorem twp_throw (e : ε) : twp (throw e : Act ε σ α) Q E s ↔ E e s := Iff.rfl

theorem twp_query (f : σ → Except ε α) :
    twp (query f : Act ε σ α) Q E s ↔
      (∀ a, f s = .ok a → Q a s) ∧ ∀ e, f s = .error e → E e s := by
  unfold twp query
  cases f s <;> simp

/-- A value that must be there is there. -/
theorem twp_orPanic {o : Option α} {a : α} (ho : o = some a) :
    twp (orPanic o : Act ε σ α) Q E s ↔ Q a s := by
  subst ho
  rfl

theorem twp_assert {Q : Unit → σ → Prop} {c : Bool} (hc : c = true) :
    twp (assert c : Act ε σ Unit) Q E s ↔ Q () s := by
  subst hc
  rfl

@[simp] theorem twp_catchErr (x : Act ε σ α) (h : ε → Act ε σ α) :
    twp (catchErr x h) Q E s ↔ x.twp Q (fun e s' => (h e).twp Q E s') s := by
  unfold twp catchErr
  cases x s <;> rfl

@[simp] theorem twp_attempt {x : Act ε σ α} {Q : Except ε α → σ → Prop} :
    twp (attempt x) Q E s ↔ x.twp (fun a => Q (.ok a)) (fun e => Q (.error e)) s := by
  unfold twp attempt
  cases x s <;> rfl

@[simp] theorem twp_zoom {view : τ → σ} {put : τ → σ → τ} {x : Act ε σ α}
    {Q : α → τ → Prop} {E : ε → τ → Prop} {t : τ} :
    twp (zoom view put x) Q E t ↔
      x.twp (fun a s' => Q a (put t s')) (fun e s' => E e (put t s')) (view t) := by
  unfold twp zoom
  cases x (view t) <;> rfl

@[simp] theorem twp_ite (c : Prop) [Decidable c] (x y : Act ε σ α) :
    twp (if c then x else y) Q E s ↔ (c → x.twp Q E s) ∧ (¬ c → y.twp Q E s) := by
  by_cases hc : c <;> simp [hc]

/-- A computation that does not abort returns or reports. -/
theorem twp_cases {x : Act ε σ α} (h : x.twp Q E s) :
    (∃ a s', x s = .ok a s' ∧ Q a s') ∨ ∃ e s', x s = .err e s' ∧ E e s' := by
  unfold twp at h
  cases hx : x s with
  | ok a s' =>
      rw [hx] at h
      exact Or.inl ⟨a, s', rfl, h⟩
  | err e s' =>
      rw [hx] at h
      exact Or.inr ⟨e, s', rfl, h⟩
  | panic =>
      rw [hx] at h
      exact h.elim

/-- What holds if the computation does not abort holds as well. -/
theorem twp_and {x : Act ε σ α} {Q' : α → σ → Prop} {E' : ε → σ → Prop} (h : x.twp Q E s)
    (h' : x.wp Q' E' s) : x.twp (fun a s' => Q a s' ∧ Q' a s') (fun e s' => E e s' ∧ E' e s') s := by
  unfold twp at h ⊢
  unfold wp at h'
  cases hx : x s with
  | ok a s' =>
      rw [hx] at h h'
      exact ⟨h, h'⟩
  | err e s' =>
      rw [hx] at h h'
      exact ⟨h, h'⟩
  | panic =>
      rw [hx] at h
      exact h

theorem twp_ok {x : Act ε σ α} {a : α} {s' : σ} (h : x.twp Q E s) (hx : x s = .ok a s') : Q a s' := by
  unfold twp at h
  rwa [hx] at h

end total

/-! ### What a computation makes of a state -/

/-- `x` takes a state only to states that `R` relates it to. -/
def Within (R : σ → σ → Prop) (x : Act ε σ α) : Prop := ∀ s, x.wp (fun _ s' => R s s') (fun _ s' => R s s') s

namespace Within

variable {R : σ → σ → Prop}

/-- A computation that leaves the state alone. -/
theorem pure (hrefl : ∀ s, R s s) (a : α) : Within R (Pure.pure a : Act ε σ α) := hrefl

theorem get (hrefl : ∀ s, R s s) : Within R (Act.get : Act ε σ σ) := hrefl

theorem throw (hrefl : ∀ s, R s s) (e : ε) : Within R (Act.throw e : Act ε σ α) := hrefl

theorem panic : Within R (Act.panic : Act ε σ α) := fun _ => trivial

theorem modify {g : σ → σ} (h : ∀ s, R s (g s)) : Within R (Act.modify g : Act ε σ Unit) := h

theorem assert (hrefl : ∀ s, R s s) (c : Bool) : Within R (Act.assert c : Act ε σ Unit) := by
  intro s
  rw [wp_assert]
  exact fun _ => hrefl s

theorem query (hrefl : ∀ s, R s s) (q : σ → Except ε α) : Within R (Act.query q) := by
  intro s
  rw [wp_query]
  exact ⟨fun _ _ => hrefl s, fun _ _ => hrefl s⟩

theorem orPanic (hrefl : ∀ s, R s s) (o : Option α) : Within R (Act.orPanic o : Act ε σ α) := by
  intro s
  rw [wp_orPanic]
  exact fun _ _ => hrefl s

/-- Whatever follows starts from a related state. -/
theorem wp_trans (htrans : ∀ s s' s'', R s s' → R s' s'' → R s s'') {x : Act ε σ α} {s s' : σ} (h : R s s')
    (hx : x.wp (fun _ s'' => R s' s'') (fun _ s'' => R s' s'') s') :
    x.wp (fun _ s'' => R s s'') (fun _ s'' => R s s'') s' :=
  wp_mono hx (fun _ s'' => htrans s s' s'' h) fun _ s'' => htrans s s' s'' h

theorem bind (htrans : ∀ s s' s'', R s s' → R s' s'' → R s s'') {x : Act ε σ α} {g : α → Act ε σ β}
    (hx : Within R x) (hg : ∀ a, Within R (g a)) : Within R (x >>= g) := by
  intro s
  rw [wp_bind]
  exact wp_mono (hx s) (fun a s' h => wp_trans htrans h (hg a s')) fun _ _ h => h

theorem ite {c : Prop} [Decidable c] {x y : Act ε σ α} (hx : Within R x) (hy : Within R y) :
    Within R (if c then x else y) := by
  by_cases hc : c
  · rwa [if_pos hc]
  · rwa [if_neg hc]

theorem attempt {x : Act ε σ α} (hx : Within R x) : Within R (Act.attempt x) := by
  intro s
  rw [wp_attempt]
  exact hx s

theorem ignore {x : Act ε σ α} (hx : Within R x) : Within R (Act.ignore x) := by
  intro s
  rw [wp_ignore]
  exact hx s

theorem catchErr (htrans : ∀ s s' s'', R s s' → R s' s'' → R s s'') {x : Act ε σ α} {h : ε → Act ε σ α}
    (hx : Within R x) (hh : ∀ e, Within R (h e)) : Within R (Act.catchErr x h) := by
  intro s
  rw [wp_catchErr]
  exact wp_mono (hx s) (fun _ _ h => h) fun e s' h => wp_trans htrans h (hh e s')

theorem each (hrefl : ∀ s, R s s) (htrans : ∀ s s' s'', R s s' → R s' s'' → R s s'')
    {g : α → Act ε σ Unit} (l : List α) (hg : ∀ a, Within R (g a)) : Within R (Act.each l g) := by
  intro s
  have hstep : ∀ a ∈ l, ∀ s', R s s' → (g a).wp (fun _ s'' => R s s'') (fun _ s'' => R s s'') s' :=
    fun a _ s' hs' => wp_trans htrans hs' (hg a s')
  exact wp_mono (@wp_each _ _ _ (fun s' => R s s') (fun _ s' => R s s') g l hstep s (hrefl s)) (fun _ _ h => h)
    fun _ _ h => h

end Within

/-- `x` does not change `f` of the state, however it ends. -/
def Keeps {γ : Type} (f : σ → γ) (x : Act ε σ α) : Prop :=
  ∀ s, x.wp (fun _ s' => f s' = f s) (fun _ s' => f s' = f s) s

theorem Keeps.within {γ : Type} {f : σ → γ} {R : γ → γ → Prop} (hrefl : ∀ c, R c c) {x : Act ε σ α}
    (hx : Keeps f x) : Within (fun s s' => R (f s) (f s')) x := by
  intro s
  have hsame : ∀ s', f s' = f s → R (f s) (f s') := by
    intro s' hs'
    rw [hs']
    exact hrefl _
  exact wp_mono (hx s) (fun _ => hsame) fun _ => hsame

namespace Keeps

variable {γ : Type} {f : σ → γ}

/-- Are the parts of two states the same? -/
def Same (f : σ → γ) (s s' : σ) : Prop := f s' = f s

theorem same_refl (s : σ) : Same f s s := rfl

theorem same_trans (s s' s'' : σ) (h : Same f s s') (h' : Same f s' s'') : Same f s s'' := h'.trans h

theorem pure (a : α) : Keeps f (Pure.pure a : Act ε σ α) := Within.pure (R := Same f) same_refl a

theorem get : Keeps f (Act.get : Act ε σ σ) := Within.get (R := Same f) same_refl

theorem throw (e : ε) : Keeps f (Act.throw e : Act ε σ α) := Within.throw (R := Same f) same_refl e

theorem panic : Keeps f (Act.panic : Act ε σ α) := Within.panic (R := Same f)

theorem modify {g : σ → σ} (h : ∀ s, f (g s) = f s) : Keeps f (Act.modify g : Act ε σ Unit) :=
  Within.modify (R := Same f) h

theorem assert (c : Bool) : Keeps f (Act.assert c : Act ε σ Unit) := Within.assert (R := Same f) same_refl c

theorem query (q : σ → Except ε α) : Keeps f (Act.query q) := Within.query (R := Same f) same_refl q

theorem orPanic (o : Option α) : Keeps f (Act.orPanic o : Act ε σ α) := Within.orPanic (R := Same f) same_refl o

theorem bind {x : Act ε σ α} {g : α → Act ε σ β} (hx : Keeps f x) (hg : ∀ a, Keeps f (g a)) :
    Keeps f (x >>= g) := Within.bind (R := Same f) same_trans hx hg

theorem ite {c : Prop} [Decidable c] {x y : Act ε σ α} (hx : Keeps f x) (hy : Keeps f y) :
    Keeps f (if c then x else y) := Within.ite (R := Same f) hx hy

theorem attempt {x : Act ε σ α} (hx : Keeps f x) : Keeps f (Act.attempt x) := Within.attempt (R := Same f) hx

theorem ignore {x : Act ε σ α} (hx : Keeps f x) : Keeps f (Act.ignore x) := Within.ignore (R := Same f) hx

theorem catchErr {x : Act ε σ α} {h : ε → Act ε σ α} (hx : Keeps f x) (hh : ∀ e, Keeps f (h e)) :
    Keeps f (Act.catchErr x h) := Within.catchErr (R := Same f) same_trans hx hh

theorem each {g : α → Act ε σ Unit} (l : List α) (hg : ∀ a, Keeps f (g a)) :
    Keeps f (Act.each l g) := Within.each (R := Same f) same_refl same_trans l hg

/-- A computation on a component that `f` does not see. -/
theorem zoom {view : τ → σ} {put : τ → σ → τ} {x : Act ε σ α} {h : τ → γ}
    (hput : ∀ t s, h (put t s) = h t) : Keeps h (Act.zoom view put x) := by
  intro t
  rw [wp_zoom]
  unfold wp
  cases x (view t) with
  | ok a s => exact hput t s
  | err e s => exact hput t s
  | panic => trivial

end Keeps

end Act

end Base
