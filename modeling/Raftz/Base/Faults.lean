import Raftz.Base.Act

/-! # Computations over a service that may refuse calls

A computation that makes calls to a service runs on its own state together with
the answers that the service will give: a refused call changes nothing but the
list of answers.  Refusals of the calls that the caller repeats (`refuse`) end
the computation as `transient`; refusals of the other calls (`refuseFinal`) are
errors like any other, and may doom the state.

`Exact` says that what the service answers does not show in what a computation
does, unless it is refused or doomed, and `Resumes` that a computation which was
refused can be run again from the state it left, and then ends as a run from the
start does.  Together they give `Repeated.undisturbed`: repeating a computation
until it succeeds ends as it does without refusals. -/

namespace Base

/-! ### Parts of the state that survive a success -/

namespace Act

variable {ε σ τ α β γ : Type} {f : σ → γ}

/-- When `x` returns, `f` of the state is as before. -/
def Carries (f : σ → γ) (x : Act ε σ α) : Prop := ∀ s, x.wp (fun _ s' => f s' = f s) (fun _ _ => True) s

namespace Carries

theorem pure (a : α) : Carries f (Pure.pure a : Act ε σ α) := fun _ => rfl

theorem get : Carries f (Act.get : Act ε σ σ) := fun _ => rfl

theorem throw (e : ε) : Carries f (Act.throw e : Act ε σ α) := fun _ => trivial

theorem panic : Carries f (fun _ => .panic : Act ε σ α) := fun _ => trivial

theorem modify {g : σ → σ} (h : ∀ s, f (g s) = f s) : Carries f (Act.modify g : Act ε σ Unit) := h

theorem comp {δ : Type} {x : Act ε σ α} (h : Carries f x) (g : γ → δ) :
    Carries (fun s => g (f s)) x :=
  fun s => wp_mono (h s) (fun _ _ h => congrArg g h) fun _ _ _ => trivial

theorem of_keeps {x : Act ε σ α} (h : Keeps f x) : Carries f x :=
  fun s => wp_mono (h s) (fun _ _ h => h) fun _ _ _ => trivial

/-- Nothing is asked of a computation that never returns. -/
theorem of_fails {x : Act ε σ α} (h : ∀ s, x.wp (fun _ _ => False) (fun _ _ => True) s) :
    Carries f x :=
  fun s => wp_mono (h s) (fun _ _ h => h.elim) fun _ _ _ => trivial

theorem bind {x : Act ε σ α} {g : α → Act ε σ β} (hx : Carries f x) (hg : ∀ a, Carries f (g a)) :
    Carries f (x >>= g) := by
  intro s
  rw [wp_bind]
  refine wp_mono (hx s) ?_ fun _ _ _ => trivial
  intro a s' hs'
  exact wp_mono (hg a s') (fun _ _ h => h.trans hs') fun _ _ _ => trivial

theorem ite {p : Prop} [Decidable p] {x y : Act ε σ α} (hx : Carries f x) (hy : Carries f y) :
    Carries f (if p then x else y) := by
  by_cases hp : p
  · rwa [if_pos hp]
  · rwa [if_neg hp]

theorem when {p : Prop} [Decidable p] {x : Act ε σ Unit} (hx : Carries f x) :
    Carries f (Act.when p x) :=
  ite hx (pure ())

theorem each {g : α → Act ε σ Unit} (l : List α) (hg : ∀ a, Carries f (g a)) :
    Carries f (Act.each l g) := by
  induction l with
  | nil => exact pure ()
  | cons a as ih => exact bind (hg a) fun _ => ih

/-- A handler that fails itself. -/
theorem catchErr {x : Act ε σ α} {h : ε → Act ε σ α} (hx : Carries f x)
    (hh : ∀ e s, (h e).wp (fun _ _ => False) (fun _ _ => True) s) : Carries f (Act.catchErr x h) := by
  intro s
  rw [wp_catchErr]
  refine wp_mono (hx s) (fun _ _ h => h) ?_
  intro e s' _
  exact wp_mono (hh e s') (fun _ _ h => h.elim) fun _ _ _ => trivial

end Carries

end Act

/-- How a computation with refusable calls fails. -/
inductive Failure (ε : Type)
  /-- A call was refused; it may be repeated. -/
  | transient (e : ε)
  | reported (e : ε)
  /-- The bound on the rounds of a loop is used up. -/
  | unfinished
  deriving DecidableEq, Repr

/-- A state and the answers of the service: to the calls that are repeated after a refusal, and to
those that are not.  Calls beyond the answers are served. -/
structure Served (ε σ : Type) where
  state : σ
  answers : List (Option ε) := []
  finalAnswers : List (Option ε) := []
  deriving DecidableEq, Repr

/-- A computation with refusable calls. -/
abbrev Faulty (ε σ α : Type) : Type := Act (Failure ε) (Served ε σ) α

/-- How a run ends. -/
inductive Ending (ε σ : Type)
  | done (s : σ)
  | failed (e : ε) (s : σ)

namespace Faulty

variable {ε σ α β : Type}

/-! ### Combinators -/

/-- The state. -/
def state : Faulty ε σ σ := Act.gets Served.state

/-- Run a computation that makes no calls. -/
def lift (x : Act ε σ α) : Faulty ε σ α := fun m =>
  match x m.state with
  | .ok a s => .ok a { m with state := s }
  | .err e s => .err (.reported e) { m with state := s }
  | .panic => .panic

/-- Report an error. -/
def fail (e : ε) : Faulty ε σ α := Act.throw (.reported e)

/-- Does the service take a call that is repeated after a refusal? -/
def refuse : Faulty ε σ Unit := fun m =>
  match m.answers with
  | [] => .ok () m
  | none :: as => .ok () { m with answers := as }
  | some e :: as => .err (.transient e) { m with answers := as }

/-- Does the service take a call that is not repeated? -/
def refuseFinal : Faulty ε σ Unit := fun m =>
  match m.finalAnswers with
  | [] => .ok () m
  | none :: as => .ok () { m with finalAnswers := as }
  | some e :: as => .err (.reported e) { m with finalAnswers := as }

/-- Run `x`, which makes one call that is repeated after a refusal; `refused` is what `x` does when
the call fails. -/
def served (x : Act ε σ α) (refused : ε → Act ε σ α) : Faulty ε σ α := fun m =>
  match m.answers with
  | [] => lift x m
  | none :: as => lift x { m with answers := as }
  | some e :: as =>
      match refused e m.state with
      | .ok a s => .ok a { m with state := s, answers := as }
      | .err e' s => .err (.transient e') { m with state := s, answers := as }
      | .panic => .panic

/-- Run `x`; when it reports an error, go on with the handler. -/
def catchReported (x : Faulty ε σ α) (h : ε → Faulty ε σ α) : Faulty ε σ α := fun m =>
  match x m with
  | .ok a m' => .ok a m'
  | .err (.reported e) m' => h e m'
  | .err (.transient e) m' => .err (.transient e) m'
  | .err .unfinished m' => .err .unfinished m'
  | .panic => .panic

/-- Run `x`; when a call in it is refused, note that before giving up. -/
def onRefusal (x : Faulty ε σ α) (note : σ → σ) : Faulty ε σ α := fun m =>
  match x m with
  | .ok a m' => .ok a m'
  | .err (.transient e) m' => .err (.transient e) { m' with state := note m'.state }
  | .err (.reported e) m' => .err (.reported e) { m' with state := note m'.state }
  | .err .unfinished m' => .err .unfinished m'
  | .panic => .panic

/-- Run `body` while `c` holds, for at most the given number of rounds.  Did any round work? -/
def loop (c : σ → Bool) (body : Faulty ε σ Bool) : ℕ → Faulty ε σ Bool
  | 0 => do
      let s ← state
      if c s then Act.throw .unfinished else return false
  | n + 1 => do
      let s ← state
      if c s then do
        let worked ← body
        let more ← loop c body n
        return worked || more
      else return false

theorem lift_ok {x : Act ε σ α} {m : Served ε σ} {a : α} {s : σ} (h : x m.state = .ok a s) :
    lift x m = .ok a { m with state := s } := by
  unfold lift
  rw [h]

theorem lift_err {x : Act ε σ α} {m : Served ε σ} {e : ε} {s : σ} (h : x m.state = .err e s) :
    lift x m = .err (.reported e) { m with state := s } := by
  unfold lift
  rw [h]

theorem lift_panic {x : Act ε σ α} {m : Served ε σ} (h : x m.state = .panic) :
    lift x m = .panic := by
  unfold lift
  rw [h]

/-- The state with a service that refuses nothing. -/
def quiet (s : σ) : Served ε σ := { state := s }

/-- The refusals of calls that are repeated are retryable ones. -/
structure Allowed (retryable : ε → Prop) (m : Served ε σ) : Prop where
  answers : ∀ e, some e ∈ m.answers → retryable e

theorem allowed_quiet (retryable : ε → Prop) (s : σ) : Allowed retryable (quiet s) where
  answers _ h := by cases h

variable {retryable : ε → Prop} {doomed doomed' : σ → Prop}

theorem Allowed.setState {m : Served ε σ} (h : Allowed retryable m) (s : σ) :
    Allowed retryable { m with state := s } :=
  ⟨h.answers⟩

theorem Allowed.tail {m : Served ε σ} {a : Option ε} {as : List (Option ε)}
    (h : Allowed retryable m) (ha : m.answers = a :: as) (s : σ) :
    Allowed retryable { m with state := s, answers := as } where
  answers e he := h.answers e (ha ▸ List.mem_cons_of_mem a he)

/-- An outcome agrees with that of a run in which nothing is refused, or reports an error and is doomed: a call
that is not repeated was refused. -/
def Agrees (retryable : ε → Prop) (doomed : σ → Prop) (o o' : Outcome (Failure ε) (Served ε σ) α) : Prop :=
  match o with
  | .ok a m => Allowed retryable m ∧ o' = .ok a (quiet m.state)
  | .err (.reported e) m => (Allowed retryable m ∧ o' = .err (.reported e) (quiet m.state)) ∨ doomed m.state
  | .err (.transient _) m => Allowed retryable m
  | .err .unfinished _ => True
  | .panic => True

/-- What the service answers does not show in the outcomes of `x`, refusals apart. -/
def Exact (retryable : ε → Prop) (doomed : σ → Prop) (x : Faulty ε σ α) : Prop :=
  ∀ m, Allowed retryable m → Agrees retryable doomed (x m) (x (quiet m.state))

namespace Exact

theorem ok {x : Faulty ε σ α} (hx : Exact retryable doomed x) {m m' : Served ε σ} {a : α}
    (hm : Allowed retryable m) (h : x m = .ok a m') :
    Allowed retryable m' ∧ x (quiet m.state) = .ok a (quiet m'.state) := by
  have hx := hx m hm
  rwa [h] at hx

theorem reported {x : Faulty ε σ α} (hx : Exact retryable doomed x) {m m' : Served ε σ} {e : ε}
    (hm : Allowed retryable m) (h : x m = .err (.reported e) m') :
    (Allowed retryable m' ∧ x (quiet m.state) = .err (.reported e) (quiet m'.state)) ∨ doomed m'.state := by
  have hx := hx m hm
  rwa [h] at hx

theorem transient {x : Faulty ε σ α} (hx : Exact retryable doomed x) {m m' : Served ε σ} {e : ε}
    (hm : Allowed retryable m) (h : x m = .err (.transient e) m') : Allowed retryable m' := by
  have hx := hx m hm
  rwa [h] at hx

/-- A run in which nothing is refused leaves nothing to answer. -/
theorem ok_quiet {x : Faulty ε σ α} (hx : Exact retryable doomed x) {s : σ} {m' : Served ε σ} {a : α}
    (h : x (quiet s) = .ok a m') : m' = quiet m'.state := by
  have h' : x (quiet s) = .ok a (quiet m'.state) := (hx.ok (allowed_quiet retryable s) h).2
  rw [h] at h'
  injection h' with _ h'

theorem pure (a : α) : Exact retryable doomed (Pure.pure a : Faulty ε σ α) := fun _ hm => ⟨hm, rfl⟩

theorem state : Exact retryable doomed (Faulty.state : Faulty ε σ σ) := fun _ hm => ⟨hm, rfl⟩

theorem fail (e : ε) : Exact retryable doomed (Faulty.fail e : Faulty ε σ α) := fun _ hm => .inl ⟨hm, rfl⟩

theorem unfinished : Exact retryable doomed (Act.throw .unfinished : Faulty ε σ α) := fun _ _ => trivial

theorem lift (x : Act ε σ α) : Exact retryable doomed (Faulty.lift x) := by
  intro m hm
  have hs : (quiet m.state : Served ε σ).state = m.state := rfl
  cases h : x m.state with
  | ok a s =>
      rw [lift_ok h, lift_ok (hs ▸ h)]
      exact ⟨hm.setState s, rfl⟩
  | err e s =>
      rw [lift_err h, lift_err (hs ▸ h)]
      exact .inl ⟨hm.setState s, rfl⟩
  | panic =>
      rw [lift_panic h]
      trivial

theorem refuse : Exact retryable doomed (Faulty.refuse : Faulty ε σ Unit) := by
  intro m hm
  unfold Faulty.refuse
  split
  · exact ⟨hm, rfl⟩
  · rename_i as ha
    exact ⟨hm.tail ha m.state, rfl⟩
  · rename_i e as ha
    exact hm.tail ha m.state

theorem refuseFinal : Exact retryable (fun _ => True) (Faulty.refuseFinal : Faulty ε σ Unit) := by
  intro m hm
  unfold Faulty.refuseFinal
  split
  · exact ⟨hm, rfl⟩
  · exact ⟨⟨hm.answers⟩, rfl⟩
  · exact .inr trivial

/-- A call that is refused leaves the state alone, and makes no difference when it is not needed. -/
theorem served {x : Act ε σ α} {refused : ε → Act ε σ α}
    (hx : ∀ e s a s', retryable e → refused e s = .ok a s' → x s = .ok a s') :
    Exact retryable doomed (Faulty.served x refused) := by
  intro m hm
  have hquiet : Faulty.served x refused (quiet m.state) = Faulty.lift x (quiet m.state) := rfl
  rw [hquiet]
  unfold Faulty.served
  split
  · exact lift x m hm
  · rename_i as ha
    exact lift x _ (hm.tail ha m.state)
  · rename_i e as ha
    split
    · rename_i a s h
      refine ⟨hm.tail ha s, ?_⟩
      have hok : x m.state = .ok a s := hx e m.state a s (hm.answers e (ha ▸ List.mem_cons_self)) h
      exact lift_ok (m := quiet m.state) hok
    · rename_i e' s h
      exact hm.tail ha s
    · trivial

theorem bind {x : Faulty ε σ α} {f : α → Faulty ε σ β} (hx : Exact retryable doomed x)
    (hf : ∀ a, Exact retryable doomed (f a)) : Exact retryable doomed (x >>= f) := by
  intro m hm
  cases h : x m with
  | ok a m1 =>
      obtain ⟨hm1, hq⟩ := hx.ok hm h
      rw [Act.bind_run h, Act.bind_run hq]
      exact hf a m1 hm1
  | err e m1 =>
      rw [Act.bind_run_err h]
      cases e with
      | transient e => exact hx.transient hm h
      | reported e =>
          rcases hx.reported hm h with ⟨hm1, hq⟩ | hd
          · exact .inl ⟨hm1, Act.bind_run_err hq⟩
          · exact .inr hd
      | unfinished => trivial
  | panic =>
      have hp : (x >>= f) m = .panic := by
        show Act.andThen x f m = .panic
        unfold Act.andThen
        rw [h]
      rw [hp]
      trivial

theorem ite {p : Prop} [Decidable p] {x y : Faulty ε σ α} (hx : Exact retryable doomed x)
    (hy : Exact retryable doomed y) : Exact retryable doomed (if p then x else y) := by
  by_cases hp : p
  · rwa [if_pos hp]
  · rwa [if_neg hp]

/-- The handler of a doomed run reports an error again. -/
theorem catchReported {x : Faulty ε σ α} {h : ε → Faulty ε σ α} (hx : Exact retryable doomed x)
    (hh : ∀ e, Exact retryable doomed' (h e))
    (hd : ∀ e m, doomed m.state → ∃ e' m', h e m = .err (.reported e') m' ∧ doomed' m'.state) :
    Exact retryable doomed' (Faulty.catchReported x h) := by
  intro m hm
  unfold Faulty.catchReported
  cases hr : x m with
  | ok a m1 =>
      obtain ⟨hm1, hq⟩ := hx.ok hm hr
      rw [hq]
      exact ⟨hm1, rfl⟩
  | err e m1 =>
      cases e with
      | transient e => exact hx.transient hm hr
      | reported e =>
          rcases hx.reported hm hr with ⟨hm1, hq⟩ | hdoomed
          · rw [hq]
            exact hh e m1 hm1
          · obtain ⟨e', m', hrun, hd'⟩ := hd e m1 hdoomed
            dsimp only
            rw [hrun]
            exact .inr hd'
      | unfinished => trivial
  | panic => trivial

theorem onRefusal {x : Faulty ε σ α} {note : σ → σ} (hx : Exact retryable doomed x)
    (hn : ∀ s, doomed s → doomed (note s)) : Exact retryable doomed (Faulty.onRefusal x note) := by
  intro m hm
  unfold Faulty.onRefusal
  cases hr : x m with
  | ok a m1 =>
      obtain ⟨hm1, hq⟩ := hx.ok hm hr
      rw [hq]
      exact ⟨hm1, rfl⟩
  | err e m1 =>
      cases e with
      | transient e => exact (hx.transient hm hr).setState _
      | reported e =>
          rcases hx.reported hm hr with ⟨hm1, hq⟩ | hd
          · rw [hq]
            exact .inl ⟨hm1.setState _, rfl⟩
          · exact .inr (hn _ hd)
      | unfinished => trivial
  | panic => trivial

theorem each {f : α → Faulty ε σ Unit} (l : List α) (hf : ∀ a, Exact retryable doomed (f a)) :
    Exact retryable doomed (Act.each l f) := by
  induction l with
  | nil => exact pure ()
  | cons a as ih => exact bind (hf a) fun _ => ih

theorem loop {c : σ → Bool} {body : Faulty ε σ Bool} (hb : Exact retryable doomed body) (n : ℕ) :
    Exact retryable doomed (Faulty.loop c body n) := by
  induction n with
  | zero => exact bind state fun s => ite unfinished (pure false)
  | succ n ih =>
      exact bind state fun s => ite (bind hb fun _ => bind ih fun _ => pure _) (pure false)

end Exact

/-! ### What a refusal leaves -/

/-- No call of `x` is refused. -/
def Unrefused (x : Faulty ε σ α) : Prop := ∀ m e m1, x m ≠ .err (.transient e) m1

/-- A refused call of `x` leaves the state as it was. -/
def Firm (x : Faulty ε σ α) : Prop :=
  ∀ m e m1, x m = .err (.transient e) m1 → m1.state = m.state

namespace Unrefused

theorem pure (a : α) : Unrefused (Pure.pure a : Faulty ε σ α) := by
  intro m e m1 h
  cases h

theorem state : Unrefused (Faulty.state : Faulty ε σ σ) := by
  intro m e m1 h
  cases h

theorem fail (e : ε) : Unrefused (Faulty.fail e : Faulty ε σ α) := by
  intro m e m1 h
  cases h

theorem panic : Unrefused (fun _ => .panic : Faulty ε σ α) := by
  intro m e m1 h
  cases h

theorem lift (x : Act ε σ α) : Unrefused (Faulty.lift x) := by
  intro m e m1 h
  unfold Faulty.lift at h
  split at h <;> cases h

theorem refuseFinal : Unrefused (Faulty.refuseFinal : Faulty ε σ Unit) := by
  intro m e m1 h
  unfold Faulty.refuseFinal at h
  split at h <;> cases h

theorem bind {x : Faulty ε σ α} {f : α → Faulty ε σ β} (hx : Unrefused x)
    (hf : ∀ a, Unrefused (f a)) : Unrefused (x >>= f) := by
  intro m e m1 h
  cases hr : x m with
  | ok a m2 =>
      rw [Act.bind_run hr] at h
      exact hf a m2 e m1 h
  | err e' m2 =>
      rw [Act.bind_run_err hr] at h
      cases h
      exact hx m e m1 hr
  | panic =>
      have h : Act.andThen x f m = .err (.transient e) m1 := h
      unfold Act.andThen at h
      rw [hr] at h
      cases h

theorem ite {p : Prop} [Decidable p] {x y : Faulty ε σ α} (hx : Unrefused x) (hy : Unrefused y) :
    Unrefused (if p then x else y) := by
  by_cases hp : p
  · rwa [if_pos hp]
  · rwa [if_neg hp]

theorem each {f : α → Faulty ε σ Unit} (l : List α) (hf : ∀ a, Unrefused (f a)) :
    Unrefused (Act.each l f) := by
  induction l with
  | nil => exact pure ()
  | cons a as ih => exact bind (hf a) fun _ => ih

theorem catchReported {x : Faulty ε σ α} {h : ε → Faulty ε σ α} (hx : Unrefused x)
    (hh : ∀ e, Unrefused (h e)) : Unrefused (Faulty.catchReported x h) := by
  intro m e m1 hr
  unfold Faulty.catchReported at hr
  split at hr
  · cases hr
  · exact hh _ _ _ _ hr
  · rename_i e' m' hx'
    exact hx _ _ _ hx'
  · cases hr
  · cases hr

end Unrefused

namespace Firm

theorem of_unrefused {x : Faulty ε σ α} (hx : Unrefused x) : Firm x :=
  fun m e m1 h => absurd h (hx m e m1)

theorem refuse : Firm (Faulty.refuse : Faulty ε σ Unit) := by
  intro m e m1 h
  unfold Faulty.refuse at h
  split at h <;> cases h
  rfl

theorem served {x : Act ε σ α} {refused : ε → Act ε σ α}
    (hx : ∀ e s e' s', refused e s = .err e' s' → s' = s) : Firm (Faulty.served x refused) := by
  intro m e m1 h
  unfold Faulty.served at h
  split at h
  · exact absurd h (Unrefused.lift x _ _ _)
  · exact absurd h (Unrefused.lift x _ _ _)
  · split at h
    · cases h
    · rename_i e' s hs
      cases h
      exact hx _ _ _ _ hs
    · cases h

/-- Only the first part can be refused. -/
theorem bind {x : Faulty ε σ α} {f : α → Faulty ε σ β} (hx : Firm x) (hf : ∀ a, Unrefused (f a)) :
    Firm (x >>= f) := by
  intro m e m1 h
  cases hr : x m with
  | ok a m2 =>
      rw [Act.bind_run hr] at h
      exact absurd h (hf a m2 e m1)
  | err e' m2 =>
      rw [Act.bind_run_err hr] at h
      cases h
      exact hx m e m1 hr
  | panic =>
      have h : Act.andThen x f m = .err (.transient e) m1 := h
      unfold Act.andThen at h
      rw [hr] at h
      cases h

theorem state_bind {f : σ → Faulty ε σ β} (hf : ∀ s, Firm (f s)) : Firm (Faulty.state >>= f) :=
  fun m e m1 h => hf m.state m e m1 h

theorem ite {p : Prop} [Decidable p] {x y : Faulty ε σ α} (hx : Firm x) (hy : Firm y) :
    Firm (if p then x else y) := by
  by_cases hp : p
  · rwa [if_pos hp]
  · rwa [if_neg hp]

end Firm

/-! ### What a success leaves -/

section carries
variable {γ : Type} {f : σ → γ}

theorem carries_state : Act.Carries (fun m : Served ε σ => f m.state) Faulty.state := fun _ => rfl

theorem carries_lift {x : Act ε σ α} (hx : Act.Carries f x) :
    Act.Carries (fun m : Served ε σ => f m.state) (lift x) := by
  intro m
  have h := hx m.state
  unfold Act.wp lift at *
  cases hr : x m.state with
  | ok a s =>
      rw [hr] at h
      exact h
  | err e s => trivial
  | panic => trivial

theorem carries_refuse : Act.Carries (fun m : Served ε σ => f m.state) Faulty.refuse := by
  intro m
  unfold Act.wp refuse
  cases m.answers with
  | nil => rfl
  | cons a as =>
      cases a with
      | none => rfl
      | some e => trivial

theorem carries_refuseFinal : Act.Carries (fun m : Served ε σ => f m.state) Faulty.refuseFinal := by
  intro m
  unfold Act.wp refuseFinal
  cases m.finalAnswers with
  | nil => rfl
  | cons a as =>
      cases a with
      | none => rfl
      | some e => trivial

theorem carries_served {x : Act ε σ α} {refused : ε → Act ε σ α} (hx : Act.Carries f x)
    (hr : ∀ e, Act.Carries f (refused e)) :
    Act.Carries (fun m : Served ε σ => f m.state) (served x refused) := by
  intro m
  unfold Act.wp served
  cases m.answers with
  | nil => exact carries_lift hx m
  | cons a as =>
      cases a with
      | none => exact carries_lift hx { m with answers := as }
      | some e =>
          have h := hr e m.state
          unfold Act.wp at h
          dsimp only
          cases hs : refused e m.state with
          | ok a s =>
              rw [hs] at h
              exact h
          | err e' s => trivial
          | panic => trivial

/-- A handler that fails itself. -/
theorem carries_catchReported {x : Faulty ε σ α} {h : ε → Faulty ε σ α}
    (hx : Act.Carries (fun m : Served ε σ => f m.state) x)
    (hh : ∀ e m, (h e).wp (fun _ _ => False) (fun _ _ => True) m) :
    Act.Carries (fun m : Served ε σ => f m.state) (catchReported x h) := by
  intro m
  have hm := hx m
  unfold Act.wp catchReported at *
  cases hr : x m with
  | ok a m' =>
      rw [hr] at hm
      exact hm
  | err e m' =>
      cases e with
      | transient e => trivial
      | reported e => exact Act.wp_mono (hh e m') (fun _ _ h => h.elim) fun _ _ _ => trivial
      | unfinished => trivial
  | panic => trivial

end carries

/-! ### Parts of a computation that is refused at its first call at most -/

section plain
variable {γ : Type} {retryable : ε → Prop} {doomed doomed' : σ → Prop} {f : σ → γ}

/-- A computation without calls that are repeated; `f` of the state survives a success. -/
structure Plain (retryable : ε → Prop) (doomed : σ → Prop) (f : σ → γ) (x : Faulty ε σ α) : Prop where
  exact : Exact retryable doomed x
  unrefused : Unrefused x
  carries : Act.Carries (fun m : Served ε σ => f m.state) x

/-- A computation that leaves the state as it was when a call is refused; `f` of the state survives
a success. -/
structure Guarded (retryable : ε → Prop) (doomed : σ → Prop) (f : σ → γ) (x : Faulty ε σ α) : Prop where
  exact : Exact retryable doomed x
  firm : Firm x
  carries : Act.Carries (fun m : Served ε σ => f m.state) x

namespace Plain

theorem pure (a : α) : Plain retryable doomed f (Pure.pure a : Faulty ε σ α) :=
  ⟨.pure a, .pure a, .pure a⟩

theorem fail (e : ε) : Plain retryable doomed f (Faulty.fail e : Faulty ε σ α) :=
  ⟨.fail e, .fail e, .throw _⟩

theorem panic : Plain retryable doomed f (fun _ => .panic : Faulty ε σ α) :=
  ⟨fun _ _ => trivial, .panic, .panic⟩

theorem lift {x : Act ε σ α} (hx : Act.Carries f x) : Plain retryable doomed f (Faulty.lift x) :=
  ⟨.lift x, .lift x, carries_lift hx⟩

theorem refuseFinal : Plain retryable (fun _ => True) f (Faulty.refuseFinal : Faulty ε σ Unit) :=
  ⟨.refuseFinal, .refuseFinal, carries_refuseFinal⟩

theorem bind {x : Faulty ε σ α} {g : α → Faulty ε σ β} (hx : Plain retryable doomed f x)
    (hg : ∀ a, Plain retryable doomed f (g a)) : Plain retryable doomed f (x >>= g) :=
  ⟨.bind hx.exact fun a => (hg a).exact, .bind hx.unrefused fun a => (hg a).unrefused,
    .bind hx.carries fun a => (hg a).carries⟩

theorem state_bind {g : σ → Faulty ε σ β} (hg : ∀ s, Plain retryable doomed f (g s)) :
    Plain retryable doomed f (Faulty.state >>= g) :=
  bind ⟨.state, .state, carries_state⟩ hg

theorem ite {p : Prop} [Decidable p] {x y : Faulty ε σ α} (hx : Plain retryable doomed f x)
    (hy : Plain retryable doomed f y) : Plain retryable doomed f (if p then x else y) :=
  ⟨.ite hx.exact hy.exact, .ite hx.unrefused hy.unrefused, .ite hx.carries hy.carries⟩

theorem each {g : α → Faulty ε σ Unit} (l : List α) (hg : ∀ a, Plain retryable doomed f (g a)) :
    Plain retryable doomed f (Act.each l g) :=
  ⟨.each l fun a => (hg a).exact, .each l fun a => (hg a).unrefused,
    .each l fun a => (hg a).carries⟩

/-- A failure with a last change of the state. -/
theorem lift_fail (x : Act ε σ Unit) (e : ε) :
    Plain retryable doomed f (Faulty.lift x >>= fun _ => (Faulty.fail e : Faulty ε σ α)) := by
  refine ⟨.bind (.lift x) fun _ => .fail e, .bind (.lift x) fun _ => .fail e, .of_fails fun m => ?_⟩
  rw [Act.wp_bind]
  unfold Act.wp
  cases Faulty.lift x m <;> trivial

/-- A handler that fails itself. -/
theorem catchReported {x : Faulty ε σ α} {h : ε → Faulty ε σ α} (hx : Plain retryable doomed f x)
    (hh : ∀ e, Exact retryable doomed' (h e)) (hu : ∀ e, Unrefused (h e))
    (hf : ∀ e m, (h e).wp (fun _ _ => False) (fun _ _ => True) m)
    (hd : ∀ e m, doomed m.state → ∃ e' m', h e m = .err (.reported e') m' ∧ doomed' m'.state) :
    Plain retryable doomed' f (Faulty.catchReported x h) :=
  ⟨.catchReported hx.exact hh hd, .catchReported hx.unrefused hu, carries_catchReported hx.carries hf⟩

end Plain

namespace Guarded

theorem of_plain {x : Faulty ε σ α} (hx : Plain retryable doomed f x) : Guarded retryable doomed f x :=
  ⟨hx.exact, .of_unrefused hx.unrefused, hx.carries⟩

theorem refuse : Guarded retryable doomed f (Faulty.refuse : Faulty ε σ Unit) :=
  ⟨.refuse, .refuse, carries_refuse⟩

/-- Only the first part can be refused. -/
theorem bind {x : Faulty ε σ α} {g : α → Faulty ε σ β} (hx : Guarded retryable doomed f x)
    (hg : ∀ a, Plain retryable doomed f (g a)) : Guarded retryable doomed f (x >>= g) :=
  ⟨.bind hx.exact fun a => (hg a).exact, .bind hx.firm fun a => (hg a).unrefused,
    .bind hx.carries fun a => (hg a).carries⟩

theorem state_bind {g : σ → Faulty ε σ β} (hg : ∀ s, Guarded retryable doomed f (g s)) :
    Guarded retryable doomed f (Faulty.state >>= g) :=
  ⟨.bind .state fun s => (hg s).exact, .state_bind fun s => (hg s).firm,
    .bind carries_state fun s => (hg s).carries⟩

theorem ite {p : Prop} [Decidable p] {x y : Faulty ε σ α} (hx : Guarded retryable doomed f x)
    (hy : Guarded retryable doomed f y) : Guarded retryable doomed f (if p then x else y) :=
  ⟨.ite hx.exact hy.exact, .ite hx.firm hy.firm, .ite hx.carries hy.carries⟩

theorem comp {δ : Type} {x : Faulty ε σ α} (h : Guarded retryable doomed f x) (g : γ → δ) :
    Guarded retryable doomed (fun s => g (f s)) x :=
  ⟨h.exact, h.firm, h.carries.comp g⟩

theorem served {x : Act ε σ α} {refused : ε → Act ε σ α}
    (hx : ∀ e s a s', retryable e → refused e s = .ok a s' → x s = .ok a s')
    (hr : ∀ e s e' s', refused e s = .err e' s' → s' = s) (hc : Act.Carries f x)
    (hc' : ∀ e, Act.Carries f (refused e)) : Guarded retryable doomed f (Faulty.served x refused) :=
  ⟨.served hx, .served hr, carries_served hc hc'⟩

end Guarded

end plain

/-! ### Bounds on the rounds -/

/-- A run with a smaller bound runs into it or ends like one with a larger bound. -/
def Stable (c : ℕ → Faulty ε σ α) : Prop :=
  ∀ n k m, n ≤ k → (∃ m', c n m = .err .unfinished m') ∨ c n m = c k m

/-- A computation with a bound on its loops, whose outcomes do not depend on the answers of the
service nor, when there are any, on the bound. -/
structure Steady (retryable : ε → Prop) (doomed : σ → Prop) (c : ℕ → Faulty ε σ α) : Prop where
  exact : ∀ n, Exact retryable doomed (c n)
  stable : Stable c

namespace Steady

theorem const {x : Faulty ε σ α} (hx : Exact retryable doomed x) : Steady retryable doomed (fun _ => x) :=
  ⟨fun _ => hx, fun _ _ _ _ => Or.inr rfl⟩

theorem bind {x : ℕ → Faulty ε σ α} {f : ℕ → α → Faulty ε σ β} (hx : Steady retryable doomed x)
    (hf : ∀ a, Steady retryable doomed (fun n => f n a)) : Steady retryable doomed (fun n => x n >>= f n) := by
  refine ⟨fun n => (hx.exact n).bind fun a => (hf a).exact n, ?_⟩
  intro n k m hnk
  rcases hx.stable n k m hnk with ⟨m', h⟩ | h
  · exact Or.inl ⟨m', Act.bind_run_err h⟩
  · cases hn : x n m with
    | ok a m1 =>
        have hk : x k m = .ok a m1 := h ▸ hn
        show (∃ m', (x n >>= f n) m = .err .unfinished m') ∨ (x n >>= f n) m = (x k >>= f k) m
        rw [Act.bind_run hn, Act.bind_run hk]
        exact (hf a).stable n k m1 hnk
    | err e m1 =>
        have hk : x k m = .err e m1 := h ▸ hn
        exact Or.inr ((Act.bind_run_err hn).trans (Act.bind_run_err hk).symm)
    | panic =>
        have hk : x k m = .panic := h ▸ hn
        refine Or.inr ?_
        show Act.andThen (x n) (f n) m = Act.andThen (x k) (f k) m
        unfold Act.andThen
        rw [hn, hk]

theorem ite {p : Prop} [Decidable p] {x y : ℕ → Faulty ε σ α} (hx : Steady retryable doomed x)
    (hy : Steady retryable doomed y) : Steady retryable doomed (fun n => if p then x n else y n) := by
  by_cases hp : p
  · simp only [hp, if_true]
    exact hx
  · simp only [hp, if_false]
    exact hy

theorem loop_stable {c : σ → Bool} {body : ℕ → Faulty ε σ Bool} (hb : Steady retryable doomed body)
    {n k : ℕ} (hnk : n ≤ k) (i : ℕ) : ∀ j m, i ≤ j →
      (∃ m', loop c (body n) i m = .err .unfinished m') ∨
        loop c (body n) i m = loop c (body k) j m := by
  induction i with
  | zero =>
      intro j m _
      by_cases hc : c m.state = true
      · refine Or.inl ⟨m, ?_⟩
        show (if c m.state = true then _ else _ : Faulty ε σ Bool) m = _
        rw [if_pos hc]
        rfl
      · refine Or.inr ?_
        have hstop (x : ℕ) (i : ℕ) : loop c (body x) i m = .ok false m := by
          cases i with
          | zero =>
              show (if c m.state = true then _ else _ : Faulty ε σ Bool) m = _
              rw [if_neg hc]
              rfl
          | succ i =>
              show (if c m.state = true then _ else _ : Faulty ε σ Bool) m = _
              rw [if_neg hc]
              rfl
        rw [hstop, hstop]
  | succ i ih =>
      intro j m hij
      obtain ⟨j, rfl⟩ : ∃ j', j = j' + 1 := ⟨j - 1, by omega⟩
      show (∃ m', (if c m.state = true then _ else _ : Faulty ε σ Bool) m = .err .unfinished m') ∨
        (if c m.state = true then _ else _ : Faulty ε σ Bool) m =
          (if c m.state = true then _ else _ : Faulty ε σ Bool) m
      by_cases hc : c m.state = true
      · rw [if_pos hc, if_pos hc]
        rcases hb.stable n k m hnk with ⟨m', h⟩ | h
        · exact Or.inl ⟨m', Act.bind_run_err h⟩
        · cases hn : body n m with
          | ok a m1 =>
              have hk : body k m = .ok a m1 := h ▸ hn
              rw [Act.bind_run hn, Act.bind_run hk]
              rcases ih j m1 (by omega) with ⟨m', h'⟩ | h'
              · exact Or.inl ⟨m', Act.bind_run_err h'⟩
              · refine Or.inr ?_
                show Act.andThen (loop c (body n) i) _ m1 = Act.andThen (loop c (body k) j) _ m1
                unfold Act.andThen
                rw [h']
          | err e m1 =>
              have hk : body k m = .err e m1 := h ▸ hn
              exact Or.inr ((Act.bind_run_err hn).trans (Act.bind_run_err hk).symm)
          | panic =>
              have hk : body k m = .panic := h ▸ hn
              refine Or.inr ?_
              show Act.andThen (body n) _ m = Act.andThen (body k) _ m
              unfold Act.andThen
              rw [hn, hk]
      · rw [if_neg hc, if_neg hc]
        exact Or.inr rfl

theorem loop {c : σ → Bool} {body : ℕ → Faulty ε σ Bool} (hb : Steady retryable doomed body) :
    Steady retryable doomed (fun n => Faulty.loop c (body n) n) :=
  ⟨fun n => (hb.exact n).loop n, fun n k m hnk => loop_stable hb hnk n k m hnk⟩

end Steady

/-! ### How undisturbed runs end -/

/-- An undisturbed run, with a bound that suffices, returns `a`. -/
def Returns (c : ℕ → Faulty ε σ α) (s : σ) (a : α) (s' : σ) : Prop :=
  ∃ n, c n (quiet s) = .ok a (quiet s')

/-- An undisturbed run, with a bound that suffices, reports `e`. -/
def Fails (c : ℕ → Faulty ε σ α) (s : σ) (e : ε) (s' : σ) : Prop :=
  ∃ n, c n (quiet s) = .err (.reported e) (quiet s')

/-- How an undisturbed run ends. -/
def Ends (c : ℕ → Faulty ε σ α) (s : σ) : Ending ε σ → Prop
  | .done s' => ∃ a, Returns c s a s'
  | .failed e s' => Fails c s e s'

section ends
variable {x : ℕ → Faulty ε σ α} {f : ℕ → α → Faulty ε σ β} {s s' : σ} {a : α} {r : Ending ε σ}

theorem Steady.lift_le (hx : Steady retryable doomed x) {n k : ℕ} {m : Served ε σ}
    {o : Outcome (Failure ε) (Served ε σ) α} (hnk : n ≤ k) (h : x n m = o)
    (ho : ∀ m', o ≠ .err .unfinished m') : x k m = o := by
  rcases hx.stable n k m hnk with ⟨m', h'⟩ | h'
  · exact absurd (h.symm.trans h') (ho m')
  · exact h'.symm.trans h

theorem Ends.of_bind (hx : Steady retryable doomed x) (hf : ∀ a, Steady retryable doomed (fun n => f n a))
    (h : Returns x s a s') (hr : Ends (fun n => f n a) s' r) :
    Ends (fun n => x n >>= f n) s r := by
  obtain ⟨n, hn⟩ := h
  cases r with
  | done t =>
      obtain ⟨b, k, hk⟩ := hr
      refine ⟨b, max n k, ?_⟩
      have hn' := hx.lift_le (Nat.le_max_left n k) hn (by intro m' h; cases h)
      have hk' := (hf a).lift_le (Nat.le_max_right n k) hk (by intro m' h; cases h)
      exact (Act.bind_run hn').trans hk'
  | failed e t =>
      obtain ⟨k, hk⟩ := hr
      refine ⟨max n k, ?_⟩
      have hn' := hx.lift_le (Nat.le_max_left n k) hn (by intro m' h; cases h)
      have hk' := (hf a).lift_le (Nat.le_max_right n k) hk (by intro m' h; cases h)
      exact (Act.bind_run hn').trans hk'

theorem Fails.bind {e : ε} (h : Fails x s e s') : Fails (fun n => x n >>= f n) s e s' := by
  obtain ⟨n, hn⟩ := h
  exact ⟨n, Act.bind_run_err hn⟩

theorem Ends.bind_elim (hx : Steady retryable doomed x) (h : Ends (fun n => x n >>= f n) s r) :
    (∃ a s1, Returns x s a s1 ∧ Ends (fun n => f n a) s1 r) ∨
      ∃ e s1, Fails x s e s1 ∧ r = .failed e s1 := by
  have hstep (n : ℕ) {o : Outcome (Failure ε) (Served ε σ) β} (hn : (x n >>= f n) (quiet s) = o)
      (hp : o ≠ .panic) : (∃ a s1, x n (quiet s) = .ok a (quiet s1) ∧ f n a (quiet s1) = o) ∨
        ∃ e m1, x n (quiet s) = .err e m1 ∧ o = .err e m1 := by
    cases hxn : x n (quiet s) with
    | ok a m1 =>
        have hm1 := (hx.exact n).ok_quiet hxn
        rw [Act.bind_run hxn] at hn
        refine Or.inl ⟨a, m1.state, ?_, ?_⟩
        · rw [← hm1]
        · rw [← hm1]
          exact hn
    | err e m1 =>
        rw [Act.bind_run_err hxn] at hn
        exact Or.inr ⟨e, m1, rfl, hn.symm⟩
    | panic =>
        refine absurd ?_ hp
        rw [← hn]
        show Act.andThen (x n) (f n) (quiet s) = .panic
        unfold Act.andThen
        rw [hxn]
  cases r with
  | done t =>
      obtain ⟨b, n, hn⟩ := h
      rcases hstep n hn (by intro h; cases h) with ⟨a, s1, h1, h2⟩ | ⟨e, m1, _, h2⟩
      · exact Or.inl ⟨a, s1, ⟨n, h1⟩, b, n, h2⟩
      · cases h2
  | failed e t =>
      obtain ⟨n, hn⟩ := h
      rcases hstep n hn (by intro h; cases h) with ⟨a, s1, h1, h2⟩ | ⟨e', m1, h1, h2⟩
      · exact Or.inl ⟨a, s1, ⟨n, h1⟩, n, h2⟩
      · cases h2
        exact Or.inr ⟨e, t, ⟨n, h1⟩, rfl⟩

end ends

section loops
variable {c : σ → Bool} {body : ℕ → Faulty ε σ Bool} {s s1 : σ} {r : Ending ε σ}

theorem loop_run_stop {x : Faulty ε σ Bool} {m : Served ε σ} (hc : c m.state = false) (i : ℕ) :
    loop c x i m = .ok false m := by
  have hc : ¬ c m.state = true := by simp [hc]
  cases i with
  | zero =>
      show (if c m.state = true then _ else _ : Faulty ε σ Bool) m = _
      rw [if_neg hc]
      rfl
  | succ i =>
      show (if c m.state = true then _ else _ : Faulty ε σ Bool) m = _
      rw [if_neg hc]
      rfl

/-- A loop whose condition is false ends at once. -/
theorem Ends.loop_stop (hc : c s = false) : Ends (fun n => loop c (body n) n) s (.done s) :=
  ⟨false, 0, loop_run_stop (m := quiet s) hc 0⟩

end loops

/-- Computations that run alike end alike. -/
theorem Ends.congr {c c' : ℕ → Faulty ε σ α} {s s' : σ} (hrun : ∀ n, c n (quiet s) = c' n (quiet s'))
    {r : Ending ε σ}
    (h : Ends c s r) : Ends c' s' r := by
  cases r with
  | done t =>
      obtain ⟨a, n, hn⟩ := h
      exact ⟨a, n, (hrun n).symm.trans hn⟩
  | failed e t =>
      obtain ⟨n, hn⟩ := h
      exact ⟨n, (hrun n).symm.trans hn⟩

/-- There is one ending. -/
theorem Ends.unique {c : ℕ → Faulty ε σ α} (hs : Steady retryable doomed c) {s : σ} {r r' : Ending ε σ}
    (h : Ends c s r)
    (h' : Ends c s r') : r = r' := by
  cases r with
  | done t =>
      obtain ⟨a, n, hn⟩ := h
      cases r' with
      | done t' =>
          obtain ⟨a', k, hk⟩ := h'
          have h1 := hs.lift_le (Nat.le_max_left n k) hn (by intro m' h; cases h)
          have h2 := hs.lift_le (Nat.le_max_right n k) hk (by intro m' h; cases h)
          cases h1.symm.trans h2
          rfl
      | failed e t' =>
          obtain ⟨k, hk⟩ := h'
          have h1 := hs.lift_le (Nat.le_max_left n k) hn (by intro m' h; cases h)
          have h2 := hs.lift_le (Nat.le_max_right n k) hk (by intro m' h; cases h)
          cases h1.symm.trans h2
  | failed e t =>
      obtain ⟨n, hn⟩ := h
      cases r' with
      | done t' =>
          obtain ⟨a', k, hk⟩ := h'
          have h1 := hs.lift_le (Nat.le_max_left n k) hn (by intro m' h; cases h)
          have h2 := hs.lift_le (Nat.le_max_right n k) hk (by intro m' h; cases h)
          cases h1.symm.trans h2
      | failed e' t' =>
          obtain ⟨k, hk⟩ := h'
          have h1 := hs.lift_le (Nat.le_max_left n k) hn (by intro m' h; cases h)
          have h2 := hs.lift_le (Nat.le_max_right n k) hk (by intro m' h; cases h)
          cases h1.symm.trans h2
          rfl

/-! ### Repeating what was refused -/

/-- A run from `s1` ends as a run from `s` does. -/
def Follows (c : ℕ → Faulty ε σ α) (s s1 : σ) : Prop := ∀ r, Ends c s1 r → Ends c s r

theorem Follows.refl (c : ℕ → Faulty ε σ α) (s : σ) : Follows c s s := fun _ h => h

theorem Follows.trans {c : ℕ → Faulty ε σ α} {s s1 s2 : σ} (h : Follows c s s1)
    (h' : Follows c s1 s2) : Follows c s s2 :=
  fun r hr => h r (h' r hr)

/-- After a refusal the computation can be run again from the state it left. -/
def Resumes (retryable : ε → Prop) (c : ℕ → Faulty ε σ α) : Prop :=
  ∀ n m e m1, Allowed retryable m → c n m = .err (.transient e) m1 → Follows c m.state m1.state

/-- What comes next follows, when it does not depend on the result. -/
theorem Follows.bind {x : ℕ → Faulty ε σ α} {y : ℕ → Faulty ε σ β} (hx : Steady retryable doomed x)
    (hy : Steady retryable doomed y)
    {s s1 : σ} (h : Follows x s s1) : Follows (fun n => x n >>= fun _ => y n) s s1 := by
  intro r hend
  rcases hend.bind_elim hx with ⟨a, s2, ha, hend⟩ | ⟨e, s2, he, rfl⟩
  · obtain ⟨a', ha'⟩ := h (.done s2) ⟨a, ha⟩
    exact Ends.of_bind hx (fun _ => hy) ha' hend
  · exact Fails.bind (h (.failed e s2) he)

/-- Run a computation without refusals, and again each time it reports an error, until it succeeds. -/
inductive Undisturbed (c : ℕ → Faulty ε σ α) : σ → σ → Prop
  | done {s s' : σ} (h : Ends c s (.done s')) : Undisturbed c s s'
  | reported {s s1 s' : σ} {e : ε} (h : Ends c s (.failed e s1)) (ht : Undisturbed c s1 s') : Undisturbed c s s'

theorem Undisturbed.follows {c : ℕ → Faulty ε σ α} {s s1 s' : σ} (hf : Follows c s s1)
    (h : Undisturbed c s1 s') :
    Undisturbed c s s' := by
  cases h with
  | done h => exact .done (hf _ h)
  | reported h ht => exact .reported (hf _ h) ht

/-- There is one state in which repeating ends. -/
theorem Undisturbed.unique {c : ℕ → Faulty ε σ α} (hs : Steady retryable doomed c) {s s' s'' : σ}
    (h : Undisturbed c s s') (h' : Undisturbed c s s'') : s' = s'' := by
  induction h with
  | done h =>
      cases h' with
      | done h' =>
          cases h.unique hs h'
          rfl
      | reported h' _ => cases h.unique hs h'
  | reported h _ ih =>
      cases h' with
      | done h' => cases h.unique hs h'
      | reported h' ht' =>
          cases h.unique hs h'
          exact ih ht'

end Faulty
end Base
