import Mathlib.Algebra.GroupWithZero.Nat
import Mathlib.Data.List.Basic
import Mathlib.Data.Set.Basic
import Mathlib.Logic.Function.Basic
import Mathlib.Order.Basic

/-! # Chronicles

The history of a replicated log whose writers take turns.  Each term has at most one writer; its
log starts with what it had when it was chosen (`start` items) and goes on with items stamped by
its term.  Parties acknowledge prefixes of the logs of terms, and a writer is chosen by a quorum
of parties, each of which compares what it has acknowledged before.

A prefix that a quorum has acknowledged in the term of its last item is chosen.  Every later writer
starts with it (`Sound.complete`), so any two chosen prefixes agree (`Safe.agree`).  The induction
is on the order in which the writers were chosen, which need not be that of their terms: a party
may also acknowledge a prefix that a later term has already overruled, and such an acknowledgement
counts for nothing. -/

namespace Base

/-- Who wrote what, who acknowledged what, and in which order the writers were chosen. -/
structure Chronicle (α : Type) where
  log : ℕ → Option (List α)
  start : ℕ → ℕ
  rank : ℕ → ℕ
  next : ℕ
  ack : ℕ → ℕ → ℕ → Prop

namespace Chronicle

variable {α : Type} (stamp : α → ℕ) (H : Chronicle α)

/-- Nothing has happened. -/
def blank : Chronicle α := ⟨fun _ => none, fun _ => 0, fun _ => 0, 0, fun _ _ _ => False⟩

/-- Up to every item, the log is that of the item's term. -/
def Rooted (F : List α) : Prop :=
  ∀ k a, F[k]? = some a → ∃ L, H.log (stamp a) = some L ∧ L.take (k + 1) = F.take (k + 1)

/-- The first `n` items are those of the log of term `t`. -/
def Holds (F : List α) (t n : ℕ) : Prop := ∃ L, H.log t = some L ∧ n ≤ L.length ∧ F.take n = L.take n

/-- The log of term `t` has not, and will not get, the item at position `k`. -/
def Lacks (t k : ℕ) (a : α) : Prop :=
  ∃ L, H.log t = some L ∧ L[k]? ≠ some a ∧ (L.length ≤ k → stamp a ≠ t)

/-- The writer of term `u` did not start with the first `n` items of term `t`. -/
def Misses (t n u : ℕ) : Prop :=
  ∃ U, H.log u = some U ∧ (H.start u < n ∨ ∃ k < n, ∃ a, U[k]? = some a ∧ H.Lacks stamp t k a)

/-- The log has the first `n` items of term `t`, unless a later writer did not start with them. -/
def Bears (F : List α) (t n : ℕ) : Prop := H.Holds F t n ∨ ∃ u, t < u ∧ H.Misses stamp t n u

/-- The item at the end of the prefix is from an earlier term. -/
def Borrowed (t n : ℕ) : Prop := ∃ L a, H.log t = some L ∧ L[n - 1]? = some a ∧ stamp a ≠ t

/-- The item at the end of the prefix is of its term. -/
def Own (t n : ℕ) : Prop := 0 < n ∧ ∃ L a, H.log t = some L ∧ L[n - 1]? = some a ∧ stamp a = t

/-- The stamp at the end of a log. -/
def top (F : List α) : ℕ := (F.getLast?.map stamp).getD 0

/-- A log of this length, ending with this stamp, is no less than the first `n` items of term `t`. -/
def Beyond (len last t n : ℕ) : Prop := t < last ∨ (t = last ∧ n ≤ len)

variable (quorum : Set ℕ → Prop) (told : ℕ → ℕ → Prop)

/-- Writers start from logs of earlier writers and go on in their term; the quorum that chose one had told
so, and compared what it had acknowledged. -/
structure Sound : Prop where
  rooted : ∀ t L, H.log t = some L → H.Rooted stamp L
  pos : ∀ t L, H.log t = some L → 0 < t
  start_le : ∀ t L, H.log t = some L → H.start t ≤ L.length
  before : ∀ t L k a, H.log t = some L → L[k]? = some a → k < H.start t →
    stamp a < t ∧ H.rank (stamp a) < H.rank t
  after : ∀ t L k a, H.log t = some L → L[k]? = some a → H.start t ≤ k → stamp a = t
  ranked : ∀ t L, H.log t = some L → H.rank t < H.next
  won : ∀ t L, H.log t = some L → ∃ Q, quorum Q ∧ ∀ v ∈ Q, told v t ∧ ∀ s n, H.ack v s n → s < t → 0 < n →
    H.Borrowed stamp s n ∨ Beyond (H.start t) (top stamp (L.take (H.start t))) s n ∨
      ∃ u, s < u ∧ H.rank u < H.rank t ∧ H.Misses stamp s n u

/-- A quorum has acknowledged the prefix, which ends in its own term. -/
def Chosen (t n : ℕ) : Prop := H.Own stamp t n ∧ ∃ Q, quorum Q ∧ ∀ v ∈ Q, H.ack v t n

/-- The first `i` items are chosen. -/
def Safe (F : List α) (i : ℕ) : Prop :=
  i = 0 ∨ ∃ t n L, H.Chosen stamp quorum t n ∧ H.log t = some L ∧ i ≤ n ∧ F.take i = L.take i

/-- As far as the log of term `t` agrees with `F`'s memory of the first `n` items, so does `F`. -/
def Keeps (F : List α) (t n : ℕ) : Prop :=
  H.Holds F t n ∨ ∃ G L, H.Safe stamp quorum G n ∧ H.Rooted stamp G ∧ H.log t = some L ∧
    ∀ j ≤ n, j ≤ L.length → G.take j = L.take j → F.take j = G.take j

/-- What a log of somebody in term `u` has of what was acknowledged in term `t`. -/
def Recalls (F : List α) (u t n : ℕ) : Prop :=
  H.Bears stamp F t n ∧ (t = u → H.Keeps stamp quorum F t n)

variable {stamp H quorum told}

/-! ### Prefixes -/

theorem take_of_take {F L : List α} {n k : ℕ} (h : F.take n = L.take n) (hk : k ≤ n) : F.take k = L.take k := by
  have := congrArg (List.take k) h
  rwa [List.take_take, List.take_take, Nat.min_eq_left hk] at this

theorem getElem?_of_take {F L : List α} {n k : ℕ} (h : F.take n = L.take n) (hk : k < n) : F[k]? = L[k]? := by
  have := congrArg (fun l => l[k]?) h
  simpa [List.getElem?_take, hk] using this

theorem length_of_take {F L : List α} {n : ℕ} (h : F.take n = L.take n) (hn : n ≤ L.length) : n ≤ F.length := by
  have := congrArg List.length h
  simp only [List.length_take] at this
  omega

theorem top_take {F : List α} {n : ℕ} {a : α} (hn : 0 < n) (ha : F[n - 1]? = some a) :
    top stamp (F.take n) = stamp a := by
  obtain ⟨hlt, -⟩ := List.getElem?_eq_some_iff.mp ha
  unfold top
  rw [List.getLast?_eq_getElem?, List.length_take, Nat.min_eq_left (by omega), List.getElem?_take,
    if_pos (by omega), ha]
  rfl

theorem top_take_zero {F : List α} : top stamp (F.take 0) = 0 := rfl

theorem Safe.mono {F : List α} {i j : ℕ} (h : H.Safe stamp quorum F i) (hj : j ≤ i) :
    H.Safe stamp quorum F j := by
  rcases h with rfl | ⟨t, n, L, hc, hL, hi, htake⟩
  · exact Or.inl (Nat.le_zero.mp hj)
  · exact Or.inr ⟨t, n, L, hc, hL, hj.trans hi, take_of_take htake hj⟩

/-- Only the prefix matters. -/
theorem Safe.congr {F G : List α} {i : ℕ} (h : H.Safe stamp quorum F i) (heq : G.take i = F.take i) :
    H.Safe stamp quorum G i := by
  rcases h with rfl | ⟨t, n, L, hc, hL, hi, htake⟩
  · exact Or.inl rfl
  · exact Or.inr ⟨t, n, L, hc, hL, hi, heq.trans htake⟩

/-- What is chosen is there. -/
theorem Safe.le_length {F : List α} {i : ℕ} (h : H.Safe stamp quorum F i) : i ≤ F.length := by
  rcases h with rfl | ⟨t, n, L, ⟨⟨-, L', a, hL', ha, -⟩, -⟩, hL, hi, htake⟩
  · exact Nat.zero_le _
  · rw [hL] at hL'
    cases hL'
    have hlt := (List.getElem?_eq_some_iff.mp ha).1
    exact length_of_take htake (by omega)

/-- The items of a rooted log at one position and of one stamp have the same items before them. -/
theorem Rooted.agree {F G : List α} (hF : H.Rooted stamp F) (hG : H.Rooted stamp G) {k : ℕ} {a b : α}
    (ha : F[k]? = some a) (hb : G[k]? = some b) (hab : stamp a = stamp b) : F.take (k + 1) = G.take (k + 1) := by
  obtain ⟨L, hL, h1⟩ := hF k a ha
  obtain ⟨L', hL', h2⟩ := hG k b hb
  rw [hab, hL'] at hL
  cases hL
  exact h1.symm.trans h2

/-- Stamps do not decrease. -/
theorem Sound.sorted (hs : H.Sound stamp quorum told) {F : List α} (hF : H.Rooted stamp F) {j k : ℕ} {a b : α}
    (hjk : j ≤ k) (ha : F[j]? = some a) (hb : F[k]? = some b) : stamp a ≤ stamp b := by
  obtain ⟨L, hL, htake⟩ := hF k b hb
  rw [← getElem?_of_take htake (Nat.lt_succ_of_le hjk)] at ha
  rcases Nat.lt_or_ge j (H.start (stamp b)) with h | h
  · exact (hs.before _ L j a hL ha h).1.le
  · exact (hs.after _ L j a hL ha h).le

/-! ### Completeness -/

/-- A later writer that misses nothing starts with the prefix. -/
theorem not_misses {t n u : ℕ} {L U : List α} (hL : H.log t = some L) (hn : n ≤ H.start u) (hU : H.log u = some U)
    (htake : U.take n = L.take n) : ¬ H.Misses stamp t n u := by
  rintro ⟨U', hU', h⟩
  rw [hU] at hU'
  cases hU'
  rcases h with hlt | ⟨k, hk, a, ha, L', hL', hne, -⟩
  · omega
  · rw [hL] at hL'
    cases hL'
    exact hne ((getElem?_of_take htake hk).symm.trans ha)

/-- **Completeness.**  Every later writer starts with what is chosen. -/
theorem Sound.complete (hs : H.Sound stamp quorum told)
    (hmeet : ∀ Q Q', quorum Q → quorum Q' → ∃ v, v ∈ Q ∧ v ∈ Q') {t n : ℕ} {L : List α}
    (hc : H.Chosen stamp quorum t n) (hL : H.log t = some L) :
    ∀ r t' R, H.rank t' = r → t < t' → H.log t' = some R → n ≤ H.start t' ∧ R.take n = L.take n := by
  obtain ⟨⟨hpos, L', a, hL', ha, hat⟩, Q, hQ, hacks⟩ := hc
  rw [hL] at hL'
  cases hL'
  -- the earlier a writer was chosen, the sooner it is known to start with the prefix
  intro r
  induction r using Nat.strong_induction_on with
  | _ r ih =>
  rintro t' R rfl htt hR
  have hcover : ∀ u U, H.rank u < H.rank t' → t < u → H.log u = some U → n ≤ H.start u ∧ U.take n = L.take n :=
    fun u U hu htu hU => ih (H.rank u) hu u U rfl htu hU
  obtain ⟨Q', hQ', hwon⟩ := hs.won t' R hR
  obtain ⟨v, hv, hv'⟩ := hmeet Q Q' hQ hQ'
  rcases (hwon v hv').2 t n (hacks v hv) htt hpos with hb | hb | ⟨u, htu, hu, hmiss⟩
  · obtain ⟨L', b, hL', hb, hbt⟩ := hb
    rw [hL] at hL'
    cases hL'
    rw [ha] at hb
    cases hb
    exact absurd hat hbt
  · -- the stamp at the end of what the writer started with
    rcases Nat.eq_zero_or_pos (H.start t') with hzero | hspos
    · rw [hzero, top_take_zero] at hb
      rcases hb with hb | ⟨hb, -⟩
      · omega
      · exact absurd hb (hs.pos t L hL).ne'
    have hlen := hs.start_le t' R hR
    obtain ⟨b, hbget⟩ : ∃ b, R[H.start t' - 1]? = some b :=
      ⟨R[H.start t' - 1], List.getElem?_eq_getElem (by omega)⟩
    rw [top_take hspos hbget] at hb
    obtain ⟨W, hW, htakeW⟩ := hs.rooted t' R hR _ b hbget
    rw [Nat.sub_add_cancel hspos] at htakeW
    rcases hb with hlt | ⟨heq, hle⟩
    · obtain ⟨hnw, htw⟩ := hcover (stamp b) W (hs.before t' R _ b hR hbget (by omega)).2 hlt hW
      -- that stamp stands above the start of its own writer
      have hbW : W[H.start t' - 1]? = some b := (getElem?_of_take htakeW (by omega)).trans hbget
      have hsw : H.start (stamp b) < H.start t' := by
        by_contra hnot
        have := (hs.before (stamp b) W _ b hW hbW (by omega)).1
        omega
      exact ⟨by omega, (take_of_take htakeW (by omega)).symm.trans htw⟩
    · rw [← heq, hL] at hW
      cases hW
      exact ⟨hle, (take_of_take htakeW hle).symm⟩
  · obtain ⟨U, hU, -⟩ := id hmiss
    obtain ⟨h1, h2⟩ := hcover u U hu htu hU
    exact absurd hmiss (not_misses hL h1 hU h2)

/-- **Agreement.**  Two chosen prefixes are one, as far as both go. -/
theorem Safe.agree (hs : H.Sound stamp quorum told)
    (hmeet : ∀ Q Q', quorum Q → quorum Q' → ∃ v, v ∈ Q ∧ v ∈ Q') {F G : List α} {i j k : ℕ}
    (hF : H.Safe stamp quorum F i) (hG : H.Safe stamp quorum G j) (hi : k ≤ i) (hj : k ≤ j) :
    F.take k = G.take k := by
  rcases hF with rfl | ⟨t, n, L, hc, hL, hin, hFL⟩
  · rw [Nat.le_zero.mp hi]
    rfl
  rcases hG with rfl | ⟨t', n', L', hc', hL', hjn, hGL⟩
  · rw [Nat.le_zero.mp hj]
    rfl
  rw [take_of_take hFL hi, take_of_take hGL hj]
  rcases Nat.lt_trichotomy t t' with hlt | rfl | hgt
  · exact (take_of_take (hs.complete hmeet hc hL _ t' L' rfl hlt hL').2 (by omega)).symm
  · rw [hL] at hL'
    cases hL'
    rfl
  · exact take_of_take (hs.complete hmeet hc' hL' _ t L rfl hgt hL).2 (by omega)

/-! ### What is acknowledged -/

/-- A later writer that does not start with the items of a term misses them. -/
theorem Sound.misses (hs : H.Sound stamp quorum told) {t n u : ℕ} {W U : List α} (hW : H.log t = some W)
    (hU : H.log u = some U) (h : ¬(n ≤ H.start u ∧ n ≤ W.length ∧ U.take n = W.take n)) :
    H.Misses stamp t n u := by
  refine ⟨U, hU, ?_⟩
  rcases Nat.lt_or_ge (H.start u) n with hlt | hge
  · exact Or.inl hlt
  have hlen := hs.start_le u U hU
  -- the two logs differ somewhere below
  obtain ⟨k, hk, hne⟩ : ∃ k < n, U[k]? ≠ W[k]? := by
    by_contra hall
    have htake : U.take n = W.take n := by
      refine List.ext_getElem? fun k => ?_
      rw [List.getElem?_take, List.getElem?_take]
      split
      · rename_i hk
        by_contra hk'
        exact hall ⟨k, hk, hk'⟩
      · rfl
    exact h ⟨hge, length_of_take htake.symm (by omega), htake⟩
  obtain ⟨a, ha⟩ : ∃ a, U[k]? = some a := ⟨U[k], List.getElem?_eq_getElem (by omega)⟩
  refine Or.inr ⟨k, hk, a, ha, W, hW, fun hWa => hne (ha.trans hWa.symm), fun hle hat => ?_⟩
  obtain ⟨L, hL, htake⟩ := hs.rooted u U hU k a ha
  rw [hat, hW] at hL
  cases hL
  have := length_of_take htake (List.getElem?_eq_some_iff.mp ha).1
  omega

theorem Recalls.of_holds {F : List α} {u t n : ℕ} (h : H.Holds F t n) : H.Recalls stamp quorum F u t n :=
  ⟨Or.inl h, fun _ => Or.inl h⟩

/-- A party may acknowledge what it knows to be safe, also to a writer that does not have it. -/
theorem Recalls.of_safe (hs : H.Sound stamp quorum told)
    (hmeet : ∀ Q Q', quorum Q → quorum Q' → ∃ v, v ∈ Q ∧ v ∈ Q') {F L : List α} {u t n : ℕ}
    (hF : H.Rooted stamp F) (h : H.Safe stamp quorum F n) (hn : 0 < n) (hL : H.log t = some L) :
    H.Recalls stamp quorum F u t n := by
  refine ⟨?_, fun _ => Or.inr ⟨F, L, h, hF, hL, fun _ _ _ _ => rfl⟩⟩
  rcases h with rfl | ⟨t', n', L', hc, hL', hle, htake⟩
  · omega
  rcases Nat.lt_trichotomy t' t with hlt | rfl | hgt
  · obtain ⟨hstart, heq⟩ := hs.complete hmeet hc hL' _ t L rfl hlt hL
    have hlen := hs.start_le t L hL
    exact Or.inl ⟨L, hL, by omega, htake.trans (take_of_take heq hle).symm⟩
  · rw [hL] at hL'
    cases hL'
    have hlen : n' ≤ L.length := by
      obtain ⟨⟨-, W, a, hW, ha, -⟩, -⟩ := hc
      rw [hL] at hW
      cases hW
      have := (List.getElem?_eq_some_iff.mp ha).1
      omega
    exact Or.inl ⟨L, hL, hle.trans hlen, htake⟩
  · by_cases hsame : n ≤ H.start t' ∧ n ≤ L.length ∧ L'.take n = L.take n
    · exact Or.inl ⟨L, hL, hsame.2.1, htake.trans hsame.2.2⟩
    · exact Or.inr ⟨t', hgt, hs.misses hL hL' hsame⟩

/-- What is kept of a safe prefix of the term is all of it. -/
theorem Keeps.holds (hs : H.Sound stamp quorum told)
    (hmeet : ∀ Q Q', quorum Q → quorum Q' → ∃ v, v ∈ Q ∧ v ∈ Q') {F L : List α} {t n : ℕ}
    (h : H.Keeps stamp quorum F t n) (hL : H.log t = some L) (hsafe : H.Safe stamp quorum L n) :
    F.take n = L.take n := by
  rcases h with ⟨W, hW, -, htake⟩ | ⟨G, W, hG, -, hW, hkeep⟩
  · rw [hL] at hW
    cases hW
    exact htake
  · rw [hL] at hW
    cases hW
    have heq := Safe.agree hs hmeet hG hsafe le_rfl le_rfl
    exact (hkeep n le_rfl hsafe.le_length heq).trans heq

theorem Recalls.raise {F : List α} {u u' t n : ℕ} (h : H.Recalls stamp quorum F u t n) (ht : t ≤ u) (hu : u ≤ u') :
    H.Recalls stamp quorum F u' t n :=
  ⟨h.1, fun heq => h.2 (le_antisymm ht (hu.trans heq.ge))⟩

theorem Bears.append {F : List α} {t n : ℕ} (h : H.Bears stamp F t n) (as : List α) :
    H.Bears stamp (F ++ as) t n := by
  refine h.imp_left ?_
  rintro ⟨L, hL, hn, htake⟩
  exact ⟨L, hL, hn, (List.take_append_of_le_length (length_of_take htake hn)).trans htake⟩

theorem Keeps.append {F : List α} {t n : ℕ} (h : H.Keeps stamp quorum F t n) (as : List α) :
    H.Keeps stamp quorum (F ++ as) t n := by
  rcases h with ⟨L, hL, hn, htake⟩ | ⟨G, L, hG, hr, hL, hkeep⟩
  · exact Or.inl ⟨L, hL, hn, (List.take_append_of_le_length (length_of_take htake hn)).trans htake⟩
  · refine Or.inr ⟨G, L, hG, hr, hL, fun j hj hjL heq => ?_⟩
    have h1 := hkeep j hj hjL heq
    exact (List.take_append_of_le_length (length_of_take (h1.trans heq) hjL)).trans h1

theorem Recalls.append {F : List α} {u t n : ℕ} (h : H.Recalls stamp quorum F u t n) (as : List α) :
    H.Recalls stamp quorum (F ++ as) u t n := ⟨h.1.append as, fun heq => (h.2 heq).append as⟩

/-! ### Growth -/

/-- More has happened: logs have been continued in their terms, new writers chosen, more acknowledged. -/
structure Extends (stamp : α → ℕ) (H H' : Chronicle α) : Prop where
  log : ∀ t L, H.log t = some L → ∃ L', H'.log t = some L' ∧ L <+: L' ∧
    ∀ k a, L.length ≤ k → L'[k]? = some a → stamp a = t
  start : ∀ t L, H.log t = some L → H'.start t = H.start t
  rank : ∀ t L, H.log t = some L → H'.rank t = H.rank t
  ack : ∀ v t n, H.ack v t n → H'.ack v t n

variable {H' H'' : Chronicle α}

theorem nothing_beyond {L : List α} {t : ℕ} : ∀ k a, L.length ≤ k → L[k]? = some a → stamp a = t :=
  fun _ _ hk ha => absurd (List.getElem?_eq_some_iff.mp ha).1 (Nat.not_lt_of_le hk)

theorem Extends.refl : Extends stamp H H :=
  ⟨fun _ L h => ⟨L, h, List.prefix_refl L, nothing_beyond⟩,
    fun _ _ _ => rfl, fun _ _ _ => rfl, fun _ _ _ h => h⟩

theorem getElem?_of_isPrefix {L L' : List α} (h : L <+: L') {k : ℕ} (hk : k < L.length) : L'[k]? = L[k]? := by
  obtain ⟨R, rfl⟩ := h
  exact List.getElem?_append_left hk

theorem take_of_isPrefix {L L' : List α} (h : L <+: L') {n : ℕ} (hn : n ≤ L.length) : L'.take n = L.take n := by
  obtain ⟨R, rfl⟩ := h
  exact List.take_append_of_le_length hn

theorem Extends.trans (h : Extends stamp H H') (h' : Extends stamp H' H'') : Extends stamp H H'' where
  log := by
    intro t L hL
    obtain ⟨L1, hL1, hp1, h1⟩ := h.log t L hL
    obtain ⟨L2, hL2, hp2, h2⟩ := h'.log t L1 hL1
    refine ⟨L2, hL2, hp1.trans hp2, fun k a hk ha => ?_⟩
    rcases Nat.lt_or_ge k L1.length with hlt | hge
    · exact h1 k a hk ((getElem?_of_isPrefix hp2 hlt).symm.trans ha)
    · exact h2 k a hge ha
  start := by
    intro t L hL
    obtain ⟨L1, hL1, -⟩ := h.log t L hL
    exact (h'.start t L1 hL1).trans (h.start t L hL)
  rank := by
    intro t L hL
    obtain ⟨L1, hL1, -⟩ := h.log t L hL
    exact (h'.rank t L1 hL1).trans (h.rank t L hL)
  ack := fun v t n ha => h'.ack v t n (h.ack v t n ha)

theorem Rooted.extends {F : List α} (hF : H.Rooted stamp F) (h : Extends stamp H H') : H'.Rooted stamp F := by
  intro k a ha
  obtain ⟨L, hL, htake⟩ := hF k a ha
  obtain ⟨L', hL', hp, -⟩ := h.log _ L hL
  have hlen : k + 1 ≤ L.length := length_of_take htake (List.getElem?_eq_some_iff.mp ha).1
  exact ⟨L', hL', (take_of_isPrefix hp hlen).trans htake⟩

theorem Holds.extends {F : List α} {t n : ℕ} (hF : H.Holds F t n) (h : Extends stamp H H') : H'.Holds F t n := by
  obtain ⟨L, hL, hn, htake⟩ := hF
  obtain ⟨L', hL', hp, -⟩ := h.log t L hL
  exact ⟨L', hL', hn.trans hp.length_le, htake.trans (take_of_isPrefix hp hn).symm⟩

theorem Lacks.extends {t k : ℕ} {a : α} (hl : H.Lacks stamp t k a) (h : Extends stamp H H') :
    H'.Lacks stamp t k a := by
  obtain ⟨L, hL, hne, hend⟩ := hl
  obtain ⟨L', hL', hp, hnew⟩ := h.log t L hL
  refine ⟨L', hL', fun ha => ?_, fun hk => hend (hp.length_le.trans hk)⟩
  rcases Nat.lt_or_ge k L.length with hlt | hge
  · exact hne ((getElem?_of_isPrefix hp hlt).symm.trans ha)
  · exact hend hge (hnew k a hge ha)

theorem Misses.extends {t n u : ℕ} (hm : H.Misses stamp t n u) (h : Extends stamp H H') :
    H'.Misses stamp t n u := by
  obtain ⟨U, hU, hmiss⟩ := hm
  obtain ⟨U', hU', hp, -⟩ := h.log u U hU
  refine ⟨U', hU', ?_⟩
  rcases hmiss with hlt | ⟨k, hk, a, ha, hl⟩
  · exact Or.inl ((h.start u U hU).symm ▸ hlt)
  · have hlt := (List.getElem?_eq_some_iff.mp ha).1
    exact Or.inr ⟨k, hk, a, (getElem?_of_isPrefix hp hlt).trans ha, hl.extends h⟩

theorem Bears.extends {F : List α} {t n : ℕ} (hb : H.Bears stamp F t n) (h : Extends stamp H H') :
    H'.Bears stamp F t n := by
  rcases hb with hb | ⟨u, htu, hu⟩
  · exact Or.inl (hb.extends h)
  · exact Or.inr ⟨u, htu, hu.extends h⟩

theorem Borrowed.extends {t n : ℕ} (hb : H.Borrowed stamp t n) (h : Extends stamp H H') :
    H'.Borrowed stamp t n := by
  obtain ⟨L, a, hL, ha, hne⟩ := hb
  obtain ⟨L', hL', hp, -⟩ := h.log t L hL
  exact ⟨L', a, hL', (getElem?_of_isPrefix hp (List.getElem?_eq_some_iff.mp ha).1).trans ha, hne⟩

theorem Own.extends {t n : ℕ} (hb : H.Own stamp t n) (h : Extends stamp H H') : H'.Own stamp t n := by
  obtain ⟨hpos, L, a, hL, ha, heq⟩ := hb
  obtain ⟨L', hL', hp, -⟩ := h.log t L hL
  exact ⟨hpos, L', a, hL', (getElem?_of_isPrefix hp (List.getElem?_eq_some_iff.mp ha).1).trans ha, heq⟩

theorem Chosen.extends {t n : ℕ} (hc : H.Chosen stamp quorum t n) (h : Extends stamp H H') :
    H'.Chosen stamp quorum t n := by
  obtain ⟨hown, Q, hQ, hacks⟩ := hc
  exact ⟨hown.extends h, Q, hQ, fun v hv => h.ack v t n (hacks v hv)⟩

theorem Safe.extends {F : List α} {i : ℕ} (hF : H.Safe stamp quorum F i) (h : Extends stamp H H') :
    H'.Safe stamp quorum F i := by
  rcases hF with rfl | ⟨t, n, L, hc, hL, hi, htake⟩
  · exact Or.inl rfl
  · obtain ⟨L', hL', hp, -⟩ := h.log t L hL
    obtain ⟨⟨-, L'', a, hL'', ha, -⟩, -⟩ := id hc
    rw [hL] at hL''
    cases hL''
    have hlt := (List.getElem?_eq_some_iff.mp ha).1
    exact Or.inr ⟨t, n, L', hc.extends h, hL', hi, htake.trans (take_of_isPrefix hp (by omega)).symm⟩

theorem Keeps.extends {F : List α} {t n : ℕ} (hF : H.Keeps stamp quorum F t n) (h : Extends stamp H H') :
    H'.Keeps stamp quorum F t n := by
  rcases hF with hF | ⟨G, L, hG, hr, hL, hkeep⟩
  · exact Or.inl (hF.extends h)
  obtain ⟨L', hL', hp, hnew⟩ := h.log t L hL
  refine Or.inr ⟨G, L', hG.extends h, hr.extends h, hL', fun j hj hjL heq => ?_⟩
  rcases Nat.lt_or_ge L.length j with hlt | hge
  · -- an item of the term that the log of the term did not have would not be rooted
    exfalso
    obtain ⟨a, ha⟩ : ∃ a, L'[j - 1]? = some a := ⟨L'[j - 1], List.getElem?_eq_getElem (by omega)⟩
    have haG : G[j - 1]? = some a := (getElem?_of_take heq (by omega)).trans ha
    have hat := hnew (j - 1) a (by omega) ha
    obtain ⟨W, hW, htake⟩ := hr _ a haG
    rw [hat, hL] at hW
    cases hW
    have := length_of_take htake (List.getElem?_eq_some_iff.mp haG).1
    omega
  · exact hkeep j hj hge (heq.trans (take_of_isPrefix hp hge))

theorem Recalls.extends {F : List α} {u t n : ℕ} (hF : H.Recalls stamp quorum F u t n) (h : Extends stamp H H') :
    H'.Recalls stamp quorum F u t n := ⟨hF.1.extends h, fun heq => (hF.2 heq).extends h⟩

/-! ### What happens -/

/-- More has been told. -/
theorem Sound.hear {told' : ℕ → ℕ → Prop} (hs : H.Sound stamp quorum told) (h : ∀ v t, told v t → told' v t) :
    H.Sound stamp quorum told' := by
  refine { hs with won := fun t L hL => ?_ }
  obtain ⟨Q, hQ, hwon⟩ := hs.won t L hL
  exact ⟨Q, hQ, fun v hv => ⟨h v t (hwon v hv).1, (hwon v hv).2⟩⟩

/-- Parties acknowledge. -/
def acknowledge (H : Chronicle α) (P : ℕ → ℕ → ℕ → Prop) : Chronicle α :=
  { H with ack := fun v t n => H.ack v t n ∨ P v t n }

theorem extends_acknowledge (H : Chronicle α) (P : ℕ → ℕ → ℕ → Prop) : Extends stamp H (H.acknowledge P) where
  log := Extends.refl.log
  start := fun _ _ _ => rfl
  rank := fun _ _ _ => rfl
  ack := fun _ _ _ h => Or.inl h

/-- Who has told a vote of a later term acknowledges nothing any more. -/
theorem Sound.acknowledge (hs : H.Sound stamp quorum told) {P : ℕ → ℕ → ℕ → Prop}
    (hP : ∀ v t n, P v t n → ∀ u, t < u → ¬ told v u) : (H.acknowledge P).Sound stamp quorum told where
  rooted := hs.rooted
  pos := hs.pos
  start_le := hs.start_le
  before := hs.before
  after := hs.after
  ranked := hs.ranked
  won := by
    intro t L hL
    obtain ⟨Q, hQ, hwon⟩ := hs.won t L hL
    refine ⟨Q, hQ, fun v hv => ⟨(hwon v hv).1, fun s n hack hst hn => ?_⟩⟩
    rcases hack with hack | hack
    · exact (hwon v hv).2 s n hack hst hn
    · exact absurd (hwon v hv).1 (hP v s n hack t hst)

/-- A writer goes on. -/
def goOn (H : Chronicle α) (t : ℕ) (as : List α) : Chronicle α :=
  { H with log := Function.update H.log t ((H.log t).map (· ++ as)) }

theorem log_goOn {t : ℕ} {L as : List α} (hL : H.log t = some L) :
    (H.goOn t as).log t = some (L ++ as) := by
  show Function.update H.log t _ t = _
  rw [Function.update_self, hL]
  rfl

theorem log_goOn_of_ne {t u : ℕ} {as : List α} (hu : u ≠ t) : (H.goOn t as).log u = H.log u :=
  Function.update_of_ne hu _ _

theorem extends_goOn {t : ℕ} {L as : List α} (hL : H.log t = some L) (has : ∀ a ∈ as, stamp a = t) :
    Extends stamp H (H.goOn t as) where
  log := by
    intro u U hU
    by_cases hu : u = t
    · subst hu
      rw [hL] at hU
      cases hU
      refine ⟨L ++ as, log_goOn hL, List.prefix_append L as, fun k a hk ha => ?_⟩
      rw [List.getElem?_append_right hk] at ha
      exact has a (List.mem_of_getElem? ha)
    · exact ⟨U, (log_goOn_of_ne hu).trans hU, List.prefix_refl U, nothing_beyond⟩
  start := fun _ _ _ => rfl
  rank := fun _ _ _ => rfl
  ack := fun _ _ _ h => h

theorem Sound.goOn (hs : H.Sound stamp quorum told) {t : ℕ} {L as : List α} (hL : H.log t = some L)
    (has : ∀ a ∈ as, stamp a = t) : (H.goOn t as).Sound stamp quorum told := by
  have hext : Extends stamp H (H.goOn t as) := extends_goOn hL has
  -- the log of a term is the old one, or the old one with the new items
  have hcases : ∀ u U', (H.goOn t as).log u = some U' → ∃ U, H.log u = some U ∧ U <+: U' ∧
      ∀ k a, U.length ≤ k → U'[k]? = some a → stamp a = u := by
    intro u U' hU'
    by_cases hu : u = t
    · subst hu
      obtain ⟨U, hU, hp, hnew⟩ := hext.log u L hL
      rw [hU'] at hU
      cases hU
      exact ⟨L, hL, hp, hnew⟩
    · rw [log_goOn_of_ne hu] at hU'
      exact ⟨U', hU', List.prefix_refl U', nothing_beyond⟩
  refine {
    rooted := fun u U' hU' k a ha => ?_
    pos := fun u U' hU' => ?_
    start_le := fun u U' hU' => ?_
    before := fun u U' k a hU' ha hk => ?_
    after := fun u U' k a hU' ha hk => ?_
    ranked := fun u U' hU' => ?_
    won := fun u U' hU' => ?_ }
  all_goals obtain ⟨U, hU, hp, hnew⟩ := hcases u U' hU'
  · rcases Nat.lt_or_ge k U.length with hlt | hge
    · obtain ⟨W, hW, htake⟩ := (hs.rooted u U hU).extends hext k a ((getElem?_of_isPrefix hp hlt).symm.trans ha)
      exact ⟨W, hW, htake.trans (take_of_isPrefix hp hlt).symm⟩
    · exact ⟨U', by rw [hnew k a hge ha]; exact hU', rfl⟩
  · exact hs.pos u U hU
  · exact (hs.start_le u U hU).trans hp.length_le
  · have hlt := lt_of_lt_of_le hk (hs.start_le u U hU)
    exact hs.before u U k a hU ((getElem?_of_isPrefix hp hlt).symm.trans ha) hk
  · rcases Nat.lt_or_ge k U.length with hlt | hge
    · exact hs.after u U k a hU ((getElem?_of_isPrefix hp hlt).symm.trans ha) hk
    · exact hnew k a hge ha
  · exact hs.ranked u U hU
  · obtain ⟨Q, hQ, hwon⟩ := hs.won u U hU
    refine ⟨Q, hQ, fun v hv => ⟨(hwon v hv).1, fun s n hack hsu hn => ?_⟩⟩
    have htop : top stamp (U'.take (H.start u)) = top stamp (U.take (H.start u)) := by
      rw [take_of_isPrefix hp (hs.start_le u U hU)]
    rcases (hwon v hv).2 s n hack hsu hn with h | h | ⟨w, hsw, hr, hm⟩
    · exact Or.inl (h.extends hext)
    · refine Or.inr (Or.inl ?_)
      show Beyond (H.start u) (top stamp (U'.take (H.start u))) s n
      rw [htop]
      exact h
    · exact Or.inr (Or.inr ⟨w, hsw, hr, hm.extends hext⟩)

/-- A writer is chosen for a term, and starts from `R`. -/
def choose (H : Chronicle α) (t : ℕ) (R : List α) : Chronicle α where
  log := Function.update H.log t (some R)
  start := Function.update H.start t R.length
  rank := Function.update H.rank t H.next
  next := H.next + 1
  ack := H.ack

variable {t : ℕ} {R : List α}

theorem log_choose : (H.choose t R).log t = some R := Function.update_self _ _ _

theorem log_choose_of_ne {u : ℕ} (hu : u ≠ t) : (H.choose t R).log u = H.log u := Function.update_of_ne hu _ _

theorem start_choose : (H.choose t R).start t = R.length := Function.update_self _ _ _

theorem start_choose_of_ne {u : ℕ} (hu : u ≠ t) : (H.choose t R).start u = H.start u := Function.update_of_ne hu _ _

theorem rank_choose : (H.choose t R).rank t = H.next := Function.update_self _ _ _

theorem rank_choose_of_ne {u : ℕ} (hu : u ≠ t) : (H.choose t R).rank u = H.rank u := Function.update_of_ne hu _ _

theorem ne_of_log {u : ℕ} {U : List α} (hfree : H.log t = none) (hU : H.log u = some U) : u ≠ t := by
  rintro rfl
  rw [hfree] at hU
  cases hU

theorem extends_choose (hfree : H.log t = none) : Extends stamp H (H.choose t R) where
  log := fun _ U hU => ⟨U, (log_choose_of_ne (ne_of_log hfree hU)).trans hU, List.prefix_refl U, nothing_beyond⟩
  start := fun _ _ hU => start_choose_of_ne (ne_of_log hfree hU)
  rank := fun _ _ hU => rank_choose_of_ne (ne_of_log hfree hU)
  ack := fun _ _ _ h => h

theorem Sound.choose (hs : H.Sound stamp quorum told) (hfree : H.log t = none) (hpos : 0 < t)
    (hR : H.Rooted stamp R) (hlt : ∀ (k : ℕ) a, R[k]? = some a → stamp a < t) {Q : Set ℕ} (hQ : quorum Q)
    (hwon : ∀ v ∈ Q, told v t ∧ ∀ s n, H.ack v s n → s < t → 0 < n →
      H.Borrowed stamp s n ∨ Beyond R.length (top stamp R) s n ∨ ∃ u, s < u ∧ H.Misses stamp s n u) :
    (H.choose t R).Sound stamp quorum told := by
  have hext : Extends stamp H (H.choose t R) := extends_choose hfree
  -- the log of a term is the new one or an old one
  have hcases : ∀ u U, (H.choose t R).log u = some U → (u = t ∧ U = R) ∨ (u ≠ t ∧ H.log u = some U) := by
    intro u U hU
    by_cases hu : u = t
    · subst hu
      rw [log_choose] at hU
      cases hU
      exact Or.inl ⟨rfl, rfl⟩
    · exact Or.inr ⟨hu, (log_choose_of_ne hu).symm.trans hU⟩
  refine {
    rooted := fun u U hU => ?_
    pos := fun u U hU => ?_
    start_le := fun u U hU => ?_
    before := fun u U k a hU ha hk => ?_
    after := fun u U k a hU ha hk => ?_
    ranked := fun u U hU => ?_
    won := fun u U hU => ?_ }
  all_goals rcases hcases u U hU with ⟨rfl, rfl⟩ | ⟨hu, hU⟩
  · exact hR.extends hext
  · exact (hs.rooted u U hU).extends hext
  · exact hpos
  · exact hs.pos u U hU
  · rw [start_choose]
  · rw [start_choose_of_ne hu]
    exact hs.start_le u U hU
  · obtain ⟨W, hW, -⟩ := hR k a ha
    rw [rank_choose, rank_choose_of_ne (ne_of_log hfree hW)]
    exact ⟨hlt k a ha, hs.ranked _ W hW⟩
  · obtain ⟨W, hW, -⟩ := hs.rooted u U hU k a ha
    rw [start_choose_of_ne hu] at hk
    rw [rank_choose_of_ne hu, rank_choose_of_ne (ne_of_log hfree hW)]
    exact hs.before u U k a hU ha hk
  · rw [start_choose] at hk
    exact absurd (List.getElem?_eq_some_iff.mp ha).1 (by omega)
  · rw [start_choose_of_ne hu] at hk
    exact hs.after u U k a hU ha hk
  · rw [rank_choose]
    exact Nat.lt_succ_self _
  · rw [rank_choose_of_ne hu]
    exact (hs.ranked u U hU).trans (Nat.lt_succ_self _)
  · refine ⟨Q, hQ, fun v hv => ⟨(hwon v hv).1, fun s n hack hsu hn => ?_⟩⟩
    rw [start_choose, rank_choose, List.take_length]
    rcases (hwon v hv).2 s n hack hsu hn with h | h | ⟨w, hsw, hm⟩
    · exact Or.inl (h.extends hext)
    · exact Or.inr (Or.inl h)
    · obtain ⟨W, hW, -⟩ := id hm
      refine Or.inr (Or.inr ⟨w, hsw, ?_, hm.extends hext⟩)
      rw [rank_choose_of_ne (ne_of_log hfree hW)]
      exact hs.ranked w W hW
  · obtain ⟨Q', hQ', hwon'⟩ := hs.won u U hU
    refine ⟨Q', hQ', fun v hv => ⟨(hwon' v hv).1, fun s n hack hsu hn => ?_⟩⟩
    rw [start_choose_of_ne hu, rank_choose_of_ne hu]
    rcases (hwon' v hv).2 s n hack hsu hn with h | h | ⟨w, hsw, hr, hm⟩
    · exact Or.inl (h.extends hext)
    · exact Or.inr (Or.inl h)
    · obtain ⟨W, hW, -⟩ := id hm
      refine Or.inr (Or.inr ⟨w, hsw, ?_, hm.extends hext⟩)
      rw [rank_choose_of_ne (ne_of_log hfree hW)]
      exact hr

end Chronicle

end Base
