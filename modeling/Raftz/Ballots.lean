import Raftz.Refine.Calls
import Raftz.RestoredConf

/-! # Votes and what was said about them

The protocol's view of an election.  A node tells others of its vote in two ways: it grants
a request, or it asks for votes itself, as a candidate votes for itself.  What it has said
about the vote of a term binds it for good, and the votes it counts have been told to it.
`Electing` collects what this takes of one node; every protocol step keeps it. -/

open Base

namespace Raftz

/-! ### The voters of a configuration -/

namespace MajorityConfig

variable {c d : MajorityConfig} {Q : Set ℕ}

/-- What wins depends on who the voters are. -/
theorem Wins.congr (h : c.voters.toFinset = d.voters.toFinset) (hw : c.Wins Q) : d.Wins Q := by
  rcases hw with he | ⟨A, hA, hcard, hAQ⟩
  · refine Or.inl ?_
    unfold isEmpty at he ⊢
    rw [← IdSet.toFinset_eq_empty_iff] at he ⊢
    rw [← h]
    exact he
  · refine Or.inr ⟨A, h ▸ hA, ?_, hAQ⟩
    unfold count at hcard ⊢
    rw [← IdSet.card_toFinset] at hcard ⊢
    rw [← h]
    exact hcard

/-- One node that wins alone is the only voter. -/
theorem Wins.only {v w : ℕ} (h : c.Wins {v}) (hw : w ∈ c.voters) : w = v := by
  rcases h with he | ⟨A, hA, hcard, hAv⟩
  · exact absurd hw (IdSet.isEmpty_iff.mp he w)
  · have hle : A.card ≤ 1 := by
      rw [← Finset.card_singleton v]
      exact Finset.card_le_card fun a ha => Finset.mem_singleton.mpr (hAv a ha)
    have hcount : c.voters.toFinset.card ≤ 1 := by
      rw [IdSet.card_toFinset]
      have hmaj : c.count / 2 + 1 ≤ 1 := hcard.trans hle
      unfold count at hmaj
      omega
    have hne : A.Nonempty := by
      rw [← Finset.card_pos]
      exact lt_of_lt_of_le (Nat.succ_pos _) hcard
    obtain ⟨a, ha⟩ := hne
    have hav : a = v := hAv a ha
    exact (Finset.card_le_one.mp hcount w (IdSet.mem_toFinset.mpr hw) a (hA ha)).trans hav

end MajorityConfig

namespace JointConfiguration

variable {c d : JointConfiguration} {s : ConfSets} {Q : Set ℕ}

/-- The voters are those of `s`. -/
structure Lists (c : JointConfiguration) (s : ConfSets) : Prop where
  incoming : c.incoming.voters.toFinset = s.incoming
  outgoing : c.outgoing.voters.toFinset = s.outgoing

theorem Lists.wins (h : c.Lists s) (h' : d.Lists s) (hw : c.Wins Q) : d.Wins Q :=
  ⟨hw.1.congr (h.incoming.trans h'.incoming.symm), hw.2.congr (h.outgoing.trans h'.outgoing.symm)⟩

theorem Lists.contains (h : c.Lists s) (h' : d.Lists s) {v : ℕ} (hv : c.contains v = true) :
    d.contains v = true := by
  rw [contains_iff] at hv ⊢
  rw [← IdSet.mem_toFinset, ← IdSet.mem_toFinset, h.incoming, h.outgoing] at hv
  rw [← IdSet.mem_toFinset, ← IdSet.mem_toFinset, h'.incoming, h'.outgoing]
  exact hv

/-- One node that wins alone is the only voter. -/
theorem Wins.only {v w : ℕ} (h : c.Wins {v}) (hw : c.contains w = true) : w = v := by
  rcases contains_iff.mp hw with hw | hw
  · exact h.1.only hw
  · exact h.2.only hw

end JointConfiguration

/-- The sets that restoring an exported configuration leads to. -/
def ConfState.replayed (cs : ConfState) : ConfSets :=
  let before := (ConfRestore.outgoingChanges cs).foldl ConfSets.applyChange {}
  if (ConfRestore.outgoingChanges cs).isEmpty then
    (ConfRestore.incomingChanges cs).foldl ConfSets.applyChange {}
  else { (ConfRestore.incomingChanges cs).foldl ConfSets.applyChange
    { before with outgoing := before.incoming } with autoLeave := cs.autoLeave }

namespace ConfRestore

variable {t u : ProgressTracker} {n : ℕ}

theorem applyChanges_foldl {s s' : ConfSets} {ccs : List ConfChangeSingle} (h : s.applyChanges ccs = .ok s') :
    s' = ccs.foldl ConfSets.applyChange s := by
  unfold ConfSets.applyChanges at h
  split at h
  · cases h
  · cases h
    rfl

theorem applySingly_foldl (ccs : List ConfChangeSingle) {p q : CheckAndCopyResult}
    (h : ConfChanger.CopySound p) (hq : applySingly p ccs = .ok q) :
    q.cfg.sets = ccs.foldl ConfSets.applyChange p.cfg.sets := by
  induction ccs generalizing p with
  | nil =>
      cases hq
      rfl
  | cons cc ccs ih =>
      obtain ⟨q1, h1, hq⟩ := bind_eq_ok.mp hq
      have hsets := ConfChanger.applyChanges_sets h [cc]
      rw [h1] at hsets
      have hsets : p.cfg.sets.applyChanges [cc] = .ok q1.cfg.sets := hsets.symm
      rw [ih (h.applyChanges h1) hq, List.foldl_cons, applyChanges_foldl hsets]
      rfl

theorem simple_foldl {r : ConfChangeResult} {ccs : List ConfChangeSingle} (h : t.Fits)
    (hr : ConfChanger.simple t ccs = .ok r) : r.conf.sets = ccs.foldl ConfSets.applyChange t.conf.sets := by
  have hsets := ConfChanger.simple_sets h ccs
  rw [hr] at hsets
  have hsets : t.conf.sets.simple ccs = .ok r.conf.sets := hsets.symm
  unfold ConfSets.simple at hsets
  obtain ⟨_, _, hsets⟩ := bind_eq_ok.mp hsets
  obtain ⟨s, hs, hsets⟩ := bind_eq_ok.mp hsets
  obtain ⟨_, _, hsets⟩ := bind_eq_ok.mp hsets
  cases hsets
  exact applyChanges_foldl hs

theorem simpleSingly_foldl (ccs : List ConfChangeSingle) (h : t.Fits) (hu : simpleSingly n t ccs = .ok u) :
    u.Fits ∧ u.conf.sets = ccs.foldl ConfSets.applyChange t.conf.sets := by
  induction ccs generalizing t with
  | nil =>
      cases hu
      exact ⟨h, rfl⟩
  | cons cc ccs ih =>
      obtain ⟨r, hr, hu⟩ := bind_eq_ok.mp hu
      obtain ⟨h1, h2⟩ := ConfChanger.simple_sound h hr
      obtain ⟨hfits, hsets⟩ := ih (ProgressTracker.fits_applyConf h1 h2 n) hu
      refine ⟨hfits, hsets.trans ?_⟩
      rw [List.foldl_cons]
      exact congrArg (fun s => ccs.foldl ConfSets.applyChange s) (simple_foldl h hr)

/-- What is restored depends on the exported configuration alone. -/
theorem restore_replayed {cs : ConfState} (h : restore t n cs = .ok u) : u.conf.sets = cs.replayed := by
  have ht : ({ ProgressTracker.init t.maxInflight with groupCommit := t.groupCommit } :
      ProgressTracker).Sound := (ProgressTracker.sound_init t.maxInflight).of_eq rfl rfl
  unfold restore restoreEmpty at h
  unfold ConfState.replayed
  dsimp only at h ⊢
  split at h
  · rename_i hout
    rw [if_pos hout]
    obtain ⟨p, hp, h⟩ := bind_eq_ok.mp h
    rw [ConfChanger.checkAndCopy_sound ht.fits] at hp
    cases hp
    obtain ⟨q, hq, h⟩ := bind_eq_ok.mp h
    obtain ⟨_, _, h⟩ := bind_eq_ok.mp h
    cases h
    exact applySingly_foldl _ (show ConfChanger.CopySound ⟨_, { base := _ }⟩ from ht.fits.conf) hq
  · rename_i hout
    rw [if_neg hout]
    obtain ⟨t1, h1, h⟩ := bind_eq_ok.mp h
    obtain ⟨r, hr, h⟩ := bind_eq_ok.mp h
    cases h
    obtain ⟨hfits, hsets⟩ := simpleSingly_foldl _ ht.fits h1
    have henter := ConfChanger.enterJoint_sets hfits cs.autoLeave (incomingChanges cs)
    rw [hr] at henter
    have henter : t1.conf.sets.enterJoint cs.autoLeave (incomingChanges cs) = .ok r.conf.sets := henter.symm
    unfold ConfSets.enterJoint at henter
    obtain ⟨_, _, henter⟩ := bind_eq_ok.mp henter
    obtain ⟨_, _, henter⟩ := bind_eq_ok.mp henter
    obtain ⟨s, hs, henter⟩ := bind_eq_ok.mp henter
    have hr' : { s with autoLeave := cs.autoLeave } = r.conf.sets := Except.ok.inj henter
    rw [applyChanges_foldl hs, hsets] at hr'
    exact hr'.symm

theorem restore_lists {cs : ConfState} (h : restore t n cs = .ok u) : u.conf.voters.Lists cs.replayed :=
  ⟨congrArg ConfSets.incoming (restore_replayed h), congrArg ConfSets.outgoing (restore_replayed h)⟩

end ConfRestore

/-! ### What is said about a vote -/

/-- The vote of term `t` can go to nobody but `i`: it went there, or the term is over. -/
def Bound (term vote t i : ℕ) : Prop := t < term ∨ (t = term ∧ vote = i)

theorem Bound.of_lt {term vote t i term' vote' : ℕ} (h : Bound term vote t i) (hlt : term < term') :
    Bound term' vote' t i := by
  rcases h with h | ⟨rfl, -⟩
  · exact Or.inl (h.trans hlt)
  · exact Or.inl hlt

/-- A later term, or the vote of this one while it has not been given to somebody else. -/
theorem Bound.mono {term vote t i term' vote' : ℕ} (h : Bound term vote t i)
    (hle : term < term' ∨ (term' = term ∧ (vote = i → vote' = i))) : Bound term' vote' t i := by
  rcases hle with hlt | ⟨rfl, hkeep⟩
  · exact h.of_lt hlt
  · rcases h with h | ⟨rfl, hv⟩
    · exact Or.inl h
    · exact Or.inr ⟨rfl, hkeep hv⟩

theorem Bound.vote_eq {term vote i : ℕ} (h : Bound term vote term i) : vote = i := by
  rcases h with h | ⟨-, h⟩
  · exact absurd h (Nat.lt_irrefl _)
  · exact h

namespace Message

/-- A vote that was given. -/
def Grants (m : Message) : Prop := m.msgType = .requestVoteResponse ∧ m.reject = false

instance (m : Message) : Decidable m.Grants := inferInstanceAs (Decidable (_ ∧ _))

/-- The message says that `v` votes for `i` in term `t`. -/
structure Tells (m : Message) (v t i : ℕ) : Prop where
  sender : m.sender = v
  term : m.term = t
  vote : (m.Grants ∧ m.dest = i) ∨ (m.msgType = .requestVote ∧ v = i)

/-- Messages that only another node can make: a leader's orders, requests for a vote, and votes. -/
def FromPeer (m : Message) : Prop :=
  m.msgType = .append ∨ m.msgType = .heartbeat ∨ m.msgType = .snapshot ∨ m.msgType = .requestVote ∨
    m.Grants

instance (m : Message) : Decidable m.FromPeer :=
  inferInstanceAs (Decidable (_ ∨ _ ∨ _ ∨ _ ∨ m.Grants))

/-- What holds of every message of a cluster whose nodes are configured by `cs`. -/
structure Sincere (cs : ConfState) (sent : List Message) (m : Message) : Prop where
  term : m.FromPeer → 0 < m.term
  sender : m.msgType = .requestVote → m.sender ≠ 0
  asked : m.Grants → ∃ q ∈ sent, q.msgType = .requestVote ∧ q.sender = m.dest ∧ q.term = m.term
  snapshot : m.msgType = .snapshot → ∀ s, m.snapshot = some s → s.metadata.confState = cs

/-- What a node processes was sent to it, or no other node has to do with it. -/
def Arrives (sent : List Message) (id : ℕ) (m : Message) : Prop :=
  (m ∈ sent ∧ m.dest = id) ∨ ¬ m.FromPeer

variable {cs : ConfState} {sent sent' : List Message} {m : Message} {v t i : ℕ}

theorem Sincere.mono (h : m.Sincere cs sent) (hsub : ∀ x ∈ sent, x ∈ sent') : m.Sincere cs sent' where
  term := h.term
  sender := h.sender
  asked := by
    intro hg
    obtain ⟨q, hq, hrest⟩ := h.asked hg
    exact ⟨q, hsub q hq, hrest⟩
  snapshot := h.snapshot

/-- Nobody votes for node 0. -/
theorem Sincere.tells_ne (h : m.Sincere cs sent) (hsent : ∀ x ∈ sent, x.Sincere cs sent)
    (ht : m.Tells v t i) : i ≠ 0 := by
  rcases ht.vote with ⟨hg, rfl⟩ | ⟨hreq, rfl⟩
  · obtain ⟨q, hq, hreq, hsender, -⟩ := h.asked hg
    rw [← hsender]
    exact (hsent q hq).sender hreq
  · rw [← ht.sender]
    exact h.sender hreq

/-- Other messages tell nothing and need nothing. -/
theorem Sincere.of_other (h : ¬ m.FromPeer) : m.Sincere cs sent where
  term := fun hf => absurd hf h
  sender := fun hm => absurd (Or.inr (Or.inr (Or.inr (Or.inl hm)))) h
  asked := fun hg => absurd (Or.inr (Or.inr (Or.inr (Or.inr hg)))) h
  snapshot := fun hm => absurd (Or.inr (Or.inr (Or.inl hm))) h

theorem Tells.kind (h : m.Tells v t i) : m.Grants ∨ m.msgType = .requestVote :=
  h.vote.imp And.left And.left

end Message

/-- Node `i` has won term `t`: it is a voter and wins alone, or with nodes that said they vote for it. -/
def Elected (cs : ConfState) (sent : List Message) (i t : ℕ) : Prop :=
  ∃ V : JointConfiguration, V.Lists cs.replayed ∧ V.contains i = true ∧
    (V.Wins {i} ∨ V.Wins {v | ∃ m ∈ sent, m.Tells v t i})

theorem Elected.mono {cs : ConfState} {sent sent' : List Message} {i t : ℕ} (h : Elected cs sent i t)
    (hsub : ∀ x ∈ sent, x ∈ sent') : Elected cs sent' i t := by
  obtain ⟨V, hV, hi, hw⟩ := h
  refine ⟨V, hV, hi, hw.imp_right fun hw => hw.mono ?_⟩
  rintro v - ⟨m, hm, ht⟩
  exact ⟨m, hsub m hm, ht⟩

/-- A term is won once: two winners share a voter, who said one thing only. -/
theorem Elected.unique {cs : ConfState} {sent : List Message} {i j t : ℕ} (hi : Elected cs sent i t)
    (hj : Elected cs sent j t)
    (honce : ∀ x ∈ sent, ∀ y ∈ sent, ∀ v a b, x.Tells v t a → y.Tells v t b → a = b) : i = j := by
  obtain ⟨V, hV, hVi, hwi⟩ := hi
  obtain ⟨W, hW, hWj, hwj⟩ := hj
  have hVj : V.contains j = true := hW.contains hV hWj
  rcases hwi with hwi | hwi
  · exact (hwi.only hVj).symm
  rcases hwj with hwj | hwj
  · exact (hW.wins hV hwj).only hVi
  · obtain ⟨v, -, ⟨x, hx, htx⟩, y, hy, hty⟩ := JointConfiguration.wins_meet ⟨i, hVi⟩ hwi (hW.wins hV hwj)
    exact honce x hx y hy v i j htx hty

/-! ### One node -/

namespace Peer

/-- A node of a cluster that is configured by `cs` and in which `sent` has been sent: what it says
about its votes is true and stays true, and it leads only what it has won. -/
structure Electing (cs : ConfState) (sent : List Message) (c : Peer) : Prop where
  id : c.id ≠ 0
  voters : c.voters.Lists cs.replayed
  pending : ∀ md, c.pending = some md → md.confState = cs
  store : c.store.confState = cs
  member : c.role ≠ .follower → c.voters.contains c.id = true
  stands : c.role = .candidate ∨ c.role = .leader → 0 < c.term ∧ c.vote = c.id
  counted : c.role = .candidate → ∀ v, c.votes v = some true →
    v = c.id ∨ ∃ m ∈ sent, m.Grants ∧ m.Tells v c.term c.id
  leads : c.role = .leader → Elected cs sent c.id c.term
  queue : ∀ x ∈ c.out, x.Sincere cs sent ∧ ∀ v t i, x.Tells v t i → v = c.id
  bound : ∀ x, x ∈ sent ∨ x ∈ c.out → ∀ t i, x.Tells c.id t i → Bound c.term c.vote t i
  once : ∀ x y, x ∈ sent ∨ x ∈ c.out → y ∈ sent ∨ y ∈ c.out →
    ∀ t i j, x.Tells c.id t i → y.Tells c.id t j → i = j

variable {cs : ConfState} {sent : List Message} {c c' : Peer} {m x : Message}

/-- A change of the role, the term and the votes. -/
structure Turns (cs : ConfState) (sent : List Message) (c c' : Peer) : Prop where
  id : c'.id = c.id
  out : c'.out = c.out
  store : c'.store.confState = c.store.confState
  voters : c'.voters.Lists cs.replayed
  pending : ∀ md, c'.pending = some md → md.confState = cs
  binds : c.term < c'.term ∨ (c'.term = c.term ∧ (c.vote ≠ 0 → c'.vote = c.vote))
  member : c'.role ≠ .follower → c'.voters.contains c'.id = true
  stands : c'.role = .candidate ∨ c'.role = .leader → 0 < c'.term ∧ c'.vote = c'.id
  counted : c'.role = .candidate → ∀ v, c'.votes v = some true →
    v = c'.id ∨ ∃ m ∈ sent, m.Grants ∧ m.Tells v c'.term c'.id
  leads : c'.role = .leader → Elected cs sent c'.id c'.term

/-- What has been said binds after such a change. -/
theorem Electing.turn (h : Electing cs sent c) (hsent : ∀ x ∈ sent, x.Sincere cs sent)
    (ht : Turns cs sent c c') : Electing cs sent c' where
  id := ht.id ▸ h.id
  voters := ht.voters
  pending := ht.pending
  store := ht.store.trans h.store
  member := ht.member
  stands := ht.stands
  counted := ht.counted
  leads := ht.leads
  queue := by
    rw [ht.out, ht.id]
    exact h.queue
  bound := by
    rw [ht.out, ht.id]
    intro x hx t i hti
    have hsincere : x.Sincere cs sent := hx.elim (hsent x) fun hx => (h.queue x hx).1
    have hne := hsincere.tells_ne hsent hti
    refine (h.bound x hx t i hti).mono (ht.binds.imp_right fun hb => ⟨hb.1, fun hv => ?_⟩)
    rw [hb.2 (hv ▸ hne)]
    exact hv
  once := by
    rw [ht.out, ht.id]
    exact h.once

/-- A new message that tells at most of the vote of this term. -/
theorem Electing.post (h : Electing cs sent c) (hx : x.Sincere cs sent)
    (htold : ∀ v t i, x.Tells v t i → v = c.id ∧ t = c.term ∧ i = c.vote) : Electing cs sent (c.post x) where
  id := h.id
  voters := h.voters
  pending := h.pending
  store := h.store
  member := h.member
  stands := h.stands
  counted := h.counted
  leads := h.leads
  queue := by
    intro y hy
    rcases List.mem_append.mp hy with hy | hy
    · exact h.queue y hy
    · rw [List.mem_singleton.mp hy]
      exact ⟨hx, fun v t i hti => (htold v t i hti).1⟩
  bound := by
    intro y hy t i hti
    have hy : (y ∈ sent ∨ y ∈ c.out) ∨ y = x := by
      rcases hy with hy | hy
      · exact Or.inl (Or.inl hy)
      · exact (List.mem_append.mp hy).imp Or.inr List.mem_singleton.mp
    rcases hy with hy | rfl
    · exact h.bound y hy t i hti
    · obtain ⟨-, rfl, rfl⟩ := htold _ _ _ hti
      exact Or.inr ⟨rfl, rfl⟩
  once := by
    have hsplit : ∀ y, y ∈ sent ∨ y ∈ (c.post x).out → (y ∈ sent ∨ y ∈ c.out) ∨ y = x := by
      rintro y (hy | hy)
      · exact Or.inl (Or.inl hy)
      · exact (List.mem_append.mp hy).imp Or.inr List.mem_singleton.mp
    -- what was said before about this term is about the vote that it has now
    have hagree : ∀ y, y ∈ sent ∨ y ∈ c.out → ∀ t i j, y.Tells c.id t i → x.Tells c.id t j → i = j := by
      intro y hy t i j hti htj
      obtain ⟨-, rfl, rfl⟩ := htold _ _ _ htj
      exact (h.bound y hy _ _ hti).vote_eq.symm
    intro y z hy hz t i j hti htj
    have hti : y.Tells c.id t i := hti
    have htj : z.Tells c.id t j := htj
    rcases hsplit y hy with hy | hy
    · rcases hsplit z hz with hz | hz
      · exact h.once y z hy hz t i j hti htj
      · exact hagree y hy t i j hti (hz ▸ htj)
    · rcases hsplit z hz with hz | hz
      · exact (hagree z hz t j i htj (hy ▸ hti)).symm
      · obtain ⟨-, -, hi⟩ := htold c.id t i (hy ▸ hti)
        obtain ⟨-, -, hj⟩ := htold c.id t j (hz ▸ htj)
        exact hi.trans hj.symm

/-- Another queue of what was queued before and of messages that say nothing about a vote. -/
theorem Electing.requeue (h : Electing cs sent c) {out : List Message}
    (hout : ∀ y ∈ out, y ∈ c.out ∨ (y.Sincere cs sent ∧ ∀ v t i, ¬ y.Tells v t i)) :
    Electing cs sent { c with out := out } where
  id := h.id
  voters := h.voters
  pending := h.pending
  store := h.store
  member := h.member
  stands := h.stands
  counted := h.counted
  leads := h.leads
  queue := fun y hy => (hout y hy).elim (h.queue y) fun hn => ⟨hn.1, fun v t i hti => absurd hti (hn.2 v t i)⟩
  bound := by
    rintro y (hy | hy) t i hti
    · exact h.bound y (Or.inl hy) t i hti
    · rcases hout y hy with hy | ⟨-, hn⟩
      · exact h.bound y (Or.inr hy) t i hti
      · exact absurd hti (hn _ _ _)
  once := by
    have hsplit : ∀ y, y ∈ sent ∨ y ∈ out → ∀ v t i, y.Tells v t i → y ∈ sent ∨ y ∈ c.out := by
      rintro y (hy | hy) v t i hti
      · exact Or.inl hy
      · exact Or.inr ((hout y hy).resolve_right fun hn => hn.2 v t i hti)
    intro y z hy hz t i j hti htj
    exact h.once y z (hsplit y hy _ _ _ hti) (hsplit z hz _ _ _ htj) t i j hti htj

/-- A message that says nothing about a vote. -/
theorem Electing.postOther (h : Electing cs sent c) (hx : ¬ x.FromPeer) : Electing cs sent (c.post x) := by
  refine h.post (.of_other hx) fun v t i hti => absurd ?_ hx
  rcases hti.kind with hg | hr
  · exact Or.inr (Or.inr (Or.inr (Or.inr hg)))
  · exact Or.inr (Or.inr (Or.inr (Or.inl hr)))

/-- A leader's order. -/
theorem Electing.postOrder (h : Electing cs sent c) (hr : c.role = .leader)
    (hx : x.msgType = .append ∨ x.msgType = .heartbeat ∨ x.msgType = .snapshot) (ht : x.term = c.term)
    (hs : x.msgType = .snapshot → ∀ s, x.snapshot = some s → s.metadata.confState = cs) :
    Electing cs sent (c.post x) := by
  have hgrant : ¬ x.Grants := by
    rintro ⟨hg, -⟩
    rcases hx with hx | hx | hx <;> rw [hg] at hx <;> cases hx
  have hvote : x.msgType ≠ .requestVote := by
    intro hv
    rcases hx with hx | hx | hx <;> rw [hv] at hx <;> cases hx
  refine h.post ⟨fun _ => ht ▸ (h.stands (Or.inr hr)).1, fun hv => absurd hv hvote, fun hg => absurd hg hgrant,
    hs⟩ ?_
  intro v t i hti
  exact hti.kind.elim (fun hg => absurd hg hgrant) fun hv => absurd hv hvote

/-- The node says, of its own accord, something about the vote of this term. -/
theorem Electing.send (h : Electing cs sent c) {honest : Prop} (hx : Sends honest m c x) :
    Electing cs sent (c.post x) := by
  -- the kinds that say nothing
  have hother : (x.msgType ≠ .append ∧ x.msgType ≠ .heartbeat ∧ x.msgType ≠ .snapshot ∧
      x.msgType ≠ .requestVote ∧ ¬ x.Grants) → Electing cs sent (c.post x) := by
    rintro ⟨h1, h2, h3, h4, h5⟩
    refine h.postOther ?_
    rintro (hf | hf | hf | hf | hf)
    · exact h1 hf
    · exact h2 hf
    · exact h3 hf
    · exact h4 hf
    · exact h5 hf
  have hkind : ∀ k : MessageType, x.msgType = k → k ≠ .append → k ≠ .heartbeat → k ≠ .snapshot →
      k ≠ .requestVote → k ≠ .requestVoteResponse → Electing cs sent (c.post x) := by
    rintro k rfl h1 h2 h3 h4 h5
    exact hother ⟨h1, h2, h3, h4, fun hg => h5 hg.1⟩
  cases hx with
  | append hr ht hs htm hl he hc =>
      exact h.postOrder hr (Or.inl ht) htm fun hsnap => by rw [ht] at hsnap; cases hsnap
  | heartbeat hr ht hs htm hc hctx =>
      exact h.postOrder hr (Or.inr (Or.inl ht)) htm fun hsnap => by rw [ht] at hsnap; cases hsnap
  | snapshot s hr ht hs htm hsnap hfrom =>
      refine h.postOrder hr (Or.inr (Or.inr ht)) htm fun _ s' hs' => ?_
      rw [hsnap] at hs'
      cases hs'
      rcases hfrom with hp | ⟨hconf, -⟩
      · exact h.pending _ hp
      · exact hconf.trans h.store
  | requestVote hr ht hs htm hd hi hl hc =>
      obtain ⟨hpos, hvote⟩ := h.stands (Or.inl hr)
      have hgrant : ¬ x.Grants := fun hg => by rw [hg.1] at ht; cases ht
      refine h.post ⟨fun _ => htm ▸ hpos, fun _ => hs ▸ h.id, fun hg => absurd hg hgrant,
        fun hsnap => by rw [ht] at hsnap; cases hsnap⟩ fun v t i hti => ?_
      have hv : v = c.id := hti.sender.symm.trans hs
      refine ⟨hv, hti.term.symm.trans htm, ?_⟩
      rcases hti.vote with ⟨hg, -⟩ | ⟨-, hvi⟩
      · exact absurd hg hgrant
      · rw [hvote, ← hvi, hv]
  | voteReject ht hs htm hrej hc =>
      refine hother ?_
      have hnot : ¬ x.Grants := fun hg => by rw [hg.2] at hrej; cases hrej
      rcases ht with ht | ht <;> rw [ht] <;> simp [hnot]
  | forward hm ht he htm =>
      rcases hm with hm | hm | hm <;>
        exact hkind _ (ht.trans hm) nofun nofun nofun nofun nofun
  | appendResponse ht => exact hkind _ ht nofun nofun nofun nofun nofun
  | heartbeatResponse hr hm hcur ht => exact hkind _ ht nofun nofun nofun nofun nofun
  | requestPreVote hr ht => exact hkind _ ht nofun nofun nofun nofun nofun
  | preVoteGrant hm ht => exact hkind _ ht nofun nofun nofun nofun nofun
  | timeoutNow hr ht => exact hkind _ ht nofun nofun nofun nofun nofun

/-- A step that changes nothing that elections are about. -/
theorem Electing.quiet (h : Electing cs sent c) (hsent : ∀ x ∈ sent, x.Sincere cs sent)
    (hsame : (c'.id, c'.voters, c'.term, c'.vote, c'.role, c'.votes, c'.out, c'.store.confState) =
      (c.id, c.voters, c.term, c.vote, c.role, c.votes, c.out, c.store.confState))
    (hpending : c'.pending = c.pending ∨ c'.pending = none) : Electing cs sent c' := by
  simp only [Prod.mk.injEq] at hsame
  obtain ⟨hid, hvoters, hterm, hvote, hrole, hvotes, hout, hstore⟩ := hsame
  exact h.turn hsent {
    id := hid
    out := hout
    store := hstore
    voters := hvoters ▸ h.voters
    pending := by
      rcases hpending with hp | hp
      · rw [hp]
        exact h.pending
      · rw [hp]
        exact nofun
    binds := Or.inr ⟨hterm, fun _ => hvote⟩
    member := by
      rw [hrole, hvoters, hid]
      exact h.member
    stands := by
      rw [hrole, hterm, hvote, hid]
      exact h.stands
    counted := by
      rw [hrole, hvotes, hterm, hid]
      exact h.counted
    leads := by
      rw [hrole, hterm, hid]
      exact h.leads }

/-- Other nodes have sent something. -/
theorem Electing.grow (h : Electing cs sent c) {more : List Message}
    (hmore : ∀ x ∈ more, ∀ t i, ¬ x.Tells c.id t i) : Electing cs (sent ++ more) c where
  id := h.id
  voters := h.voters
  pending := h.pending
  store := h.store
  member := h.member
  stands := h.stands
  counted := by
    intro hr v hv
    refine (h.counted hr v hv).imp_right ?_
    rintro ⟨m, hm, hrest⟩
    exact ⟨m, List.mem_append_left _ hm, hrest⟩
  leads := fun hr => (h.leads hr).mono fun _ hx => List.mem_append_left _ hx
  queue := fun x hx => (h.queue x hx).imp_left fun hs => hs.mono fun _ hy => List.mem_append_left _ hy
  bound := by
    rintro x (hx | hx) t i hti
    · rcases List.mem_append.mp hx with hx | hx
      · exact h.bound x (Or.inl hx) t i hti
      · exact absurd hti (hmore x hx t i)
    · exact h.bound x (Or.inr hx) t i hti
  once := by
    have hsplit : ∀ x, x ∈ sent ++ more ∨ x ∈ c.out → ∀ t i, x.Tells c.id t i → x ∈ sent ∨ x ∈ c.out := by
      rintro x (hx | hx) t i hti
      · exact Or.inl ((List.mem_append.mp hx).resolve_right fun hx => hmore x hx t i hti)
      · exact Or.inr hx
    intro x y hx hy t i j hti htj
    exact h.once x y (hsplit x hx t i hti) (hsplit y hy t j htj) t i j hti htj

/-- The queue has been sent. -/
theorem Electing.flush (h : Electing cs sent c) : Electing cs (sent ++ c.out) { c with out := [] } where
  id := h.id
  voters := h.voters
  pending := h.pending
  store := h.store
  member := h.member
  stands := h.stands
  counted := by
    intro hr v hv
    refine (h.counted hr v hv).imp_right ?_
    rintro ⟨m, hm, hrest⟩
    exact ⟨m, List.mem_append_left _ hm, hrest⟩
  leads := fun hr => (h.leads hr).mono fun _ hx => List.mem_append_left _ hx
  queue := fun x hx => absurd hx List.not_mem_nil
  bound := fun x hx => h.bound x (hx.elim List.mem_append.mp fun hn => absurd hn List.not_mem_nil)
  once := fun x y hx hy => h.once x y (hx.elim List.mem_append.mp fun hn => absurd hn List.not_mem_nil)
    (hy.elim List.mem_append.mp fun hn => absurd hn List.not_mem_nil)

/-- A follower answers for nothing. -/
theorem Turns.follower (hid : c'.id = c.id) (hout : c'.out = c.out)
    (hstore : c'.store.confState = c.store.confState) (hvoters : c'.voters.Lists cs.replayed)
    (hpending : ∀ md, c'.pending = some md → md.confState = cs)
    (hbinds : c.term < c'.term ∨ (c'.term = c.term ∧ (c.vote ≠ 0 → c'.vote = c.vote)))
    (hrole : c'.role = .follower) : Turns cs sent c c' where
  id := hid
  out := hout
  store := hstore
  voters := hvoters
  pending := hpending
  binds := hbinds
  member := fun hne => absurd hrole hne
  stands := by
    rw [hrole]
    exact nofun
  counted := by
    rw [hrole]
    exact nofun
  leads := by
    rw [hrole]
    exact nofun

end Peer

open Peer

variable {honest : Prop} {cs : ConfState} {sent : List Message} {c c' : Peer} {m : Message}

/-- The votes that were counted win the term, or the node wins alone. -/
theorem Peer.Electing.elected (h : Electing cs sent c) (hr : c.role = .candidate)
    (hsent : ∀ x ∈ sent, x.Sincere cs sent) (hw : c.voters.Wins {v | c.votes v = some true}) :
    Elected cs sent c.id c.term := by
  have hmember : c.voters.contains c.id = true := h.member (by rw [hr]; exact nofun)
  refine ⟨c.voters, h.voters, hmember, ?_⟩
  by_cases hother : ∃ v, c.votes v = some true ∧ v ≠ c.id
  · -- somebody was asked, so the node has said that it votes for itself
    obtain ⟨v, hv, hne⟩ := hother
    obtain ⟨g, hg, hgrant, htell⟩ := (h.counted hr v hv).resolve_left hne
    obtain ⟨q, hq, hreq, hsender, hterm⟩ := (hsent g hg).asked hgrant
    have hdest : g.dest = c.id := by
      rcases htell.vote with ⟨-, hd⟩ | ⟨hreq', -⟩
      · exact hd
      · rw [hgrant.1] at hreq'
        cases hreq'
    have hown : q.Tells c.id c.term c.id :=
      ⟨hsender.trans hdest, hterm.trans htell.term, Or.inr ⟨hreq, rfl⟩⟩
    refine Or.inr (hw.mono fun u _ hu => ?_)
    rcases h.counted hr u hu with rfl | ⟨x, hx, -, hxt⟩
    · exact ⟨q, hq, hown⟩
    · exact ⟨x, hx, hxt⟩
  · refine Or.inl (hw.mono fun u _ hu => ?_)
    by_contra hne
    exact hother ⟨u, hu, hne⟩

/-- A message that a node may process, and that only another node can make, was sent to it. -/
theorem Message.Arrives.was_sent {id : ℕ} (h : m.Arrives sent id) (hm : m.FromPeer) : m ∈ sent ∧ m.dest = id :=
  h.resolve_right fun hn => hn hm

/-- Counting an answer: a candidate counts the grants that were sent to it. -/
theorem Peer.Electing.tally (h : Electing cs sent c) (hsent : ∀ x ∈ sent, x.Sincere cs sent)
    (hm : m.Arrives sent c.id) {v : ℕ} {b : Bool}
    (hv : (v = c.id ∧ b = true) ∨ (v = m.sender ∧ b = !m.reject ∧
      ((c.role = .candidate ∧ m.msgType = .requestVoteResponse ∧ c.Current m) ∨
        (c.role = .preCandidate ∧ m.msgType = .requestPreVoteResponse)))) :
    Electing cs sent (c.tally v b) := by
  exact h.turn hsent {
    id := rfl
    out := rfl
    store := rfl
    voters := h.voters
    pending := h.pending
    binds := Or.inr ⟨rfl, fun _ => rfl⟩
    member := h.member
    stands := h.stands
    counted := by
      intro hrole u hu
      have hcand : c.role = .candidate := hrole
      by_cases huv : u = v
      swap
      · exact h.counted hcand u ((Function.update_of_ne huv _ _).symm.trans hu)
      · subst huv
        have hb : b = true := Option.some.inj ((Function.update_self u _ c.votes).symm.trans hu)
        rcases hv with ⟨rfl, -⟩ | ⟨rfl, hrej, ⟨-, hkind, hcur⟩ | ⟨hpre, -⟩⟩
        · exact Or.inl rfl
        · have hgrant : m.Grants := ⟨hkind, by rw [hb] at hrej; simpa using hrej.symm⟩
          have hpeer : m.FromPeer := Or.inr (Or.inr (Or.inr (Or.inr hgrant)))
          obtain ⟨hmem, hdest⟩ := hm.was_sent hpeer
          have hterm : m.term = c.term := hcur.resolve_right ((hsent m hmem).term hpeer).ne'
          exact Or.inr ⟨m, hmem, hgrant, rfl, hterm, Or.inl ⟨hgrant, hdest⟩⟩
        · rw [hcand] at hpre
          cases hpre
    leads := h.leads }

/-- A vote is given to the node that asked for it, unless it had been given to that node before. -/
theorem Peer.Electing.grant (h : Electing cs sent c) (hsent : ∀ x ∈ sent, x.Sincere cs sent)
    (hm : m.Arrives sent c.id) {msg : Message} (hreq : m.msgType = .requestVote) (hcur : c.Current m)
    (hv : c.vote = m.sender ∨ c.vote = 0) (ht : msg.msgType = .requestVoteResponse)
    (hs : msg.sender = c.id) (hd : msg.dest = m.sender) (htm : msg.term = m.term)
    (hrej : msg.reject = false) : Electing cs sent { c with vote := m.sender, out := c.out ++ [msg] } := by
  have hpeer : m.FromPeer := Or.inr (Or.inr (Or.inr (Or.inl hreq)))
  obtain ⟨hmem, -⟩ := hm.was_sent hpeer
  have hterm : m.term = c.term := hcur.resolve_right ((hsent m hmem).term hpeer).ne'
  have hgrant : msg.Grants := ⟨ht, hrej⟩
  have hgiven : Electing cs sent { c with vote := m.sender } := by
    refine h.turn hsent {
      id := rfl
      out := rfl
      store := rfl
      voters := h.voters
      pending := h.pending
      binds := Or.inr ⟨rfl, fun hne => (hv.resolve_right hne).symm⟩
      member := h.member
      stands := fun hr => ?_
      counted := h.counted
      leads := h.leads }
    obtain ⟨hpos, hvote⟩ := h.stands hr
    exact ⟨hpos, (hv.resolve_right (hvote ▸ h.id)).symm.trans hvote⟩
  refine hgiven.post ⟨fun _ => ?_, fun hvote => ?_, fun _ => ⟨m, hmem, hreq, hd.symm, htm.symm⟩,
    fun hsnap => ?_⟩ fun v t i hti => ?_
  · rw [htm]
    exact (hsent m hmem).term hpeer
  · rw [ht] at hvote
    cases hvote
  · rw [ht] at hsnap
    cases hsnap
  · refine ⟨hti.sender.symm.trans hs, hti.term.symm.trans (htm.trans hterm), ?_⟩
    rcases hti.vote with ⟨-, hdest⟩ | ⟨hvote, -⟩
    · exact hdest.symm.trans hd
    · rw [ht] at hvote
      cases hvote

/-- Entries that are added to a queued append say nothing about votes. -/
theorem Peer.Electing.batch (h : Electing cs sent c) {k : ℕ} {msg : Message} (hk : c.out[k]? = some msg)
    (hkind : msg.msgType = .append) (es : List Entry) : Electing cs sent { c with
      out := c.out.set k { msg with entries := msg.entries ++ es, commit := c.committed } } := by
  have hold := (h.queue msg (List.mem_of_getElem? hk)).1
  refine h.requeue fun y hy => ?_
  rcases List.mem_or_eq_of_mem_set hy with hy | rfl
  · exact Or.inl hy
  · have hnot : ¬ ({ msg with entries := msg.entries ++ es, commit := c.committed } : Message).Grants := by
      rintro ⟨hg, -⟩
      rw [hkind] at hg
      cases hg
    refine Or.inr ⟨⟨fun _ => hold.term (Or.inl hkind), fun hv => ?_, fun hg => absurd hg hnot,
      fun hsnap => ?_⟩, fun v t i hti => ?_⟩
    · rw [hkind] at hv
      cases hv
    · rw [hkind] at hsnap
      cases hsnap
    · rcases hti.kind with hg | hv
      · exact hnot hg
      · rw [hkind] at hv
        cases hv

/-- Every protocol step keeps what a node says about its votes true. -/
theorem Micro.electing (h : Electing cs sent c) (hsent : ∀ x ∈ sent, x.Sincere cs sent)
    (hm : m.Arrives sent c.id) (hstep : Micro honest m c c') : Electing cs sent c' := by
  cases hstep with
  | follow t M ht hM =>
      refine h.turn hsent (.follower rfl rfl rfl h.voters h.pending ?_ rfl)
      have hkeep : c.term = t → (c.reset t M).vote = c.vote := fun heq => if_pos heq
      cases ht with
      | same ht hl => exact Or.inr ⟨ht, fun _ => hkeep ht.symm⟩
      | higher hlt ht hr => exact Or.inl hlt
      | unstamped h0 hkind =>
          -- no message of a leader is without a term
          have hpeer : m.FromPeer := by
            rcases hkind with hk | hk | hk
            · exact Or.inl hk
            · exact Or.inr (Or.inl hk)
            · exact Or.inr (Or.inr (Or.inl hk))
          exact absurd h0 ((hsent m (hm.was_sent hpeer).1).term hpeer).ne'
  | preCampaign hr hv hn =>
      exact h.turn hsent {
        id := rfl
        out := rfl
        store := rfl
        voters := h.voters
        pending := h.pending
        binds := Or.inr ⟨rfl, fun _ => rfl⟩
        member := fun _ => hv
        stands := nofun
        counted := nofun
        leads := nofun }
  | campaign M hr hv hM =>
      exact h.turn hsent {
        id := rfl
        out := rfl
        store := rfl
        voters := h.voters
        pending := h.pending
        binds := Or.inl (Nat.lt_succ_self _)
        member := fun _ => hv.elim (fun hpre => h.member (by rw [hpre]; exact nofun)) And.left
        stands := fun _ => ⟨Nat.succ_pos _, rfl⟩
        counted := fun _ v hv => by cases hv
        leads := nofun }
  | tally v b hr hv => exact h.tally hsent hm hv
  | lead M hmay hr hw hM =>
      exact h.turn hsent {
        id := rfl
        out := rfl
        store := rfl
        voters := h.voters
        pending := h.pending
        binds := Or.inr ⟨rfl, fun _ => if_pos rfl⟩
        member := fun _ => h.member (by rw [hr]; exact nofun)
        stands := fun _ => ⟨(h.stands (Or.inl hr)).1, (if_pos rfl).trans (h.stands (Or.inl hr)).2⟩
        counted := nofun
        leads := fun _ => h.elected hr hsent hw }
  | commitDown i M hlt hle hvm hr hc ht h0 hterm hM =>
      exact h.turn hsent (.follower rfl rfl rfl h.voters h.pending (Or.inr ⟨rfl, fun _ => if_pos rfl⟩) rfl)
  | restore s t n k hkind hs hr hcur hle hlt ht =>
      have hpeer : m.FromPeer := Or.inr (Or.inr (Or.inl hkind))
      have hconf : s.metadata.confState = cs := (hsent m (hm.was_sent hpeer).1).snapshot hkind s hs
      refine h.turn hsent (.follower rfl rfl rfl ?_ ?_ (Or.inr ⟨rfl, fun _ => rfl⟩) hr)
      · have hlists := ConfRestore.restore_lists ht
        rw [hconf] at hlists
        exact hlists
      · intro md hmd
        cases hmd
        exact hconf
  | grant msg hreq hcur hv hu ht hs hd htm hrej hc =>
      exact h.grant hsent hm hreq hcur hv ht hs hd htm hrej
  | send msg hx => exact h.send hx
  | answerRemote req i msg ha ht hd hs htm hi he =>
      refine h.postOther ?_
      rintro (hf | hf | hf | hf | ⟨hf, -⟩) <;> rw [ht] at hf <;> cases hf
  | batch k msg es hk hkind hr hes j hj =>
      exact h.batch hk hkind es
  | _ => exact h.quiet hsent rfl (Or.inl rfl)

/-- A run of protocol steps on messages that may be processed. -/
theorem Acts.electing {ok : Message → Prop} (h : Electing cs sent c) (hsent : ∀ x ∈ sent, x.Sincere cs sent)
    (hok : ∀ m, ok m → m.Arrives sent c.id) (hacts : Acts honest ok c c') : Electing cs sent c' := by
  induction hacts with
  | refl => exact h
  | tail hprev hstep ih =>
      obtain ⟨m, hm, hstep⟩ := hstep
      refine Micro.electing ih hsent ?_ hstep
      rw [(Acts.moved hprev).id]
      exact hok m hm

end Raftz
