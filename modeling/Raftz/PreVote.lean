import Raftz.Canvass
import Raftz.LeaderRuns
import Raftz.Reconfiguration

/-! # Asking before a campaign

A cluster whose nodes ask before they campaign.  Whatever the network does, a node that
becomes a candidate without an order of the leader has counted, in the round it is in, answers
that grant its request and carry no term below its own, and their senders and itself are a
quorum.  Answers are told apart by their sender alone: one to a request of an earlier term
counts in the present round when it carries the term that the node has reached since. -/

open Base

namespace Raftz

variable {σ : Type} [LawfulStorage σ]

/-! ### Steps of a driver -/

namespace RawNode

theorem keeps_bid_getLightReadySince (since : ℕ) :
    Act.Keeps (fun n : RawNode σ => n.raft.bid) (getLightReadySince since) := by
  have hnote : ∀ ents, Act.Keeps (fun n : RawNode σ => n.raft.bid) (noteHandedOut since ents) := by
    intro ents
    unfold noteHandedOut
    split
    · exact .bind (.assert _) fun _ => .modify fun _ => rfl
    · exact .modify fun _ => rfl
  unfold getLightReadySince
  refine .bind .get fun n => .bind (keeps_onRaft (Raft.keeps_bid_onLog _)) fun next =>
    .bind (.modify fun _ => rfl) fun _ => .bind (keeps_onRaft (.modify fun r => ?_)) fun _ =>
      .bind (hnote _) fun _ => .pure _
  split <;> rfl

theorem keeps_bid_getReady : Act.Keeps (fun n : RawNode σ => n.raft.bid) getReady := by
  unfold getReady
  refine .bind .get fun n => .bind (.modify fun _ => rfl) fun _ => .bind ?_ fun since =>
    .bind (.catchErr (keeps_bid_getLightReadySince since) fun e => .bind (.modify fun _ => rfl) fun _ => .throw e)
      fun light => .bind (.modify fun _ => rfl) fun _ => .pure _
  unfold handOutFrom
  split
  · exact .bind (.assert _) fun _ => .bind (.assert _) fun _ => .pure _
  · exact .pure _

omit [LawfulStorage σ] in
theorem keeps_bid_commitReady (rd : Ready) : Act.Keeps (fun n : RawNode σ => n.raft.bid) (commitReady rd) := by
  have hlog : ∀ x : Act Err (RaftLog σ) Unit,
      Act.Keeps (fun n : RawNode σ => n.raft.bid) (onRaft (Raft.onLog x)) := fun x =>
    keeps_onRaft (Raft.keeps_bid_onLog x)
  unfold commitReady
  refine .bind (.modify fun _ => rfl) fun _ => .bind .get fun n => ?_
  split
  · exact .panic
  · refine .bind (.assert _) fun _ => .bind ?_ fun _ => ?_
    · unfold stabilizeSnapshot
      split
      · exact hlog _
      · exact .pure _
    · unfold stabilizeEntries
      split
      · exact hlog _
      · exact .pure _

theorem keeps_bid_onPersistReady (number : ℕ) :
    Act.Keeps (fun n : RawNode σ => n.raft.bid) (onPersistReady number) := by
  unfold onPersistReady
  refine .bind .get fun n => .bind (.modify fun _ => rfl) fun _ => .bind (.ite ?_ (.pure _)) fun _ =>
    .ite (.ignore ?_) (.pure _)
  · exact keeps_onRaft (Raft.keeps_bid_of_stands (Raft.stands_onPersistSnapshot _))
  · exact keeps_onRaft (Raft.keeps_bid_of_stands (Raft.stands_onPersistEntries _ _))

theorem keeps_bid_advanceAppend (rd : Ready) :
    Act.Keeps (fun n : RawNode σ => n.raft.bid) (advanceAppend rd) := by
  unfold advanceAppend
  exact .bind (keeps_bid_commitReady rd) fun _ => .bind .get fun n => .bind (keeps_bid_onPersistReady _) fun _ =>
    .bind .get fun n' => .bind (keeps_bid_getLightReadySince _) fun _ => .bind .get fun n'' =>
      .bind (.assert _) fun _ => .bind (.assert _) fun _ => .bind (.modify fun _ => rfl) fun _ =>
        .bind .get fun _ => .bind (.assert _) fun _ => .pure _

theorem keeps_bid_advanceApply : Act.Keeps (fun n : RawNode σ => n.raft.bid) advanceApply := by
  unfold advanceApply
  exact .bind .get fun n => keeps_onRaft (Raft.keeps_bid_commitApply _)

end RawNode

namespace Driver

/-- Only calls touch a candidacy. -/
theorem step_canvassed {SameData : σ → σ → Prop} {d d' : Driver σ} {ev : Event}
    (hpre : d.raw.raft.knobs.preVote = true) (h : Step SameData d ev d') :
    (∃ x, ev = .call x ∧ Raft.Canvassed x d.raw.raft.bid d'.raw.raft.bid) ∨
      d'.raw.raft.bid = d.raw.raft.bid := by
  cases h with
  | call x r hf hl => exact Or.inl ⟨x, rfl, hl.of_wp (Raft.wp_call_canvassed hpre x)⟩
  | ready rd raw store hr hw =>
      have hl : Outcome.Leaves (RawNode.getReady d.raw) raw := Or.inl ⟨rd, hr⟩
      exact Or.inr (hl.of_wp (RawNode.keeps_bid_getReady d.raw))
  | failedReady e raw hr =>
      have hl : Outcome.Leaves (RawNode.getReady d.raw) raw := Or.inr ⟨e, hr⟩
      exact Or.inr (hl.of_wp (RawNode.keeps_bid_getReady d.raw))
  | advanceAppendAsync rd raw hp hl => exact Or.inr (hl.of_wp (RawNode.keeps_bid_commitReady rd d.raw))
  | onPersistReady number raw hl => exact Or.inr (hl.of_wp (RawNode.keeps_bid_onPersistReady number d.raw))
  | advanceAppend rd l raw hp hr =>
      have hl : Outcome.Leaves (RawNode.advanceAppend rd d.raw) raw := Or.inl ⟨l, hr⟩
      exact Or.inr (hl.of_wp (RawNode.keeps_bid_advanceAppend rd d.raw))
  | failedAdvance rd e raw hp hr =>
      have hl : Outcome.Leaves (RawNode.advanceAppend rd d.raw) raw := Or.inr ⟨e, hr⟩
      exact Or.inr (hl.of_wp (RawNode.keeps_bid_advanceAppend rd d.raw))
  | advanceApply raw hl => exact Or.inr (hl.of_wp (RawNode.keeps_bid_advanceApply d.raw))
  | compact => exact Or.inr rfl
  | drift => exact Or.inr rfl

theorem wp_boot_follows (config : Config) (hs : HardState) (cs : ConfState) (r : Raft σ) :
    (Raft.boot config hs cs).wp
      (fun _ r' => r'.id = r.id ∧ r'.knobs = r.knobs ∧ r'.state = .follower) (fun _ _ => True) r := by
  have hload : Act.Keeps (fun r : Raft σ => (r.id, r.knobs)) (Raft.loadState hs) := by
    unfold Raft.loadState
    exact .bind .get fun _ => .ite .panic (.modify fun _ => rfl)
  have happly : Act.Keeps (fun r : Raft σ => (r.id, r.knobs)) (Raft.commitApplyUnchecked config.applied) := by
    intro r1
    have hauto : Act.Keeps Raft.bid (Raft.commitApplyUnchecked config.applied : RaftM σ Unit) := by
      unfold Raft.commitApplyUnchecked
      exact .bind .get fun _ => .bind (.modify fun _ => rfl) fun _ => Raft.keeps_bid_maybeAutoLeave _ _
    have hsame : ∀ r' : Raft σ, r'.bid = r1.bid → (r'.id, r'.knobs) = (r1.id, r1.knobs) := fun r' h =>
      congrArg (fun b : Raft.Bid => (b.id, b.knobs)) h
    exact Act.wp_mono (hauto r1) (fun _ => hsame) fun _ => hsame
  unfold Raft.boot
  rw [Act.wp_bind]
  refine Act.wp_mono ((Act.Keeps.ite hload (.pure ())) r) ?_ fun _ _ _ => trivial
  intro _ r1 h1
  rw [Act.wp_bind]
  refine Act.wp_mono ((Act.Keeps.ite happly (.pure ())) r1) ?_ fun _ _ _ => trivial
  intro _ r2 h2
  obtain ⟨hid, hknobs⟩ : r2.id = r.id ∧ r2.knobs = r.knobs := by
    simpa only [Prod.mk.injEq] using h2.trans h1
  rw [Act.wp_bind, Act.wp_get, Act.wp_bind]
  unfold Raft.becomeFollower
  rw [Act.wp_modify]
  have hreset := Raft.reset_bid r2 r2.term
  have hid' : (r2.reset r2.term).id = r.id := (congrArg Raft.Bid.id hreset).trans hid
  have hknobs' : (r2.reset r2.term).knobs = r.knobs := (congrArg Raft.Bid.knobs hreset).trans hknobs
  refine Act.wp_mono (Raft.keeps_bid_of_stands (Raft.stands_postConfChange cs) _) ?_ fun _ _ _ => trivial
  intro _ r3 h3
  exact ⟨(congrArg Raft.Bid.id h3).trans hid', (congrArg Raft.Bid.knobs h3).trans hknobs',
    congrArg Raft.Bid.state h3⟩

theorem starts_asks {config : Config} {prng : List ℕ} {store : σ} {d : Driver σ}
    (h : Starts config prng store d) :
    d.raw.raft.id = config.id ∧ d.raw.raft.knobs.preVote = config.preVote ∧ d.raw.raft.state = .follower := by
  obtain ⟨l, rs, t, -, -, -, -, hboot⟩ := Raft.init_cases (RawNode.init_cases h.1).1
  obtain ⟨hid, hknobs, hs⟩ := Act.wp_ok (wp_boot_follows config _ _ _) hboot
  exact ⟨hid, congrArg Knobs.preVote hknobs, hs⟩

end Driver

/-- The messages that a step hands out. -/
def Event.messages : Event → List Message
  | .ready rd => rd.light.messages
  | .light l => l.messages
  | _ => []

/-- The message that a step processes. -/
def Event.stepped : Event → List Message
  | .call (.step m) => [m]
  | _ => []

/-- Nodes, everything they have ever sent, and what each has processed in the round it is in. -/
structure Cluster (ι σ : Type) where
  nodes : ι → Driver σ
  sent : List Message := []
  heard : ι → List Message := fun _ => []

namespace Cluster

variable {ι : Type} [DecidableEq ι]

/-- What a node has processed since its tally last held nothing but its own vote, which is all it
holds when the node has become a pre-candidate. -/
def hears (before : List Message) (ev : Event) (d : Driver σ) : List Message :=
  if d.raw.raft.state = .preCandidate ∧
      d.raw.raft.progressTracker.votes.entries ≠ (Raft.ownVote d.raw.raft.id).entries then
    before ++ ev.stepped
  else []

/-- A node acts, or is started again from its storage.  Messages may be lost, repeated, delayed and
reordered; what a node steps on its own has no term and is no answer. -/
inductive Step (ids : ι → ℕ) (SameData : σ → σ → Prop) : Cluster ι σ → Cluster ι σ → Prop
  | act (c : Cluster ι σ) (i : ι) (ev : Event) (d : Driver σ) (h : Driver.Step SameData (c.nodes i) ev d)
      (hm : ∀ m, ev = .call (.step m) →
        (m.term = 0 ∧ m.msgType ≠ .requestPreVoteResponse) ∨ (m ∈ c.sent ∧ m.dest = ids i)) :
      Step ids SameData c {
        nodes := Function.update c.nodes i d
        sent := c.sent ++ ev.messages
        heard := Function.update c.heard i (hears (c.heard i) ev d) }
  | restart (c : Cluster ι σ) (i : ι) (config : Config) (prng : List ℕ) (d : Driver σ)
      (hid : config.id = ids i) (hpre : config.preVote = true)
      (h : Driver.Starts config prng (c.nodes i).raw.store d) :
      Step ids SameData c {
        nodes := Function.update c.nodes i d
        sent := c.sent
        heard := Function.update c.heard i [] }

/-- Every node has just been started, asks before it campaigns, and nothing has been sent. -/
def Starts (ids : ι → ℕ) (c : Cluster ι σ) : Prop :=
  (∀ i, ∃ config prng store, config.id = ids i ∧ config.preVote = true ∧
    Driver.Starts config prng store (c.nodes i)) ∧ c.sent = [] ∧ c.heard = fun _ => []

/-- Any number of steps. -/
abbrev Steps (ids : ι → ℕ) (SameData : σ → σ → Prop) : Cluster ι σ → Cluster ι σ → Prop :=
  Relation.ReflTransGen (Step ids SameData)

/-- An answer of `v` that grants a pre-vote and satisfies `ok`. -/
def Granted (ok : Message → Prop) (msgs : List Message) (v : ℕ) : Prop :=
  ∃ m ∈ msgs, m.sender = v ∧ m.msgType = .requestPreVoteResponse ∧ m.reject = false ∧ ok m

/-- The node asks before it campaigns, and has a grant behind every vote it counts. -/
structure Asks (id : ℕ) (d : Driver σ) (msgs : List Message) : Prop where
  own : d.raw.raft.id = id
  knob : d.raw.raft.knobs.preVote = true
  votes : d.raw.raft.state = .preCandidate → ∀ v,
    d.raw.raft.progressTracker.votes.lookup v = some true →
      v = id ∨ Granted (fun m => m.term = 0 ∨ d.raw.raft.term ≤ m.term) msgs v

omit [LawfulStorage σ] [DecidableEq ι] in
theorem Granted.mono {ok ok' : Message → Prop} {msgs msgs' : List Message} {v : ℕ}
    (hok : ∀ m, ok m → ok' m) (hsub : ∀ m ∈ msgs, m ∈ msgs') (h : Granted ok msgs v) : Granted ok' msgs' v := by
  obtain ⟨m, hm, hv, ht, hr, ho⟩ := h
  exact ⟨m, hsub m hm, hv, ht, hr, hok m ho⟩

theorem lookup_ownVote {id v : ℕ} (h : (Raft.ownVote id).lookup v = some true) : v = id := by
  by_contra hne
  unfold Raft.ownVote at h
  rw [AList.lookup_insert_ne hne] at h
  cases h

omit [LawfulStorage σ] [DecidableEq ι] in
/-- What `hears` forgets is behind no vote but the own one. -/
theorem granted_hears {d : Driver σ} {id v : ℕ} {ok : Message → Prop} {msgs : List Message} {ev : Event}
    (hown : d.raw.raft.id = id) (hs : d.raw.raft.state = .preCandidate)
    (hv : d.raw.raft.progressTracker.votes.lookup v = some true)
    (h : v = id ∨ Granted ok (msgs ++ ev.stepped) v) : v = id ∨ Granted ok (hears msgs ev d) v := by
  by_cases hfresh : d.raw.raft.progressTracker.votes.entries = (Raft.ownVote d.raw.raft.id).entries
  · rw [AList.ext hfresh] at hv
    exact Or.inl ((lookup_ownVote hv).trans hown)
  · unfold hears
    rw [if_pos ⟨hs, hfresh⟩]
    exact h

omit [LawfulStorage σ] [DecidableEq ι] in
/-- What a counted answer adds to the tally is a grant that has just been processed. -/
theorem asks_insert {d : Driver σ} {id : ℕ} {msgs : List Message} (h : Asks id d msgs)
    (hs : d.raw.raft.state = .preCandidate) {m : Message} (hm : m.msgType = .requestPreVoteResponse)
    (ht : m.term = 0 ∨ d.raw.raft.term ≤ m.term) {v : ℕ}
    (hv : (d.raw.raft.progressTracker.votes.insert m.sender (!m.reject)).lookup v = some true) :
    v = id ∨ Granted (fun m => m.term = 0 ∨ d.raw.raft.term ≤ m.term)
      (msgs ++ Event.stepped (.call (.step m))) v := by
  by_cases hsender : v = m.sender
  · rw [hsender, AList.lookup_insert] at hv
    have hgrant : m.reject = false := by simpa using hv
    exact Or.inr ⟨m, List.mem_append_right _ List.mem_cons_self, hsender.symm, hm, hgrant, ht⟩
  · rw [AList.lookup_insert_ne hsender] at hv
    exact (h.votes hs v hv).imp_right fun hg =>
      hg.mono (fun _ ho => ho) fun _ hm => List.mem_append_left _ hm

/-- A step of a node keeps a grant behind every vote. -/
theorem Asks.step {SameData : σ → σ → Prop} {d d' : Driver σ} {ev : Event} {id : ℕ} {msgs : List Message}
    (h : Asks id d msgs) (hstep : Driver.Step SameData d ev d') : Asks id d' (hears msgs ev d') := by
  have habides : Raft.Abides d.raw.raft.bid d'.raw.raft.bid → Asks id d' (hears msgs ev d') := by
    intro hab
    have hown : d'.raw.raft.id = id := hab.id.trans h.own
    refine ⟨hown, (congrArg Knobs.preVote hab.knobs).trans h.knob, fun hs v hv => ?_⟩
    obtain ⟨hs0, ht0, hv0⟩ := hab.asking hs
    have ht0 : d'.raw.raft.term = d.raw.raft.term := ht0
    have hv0 : d'.raw.raft.progressTracker.votes = d.raw.raft.progressTracker.votes := hv0
    refine granted_hears hown hs hv ?_
    rw [hv0] at hv
    rw [ht0]
    exact (h.votes hs0 v hv).imp_right fun hg =>
      hg.mono (fun _ ho => ho) fun _ hm => List.mem_append_left _ hm
  rcases Driver.step_canvassed h.knob hstep with ⟨x, rfl, hcan⟩ | hsame
  · obtain ⟨hid, hknobs⟩ := hcan.id_knobs
    have hown : d'.raw.raft.id = id := hid.trans h.own
    have hknob : d'.raw.raft.knobs.preVote = true := (congrArg Knobs.preVote hknobs).trans h.knob
    cases hcan with
    | abides hab => exact habides hab
    | asked b1 _ _ _ htally =>
        refine ⟨hown, hknob, fun hs v hv => Or.inl ?_⟩
        have hvotes : d'.raw.raft.progressTracker.votes = Raft.ownVote d.raw.raft.id := (htally.asking hs).2
        rw [hvotes] at hv
        exact (lookup_ownVote hv).trans h.own
    | answered m hx hm ht hs0 htally =>
        cases hx
        refine ⟨hown, hknob, fun hs v hv => granted_hears hown hs hv ?_⟩
        obtain ⟨hterm, hvotes⟩ := htally.asking hs
        have hterm : d'.raw.raft.term = d.raw.raft.term := hterm
        have hvotes : d'.raw.raft.progressTracker.votes =
            d.raw.raft.progressTracker.votes.insert m.sender (!m.reject) := hvotes
        rw [hvotes] at hv
        rw [hterm]
        exact asks_insert h hs0 hm ht hv
    | told _ _ _ _ _ hs => exact ⟨hown, hknob, fun hs' => absurd hs' hs⟩
  · refine habides ?_
    rw [hsame]
    exact .refl _

/-- Every node of a cluster asks. -/
theorem asks_run {ids : ι → ℕ} {SameData : σ → σ → Prop} {c c' : Cluster ι σ} (hstart : Starts ids c)
    (hrun : Steps ids SameData c c') (i : ι) : Asks (ids i) (c'.nodes i) (c'.heard i) := by
  have hfresh : ∀ {config : Config} {prng : List ℕ} {store : σ} {d : Driver σ} (j : ι) (msgs : List Message),
      config.id = ids j → config.preVote = true → Driver.Starts config prng store d →
        Asks (ids j) d msgs := by
    intro config prng store d j msgs hid hpre hst
    obtain ⟨h1, h2, h3⟩ := Driver.starts_asks hst
    refine ⟨h1.trans hid, h2.trans hpre, fun hs => ?_⟩
    rw [h3] at hs
    cases hs
  induction hrun with
  | refl =>
      obtain ⟨config, prng, store, hid, hpre, hst⟩ := hstart.1 i
      exact hfresh i _ hid hpre hst
  | tail _ hstep ih =>
      cases hstep with
      | act j ev d h hm =>
          by_cases hij : i = j
          · subst hij
            dsimp only
            rw [Function.update_self, Function.update_self]
            exact ih.step h
          · dsimp only
            rw [Function.update_of_ne hij, Function.update_of_ne hij]
            exact ih
      | restart j config prng d hid hpre h =>
          by_cases hij : i = j
          · subst hij
            dsimp only
            rw [Function.update_self, Function.update_self]
            exact hfresh i _ hid hpre h
          · dsimp only
            rw [Function.update_of_ne hij, Function.update_of_ne hij]
            exact ih

/-- A node that becomes a candidate (or at once the leader) in the next term without an order of the
leader has heard, in its present round, grants that carry no term below its own from nodes that are
a quorum together with itself. -/
theorem candidate_granted {ids : ι → ℕ} {SameData : σ → σ → Prop} {c c' : Cluster ι σ}
    (hstart : Starts ids c) (hrun : Steps ids SameData c c') (i : ι) {ev : Event} {d : Driver σ}
    (hstep : Driver.Step SameData (c'.nodes i) ev d)
    (htold : ∀ m, ev = .call (.step m) → m.msgType ≠ .timeoutNow)
    (hrises : d.raw.raft.state = .candidate ∨ d.raw.raft.state = .leader)
    {t : ℕ} (ht : d.raw.raft.term = t + 1)
    (hnew : ¬(((c'.nodes i).raw.raft.state = .candidate ∨ (c'.nodes i).raw.raft.state = .leader) ∧
      (c'.nodes i).raw.raft.term = t + 1)) :
    ∃ Q : Set ℕ, (c'.nodes i).raw.raft.conf.voters.IsQuorum Q ∧
      ∀ v ∈ Q, v = ids i ∨
        Granted (fun m => m.term = 0 ∨ t ≤ m.term) (c'.heard i ++ ev.stepped) v := by
  have h := asks_run hstart hrun i
  have hrises : d.raw.raft.bid.state = .candidate ∨ d.raw.raft.bid.state = .leader := hrises
  have hab : ¬Raft.Abides (c'.nodes i).raw.raft.bid d.raw.raft.bid := by
    intro hab
    have hbefore : ((c'.nodes i).raw.raft.state = .candidate ∨ (c'.nodes i).raw.raft.state = .leader) ∧
        d.raw.raft.term = (c'.nodes i).raw.raft.term := by
      rcases hrises with hs | hs
      · exact (hab.standing hs).imp_left Or.inl
      · exact (hab.leading hs).imp_left Or.symm
    exact hnew ⟨hbefore.1, hbefore.2.symm.trans ht⟩
  rcases Driver.step_canvassed h.knob hstep with ⟨x, rfl, hcan⟩ | hsame
  · cases hcan with
    | abides h => exact absurd h hab
    | asked b1 _ _ hconf htally =>
        obtain ⟨-, hwon⟩ := htally.rises hrises
        rw [hconf] at hwon
        refine ⟨_, ⟨_, fun v => Iff.rfl, hwon⟩, fun v hv => Or.inl ?_⟩
        exact (lookup_ownVote hv).trans h.own
    | answered m hx hm hmt hs0 htally =>
        cases hx
        obtain ⟨hterm, hwon⟩ := htally.rises hrises
        have hterm : d.raw.raft.term = (c'.nodes i).raw.raft.term + 1 := hterm
        have htt : (c'.nodes i).raw.raft.term = t := by omega
        refine ⟨_, ⟨_, fun v => Iff.rfl, hwon⟩, fun v hv => ?_⟩
        rw [← htt]
        exact asks_insert h hs0 hm hmt hv
    | told m hx hm => exact absurd hm (htold m (by rw [hx]))
  · refine absurd ?_ hab
    rw [hsame]
    exact .refl _

/-! ### Scripts -/

/-- What is done next: a node acts on its own, or processes one of the messages that have been sent. -/
inductive Move (ι : Type)
  | own (i : ι) (op : Driver.Op)
  | deliver (i : ι) (k : ℕ)

/-- May a node do this on its own? -/
def ownOp : Driver.Op → Bool
  | .call (.step m) => m.term == 0 && m.msgType != .requestPreVoteResponse
  | _ => true

/-- The cluster after a step of a node. -/
def next (c : Cluster ι σ) (i : ι) (t : Event × Driver σ) : Cluster ι σ where
  nodes := Function.update c.nodes i t.2
  sent := c.sent ++ t.1.messages
  heard := Function.update c.heard i (hears (c.heard i) t.1 t.2)

/-- Do it, if it can be done. -/
def exec (ids : ι → ℕ) (c : Cluster ι σ) : Move ι → Option (Cluster ι σ)
  | .own i op => if ownOp op = true then ((c.nodes i).exec op).map (c.next i) else none
  | .deliver i k => (c.sent[k]?).bind fun m =>
      if m.dest = ids i then ((c.nodes i).exec (.call (.step m))).map (c.next i) else none

/-- Carry out a script. -/
def play (ids : ι → ℕ) : List (Move ι) → Cluster ι σ → Option (Cluster ι σ)
  | [], c => some c
  | a :: as, c => (c.exec ids a).bind (play ids as)

/-- Only a call of it processes a message. -/
theorem event_of_exec {d : Driver σ} {op : Driver.Op} {t : Event × Driver σ} {m : Message}
    (h : d.exec op = some t) (hm : t.1 = .call (.step m)) : op = .call (.step m) := by
  unfold Driver.exec at h
  cases op with
  | call x =>
      dsimp only at h
      split at h
      · obtain ⟨r, _, rfl⟩ := Option.map_eq_some_iff.mp h
        cases hm
        rfl
      · cases h
  | ready =>
      dsimp only at h
      split at h
      · split at h
        · cases h
          cases hm
        · cases h
      · cases h
  | advanceAppend =>
      dsimp only at h
      split at h
      · split at h
        · cases h
          cases hm
        · cases h
      · cases h
  | advanceAppendAsync =>
      dsimp only at h
      split at h
      · obtain ⟨r, _, rfl⟩ := Option.map_eq_some_iff.mp h
        cases hm
      · cases h
  | onPersistReady number =>
      obtain ⟨r, _, rfl⟩ := Option.map_eq_some_iff.mp h
      cases hm
  | advanceApply =>
      obtain ⟨r, _, rfl⟩ := Option.map_eq_some_iff.mp h
      cases hm

theorem exec_step {ids : ι → ℕ} (SameData : σ → σ → Prop) {c c' : Cluster ι σ} {a : Move ι}
    (h : c.exec ids a = some c') : Step ids SameData c c' := by
  cases a with
  | own i op =>
      unfold exec at h
      dsimp only at h
      split at h
      · rename_i hop
        obtain ⟨t, ht, rfl⟩ := Option.map_eq_some_iff.mp h
        refine .act c i t.1 t.2 (Driver.exec_step ht) fun m hm => Or.inl ?_
        rw [event_of_exec ht hm] at hop
        unfold ownOp at hop
        simpa using hop
      · cases h
  | deliver i k =>
      obtain ⟨m, hm, h⟩ := Option.bind_eq_some_iff.mp h
      split at h
      · rename_i hdest
        obtain ⟨t, ht, rfl⟩ := Option.map_eq_some_iff.mp h
        refine .act c i t.1 t.2 (Driver.exec_step ht) fun m' hm' => Or.inr ?_
        have heq := event_of_exec ht hm'
        cases heq
        exact ⟨List.mem_of_getElem? hm, hdest⟩
      · cases h

theorem play_steps {ids : ι → ℕ} (SameData : σ → σ → Prop) {as : List (Move ι)} {c c' : Cluster ι σ}
    (h : play ids as c = some c') : Steps ids SameData c c' := by
  induction as generalizing c with
  | nil =>
      cases h
      exact .refl
  | cons a as ih =>
      obtain ⟨c1, h1, h2⟩ := Option.bind_eq_some_iff.mp h
      exact .head (exec_step SameData h1) (ih h2)

/-! ### A late answer -/

/-- A node of a cluster of three. -/
def started (id : ℕ) : Option (Driver MemoryStorage) :=
  match RawNode.init { id := id, preVote := true } []
      ({ raftState := { confState := { voters := [1, 2, 3] } } } : MemoryStorage) with
  | .ok raw _ => some ⟨raw, none⟩
  | _ => none

/-- The numerals of `Fin 3` stand on one fact. -/
instance three_neZero : NeZero 3 := ⟨by decide⟩

/-- Three nodes that have just been started. -/
def three : Option (Cluster (Fin 3) MemoryStorage) :=
  (started 1).bind fun a => (started 2).bind fun b => (started 3).map fun c =>
    { nodes := fun i => if i = 0 then a else if i = 1 then b else c }

/-- The ids of the three nodes. -/
def threeIds (i : Fin 3) : ℕ := i + 1

theorem starts_of_started {id : ℕ} {d : Driver MemoryStorage} (h : started id = some d) :
    ∃ config prng store, config.id = id ∧ config.preVote = true ∧ Driver.Starts config prng store d := by
  unfold started at h
  split at h
  · rename_i raw _ hinit
    cases h
    exact ⟨_, _, _, rfl, rfl, hinit, rfl⟩
  · cases h

theorem starts_three {c : Cluster (Fin 3) MemoryStorage} (h : three = some c) : Starts threeIds c := by
  obtain ⟨a, ha, h⟩ := Option.bind_eq_some_iff.mp h
  obtain ⟨b, hb, h⟩ := Option.bind_eq_some_iff.mp h
  obtain ⟨d, hd, rfl⟩ := Option.map_eq_some_iff.mp h
  refine ⟨fun i => ?_, rfl, rfl⟩
  match i with
  | 0 => exact starts_of_started ha
  | 1 => exact starts_of_started hb
  | 2 => exact starts_of_started hd

/-- Node 1 asks for term 1 and node 2 grants it, but the answer is late.  Node 3 asks for term 1 too and
campaigns with the grant of node 2.  Its request takes node 1 to term 1, where node 1 asks for term 2. -/
def lateAnswer : List (Move (Fin 3)) := [
  .own 0 (.call (.step { msgType := .hup })), .own 0 .ready, .own 0 .advanceAppend,
  .deliver 1 0, .own 1 .ready, .own 1 .advanceAppend,
  .own 2 (.call (.step { msgType := .hup })), .own 2 .ready, .own 2 .advanceAppend,
  .deliver 1 4, .own 1 .ready, .own 1 .advanceAppend,
  .deliver 2 5, .own 2 .ready, .own 2 .advanceAppend,
  .deliver 0 6, .own 0 (.call (.step { msgType := .hup }))]

/-- What the late answer finds and leaves. -/
structure LateAnswer (c : Cluster (Fin 3) MemoryStorage) (m : Message) (d : Driver MemoryStorage) : Prop where
  dest : m.dest = threeIds 0
  msgType : m.msgType = .requestPreVoteResponse
  answers : m.term = 1
  heard : c.heard 0 = []
  asking : (c.nodes 0).raw.raft.state = .preCandidate
  term : (c.nodes 0).raw.raft.term = 1
  alone : (c.nodes 0).raw.raft.conf.voters.getVoteResult (fun v => if v = 1 then some true else none) = .pending
  stands : d.raw.raft.state = .candidate
  next : d.raw.raft.term = 2

theorem lateAnswer_run : ∃ (c0 c : Cluster (Fin 3) MemoryStorage) (m : Message) (d : Driver MemoryStorage),
    Starts threeIds c0 ∧ Steps threeIds Eq c0 c ∧ m ∈ c.sent ∧
      Driver.Step Eq (c.nodes 0) (.call (.step m)) d ∧ LateAnswer c m d := by
  have hrun : (three.bind fun c0 => (play threeIds lateAnswer c0).bind fun c => c.sent[2]?.bind fun m =>
      ((c.nodes 0).exec (.call (.step m))).map fun t => decide (m.dest = threeIds 0 ∧
        m.msgType = .requestPreVoteResponse ∧ m.term = 1 ∧ c.heard 0 = [] ∧
        (c.nodes 0).raw.raft.state = .preCandidate ∧ (c.nodes 0).raw.raft.term = 1 ∧
        (c.nodes 0).raw.raft.conf.voters.getVoteResult (fun v => if v = 1 then some true else none) =
          .pending ∧
        t.2.raw.raft.state = .candidate ∧ t.2.raw.raft.term = 2)) = some true := by
    decide +kernel
  obtain ⟨c0, hc0, hrun⟩ := Option.bind_eq_some_iff.mp hrun
  obtain ⟨c, hc, hrun⟩ := Option.bind_eq_some_iff.mp hrun
  obtain ⟨m, hm, hrun⟩ := Option.bind_eq_some_iff.mp hrun
  obtain ⟨t, ht, heq⟩ := Option.map_eq_some_iff.mp hrun
  obtain ⟨h1, h2, h3, h4, h5, h6, h7, h8, h9⟩ := of_decide_eq_true heq
  have hstep : Driver.Step Eq (c.nodes 0) t.1 t.2 := Driver.exec_step ht
  have hev : t.1 = .call (.step m) := by
    unfold Driver.exec at ht
    dsimp only at ht
    split at ht
    · obtain ⟨r, _, rfl⟩ := Option.map_eq_some_iff.mp ht
      rfl
    · cases ht
  rw [hev] at hstep
  exact ⟨c0, c, m, t.2, starts_three hc0, play_steps Eq hc, List.mem_of_getElem? hm, hstep,
    ⟨h1, h2, h3, h4, h5, h6, h7, h8, h9⟩⟩

/-- An answer to the request for term 1 makes a candidate of term 2: no node has granted term 2. -/
theorem candidate_not_granted : ∃ (c0 c : Cluster (Fin 3) MemoryStorage) (m : Message)
    (d : Driver MemoryStorage), Starts threeIds c0 ∧ Steps threeIds Eq c0 c ∧
      m ∈ c.sent ∧ m.dest = threeIds 0 ∧ m.msgType ≠ .timeoutNow ∧
      Driver.Step Eq (c.nodes 0) (.call (.step m)) d ∧
      (c.nodes 0).raw.raft.state = .preCandidate ∧ (c.nodes 0).raw.raft.term = 1 ∧
      d.raw.raft.state = .candidate ∧ d.raw.raft.term = 1 + 1 ∧
      ¬∃ Q : Set ℕ, (c.nodes 0).raw.raft.conf.voters.IsQuorum Q ∧
        ∀ v ∈ Q, v = threeIds 0 ∨ Granted (fun m => m.term = 1 + 1) (c.heard 0 ++ [m]) v := by
  obtain ⟨c0, c, m, d, hstart, hsteps, hsent, hstep, h⟩ := lateAnswer_run
  refine ⟨c0, c, m, d, hstart, hsteps, hsent, h.dest, ?_, hstep, h.asking, h.term, h.stands, h.next, ?_⟩
  · rw [h.msgType]
    exact MessageType.noConfusion
  · rintro ⟨Q, hQ, hgranted⟩
    -- only node 1 itself can be in the quorum, and alone it is none
    have honly : ∀ v ∈ Q, v = 1 := by
      intro v hv
      rcases hgranted v hv with hv | ⟨m', hm', -, -, -, ht⟩
      · exact hv
      · rw [h.heard, List.nil_append, List.mem_singleton] at hm'
        rw [hm', h.answers] at ht
        cases ht
    have hwon : (c.nodes 0).raw.raft.conf.voters.getVoteResult
        (fun v => if v = 1 then some true else none) = .won :=
      JointConfiguration.won_of_wins hQ.wins fun v _ hv => if_pos (honly v hv)
    rw [h.alone] at hwon
    cases hwon

/-- The late answer is a grant that carries the term of the candidate before. -/
theorem candidate_granted_late : ∃ (c : Cluster (Fin 3) MemoryStorage) (m : Message) (Q : Set ℕ),
    (c.nodes 0).raw.raft.conf.voters.IsQuorum Q ∧
      ∀ v ∈ Q, v = threeIds 0 ∨ Granted (fun m => m.term = 0 ∨ 1 ≤ m.term) (c.heard 0 ++ [m]) v := by
  obtain ⟨c0, c, m, d, hstart, hsteps, -, hstep, h⟩ := lateAnswer_run
  have htold : ∀ m', Event.call (.step m) = .call (.step m') → m'.msgType ≠ .timeoutNow := by
    intro m' hm'
    cases hm'
    rw [h.msgType]
    exact MessageType.noConfusion
  have hnew : ¬(((c.nodes 0).raw.raft.state = .candidate ∨ (c.nodes 0).raw.raft.state = .leader) ∧
      (c.nodes 0).raw.raft.term = 1 + 1) := by
    rw [h.term]
    exact fun hf => absurd hf.2 (by decide)
  obtain ⟨Q, hQ, hgranted⟩ := candidate_granted hstart hsteps 0 hstep htold (Or.inl h.stands) h.next hnew
  exact ⟨c, m, Q, hQ, hgranted⟩

end Cluster

end Raftz
