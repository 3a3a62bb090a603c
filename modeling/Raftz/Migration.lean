import Raftz.Types

/-! # Online replica migration

The step of a migration in `multi_raft.zig`: a workflow that replaces a voter of
a group by a new node, driven by the host on the group's leader.  Every step
looks at the group through a probe, moves between seven stages and makes at most
one call on the group.

The target is to be observed active and matched to the commit index for a number
of clock ticks before it is promoted, and again before the source is removed.
`StableFor` says so of the steps taken.  The counter of these ticks is reset when
the target is seen inactive or behind and when the local node does not lead, but
not in the steps that return before looking: those that see a joint configuration
or, on the leader, a pending change (`Steps.Clear`). -/

namespace Raftz

namespace Migration

/-- Where a migration stands. -/
inductive ReplicaMigrationStage
  | addingLearner
  | waitingLearner
  | catchingUp
  | waitingVoter
  | stabilizingVoter
  | waitingTargetLeader
  | waitingSourceRemoval
  deriving DecidableEq, Repr

/-- The place of a node in a configuration. -/
inductive MembershipRole
  | voter
  | learner
  deriving DecidableEq, Repr

/-- Why a migration is refused or ends without success. -/
inductive MigrationErr
  | replicaMigrationCancelled
  | timeout
  | groupNotFound
  | shuttingDown
  | replicaMigrationConflict
  | invalidGroupId
  | invalidNodeId
  | peerAddressMissing
  | groupOperationBackpressure
  | invalidConfig
  | duplicateRequest
  | migrationIntentCorrupt
  | unsupportedVersion
  | group (e : Err)
  deriving DecidableEq, Repr

/-- The group as the local node sees it. -/
structure ReplicaMigrationProbe where
  localRole : StateRole
  leaderId : ℕ
  commitIndex : ℕ
  pendingConfChange : Bool
  jointConfiguration : Bool
  sourceRole : Option MembershipRole
  targetRole : Option MembershipRole
  targetAddressMatches : Bool
  targetMatched : ℕ
  targetRecentActive : Bool
  deriving DecidableEq, Repr

/-- What is asked for. -/
structure ReplicaMigrationRequest where
  groupId : ℕ
  sourceNodeId : ℕ
  targetNodeId : ℕ
  targetAddress : Bytes
  timeoutTicks : ℕ
  stableCatchUpTicks : ℕ
  deriving DecidableEq, Repr

/-- A migration in progress. -/
structure ReplicaMigration where
  groupId : ℕ
  sourceNodeId : ℕ
  targetNodeId : ℕ
  targetAddress : Bytes
  timeoutTicks : ℕ
  requiredStableTicks : ℕ
  startTick : ℕ
  stage : ReplicaMigrationStage := .addingLearner
  stableTicks : ℕ := 0
  targetMatched : ℕ := 0
  leaderCommit : ℕ := 0
  targetRecentActive : Bool := false
  cancelRequested : Bool := false
  sourceRemovalSubmitted : Bool := false
  deriving DecidableEq, Repr

/-- A new migration. -/
def ReplicaMigration.create (request : ReplicaMigrationRequest) (startTick : ℕ) :
    ReplicaMigration where
  groupId := request.groupId
  sourceNodeId := request.sourceNodeId
  targetNodeId := request.targetNodeId
  targetAddress := request.targetAddress
  timeoutTicks := request.timeoutTicks
  requiredStableTicks := request.stableCatchUpTicks
  startTick := startTick

/-- A call on the group. -/
inductive Call
  | addLearner (id : ℕ) (address : Bytes)
  | addNode (id : ℕ) (address : Bytes)
  | transferLeader (id : ℕ)
  | removeNode (id : ℕ)
  deriving DecidableEq, Repr

/-- The group when a step looks for it. -/
inductive GroupState
  | missing
  | terminal (lastError : MigrationErr)
  | stopping
  | refused (e : MigrationErr)
  | probed (p : ReplicaMigrationProbe)
  deriving DecidableEq, Repr

/-- What a step finds: the clock, the group, and how the group answers a call. -/
structure View where
  advanceClock : Bool
  tickIterations : ℕ
  group : GroupState
  proposalForwardingEnabled : Bool
  answer : Call → Option MigrationErr

/-- The result of a step. -/
inductive MigrationStepResult
  | idle
  | worked
  | completed (e : Option MigrationErr)
  deriving DecidableEq, Repr

/-- What a step leaves: the migration, the result, and the call it made. -/
structure Outcome where
  migration : ReplicaMigration
  result : MigrationStepResult
  call : Option Call := none
  deriving DecidableEq, Repr

/-! ### The step -/

/-- The largest `u32`. -/
def maxU32 : ℕ := 2 ^ 32 - 1

/-- Count a tick at which the target is active and matched; has it been so for long enough? -/
def migrationCaughtUp (m : ReplicaMigration) (p : ReplicaMigrationProbe) (advanceClock : Bool) :
    ReplicaMigration × Bool :=
  if p.targetRecentActive = false ∨ p.targetMatched < p.commitIndex then
    ({ m with stableTicks := 0 }, false)
  else
    let stable := if advanceClock = true ∧ m.stableTicks < maxU32 then m.stableTicks + 1
      else m.stableTicks
    ({ m with stableTicks := stable }, decide (m.requiredStableTicks ≤ stable))

/-- Make a call; a dropped proposal is tried again, any other error ends the migration. -/
def submit (m m' : ReplicaMigration) (v : View) (c : Call) : Outcome :=
  match v.answer c with
  | none => ⟨m', .worked, some c⟩
  | some e => if e = .group .proposalDropped then ⟨m, .idle, some c⟩
      else ⟨m, .completed (some e), some c⟩

/-- Enter a stage, with nothing counted yet. -/
def advanceMigrationStage (m : ReplicaMigration) (stage : ReplicaMigrationStage) : Outcome :=
  ⟨{ m with stage := stage, stableTicks := 0 }, .worked, none⟩

/-- The configuration is not the one the migration is working on. -/
def conflict (m : ReplicaMigration) : Outcome :=
  ⟨m, .completed (some .replicaMigrationConflict), none⟩

/-- Add the target as a learner. -/
def addMigrationLearner (m : ReplicaMigration) (v : View) (p : ReplicaMigrationProbe) : Outcome :=
  match p.targetRole with
  | some .learner => advanceMigrationStage m .catchingUp
  | some .voter => advanceMigrationStage m .stabilizingVoter
  | none =>
      if p.pendingConfChange then ⟨m, .idle, none⟩
      else submit m { m with stage := .waitingLearner, stableTicks := 0 } v
        (.addLearner m.targetNodeId m.targetAddress)

/-- Promote the learner once it has caught up. -/
def catchUpMigrationLearner (m : ReplicaMigration) (v : View) (p : ReplicaMigrationProbe) : Outcome :=
  match p.targetRole with
  | some .voter => advanceMigrationStage m .stabilizingVoter
  | none => conflict m
  | some .learner =>
      if p.pendingConfChange then ⟨m, .idle, none⟩
      else
        match migrationCaughtUp m p v.advanceClock with
        | (m, false) => ⟨m, .idle, none⟩
        | (m, true) => submit m { m with stage := .waitingVoter, stableTicks := 0 } v
            (.addNode m.targetNodeId m.targetAddress)

/-- Ask for the removal of the source. -/
def submitMigrationSourceRemoval (m : ReplicaMigration) (v : View) (p : ReplicaMigrationProbe) :
    Outcome :=
  if p.localRole ≠ .leader ∧ v.proposalForwardingEnabled = false then ⟨m, .idle, none⟩
  else submit m { m with
      sourceRemovalSubmitted := true, stage := .waitingSourceRemoval, stableTicks := 0 } v
    (.removeNode m.sourceNodeId)

/-- Remove the source, or first hand over the leadership, once the voter is stable. -/
def stabilizeMigrationVoter (nodeId : ℕ) (m : ReplicaMigration) (v : View)
    (p : ReplicaMigrationProbe) : Outcome :=
  if p.targetRole ≠ some .voter then conflict m
  else if p.pendingConfChange then ⟨m, .idle, none⟩
  else
    match migrationCaughtUp m p v.advanceClock with
    | (m, false) => ⟨m, .idle, none⟩
    | (m, true) =>
        if m.sourceNodeId = nodeId ∧ p.leaderId = m.sourceNodeId ∧ v.proposalForwardingEnabled then
          submit m { m with stage := .waitingTargetLeader, stableTicks := 0 } v
            (.transferLeader m.targetNodeId)
        else submitMigrationSourceRemoval m v p

/-- Wait until the target leads, and ask again for that. -/
def waitMigrationTargetLeader (m : ReplicaMigration) (v : View) (p : ReplicaMigrationProbe) :
    Outcome :=
  if p.targetRole ≠ some .voter then conflict m
  else if p.pendingConfChange then ⟨m, .idle, none⟩
  else if p.leaderId = m.targetNodeId then submitMigrationSourceRemoval m v p
  else if p.localRole ≠ .leader then ⟨m, .idle, none⟩
  else submit m m v (.transferLeader m.targetNodeId)

/-- Wait until the source is gone, and ask again for its removal. -/
def waitMigrationSourceRemoval (m : ReplicaMigration) (v : View) (p : ReplicaMigrationProbe) :
    Outcome :=
  if p.sourceRole = none then ⟨m, .completed none, none⟩
  else if p.targetRole ≠ some .voter then conflict m
  else if p.pendingConfChange then ⟨m, .idle, none⟩
  else if m.sourceRemovalSubmitted = true ∧ p.localRole ≠ .leader then ⟨m, .idle, none⟩
  else submitMigrationSourceRemoval m v p

/-- The action of each stage on the leader. -/
def leaderStage (nodeId : ℕ) (m : ReplicaMigration) (v : View) (p : ReplicaMigrationProbe) :
    Outcome :=
  match m.stage with
  | .addingLearner => addMigrationLearner m v p
  | .waitingLearner =>
      match p.targetRole with
      | none =>
          if p.pendingConfChange then ⟨m, .idle, none⟩
          else ⟨{ m with stage := .addingLearner }, .idle, none⟩
      | some .learner => advanceMigrationStage m .catchingUp
      | some .voter => advanceMigrationStage m .stabilizingVoter
  | .catchingUp => catchUpMigrationLearner m v p
  | .waitingVoter =>
      match p.targetRole with
      | none => conflict m
      | some .learner =>
          if p.pendingConfChange then ⟨m, .idle, none⟩ else advanceMigrationStage m .catchingUp
      | some .voter => advanceMigrationStage m .stabilizingVoter
  | .stabilizingVoter => stabilizeMigrationVoter nodeId m v p
  | .waitingTargetLeader => waitMigrationTargetLeader m v p
  | .waitingSourceRemoval => waitMigrationSourceRemoval m v p

/-- A step that has a probe of the group. -/
def stepProbed (nodeId : ℕ) (m : ReplicaMigration) (v : View) (p : ReplicaMigrationProbe) :
    Outcome :=
  if p.targetRole ≠ none ∧ p.targetAddressMatches = false then conflict m
  else if p.sourceRole = none then
    if p.targetRole = some .voter ∧ p.targetAddressMatches = true then ⟨m, .completed none, none⟩
    else conflict m
  else if p.sourceRole ≠ some .voter then conflict m
  else if p.jointConfiguration then ⟨m, .idle, none⟩
  else if m.stage = .waitingTargetLeader then waitMigrationTargetLeader m v p
  else if m.stage = .waitingSourceRemoval ∧ p.localRole ≠ .leader then
    waitMigrationSourceRemoval m v p
  else if p.localRole ≠ .leader then ⟨{ m with stableTicks := 0 }, .idle, none⟩
  else leaderStage nodeId m v p

/-- One step of a migration on the host with this node id. -/
def stepReplicaMigration (nodeId : ℕ) (m : ReplicaMigration) (v : View) : Outcome :=
  if m.cancelRequested then ⟨m, .completed (some .replicaMigrationCancelled), none⟩
  else if v.advanceClock = true ∧ m.timeoutTicks ≤ v.tickIterations - m.startTick then
    ⟨m, .completed (some .timeout), none⟩
  else
    match v.group with
    | .missing => ⟨m, .completed (some .groupNotFound), none⟩
    | .terminal e => ⟨m, .completed (some e), none⟩
    | .stopping => ⟨m, .completed (some .shuttingDown), none⟩
    | .refused e => ⟨m, .completed (some e), none⟩
    | .probed p => stepProbed nodeId { m with
        targetMatched := p.targetMatched, leaderCommit := p.commitIndex
        targetRecentActive := p.targetRecentActive } v p

/-! ### Stability -/

/-- The target is active and matched to the commit index, and the local node leads. -/
def ReplicaMigrationProbe.steady (p : ReplicaMigrationProbe) : Bool :=
  p.targetRecentActive && decide (p.commitIndex ≤ p.targetMatched) && p.localRole == .leader

/-- Does the step see the target steady? -/
def View.steady (v : View) : Bool :=
  match v.group with
  | .probed p => p.steady
  | _ => false

/-- Does the clock advance while the target is seen steady in this role? -/
def View.counts (role : MembershipRole) (v : View) : Bool :=
  v.advanceClock && match v.group with
    | .probed p => p.steady && p.targetRole == some role
    | _ => false

/-- Up to now the target has been steady in every step, for `required` ticks in this role. -/
def StableFor (role : MembershipRole) (required : ℕ) (vs : List View) : Prop :=
  ∃ before window, vs = before ++ window ∧ (∀ v ∈ window, v.steady = true) ∧
    required ≤ window.countP (View.counts role)

/-- The step does not look away from an unsteady target while ticks are counted. -/
def Clear (m : ReplicaMigration) (v : View) : Prop :=
  ∀ p, v.group = .probed p → m.stableTicks ≠ 0 →
    (p.jointConfiguration = true ∨ (p.pendingConfChange = true ∧ p.localRole = .leader)) →
    p.steady = true

/-- The steps that a migration goes through, each meeting a condition, until it ends. -/
inductive Run (C : ReplicaMigration → View → Prop) (nodeId : ℕ) (m₀ : ReplicaMigration) :
    List View → ReplicaMigration → Prop
  | start : Run C nodeId m₀ [] m₀
  | step {vs : List View} {m : ReplicaMigration} {v : View} (h : Run C nodeId m₀ vs m) (hc : C m v)
      (hgo : ∀ e, (stepReplicaMigration nodeId m v).result ≠ .completed e) :
      Run C nodeId m₀ (vs ++ [v]) (stepReplicaMigration nodeId m v).migration
  | cancel {vs : List View} {m : ReplicaMigration} (h : Run C nodeId m₀ vs m) :
      Run C nodeId m₀ vs { m with cancelRequested := true }

/-! ### What one step keeps -/

section stability
variable {role : MembershipRole} {n : ℕ} {vs : List View} {v : View}

theorem StableFor.zero : StableFor role 0 vs :=
  ⟨vs, [], (List.append_nil vs).symm, by simp, Nat.zero_le _⟩

theorem StableFor.mono {k : ℕ} (h : StableFor role n vs) (hk : k ≤ n) : StableFor role k vs := by
  obtain ⟨before, window, hvs, hsteady, hcount⟩ := h
  exact ⟨before, window, hvs, hsteady, Nat.le_trans hk hcount⟩

/-- Another step that sees the target steady, counted when it is a tick. -/
theorem StableFor.snoc (h : StableFor role n vs) (hv : v.steady = true) :
    StableFor role (n + [v].countP (View.counts role)) (vs ++ [v]) := by
  obtain ⟨before, window, rfl, hsteady, hcount⟩ := h
  refine ⟨before, window ++ [v], by rw [List.append_assoc], ?_, ?_⟩
  · intro w hw
    rcases List.mem_append.mp hw with hw | hw
    · exact hsteady w hw
    · rw [List.mem_singleton.mp hw]
      exact hv
  · rw [List.countP_append]
    omega

theorem StableFor.extend (h : StableFor role n vs) (hv : v.steady = true) :
    StableFor role n (vs ++ [v]) := (h.snoc hv).mono (Nat.le_add_right _ _)

theorem StableFor.count (h : StableFor role n vs) (hv : v.steady = true)
    (hc : v.counts role = true) : StableFor role (n + 1) (vs ++ [v]) := by
  have hsnoc := h.snoc hv
  rwa [List.countP_singleton, if_pos hc] at hsnoc

end stability

/-- The counter counts steady ticks in the stages that use it, and the stages after the second
count have been reached through it. -/
structure Inv (m : ReplicaMigration) (vs : List View) : Prop where
  learner : m.stage = .catchingUp → StableFor .learner m.stableTicks vs
  voter : m.stage = .stabilizingVoter → StableFor .voter m.stableTicks vs
  passed : m.stage = .waitingTargetLeader ∨ m.stage = .waitingSourceRemoval →
    ∃ pre, pre <+: vs ∧ StableFor .voter m.requiredStableTicks pre

/-- Both places are taken, at the requested address, and no change is under way. -/
structure Removable (p : ReplicaMigrationProbe) : Prop where
  source : p.sourceRole = some .voter
  target : p.targetRole = some .voter
  address : p.targetAddressMatches = true
  joint : p.jointConfiguration = false
  pending : p.pendingConfChange = false

/-- A promotion comes after a stable learner, a removal after a stable voter. -/
structure CallsStable (required : ℕ) (vs : List View) (p : ReplicaMigrationProbe) (c : Option Call) :
    Prop where
  addNode : ∀ id a, c = some (.addNode id a) → StableFor .learner required vs
  removeNode : ∀ id, c = some (.removeNode id) →
    Removable p ∧ ∃ pre, pre <+: vs ∧ StableFor .voter required pre

/-- What a step leaves is sound. -/
structure Sound (m : ReplicaMigration) (vs : List View) (p : ReplicaMigrationProbe)
    (out : Outcome) : Prop where
  inv : (∀ e, out.result ≠ .completed e) → Inv out.migration vs
  required : out.migration.requiredStableTicks = m.requiredStableTicks
  calls : CallsStable m.requiredStableTicks vs p out.call

section steps
variable {m m' : ReplicaMigration} {vs : List View} {v : View} {p : ReplicaMigrationProbe}

theorem CallsStable.none {required : ℕ} : CallsStable required vs p none :=
  ⟨fun id a h => (by cases h), fun id h => (by cases h)⟩

/-- In the other stages nothing is counted. -/
theorem Inv.of_stage (h : m.stage = .addingLearner ∨ m.stage = .waitingLearner ∨
    m.stage = .waitingVoter) : Inv m vs := by
  refine ⟨fun hs => ?_, fun hs => ?_, fun hs => ?_⟩ <;>
    rcases h with h | h | h <;> rw [h] at hs <;> simp at hs

/-- The passage through the second count is not forgotten. -/
theorem Inv.passed_append (h : Inv m vs)
    (hs : m.stage = .waitingTargetLeader ∨ m.stage = .waitingSourceRemoval) :
    ∃ pre, pre <+: vs ++ [v] ∧ StableFor .voter m.requiredStableTicks pre := by
  obtain ⟨pre, hpre, hstable⟩ := h.passed hs
  exact ⟨pre, hpre.trans (List.prefix_append _ _), hstable⟩

/-- Nothing counted, or a step that sees the target steady. -/
theorem Inv.stay (h : Inv m vs) (hv : m.stableTicks ≠ 0 → v.steady = true) : Inv m (vs ++ [v]) := by
  have hkeep : ∀ role, StableFor role m.stableTicks vs → StableFor role m.stableTicks (vs ++ [v]) := by
    intro role hs
    by_cases h0 : m.stableTicks = 0
    · rw [h0]
      exact StableFor.zero
    · exact hs.extend (hv h0)
  exact ⟨fun hs => hkeep _ (h.learner hs), fun hs => hkeep _ (h.voter hs), h.passed_append⟩

/-- The counter starts again. -/
theorem Inv.reset (h : Inv m vs) : Inv { m with stableTicks := 0 } (vs ++ [v]) :=
  ⟨fun _ => StableFor.zero, fun _ => StableFor.zero, h.passed_append⟩

theorem Sound.quiet {r : MigrationStepResult}
    (h : (∀ e, r ≠ .completed e) → Inv m' vs)
    (hr : m'.requiredStableTicks = m.requiredStableTicks) : Sound m vs p ⟨m', r, none⟩ :=
  ⟨h, hr, CallsStable.none⟩

theorem Sound.conflict : Sound m vs p (conflict m) :=
  Sound.quiet (fun h => absurd rfl (h _)) rfl

/-- A stage entered through `advanceMigrationStage` counts from zero. -/
theorem Sound.advance {stage : ReplicaMigrationStage}
    (h : stage = .catchingUp ∨ stage = .stabilizingVoter) :
    Sound m vs p (advanceMigrationStage m stage) := by
  refine Sound.quiet (fun _ => ⟨fun _ => StableFor.zero, fun _ => StableFor.zero, fun hs => ?_⟩) rfl
  rcases h with rfl | rfl <;> rcases hs with hs | hs <;> cases hs

/-- A call that is answered moves on, a dropped one stays. -/
theorem Sound.submit {m₀ : ReplicaMigration} {c : Call} (h : Inv m vs) (h' : Inv m' vs)
    (hr : m.requiredStableTicks = m₀.requiredStableTicks)
    (hr' : m'.requiredStableTicks = m₀.requiredStableTicks)
    (hc : CallsStable m₀.requiredStableTicks vs p (some c)) : Sound m₀ vs p (submit m m' v c) := by
  unfold Migration.submit
  split
  · exact ⟨fun _ => h', hr', hc⟩
  · split
    · exact ⟨fun _ => h, hr, hc⟩
    · exact ⟨fun hgo => absurd rfl (hgo _), hr, hc⟩

/-- The counter stays below the ticks for which the target has been steady. -/
theorem caughtUp_spec (hl : p.localRole = .leader) (hv : v.group = .probed p) {role : MembershipRole}
    (hrole : p.targetRole = some role) {up : Bool}
    (h : migrationCaughtUp m p v.advanceClock = (m', up)) (hs : StableFor role m.stableTicks vs) :
    m' = { m with stableTicks := m'.stableTicks } ∧ StableFor role m'.stableTicks (vs ++ [v]) ∧
      (up = true → m.requiredStableTicks ≤ m'.stableTicks) := by
  unfold migrationCaughtUp at h
  split at h
  · cases h
    exact ⟨rfl, StableFor.zero, fun hup => by cases hup⟩
  · rename_i hgood
    have hp : p.steady = true := by
      unfold ReplicaMigrationProbe.steady
      simp only [hl]
      simp at hgood ⊢
      exact ⟨hgood.1, hgood.2⟩
    have hsteady : v.steady = true := by
      unfold View.steady
      rw [hv]
      exact hp
    cases h
    refine ⟨rfl, ?_, fun hup => of_decide_eq_true hup⟩
    dsimp only
    split
    · rename_i hadv
      refine hs.count hsteady ?_
      unfold View.counts
      rw [hv, hadv.1]
      simp [hp, hrole]
    · exact hs.extend hsteady

/-- A removal is asked for with both places taken, after a stable voter. -/
theorem Sound.removal {m₀ : ReplicaMigration} (h : Inv m vs) (hp : Removable p)
    (hpassed : ∃ pre, pre <+: vs ∧ StableFor .voter m₀.requiredStableTicks pre)
    (hr : m.requiredStableTicks = m₀.requiredStableTicks) :
    Sound m₀ vs p (submitMigrationSourceRemoval m v p) := by
  unfold submitMigrationSourceRemoval
  split
  · exact Sound.quiet (fun _ => h) hr
  · refine Sound.submit h ⟨fun hs => (by cases hs), fun hs => (by cases hs), fun _ => ?_⟩ hr hr
      ⟨fun id a hc => (by cases hc), fun id _ => ⟨hp, hpassed⟩⟩
    dsimp only
    rw [hr]
    exact hpassed

/-- With a clear view, an idle step is no gap in the count. -/
theorem Inv.idle (h : Inv m vs) (hv : v.group = .probed p) (hclear : Clear m v)
    (hgap : p.jointConfiguration = true ∨ (p.pendingConfChange = true ∧ p.localRole = .leader)) :
    Inv m (vs ++ [v]) := by
  refine h.stay fun h0 => ?_
  unfold View.steady
  rw [hv]
  exact hclear p hv h0 hgap

theorem sound_addLearner (hs : m.stage = .addingLearner) :
    Sound m (vs ++ [v]) p (addMigrationLearner m v p) := by
  unfold addMigrationLearner
  split
  · exact Sound.advance (Or.inl rfl)
  · exact Sound.advance (Or.inr rfl)
  · split
    · exact Sound.quiet (fun _ => Inv.of_stage (Or.inl hs)) rfl
    · refine Sound.submit (Inv.of_stage (Or.inl hs)) (Inv.of_stage (Or.inr (Or.inl rfl))) rfl rfl ?_
      exact ⟨fun id a hc => (by cases hc), fun id hc => (by cases hc)⟩

theorem sound_catchUp (h : Inv m vs) (hs : m.stage = .catchingUp) (hl : p.localRole = .leader)
    (hv : v.group = .probed p) (hclear : Clear m v) :
    Sound m (vs ++ [v]) p (catchUpMigrationLearner m v p) := by
  unfold catchUpMigrationLearner
  split
  · exact Sound.advance (Or.inr rfl)
  · exact Sound.conflict
  · rename_i hrole
    split
    · rename_i hpend
      exact Sound.quiet (fun _ => h.idle hv hclear (Or.inr ⟨hpend, hl⟩)) rfl
    · split
      · rename_i m' hup
        obtain ⟨hm, hstable, -⟩ := caughtUp_spec hl hv hrole hup (h.learner hs)
        rw [hm] at hstable ⊢
        refine Sound.quiet (fun _ => ⟨fun _ => hstable, fun hs' => ?_, fun hs' => ?_⟩) rfl
        · rw [show m.stage = .stabilizingVoter from hs'] at hs
          cases hs
        · have hs' : m.stage = .waitingTargetLeader ∨ m.stage = .waitingSourceRemoval := hs'
          rcases hs' with hs' | hs' <;> rw [hs'] at hs <;> cases hs
      · rename_i m' hup
        obtain ⟨hm, hstable, henough⟩ := caughtUp_spec hl hv hrole hup (h.learner hs)
        have hr : m'.requiredStableTicks = m.requiredStableTicks := by rw [hm]
        have hstage : m'.stage = .catchingUp := by rw [hm, hs]
        refine Sound.submit ⟨fun _ => hstable, fun hs' => ?_, fun hs' => ?_⟩
          (Inv.of_stage (Or.inr (Or.inr rfl))) hr hr
          ⟨fun id a _ => hstable.mono (henough rfl), fun id hc => (by cases hc)⟩
        · rw [hstage] at hs'
          cases hs'
        · rcases hs' with hs' | hs' <;> rw [hstage] at hs' <;> cases hs'

theorem sound_stabilize {nodeId : ℕ} (h : Inv m vs) (hs : m.stage = .stabilizingVoter)
    (hl : p.localRole = .leader) (hv : v.group = .probed p) (hclear : Clear m v)
    (hsource : p.sourceRole = some .voter)
    (haddr : p.targetRole = some .voter → p.targetAddressMatches = true)
    (hjoint : p.jointConfiguration = false) :
    Sound m (vs ++ [v]) p (stabilizeMigrationVoter nodeId m v p) := by
  unfold stabilizeMigrationVoter
  split
  · exact Sound.conflict
  · rename_i hrole
    have hrole : p.targetRole = some .voter := not_not.mp hrole
    split
    · rename_i hpend
      exact Sound.quiet (fun _ => h.idle hv hclear (Or.inr ⟨hpend, hl⟩)) rfl
    · rename_i hpend
      have hinv : ∀ {m' : ReplicaMigration}, m' = { m with stableTicks := m'.stableTicks } →
          StableFor .voter m'.stableTicks (vs ++ [v]) → Inv m' (vs ++ [v]) := by
        intro m' hm hstable
        have hstage : m'.stage = .stabilizingVoter := by rw [hm, hs]
        refine ⟨fun hs' => ?_, fun _ => hstable, fun hs' => ?_⟩
        · rw [hstage] at hs'
          cases hs'
        · rcases hs' with hs' | hs' <;> rw [hstage] at hs' <;> cases hs'
      split
      · rename_i m' hup
        obtain ⟨hm, hstable, -⟩ := caughtUp_spec hl hv hrole hup (h.voter hs)
        exact Sound.quiet (fun _ => hinv hm hstable) (by rw [hm])
      · rename_i m' hup
        obtain ⟨hm, hstable, henough⟩ := caughtUp_spec hl hv hrole hup (h.voter hs)
        have hr : m'.requiredStableTicks = m.requiredStableTicks := by rw [hm]
        have hpassed : ∃ pre, pre <+: vs ++ [v] ∧ StableFor .voter m.requiredStableTicks pre :=
          ⟨_, List.prefix_refl _, hstable.mono (henough rfl)⟩
        split
        · refine Sound.submit (hinv hm hstable)
            ⟨fun hs' => (by cases hs'), fun hs' => (by cases hs'), fun _ => ?_⟩ hr hr
            ⟨fun id a hc => (by cases hc), fun id hc => (by cases hc)⟩
          dsimp only
          rw [hr]
          exact hpassed
        · exact Sound.removal (hinv hm hstable)
            ⟨hsource, hrole, haddr hrole, hjoint, by simpa using hpend⟩ hpassed hr

theorem sound_waitTargetLeader (h : Inv m vs) (hs : m.stage = .waitingTargetLeader)
    (hsource : p.sourceRole = some .voter)
    (haddr : p.targetRole = some .voter → p.targetAddressMatches = true)
    (hjoint : p.jointConfiguration = false) :
    Sound m (vs ++ [v]) p (waitMigrationTargetLeader m v p) := by
  have hinv : Inv m (vs ++ [v]) := by
    refine ⟨fun hs' => ?_, fun hs' => ?_, h.passed_append⟩ <;> rw [hs'] at hs <;> cases hs
  unfold waitMigrationTargetLeader
  split
  · exact Sound.conflict
  · rename_i hrole
    have hrole : p.targetRole = some .voter := not_not.mp hrole
    split
    · exact Sound.quiet (fun _ => hinv) rfl
    · rename_i hpend
      split
      · exact Sound.removal hinv ⟨hsource, hrole, haddr hrole, hjoint, by simpa using hpend⟩
          (h.passed_append (Or.inl hs)) rfl
      · split
        · exact Sound.quiet (fun _ => hinv) rfl
        · exact Sound.submit hinv hinv rfl rfl
            ⟨fun id a hc => (by cases hc), fun id hc => (by cases hc)⟩

theorem sound_waitSourceRemoval (h : Inv m vs) (hs : m.stage = .waitingSourceRemoval)
    (hsource : p.sourceRole = some .voter)
    (haddr : p.targetRole = some .voter → p.targetAddressMatches = true)
    (hjoint : p.jointConfiguration = false) :
    Sound m (vs ++ [v]) p (waitMigrationSourceRemoval m v p) := by
  have hinv : Inv m (vs ++ [v]) := by
    refine ⟨fun hs' => ?_, fun hs' => ?_, h.passed_append⟩ <;> rw [hs'] at hs <;> cases hs
  unfold waitMigrationSourceRemoval
  split
  · exact Sound.quiet (fun hgo => absurd rfl (hgo _)) rfl
  · split
    · exact Sound.conflict
    · rename_i hrole
      have hrole : p.targetRole = some .voter := not_not.mp hrole
      split
      · exact Sound.quiet (fun _ => hinv) rfl
      · rename_i hpend
        split
        · exact Sound.quiet (fun _ => hinv) rfl
        · exact Sound.removal hinv ⟨hsource, hrole, haddr hrole, hjoint, by simpa using hpend⟩
            (h.passed_append (Or.inr hs)) rfl

/-- A step with a probe. -/
theorem sound_stepProbed {nodeId : ℕ} (h : Inv m vs) (hv : v.group = .probed p)
    (hclear : Clear m v) : Sound m (vs ++ [v]) p (stepProbed nodeId m v p) := by
  unfold stepProbed
  split
  · exact Sound.conflict
  · rename_i haddr
    have haddr : p.targetRole = some .voter → p.targetAddressMatches = true := by
      intro hrole
      rw [hrole] at haddr
      simpa using haddr
    split
    · split
      · exact Sound.quiet (fun hgo => absurd rfl (hgo _)) rfl
      · exact Sound.conflict
    · split
      · exact Sound.conflict
      · rename_i hsource
        have hsource : p.sourceRole = some .voter := not_not.mp hsource
        split
        · rename_i hjoint
          exact Sound.quiet (fun _ => h.idle hv hclear (Or.inl hjoint)) rfl
        · rename_i hjoint
          have hjoint : p.jointConfiguration = false := by simpa using hjoint
          split
          · rename_i hs
            exact sound_waitTargetLeader h hs hsource haddr hjoint
          · rename_i hnot
            split
            · rename_i hs
              exact sound_waitSourceRemoval h hs.1 hsource haddr hjoint
            · split
              · exact Sound.quiet (fun _ => h.reset) rfl
              · rename_i hl
                have hl : p.localRole = .leader := not_not.mp hl
                -- the local node leads: one case per stage
                unfold leaderStage
                split
                · rename_i hs
                  exact sound_addLearner hs
                · rename_i hs
                  split
                  · split
                    · exact Sound.quiet (fun _ => Inv.of_stage (Or.inr (Or.inl hs))) rfl
                    · exact Sound.quiet (fun _ => Inv.of_stage (Or.inl rfl)) rfl
                  · exact Sound.advance (Or.inl rfl)
                  · exact Sound.advance (Or.inr rfl)
                · rename_i hs
                  exact sound_catchUp h hs hl hv hclear
                · rename_i hs
                  split
                  · exact Sound.conflict
                  · split
                    · exact Sound.quiet (fun _ => Inv.of_stage (Or.inr (Or.inr hs))) rfl
                    · exact Sound.advance (Or.inl rfl)
                  · exact Sound.advance (Or.inr rfl)
                · rename_i hs
                  exact sound_stabilize h hs hl hv hclear hsource haddr hjoint
                · rename_i hs
                  exact absurd hs hnot
                · rename_i hs
                  exact sound_waitSourceRemoval h hs hsource haddr hjoint

/-- A step, whatever it finds. -/
theorem sound_step {nodeId : ℕ} (h : Inv m vs) (hclear : Clear m v) :
    ((∀ e, (stepReplicaMigration nodeId m v).result ≠ .completed e) →
      Inv (stepReplicaMigration nodeId m v).migration (vs ++ [v])) ∧
    (stepReplicaMigration nodeId m v).migration.requiredStableTicks = m.requiredStableTicks ∧
    ∀ c, (stepReplicaMigration nodeId m v).call = some c → ∃ p, v.group = .probed p ∧
      CallsStable m.requiredStableTicks (vs ++ [v]) p (some c) := by
  unfold stepReplicaMigration
  split
  · exact ⟨fun hgo => absurd rfl (hgo _), rfl, fun c hc => (by cases hc)⟩
  · split
    · exact ⟨fun hgo => absurd rfl (hgo _), rfl, fun c hc => (by cases hc)⟩
    · split
      · exact ⟨fun hgo => absurd rfl (hgo _), rfl, fun c hc => (by cases hc)⟩
      · exact ⟨fun hgo => absurd rfl (hgo _), rfl, fun c hc => (by cases hc)⟩
      · exact ⟨fun hgo => absurd rfl (hgo _), rfl, fun c hc => (by cases hc)⟩
      · exact ⟨fun hgo => absurd rfl (hgo _), rfl, fun c hc => (by cases hc)⟩
      · rename_i p hv
        have hm : Inv { m with
            targetMatched := p.targetMatched, leaderCommit := p.commitIndex
            targetRecentActive := p.targetRecentActive } vs := ⟨h.learner, h.voter, h.passed⟩
        have hsound : Sound _ _ p (stepProbed nodeId _ v p) := sound_stepProbed hm hv hclear
        exact ⟨hsound.inv, hsound.required, fun c hc => ⟨p, hv, hc ▸ hsound.calls⟩⟩

end steps

/-! ### Runs -/

/-- The counter is right in every run. -/
theorem Run.inv {nodeId start : ℕ} {request : ReplicaMigrationRequest} {vs : List View}
    {m : ReplicaMigration} (h : Run Clear nodeId (.create request start) vs m) :
    Inv m vs ∧ m.requiredStableTicks = request.stableCatchUpTicks := by
  induction h with
  | start => exact ⟨Inv.of_stage (Or.inl rfl), rfl⟩
  | step _ hc hgo ih =>
      obtain ⟨hinv, hreq, -⟩ := sound_step ih.1 hc
      exact ⟨hinv hgo, hreq.trans ih.2⟩
  | cancel _ ih => exact ⟨⟨ih.1.learner, ih.1.voter, ih.1.passed⟩, ih.2⟩

/-- As long as no step looks away from an unsteady target, the target is promoted only after the
required ticks as a steady learner, and the source is removed only with both places taken and after
the required ticks of the target as a steady voter. -/
theorem stable_before_call {nodeId start : ℕ} {request : ReplicaMigrationRequest} {vs : List View}
    {m : ReplicaMigration} {v : View} (h : Run Clear nodeId (.create request start) vs m)
    (hc : Clear m v) :
    (∀ id a, (stepReplicaMigration nodeId m v).call = some (.addNode id a) →
      StableFor .learner request.stableCatchUpTicks (vs ++ [v])) ∧
    ∀ id, (stepReplicaMigration nodeId m v).call = some (.removeNode id) →
      ∃ p, v.group = .probed p ∧ Removable p ∧
        ∃ pre, pre <+: vs ++ [v] ∧ StableFor .voter request.stableCatchUpTicks pre := by
  obtain ⟨hinv, hreq⟩ := h.inv
  obtain ⟨-, -, hcalls⟩ := @sound_step m vs v nodeId hinv hc
  rw [hreq] at hcalls
  refine ⟨fun id a hcall => ?_, fun id hcall => ?_⟩
  · obtain ⟨p, -, hstable⟩ := hcalls _ hcall
    exact hstable.addNode id a rfl
  · obtain ⟨p, hp, hstable⟩ := hcalls _ hcall
    obtain ⟨hremovable, hpassed⟩ := hstable.removeNode id rfl
    exact ⟨p, hp, hremovable, hpassed⟩

/-- A leader's probe of a group in which node 3 is a learner. -/
def learnerProbe (recentActive pending : Bool) : ReplicaMigrationProbe where
  localRole := .leader
  leaderId := 1
  commitIndex := 5
  pendingConfChange := pending
  jointConfiguration := false
  sourceRole := some .voter
  targetRole := some .learner
  targetAddressMatches := true
  targetMatched := 5
  targetRecentActive := recentActive

/-- A tick of the clock with this probe, every call answered. -/
def tickWith (p : ReplicaMigrationProbe) : View where
  advanceClock := true
  tickIterations := 1
  group := .probed p
  proposalForwardingEnabled := true
  answer _ := none

/-- One tick as a steady learner is enough when one is required. -/
theorem stable_before_call_once :
    StableFor .learner 1 [tickWith (learnerProbe true false), tickWith (learnerProbe true false)] :=
  (@stable_before_call 1 0 ⟨7, 1, 3, [9], 10, 1⟩ _ _ _
    (.step .start (fun _ _ h0 => absurd rfl h0) fun e h => by cases h)
    (fun _ _ h0 => absurd rfl h0)).1 3 [9] rfl

/-- Between two ticks the target is seen inactive while a change is pending; the second tick
promotes it nevertheless. -/
theorem promoted_after_gap : ∃ vs m v,
    Run (fun _ _ => True) 1 (.create ⟨7, 1, 3, [9], 10, 2⟩ 0) vs m ∧
      (stepReplicaMigration 1 m v).call = some (.addNode 3 [9]) ∧
      ¬ StableFor .learner 2 (vs ++ [v]) := by
  refine ⟨[tickWith (learnerProbe true false), tickWith (learnerProbe true false),
    tickWith (learnerProbe false true)], _, tickWith (learnerProbe true false),
    .step (.step (.step .start trivial fun e h => ?_) trivial fun e h => ?_) trivial
      fun e h => ?_, rfl, ?_⟩
  · cases h
  · cases h
  · cases h
  · rintro ⟨before, window, hvs, hsteady, hcount⟩
    rcases Nat.lt_or_ge before.length 3 with hlt | hge
    · -- the window holds the step that saw the target inactive
      have hmem : tickWith (learnerProbe false true) ∈ window := by
        have hget : some (tickWith (learnerProbe false true)) = (before ++ window)[2]? := by
          rw [← hvs]
          rfl
        rw [List.getElem?_append_right (by omega)] at hget
        exact List.mem_of_getElem? hget.symm
      exact absurd (hsteady _ hmem) (by decide)
    · -- at most one tick is left
      have hlen := congrArg List.length hvs
      simp only [List.length_append, List.length_cons, List.length_nil] at hlen
      have hle := List.countP_le_length (p := View.counts .learner) (l := window)
      omega

end Migration

end Raftz
