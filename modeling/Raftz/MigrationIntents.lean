import Mathlib.Data.List.AList
import Raftz.MessageCodec
import Raftz.Migration

/-! # Persisted migration intents

The migrations of a host: `MultiRaftHost` of `multi_raft.zig` as far as it keeps
track of them, and the files of `migration_intent_store.zig`, one for each group
whose migration survives a restart of the host.  The directory maps group ids to
file contents; every file operation succeeds.  The checksum is a parameter.

What the host does to a group reaches the migrations only through what a step
finds (`View`), so groups are added, removed, restarted and retired by choosing
the views. -/

open Base

namespace Raftz

namespace Migration

/-- A hash map by group id. -/
abbrev GroupMap (α : Type) : Type := AList (fun _ : ℕ => α)

/-- A migration as it is persisted. -/
structure MigrationIntent where
  groupId : ℕ
  sourceNodeId : ℕ
  targetNodeId : ℕ
  targetAddress : Bytes
  timeoutTicks : ℕ
  stableCatchUpTicks : ℕ
  deriving DecidableEq, Repr

/-- The intent of a request. -/
def migrationIntentView (request : ReplicaMigrationRequest) : MigrationIntent where
  groupId := request.groupId
  sourceNodeId := request.sourceNodeId
  targetNodeId := request.targetNodeId
  targetAddress := request.targetAddress
  timeoutTicks := request.timeoutTicks
  stableCatchUpTicks := request.stableCatchUpTicks

/-- The request that an intent goes back to. -/
def MigrationIntent.request (i : MigrationIntent) : ReplicaMigrationRequest where
  groupId := i.groupId
  sourceNodeId := i.sourceNodeId
  targetNodeId := i.targetNodeId
  targetAddress := i.targetAddress
  timeoutTicks := i.timeoutTicks
  stableCatchUpTicks := i.stableCatchUpTicks

/-- The intent of a migration in progress. -/
def ReplicaMigration.intent (m : ReplicaMigration) : MigrationIntent where
  groupId := m.groupId
  sourceNodeId := m.sourceNodeId
  targetNodeId := m.targetNodeId
  targetAddress := m.targetAddress
  timeoutTicks := m.timeoutTicks
  stableCatchUpTicks := m.requiredStableTicks

/-! ### What a step leaves alone -/

/-- The intent is kept, and only an answered call reports a shutdown. -/
structure Kept (m : ReplicaMigration) (v : View) (out : Outcome) : Prop where
  intent : out.migration.intent = m.intent
  shutdown : out.result = .completed (some .shuttingDown) ↔
    ∃ c, out.call = some c ∧ v.answer c = some .shuttingDown

section kept
variable {m m' m₀ : ReplicaMigration} {v : View} {p : ReplicaMigrationProbe}

theorem Kept.quiet {r : MigrationStepResult} (hi : m'.intent = m.intent)
    (hr : r ≠ .completed (some .shuttingDown)) : Kept m v ⟨m', r, none⟩ :=
  ⟨hi, fun h => absurd h hr, fun ⟨_, hc, _⟩ => (by cases hc)⟩

theorem Kept.idle (hi : m'.intent = m.intent) : Kept m v ⟨m', .idle, none⟩ :=
  Kept.quiet hi fun h => by cases h

theorem Kept.advance {stage : ReplicaMigrationStage} : Kept m v (advanceMigrationStage m stage) :=
  Kept.quiet rfl fun h => by cases h

theorem Kept.done : Kept m v ⟨m, .completed none, none⟩ := Kept.quiet rfl fun h => by cases h

theorem Kept.conflict : Kept m v (conflict m) := Kept.quiet rfl fun h => by cases h

theorem Kept.submit {c : Call} (hi : m.intent = m₀.intent) (hi' : m'.intent = m₀.intent) :
    Kept m₀ v (submit m m' v c) := by
  unfold Migration.submit
  split
  · rename_i hnone
    refine ⟨hi', fun h => (by cases h), fun ⟨c', hc', ha⟩ => ?_⟩
    cases hc'
    rw [hnone] at ha
    cases ha
  · rename_i e hsome
    split
    · rename_i hdrop
      refine ⟨hi, fun h => (by cases h), fun ⟨c', hc', ha⟩ => ?_⟩
      cases hc'
      rw [hsome, hdrop] at ha
      cases ha
    · refine ⟨hi, fun h => ⟨c, rfl, ?_⟩, fun ⟨c', hc', ha⟩ => ?_⟩
      · cases h
        exact hsome
      · cases hc'
        rw [hsome] at ha
        cases ha
        rfl

theorem Kept.removal (hi : m.intent = m₀.intent) :
    Kept m₀ v (submitMigrationSourceRemoval m v p) := by
  unfold submitMigrationSourceRemoval
  split
  · exact Kept.idle hi
  · exact Kept.submit hi hi

theorem caughtUp_intent {advanceClock up : Bool}
    (h : migrationCaughtUp m p advanceClock = (m', up)) : m'.intent = m.intent := by
  unfold migrationCaughtUp at h
  split at h <;> cases h <;> rfl

theorem kept_addLearner : Kept m v (addMigrationLearner m v p) := by
  unfold addMigrationLearner
  split
  · exact Kept.advance
  · exact Kept.advance
  · split
    · exact Kept.idle rfl
    · exact Kept.submit rfl rfl

theorem kept_catchUp : Kept m v (catchUpMigrationLearner m v p) := by
  unfold catchUpMigrationLearner
  split
  · exact Kept.advance
  · exact Kept.conflict
  · split
    · exact Kept.idle rfl
    · split
      · rename_i m' hup
        exact Kept.idle (caughtUp_intent hup)
      · rename_i m' hup
        have hi := caughtUp_intent hup
        exact Kept.submit hi hi

theorem kept_stabilize {nodeId : ℕ} : Kept m v (stabilizeMigrationVoter nodeId m v p) := by
  unfold stabilizeMigrationVoter
  split
  · exact Kept.conflict
  · split
    · exact Kept.idle rfl
    · split
      · rename_i m' hup
        exact Kept.idle (caughtUp_intent hup)
      · rename_i m' hup
        have hi := caughtUp_intent hup
        split
        · exact Kept.submit hi hi
        · exact Kept.removal hi

theorem kept_waitTargetLeader : Kept m v (waitMigrationTargetLeader m v p) := by
  unfold waitMigrationTargetLeader
  split
  · exact Kept.conflict
  · split
    · exact Kept.idle rfl
    · split
      · exact Kept.removal rfl
      · split
        · exact Kept.idle rfl
        · exact Kept.submit rfl rfl

theorem kept_waitSourceRemoval : Kept m v (waitMigrationSourceRemoval m v p) := by
  unfold waitMigrationSourceRemoval
  split
  · exact Kept.done
  · split
    · exact Kept.conflict
    · split
      · exact Kept.idle rfl
      · split
        · exact Kept.idle rfl
        · exact Kept.removal rfl

theorem kept_leaderStage {nodeId : ℕ} : Kept m v (leaderStage nodeId m v p) := by
  unfold leaderStage
  split
  · exact kept_addLearner
  · split
    · split
      · exact Kept.idle rfl
      · exact Kept.idle rfl
    · exact Kept.advance
    · exact Kept.advance
  · exact kept_catchUp
  · split
    · exact Kept.conflict
    · split
      · exact Kept.idle rfl
      · exact Kept.advance
    · exact Kept.advance
  · exact kept_stabilize
  · exact kept_waitTargetLeader
  · exact kept_waitSourceRemoval

theorem kept_stepProbed {nodeId : ℕ} : Kept m v (stepProbed nodeId m v p) := by
  unfold stepProbed
  split
  · exact Kept.conflict
  · split
    · split
      · exact Kept.done
      · exact Kept.conflict
    · split
      · exact Kept.conflict
      · split
        · exact Kept.idle rfl
        · split
          · exact kept_waitTargetLeader
          · split
            · exact kept_waitSourceRemoval
            · split
              · exact Kept.idle rfl
              · exact kept_leaderStage

/-- A step keeps the intent of its migration. -/
theorem step_intent {nodeId : ℕ} : (stepReplicaMigration nodeId m v).migration.intent = m.intent := by
  unfold stepReplicaMigration
  split
  · rfl
  · split
    · rfl
    · split
      · rfl
      · rfl
      · rfl
      · rfl
      · exact kept_stepProbed.intent

/-- The step finds the migration cancelled or its time over. -/
def Expired (m : ReplicaMigration) (v : View) : Prop :=
  m.cancelRequested = true ∨
    (v.advanceClock = true ∧ m.timeoutTicks ≤ v.tickIterations - m.startTick)

/-- A step that gets as far as the group is not told that it shuts down. -/
def Undisturbed (nodeId : ℕ) (m : ReplicaMigration) (v : View) : Prop :=
  Expired m v ∨ (v.group ≠ .stopping ∧ v.group ≠ .terminal .shuttingDown ∧
    v.group ≠ .refused .shuttingDown ∧
    ∀ c, (stepReplicaMigration nodeId m v).call = some c → v.answer c ≠ some .shuttingDown)

/-- A migration ends with a shutdown exactly in a step that is told of one. -/
theorem step_shuttingDown_iff {nodeId : ℕ} :
    (stepReplicaMigration nodeId m v).result = .completed (some .shuttingDown) ↔
      ¬ Undisturbed nodeId m v := by
  unfold Undisturbed Expired stepReplicaMigration
  split
  · rename_i hc
    exact ⟨fun h => (by cases h), fun h => absurd (Or.inl (Or.inl hc)) h⟩
  · rename_i hc
    split
    · rename_i ht
      exact ⟨fun h => (by cases h), fun h => absurd (Or.inl (Or.inr ht)) h⟩
    · rename_i ht
      rw [not_or]
      split
      · rename_i hg
        simp [hg]
      · rename_i e hg
        simp [hg, hc, ht]
      · rename_i hg
        simp [hg, hc, ht]
      · rename_i e hg
        simp [hg, hc, ht]
      · rename_i p hg
        rw [kept_stepProbed.shutdown]
        simp [hg, hc, ht]

end kept

/-! ### Files -/

/-- The characters `RMIG`. -/
def magic : Bytes := [0x52, 0x4d, 0x49, 0x47]
/-- Version of the format. -/
def version : ℕ := 1
/-- Bytes before the address. -/
def fixedSize : ℕ := 4 + 4 + 4 * 8 + 2 * 4
/-- Bytes after the address. -/
def checksumSize : ℕ := 4

/-- The bytes of an intent before the checksum. -/
def encodePayload (i : MigrationIntent) : Bytes :=
  magic ++ (leBytes version 4 ++ (leBytes i.groupId 8 ++ (leBytes i.sourceNodeId 8 ++
    (leBytes i.targetNodeId 8 ++ (leBytes i.timeoutTicks 8 ++ (leBytes i.stableCatchUpTicks 4 ++
      (leBytes i.targetAddress.length 4 ++ i.targetAddress)))))))

/-- Is anything missing? -/
def MigrationIntent.incomplete (i : MigrationIntent) : Prop :=
  i.groupId = 0 ∨ i.sourceNodeId = 0 ∨ i.targetNodeId = 0 ∨ i.timeoutTicks = 0 ∨
    i.stableCatchUpTicks = 0 ∨ i.targetAddress = []

instance (i : MigrationIntent) : Decidable i.incomplete := by
  unfold MigrationIntent.incomplete
  infer_instance

/-- The next number of the given width. -/
def readField (width : ℕ) (bs : Bytes) : Except MigrationErr (ℕ × Bytes) :=
  match MessageCodec.readInt width bs with
  | .ok r => .ok r
  | .error _ => .error .migrationIntentCorrupt

section store
variable (crc32c : Bytes → UInt32)

/-- Encode an intent. -/
def encode (i : MigrationIntent) : Except MigrationErr Bytes := do
  ensure (¬ i.incomplete) .migrationIntentCorrupt
  ensure (i.targetAddress.length < 2 ^ 32) .migrationIntentCorrupt
  return encodePayload i ++ leBytes (crc32c (encodePayload i)).toNat 4

/-- Decode an intent. -/
def decode (bytes : Bytes) (maxAddressBytes : ℕ) : Except MigrationErr MigrationIntent := do
  ensure (fixedSize + checksumSize ≤ bytes.length) .migrationIntentCorrupt
  ensure (bytes.take 4 = magic) .migrationIntentCorrupt
  let (storedVersion, bs) ← readField 4 (bytes.drop 4)
  ensure (storedVersion = version) .unsupportedVersion
  let payload := bytes.take (bytes.length - checksumSize)
  let (expectedChecksum, _) ← readField 4 (bytes.drop (bytes.length - checksumSize))
  ensure ((crc32c payload).toNat = expectedChecksum) .migrationIntentCorrupt
  let (groupId, bs) ← readField 8 bs
  let (sourceNodeId, bs) ← readField 8 bs
  let (targetNodeId, bs) ← readField 8 bs
  let (timeoutTicks, bs) ← readField 8 bs
  let (stableCatchUpTicks, bs) ← readField 4 bs
  let (addressLen, bs) ← readField 4 bs
  ensure (groupId ≠ 0 ∧ sourceNodeId ≠ 0 ∧ targetNodeId ≠ 0 ∧ timeoutTicks ≠ 0 ∧
    stableCatchUpTicks ≠ 0 ∧ addressLen ≠ 0 ∧ addressLen ≤ maxAddressBytes) .migrationIntentCorrupt
  ensure (bs.length = addressLen + checksumSize) .migrationIntentCorrupt
  return ⟨groupId, sourceNodeId, targetNodeId, bs.take addressLen, timeoutTicks, stableCatchUpTicks⟩

/-- Write the file of an intent. -/
def put (maxAddressBytes : ℕ) (files : GroupMap Bytes) (i : MigrationIntent) :
    Except MigrationErr (GroupMap Bytes) := do
  ensure (i.targetAddress.length ≤ maxAddressBytes) .groupOperationBackpressure
  let bytes ← encode crc32c i
  return files.insert i.groupId bytes

/-- Read one file. -/
def loadOne (maxAddressBytes : ℕ) (bytes : Bytes) : Except MigrationErr MigrationIntent := do
  ensure (fixedSize + checksumSize ≤ bytes.length ∧
    bytes.length ≤ fixedSize + maxAddressBytes + checksumSize) .migrationIntentCorrupt
  decode crc32c bytes maxAddressBytes

/-- Read the files into a map. -/
def loadAll (maxAddressBytes maxIntents : ℕ) : List (Sigma fun _ : ℕ => Bytes) →
    GroupMap MigrationIntent → Except MigrationErr (GroupMap MigrationIntent)
  | [], recovered => .ok recovered
  | ⟨id, bytes⟩ :: files, recovered => do
      ensure (recovered.keys.length < maxIntents) .groupOperationBackpressure
      let intent ← loadOne crc32c maxAddressBytes bytes
      ensure (intent.groupId = id) .migrationIntentCorrupt
      ensure (id ∉ recovered) .migrationIntentCorrupt
      loadAll maxAddressBytes maxIntents files (recovered.insert id intent)

end store

/-! ### What is written is read back -/

/-- The fields fit their widths. -/
structure MigrationIntent.Bounded (i : MigrationIntent) : Prop where
  groupId : i.groupId < 256 ^ 8
  sourceNodeId : i.sourceNodeId < 256 ^ 8
  targetNodeId : i.targetNodeId < 256 ^ 8
  timeoutTicks : i.timeoutTicks < 256 ^ 8
  stableCatchUpTicks : i.stableCatchUpTicks < 256 ^ 4

section files
variable {crc32c : Bytes → UInt32} {i : MigrationIntent} {bytes : Bytes} {maxAddressBytes : ℕ}

theorem readField_leBytes {n width : ℕ} {rest : Bytes} (h : n < 256 ^ width) :
    readField width (leBytes n width ++ rest) = .ok (n, rest) := by
  unfold readField
  rw [MessageCodec.readInt_leBytes h]

theorem length_encodePayload : (encodePayload i).length = fixedSize + i.targetAddress.length := by
  simp only [encodePayload, List.length_append, length_leBytes, fixedSize]
  have hmagic : magic.length = 4 := rfl
  omega

/-- What `encode` accepts and gives. -/
theorem encode_ok (h : encode crc32c i = .ok bytes) : ¬ i.incomplete ∧
    i.targetAddress.length < 2 ^ 32 ∧
    bytes = encodePayload i ++ leBytes (crc32c (encodePayload i)).toNat 4 := by
  obtain ⟨_, hc, h⟩ := bind_eq_ok.mp h
  obtain ⟨_, hl, h⟩ := bind_eq_ok.mp h
  cases h
  exact ⟨ensure_eq_ok.mp hc, ensure_eq_ok.mp hl, rfl⟩

/-- An encoded intent is decoded. -/
theorem decode_encode (h : encode crc32c i = .ok bytes) (hb : i.Bounded)
    (hmax : i.targetAddress.length ≤ maxAddressBytes) :
    decode crc32c bytes maxAddressBytes = .ok i := by
  obtain ⟨hc, hl, rfl⟩ := encode_ok h
  have hcrc : (crc32c (encodePayload i)).toNat < 256 ^ 4 := (crc32c (encodePayload i)).toNat_lt
  have hlen : (encodePayload i ++ leBytes (crc32c (encodePayload i)).toNat 4).length - checksumSize =
      (encodePayload i).length := by
    rw [List.length_append, length_leBytes]
    rfl
  have hsize : fixedSize + checksumSize ≤
      (encodePayload i ++ leBytes (crc32c (encodePayload i)).toNat 4).length := by
    rw [List.length_append, length_leBytes, length_encodePayload]
    simp only [checksumSize]
    omega
  have hcheck : readField 4 (leBytes (crc32c (encodePayload i)).toNat 4) =
      .ok ((crc32c (encodePayload i)).toNat, []) := by
    have hread : readField 4 (leBytes (crc32c (encodePayload i)).toNat 4 ++ []) =
        .ok ((crc32c (encodePayload i)).toNat, []) := readField_leBytes hcrc
    rwa [List.append_nil] at hread
  have hfields : i.groupId ≠ 0 ∧ i.sourceNodeId ≠ 0 ∧ i.targetNodeId ≠ 0 ∧ i.timeoutTicks ≠ 0 ∧
      i.stableCatchUpTicks ≠ 0 ∧ i.targetAddress.length ≠ 0 ∧
      i.targetAddress.length ≤ maxAddressBytes := by
    unfold MigrationIntent.incomplete at hc
    simp only [not_or] at hc
    obtain ⟨hg, hs, ht, htimeout, hstable, haddr⟩ := hc
    exact ⟨hg, hs, ht, htimeout, hstable, fun h0 => haddr (List.length_eq_zero_iff.mp h0), hmax⟩
  have hrest : List.drop 4 (encodePayload i ++ leBytes (crc32c (encodePayload i)).toNat 4) =
      leBytes version 4 ++ (leBytes i.groupId 8 ++ (leBytes i.sourceNodeId 8 ++
        (leBytes i.targetNodeId 8 ++ (leBytes i.timeoutTicks 8 ++ (leBytes i.stableCatchUpTicks 4 ++
          (leBytes i.targetAddress.length 4 ++
            (i.targetAddress ++ leBytes (crc32c (encodePayload i)).toNat 4))))))) := by
    simp only [encodePayload, List.append_assoc]
    rfl
  refine bind_eq_ok.mpr ⟨(), ensure_of hsize, ?_⟩
  refine bind_eq_ok.mpr ⟨(), ensure_of rfl, ?_⟩
  rw [hrest]
  refine bind_eq_ok.mpr ⟨_, readField_leBytes (by decide), ?_⟩
  refine bind_eq_ok.mpr ⟨(), ensure_of rfl, ?_⟩
  dsimp only
  rw [hlen, List.take_left, List.drop_left]
  refine bind_eq_ok.mpr ⟨_, hcheck, ?_⟩
  refine bind_eq_ok.mpr ⟨(), ensure_of rfl, ?_⟩
  refine bind_eq_ok.mpr ⟨_, readField_leBytes hb.groupId, ?_⟩
  refine bind_eq_ok.mpr ⟨_, readField_leBytes hb.sourceNodeId, ?_⟩
  refine bind_eq_ok.mpr ⟨_, readField_leBytes hb.targetNodeId, ?_⟩
  refine bind_eq_ok.mpr ⟨_, readField_leBytes hb.timeoutTicks, ?_⟩
  refine bind_eq_ok.mpr ⟨_, readField_leBytes hb.stableCatchUpTicks, ?_⟩
  refine bind_eq_ok.mpr ⟨_, readField_leBytes hl, ?_⟩
  refine bind_eq_ok.mpr ⟨(), ensure_of hfields, ?_⟩
  refine bind_eq_ok.mpr ⟨(), ensure_of ?_, ?_⟩
  · rw [List.length_append, length_leBytes]
    rfl
  · dsimp only
    rw [List.take_left]
    rfl

/-- A written file is read. -/
theorem loadOne_encode (h : encode crc32c i = .ok bytes) (hb : i.Bounded)
    (hmax : i.targetAddress.length ≤ maxAddressBytes) :
    loadOne crc32c maxAddressBytes bytes = .ok i := by
  refine bind_eq_ok.mpr ⟨(), ensure_of ?_, decode_encode h hb hmax⟩
  obtain ⟨-, -, rfl⟩ := encode_ok h
  rw [List.length_append, length_leBytes, length_encodePayload]
  simp only [checksumSize]
  omega

/-- The intent in the file of a group. -/
def Loads (crc32c : Bytes → UInt32) (maxAddressBytes : ℕ) (g : ℕ) (bytes : Bytes)
    (i : MigrationIntent) : Prop :=
  loadOne crc32c maxAddressBytes bytes = .ok i ∧ i.groupId = g

/-- `loadAll` adds the intent of every file. -/
theorem loadAll_ok {maxIntents : ℕ} {fs : List (Sigma fun _ : ℕ => Bytes)} :
    ∀ {recovered recovered' : GroupMap MigrationIntent},
      loadAll crc32c maxAddressBytes maxIntents fs recovered = .ok recovered' →
      (∀ f ∈ fs, ∃ i, Loads crc32c maxAddressBytes f.1 f.2 i) ∧
      (recovered.keys.length ≤ maxIntents → recovered'.keys.length ≤ maxIntents) ∧
      ∀ g i, recovered'.lookup g = some i ↔ recovered.lookup g = some i ∨
        ∃ bytes, ⟨g, bytes⟩ ∈ fs ∧ Loads crc32c maxAddressBytes g bytes i := by
  induction fs with
  | nil =>
      intro recovered recovered' h
      cases h
      exact ⟨fun f hf => (by cases hf), id, fun g i =>
        ⟨Or.inl, fun h => h.elim id fun ⟨_, hf, _⟩ => (by cases hf)⟩⟩
  | cons f fs ih =>
      intro recovered recovered' h
      obtain ⟨id, bytes⟩ := f
      obtain ⟨_, hfew, h⟩ := bind_eq_ok.mp h
      obtain ⟨intent, hload, h⟩ := bind_eq_ok.mp h
      obtain ⟨_, hid, h⟩ := bind_eq_ok.mp h
      obtain ⟨_, hnew, h⟩ := bind_eq_ok.mp h
      have hloads : Loads crc32c maxAddressBytes id bytes intent := ⟨hload, ensure_eq_ok.mp hid⟩
      have hnew := ensure_eq_ok.mp hnew
      have hfew := ensure_eq_ok.mp hfew
      obtain ⟨hall, hkeys, hlookup⟩ := ih h
      refine ⟨?_, fun _ => hkeys ?_, fun g i => ?_⟩
      · intro f hf
        rcases List.mem_cons.mp hf with rfl | hf
        · exact ⟨intent, hloads⟩
        · exact hall f hf
      · rw [AList.keys_insert, List.erase_of_not_mem hnew, List.length_cons]
        exact hfew
      · rw [hlookup g i]
        by_cases hg : g = id
        · subst hg
          rw [AList.lookup_insert, AList.lookup_eq_none.mpr hnew]
          constructor
          · rintro (hi | ⟨bytes', hf, hl⟩)
            · cases hi
              exact Or.inr ⟨bytes, List.mem_cons_self, hloads⟩
            · exact Or.inr ⟨bytes', List.mem_cons_of_mem _ hf, hl⟩
          · rintro (hi | ⟨bytes', hf, hl⟩)
            · cases hi
            · rcases List.mem_cons.mp hf with hf | hf
              · cases hf
                left
                exact congrArg some (Except.ok.inj (hload.symm.trans hl.1))
              · exact Or.inr ⟨bytes', hf, hl⟩
        · rw [AList.lookup_insert_ne hg]
          constructor
          · rintro (hi | ⟨bytes', hf, hl⟩)
            · exact Or.inl hi
            · exact Or.inr ⟨bytes', List.mem_cons_of_mem _ hf, hl⟩
          · rintro (hi | ⟨bytes', hf, hl⟩)
            · exact Or.inl hi
            · rcases List.mem_cons.mp hf with hf | hf
              · cases hf
                exact absurd rfl hg
              · exact Or.inr ⟨bytes', hf, hl⟩

end files

/-! ### The host -/

/-- The limits of a host. -/
structure HostConfig where
  nodeId : ℕ
  migrationStepBudget : ℕ
  maxActiveMigrations : ℕ
  maxReplicaMigrationAddressBytes : ℕ

/-- What a host knows of its migrations, and its directory of intents. -/
structure Host where
  config : HostConfig
  files : GroupMap Bytes
  replicaMigrations : GroupMap ReplicaMigration := ∅
  recoveredReplicaMigrations : GroupMap MigrationIntent
  replicaMigrationIds : List ℕ := []
  migrationCursor : ℕ := 0
  tickIterations : ℕ := 0
  stopped : Bool := false

namespace Host

/-- May a migration of the group be asked for? -/
def checkGroup : GroupState → Except MigrationErr Unit
  | .missing => .error .groupNotFound
  | .terminal e => .error e
  | .stopping => .error .shuttingDown
  | _ => .ok ()

variable (crc32c : Bytes → UInt32)

/-- A host over a directory. -/
def create (config : HostConfig) (files : GroupMap Bytes) : Except MigrationErr Host := do
  let recovered ← loadAll crc32c config.maxReplicaMigrationAddressBytes config.maxActiveMigrations
    files.entries ∅
  return { config := config, files := files, recoveredReplicaMigrations := recovered }

/-- The files once the intent of a request is persisted: a recovered one is already. -/
def persist (h : Host) (request : ReplicaMigrationRequest) :
    Except MigrationErr (GroupMap Bytes) :=
  match h.recoveredReplicaMigrations.lookup request.groupId with
  | some intent =>
      if intent = migrationIntentView request then .ok h.files else .error .replicaMigrationConflict
  | none =>
      if h.config.maxActiveMigrations ≤
          h.replicaMigrations.keys.length + h.recoveredReplicaMigrations.keys.length then
        .error .groupOperationBackpressure
      else put crc32c h.config.maxReplicaMigrationAddressBytes h.files (migrationIntentView request)

/-- Start a migration. -/
def requestReplicaMigration (h : Host) (group : GroupState) (request : ReplicaMigrationRequest) :
    Except MigrationErr Host := do
  ensure (request.groupId ≠ 0) .invalidGroupId
  ensure (request.sourceNodeId ≠ 0 ∧ request.targetNodeId ≠ 0) .invalidNodeId
  ensure (request.sourceNodeId ≠ request.targetNodeId) .replicaMigrationConflict
  ensure (request.targetAddress ≠ []) .peerAddressMissing
  ensure (request.targetAddress.length ≤ h.config.maxReplicaMigrationAddressBytes)
    .groupOperationBackpressure
  ensure (request.timeoutTicks ≠ 0 ∧ request.stableCatchUpTicks ≠ 0) .invalidConfig
  ensure (h.stopped = false) .shuttingDown
  checkGroup group
  ensure (request.groupId ∉ h.replicaMigrations) .duplicateRequest
  let files ← persist crc32c h request
  return { h with
    files := files
    replicaMigrations := h.replicaMigrations.insert request.groupId
      (.create request h.tickIterations)
    replicaMigrationIds := h.replicaMigrationIds ++ [request.groupId]
    recoveredReplicaMigrations := h.recoveredReplicaMigrations.erase request.groupId }

/-- Go on with a recovered migration. -/
def resumeReplicaMigration (h : Host) (group : GroupState) (groupId : ℕ) :
    Except MigrationErr Host := do
  ensure (groupId ≠ 0) .invalidGroupId
  match h.recoveredReplicaMigrations.lookup groupId with
  | none => .error .groupNotFound
  | some intent => requestReplicaMigration crc32c h group intent.request

/-- Ask a migration to end at its next step. -/
def cancelReplicaMigration (h : Host) (groupId : ℕ) : Except MigrationErr Host := do
  ensure (groupId ≠ 0) .invalidGroupId
  ensure (h.stopped = false) .shuttingDown
  match h.replicaMigrations.lookup groupId with
  | none => .error .groupNotFound
  | some m => return { h with
      replicaMigrations := h.replicaMigrations.insert groupId { m with cancelRequested := true } }

/-- Take an id off the list; the cursor stays within it. -/
def removeReplicaMigrationId (h : Host) (groupId : ℕ) : Host :=
  if groupId ∈ h.replicaMigrationIds then
    let ids := h.replicaMigrationIds.erase groupId
    { h with
      replicaMigrationIds := ids
      migrationCursor := if ids.length = 0 then 0 else
        if ids.length ≤ h.migrationCursor then h.migrationCursor % ids.length
        else h.migrationCursor }
  else h

/-- End a migration; its intent stays only when the end is a shutdown. -/
def finishReplicaMigration (h : Host) (m : ReplicaMigration) (e : Option MigrationErr) : Host :=
  let h := if e = some .shuttingDown then h else { h with files := h.files.erase m.groupId }
  if m.groupId ∈ h.replicaMigrations then
    removeReplicaMigrationId { h with
      replicaMigrations := h.replicaMigrations.erase m.groupId } m.groupId
  else h

/-- The migration that the loop of `driveReplicaMigrations` looks at. -/
def selected (h : Host) (offset : ℕ) : Option ReplicaMigration :=
  match h.replicaMigrationIds[(h.migrationCursor + offset) % h.replicaMigrationIds.length]? with
  | none => none
  | some groupId => h.replicaMigrations.lookup groupId

/-- What a step of the host finds. -/
def viewOf (h : Host) (advanceClock : Bool) (v : View) : View :=
  { v with advanceClock := advanceClock, tickIterations := h.tickIterations }

/-- One turn of the loop of `driveReplicaMigrations`. -/
def driveOne (h : Host) (offset : ℕ) (advanceClock : Bool) (v : View) : Host :=
  match h.selected offset with
  | none => h
  | some m =>
      let out := stepReplicaMigration h.config.nodeId m (h.viewOf advanceClock v)
      let h := { h with
        replicaMigrations := h.replicaMigrations.insert m.groupId out.migration }
      match out.result with
      | .completed e => h.finishReplicaMigration out.migration e
      | _ => h

/-- Move the cursor past the migrations that have had a turn. -/
def advanceCursor (h : Host) (driveCount : ℕ) : Host :=
  { h with migrationCursor := if h.replicaMigrationIds.length = 0 then 0
    else (h.migrationCursor + driveCount) % h.replicaMigrationIds.length }

/-- Step some of the migrations, with what each of them finds. -/
def driveReplicaMigrations (h : Host) (advanceClock : Bool) (views : ℕ → View) : Host :=
  if h.replicaMigrationIds.length = 0 then h
  else
    let driveCount := min h.config.migrationStepBudget h.replicaMigrationIds.length
    ((List.range driveCount).foldl (fun h offset => h.driveOne offset advanceClock (views offset))
      h).advanceCursor driveCount

/-- End all migrations.  The first argument bounds their number. -/
def failReplicaMigrations (e : MigrationErr) : ℕ → Host → Host
  | 0, h => h
  | fuel + 1, h =>
      match h.replicaMigrationIds with
      | [] => h
      | groupId :: _ =>
          match h.replicaMigrations.lookup groupId with
          | none => h
          | some m => failReplicaMigrations e fuel (h.finishReplicaMigration m (some e))

/-- Stop the host. -/
def stop (h : Host) : Host :=
  if h.stopped then h
  else failReplicaMigrations .shuttingDown h.replicaMigrationIds.length { h with stopped := true }

/-! ### What is kept together -/

section matching
variable {crc32c : Bytes → UInt32} {h h' : Host} {g : ℕ} {m m' : ReplicaMigration}

/-- The intent of a group, in progress or recovered. -/
def intent (h : Host) (g : ℕ) : Option MigrationIntent :=
  match h.replicaMigrations.lookup g with
  | some m => some m.intent
  | none => h.recoveredReplicaMigrations.lookup g

/-- The files, the maps and the list name the same groups. -/
structure Matched (h : Host) : Prop where
  files : ∀ g, g ∈ h.files ↔ g ∈ h.replicaMigrations ∨ g ∈ h.recoveredReplicaMigrations
  disjoint : ∀ g, g ∈ h.replicaMigrations → g ∉ h.recoveredReplicaMigrations
  ids : h.replicaMigrationIds.Nodup
  listed : ∀ g, g ∈ h.replicaMigrationIds ↔ g ∈ h.replicaMigrations

/-- The file of every group holds its intent, and there are not too many. -/
structure Inv (crc32c : Bytes → UInt32) (h : Host) : Prop extends Matched h where
  saved : ∀ g i, h.intent g = some i → ∃ bytes, h.files.lookup g = some bytes ∧
    Loads crc32c h.config.maxReplicaMigrationAddressBytes g bytes i
  few : h.replicaMigrations.keys.length + h.recoveredReplicaMigrations.keys.length ≤
    h.config.maxActiveMigrations

theorem intent_running (hm : h.replicaMigrations.lookup g = some m) : h.intent g = some m.intent := by
  unfold intent
  rw [hm]

theorem intent_recovered (hg : g ∉ h.replicaMigrations) :
    h.intent g = h.recoveredReplicaMigrations.lookup g := by
  unfold intent
  rw [AList.lookup_eq_none.mpr hg]

/-- A migration runs under the id of its group. -/
theorem Inv.groupId (hi : Inv crc32c h) (hm : h.replicaMigrations.lookup g = some m) :
    m.groupId = g := by
  obtain ⟨-, -, -, hid⟩ := hi.saved g m.intent (intent_running hm)
  exact hid

theorem mem_of_lookup {α : Type} {s : GroupMap α} {a : α} (h : s.lookup g = some a) : g ∈ s := by
  rw [← AList.lookup_isSome, h]
  rfl

/-- An insertion under a known key adds no key. -/
theorem length_keys_replace {α : Type} {s : GroupMap α} {a : α} (hg : g ∈ s) :
    (s.insert g a).keys.length = s.keys.length := by
  have hpos := List.length_pos_of_mem (AList.mem_keys.mp hg)
  rw [AList.keys_insert, List.length_cons, List.length_erase_of_mem (AList.mem_keys.mp hg)]
  omega

/-- A migration changes, but not its intent. -/
theorem Inv.replace (hi : Inv crc32c h) (hm : h.replicaMigrations.lookup g = some m)
    (hm' : m'.intent = m.intent) :
    Inv crc32c { h with replicaMigrations := h.replicaMigrations.insert g m' } := by
  have hg := mem_of_lookup hm
  have hmem : ∀ g', g' ∈ h.replicaMigrations.insert g m' ↔ g' ∈ h.replicaMigrations := by
    intro g'
    rw [AList.mem_insert]
    exact ⟨fun h => h.elim (fun h => h ▸ hg) id, Or.inr⟩
  refine ⟨⟨fun g' => ?_, fun g' hg' => hi.disjoint g' ((hmem g').mp hg'), hi.ids, fun g' => ?_⟩,
    fun g' i hsome => hi.saved g' i ?_, ?_⟩
  · rw [hmem]
    exact hi.files g'
  · rw [hmem]
    exact hi.listed g'
  · -- the intent of every group is what it was
    by_cases heq : g' = g
    · subst heq
      rw [intent_running (AList.lookup_insert h.replicaMigrations), hm'] at hsome
      rw [intent_running hm]
      exact hsome
    · unfold intent at hsome ⊢
      rwa [AList.lookup_insert_ne heq] at hsome
  · rw [length_keys_replace hg]
    exact hi.few

@[simp] theorem removeReplicaMigrationId_config :
    (h.removeReplicaMigrationId g).config = h.config := by
  unfold removeReplicaMigrationId
  split <;> rfl

@[simp] theorem removeReplicaMigrationId_files :
    (h.removeReplicaMigrationId g).files = h.files := by
  unfold removeReplicaMigrationId
  split <;> rfl

@[simp] theorem removeReplicaMigrationId_running :
    (h.removeReplicaMigrationId g).replicaMigrations = h.replicaMigrations := by
  unfold removeReplicaMigrationId
  split <;> rfl

@[simp] theorem removeReplicaMigrationId_recovered :
    (h.removeReplicaMigrationId g).recoveredReplicaMigrations = h.recoveredReplicaMigrations := by
  unfold removeReplicaMigrationId
  split <;> rfl

@[simp] theorem removeReplicaMigrationId_ids :
    (h.removeReplicaMigrationId g).replicaMigrationIds = h.replicaMigrationIds.erase g := by
  unfold removeReplicaMigrationId
  split
  · rfl
  · rename_i hg
    exact (List.erase_of_not_mem hg).symm

@[simp] theorem removeReplicaMigrationId_intent {g' : ℕ} :
    (h.removeReplicaMigrationId g).intent g' = h.intent g' := by
  unfold intent
  rw [removeReplicaMigrationId_running, removeReplicaMigrationId_recovered]

/-- A migration that ends otherwise than by a shutdown takes its file along. -/
theorem finish_eq {e : Option MigrationErr} (hg : m.groupId ∈ h.replicaMigrations)
    (he : e ≠ some .shuttingDown) : h.finishReplicaMigration m e =
      removeReplicaMigrationId { h with
        files := h.files.erase m.groupId
        replicaMigrations := h.replicaMigrations.erase m.groupId } m.groupId := by
  unfold finishReplicaMigration
  rw [if_neg he]
  exact if_pos hg

/-- The end of a migration otherwise than by a shutdown. -/
theorem Inv.finish {e : Option MigrationErr} (hi : Inv crc32c h)
    (hg : m.groupId ∈ h.replicaMigrations) (he : e ≠ some .shuttingDown) :
    Inv crc32c (h.finishReplicaMigration m e) := by
  rw [finish_eq hg he]
  have hnot := hi.disjoint m.groupId hg
  refine ⟨⟨fun g => ?_, fun g hmem => ?_, ?_, fun g => ?_⟩, fun g i hsome => ?_, ?_⟩
  · simp only [removeReplicaMigrationId_files, removeReplicaMigrationId_running,
      removeReplicaMigrationId_recovered, AList.mem_erase, hi.files g]
    constructor
    · rintro ⟨hne, hrun | hrec⟩
      · exact Or.inl ⟨hne, hrun⟩
      · exact Or.inr hrec
    · rintro (⟨hne, hrun⟩ | hrec)
      · exact ⟨hne, Or.inl hrun⟩
      · exact ⟨fun heq => hnot (heq ▸ hrec), Or.inr hrec⟩
  · simp only [removeReplicaMigrationId_running, removeReplicaMigrationId_recovered,
      AList.mem_erase] at hmem ⊢
    exact hi.disjoint g hmem.2
  · rw [removeReplicaMigrationId_ids]
    exact hi.ids.erase _
  · simp only [removeReplicaMigrationId_ids, removeReplicaMigrationId_running, AList.mem_erase,
      hi.ids.mem_erase_iff, hi.listed g]
  · rw [removeReplicaMigrationId_intent] at hsome
    have hne : g ≠ m.groupId := by
      rintro rfl
      unfold intent at hsome
      rw [AList.lookup_erase, AList.lookup_eq_none.mpr hnot] at hsome
      cases hsome
    unfold intent at hsome
    rw [AList.lookup_erase_ne hne] at hsome
    rw [removeReplicaMigrationId_files, removeReplicaMigrationId_config, AList.lookup_erase_ne hne]
    exact hi.saved g i hsome
  · have hle := List.length_erase_le (a := m.groupId) (l := h.replicaMigrations.keys)
    have hfew := hi.few
    simp only [removeReplicaMigrationId_running, removeReplicaMigrationId_recovered,
      removeReplicaMigrationId_config, AList.keys_erase]
    omega

/-- The intent of a request is in its file already, or it is written and there is room for it. -/
theorem persist_ok {request : ReplicaMigrationRequest} {files : GroupMap Bytes}
    (hok : persist crc32c h request = .ok files) :
    (h.recoveredReplicaMigrations.lookup request.groupId = some (migrationIntentView request) ∧
      files = h.files) ∨
    (request.groupId ∉ h.recoveredReplicaMigrations ∧
      h.replicaMigrations.keys.length + h.recoveredReplicaMigrations.keys.length <
        h.config.maxActiveMigrations ∧
      request.targetAddress.length ≤ h.config.maxReplicaMigrationAddressBytes ∧
      ∃ bytes, encode crc32c (migrationIntentView request) = .ok bytes ∧
        files = h.files.insert request.groupId bytes) := by
  unfold persist at hok
  split at hok
  · rename_i i hsome
    split at hok
    · rename_i heq
      cases hok
      exact Or.inl ⟨hsome.trans (congrArg some heq), rfl⟩
    · cases hok
  · rename_i hnone
    split at hok
    · cases hok
    · rename_i hroom
      obtain ⟨_, haddr, hok⟩ := bind_eq_ok.mp hok
      obtain ⟨bytes, henc, hok⟩ := bind_eq_ok.mp hok
      cases hok
      exact Or.inr ⟨AList.lookup_eq_none.mp hnone, Nat.lt_of_not_le hroom, ensure_eq_ok.mp haddr,
        bytes, henc, rfl⟩

/-- What an accepted request leaves. -/
theorem request_ok {group : GroupState} {request : ReplicaMigrationRequest}
    (hok : requestReplicaMigration crc32c h group request = .ok h') :
    request.groupId ∉ h.replicaMigrations ∧ ∃ files, persist crc32c h request = .ok files ∧
      h' = { h with
        files := files
        replicaMigrations := h.replicaMigrations.insert request.groupId
          (.create request h.tickIterations)
        replicaMigrationIds := h.replicaMigrationIds ++ [request.groupId]
        recoveredReplicaMigrations := h.recoveredReplicaMigrations.erase request.groupId } := by
  unfold requestReplicaMigration at hok
  obtain ⟨_, -, hok⟩ := bind_eq_ok.mp hok
  obtain ⟨_, -, hok⟩ := bind_eq_ok.mp hok
  obtain ⟨_, -, hok⟩ := bind_eq_ok.mp hok
  obtain ⟨_, -, hok⟩ := bind_eq_ok.mp hok
  obtain ⟨_, -, hok⟩ := bind_eq_ok.mp hok
  obtain ⟨_, -, hok⟩ := bind_eq_ok.mp hok
  obtain ⟨_, -, hok⟩ := bind_eq_ok.mp hok
  obtain ⟨_, -, hok⟩ := bind_eq_ok.mp hok
  obtain ⟨_, hnew, hok⟩ := bind_eq_ok.mp hok
  obtain ⟨files, hfiles, hok⟩ := bind_eq_ok.mp hok
  cases hok
  exact ⟨ensure_eq_ok.mp hnew, files, hfiles, rfl⟩

/-- An accepted request. -/
theorem Inv.request {group : GroupState} {request : ReplicaMigrationRequest} (hi : Inv crc32c h)
    (hb : request.groupId ∉ h.recoveredReplicaMigrations → (migrationIntentView request).Bounded)
    (hok : requestReplicaMigration crc32c h group request = .ok h') : Inv crc32c h' := by
  obtain ⟨hnew, files, hpersist, rfl⟩ := request_ok hok
  have hcases := persist_ok hpersist
  have hsavedNew : ∃ bytes, files.lookup request.groupId = some bytes ∧
      Loads crc32c h.config.maxReplicaMigrationAddressBytes request.groupId bytes
        (migrationIntentView request) := by
    rcases hcases with ⟨hsome, rfl⟩ | ⟨hnot, -, haddr, bytes, henc, rfl⟩
    · exact hi.saved _ _ ((intent_recovered hnew).trans hsome)
    · exact ⟨bytes, AList.lookup_insert _, loadOne_encode henc (hb hnot) haddr, rfl⟩
  have hfiles : ∀ g, g ∈ files ↔ g = request.groupId ∨ g ∈ h.files := by
    intro g
    rcases hcases with ⟨hsome, rfl⟩ | ⟨-, -, -, bytes, -, rfl⟩
    · refine ⟨Or.inr, fun hg => hg.elim (fun heq => ?_) id⟩
      rw [heq]
      exact (hi.files _).mpr (Or.inr (mem_of_lookup hsome))
    · exact AList.mem_insert _
  have hlookup : ∀ g, g ≠ request.groupId → files.lookup g = h.files.lookup g := by
    intro g hne
    rcases hcases with ⟨-, rfl⟩ | ⟨-, -, -, bytes, -, rfl⟩
    · rfl
    · exact AList.lookup_insert_ne hne
  refine ⟨⟨fun g => ?_, fun g hmem => ?_, ?_, fun g => ?_⟩, fun g i hsome => ?_, ?_⟩
  · dsimp only
    rw [hfiles g, AList.mem_insert, AList.mem_erase, hi.files g]
    by_cases heq : g = request.groupId <;> simp [heq]
  · dsimp only at hmem ⊢
    rw [AList.mem_erase]
    rintro ⟨hne, hrec⟩
    rcases (AList.mem_insert h.replicaMigrations).mp hmem with heq | hmem
    · exact hne heq
    · exact hi.disjoint g hmem hrec
  · refine List.nodup_append.mpr ⟨hi.ids, List.nodup_singleton _, ?_⟩
    intro a ha b hb heq
    rw [heq, List.mem_singleton.mp hb] at ha
    exact hnew ((hi.listed _).mp ha)
  · dsimp only
    rw [List.mem_append, List.mem_singleton, AList.mem_insert, hi.listed g, or_comm]
  · by_cases heq : g = request.groupId
    · subst heq
      rw [intent_running (AList.lookup_insert h.replicaMigrations)] at hsome
      cases hsome
      exact hsavedNew
    · dsimp only
      rw [hlookup g heq]
      unfold intent at hsome
      rw [AList.lookup_insert_ne heq, AList.lookup_erase_ne heq] at hsome
      exact hi.saved g i hsome
  · dsimp only
    have hfew := hi.few
    rw [AList.keys_insert, AList.keys_erase, List.erase_of_not_mem hnew, List.length_cons]
    rcases hcases with ⟨hsome, -⟩ | ⟨-, hroom, -⟩
    · have hmem := AList.mem_keys.mp (mem_of_lookup hsome)
      have hpos := List.length_pos_of_mem hmem
      rw [List.length_erase_of_mem hmem]
      omega
    · have hle := List.length_erase_le (a := request.groupId)
        (l := h.recoveredReplicaMigrations.keys)
      omega

/-- A recovered migration goes on. -/
theorem Inv.resume {group : GroupState} (hi : Inv crc32c h)
    (hok : resumeReplicaMigration crc32c h group g = .ok h') : Inv crc32c h' := by
  unfold resumeReplicaMigration at hok
  obtain ⟨_, -, hok⟩ := bind_eq_ok.mp hok
  split at hok
  · cases hok
  · rename_i i hsome
    have hrec := mem_of_lookup hsome
    have hnot : g ∉ h.replicaMigrations := fun hrun => hi.disjoint g hrun hrec
    obtain ⟨-, -, -, hid⟩ := hi.saved g i ((intent_recovered hnot).trans hsome)
    refine hi.request (fun hnew => absurd ?_ hnew) hok
    show i.groupId ∈ h.recoveredReplicaMigrations
    rw [hid]
    exact hrec

/-- A migration is cancelled. -/
theorem Inv.cancel (hi : Inv crc32c h) (hok : cancelReplicaMigration h g = .ok h') :
    Inv crc32c h' := by
  unfold cancelReplicaMigration at hok
  obtain ⟨_, -, hok⟩ := bind_eq_ok.mp hok
  obtain ⟨_, -, hok⟩ := bind_eq_ok.mp hok
  split at hok
  · cases hok
  · rename_i m hsome
    cases hok
    exact hi.replace hsome rfl

/-- A selected migration is one in progress. -/
theorem selected_running {offset : ℕ} (hsel : h.selected offset = some m) :
    ∃ g, h.replicaMigrations.lookup g = some m := by
  unfold selected at hsel
  split at hsel
  · cases hsel
  · rename_i g _
    exact ⟨g, hsel⟩

/-- One turn in which the migration is not told of a shutdown. -/
theorem Inv.driveOne {offset : ℕ} {advanceClock : Bool} {v : View} (hi : Inv crc32c h)
    (hc : ∀ m, h.selected offset = some m →
      Undisturbed h.config.nodeId m (h.viewOf advanceClock v)) :
    Inv crc32c (h.driveOne offset advanceClock v) := by
  unfold Host.driveOne
  split
  · exact hi
  · rename_i m hsel
    obtain ⟨g, hm⟩ := selected_running hsel
    have hkept := @step_intent m (h.viewOf advanceClock v) h.config.nodeId
    have hid := hi.groupId hm
    subst hid
    have hstep := hi.replace hm hkept
    dsimp only
    split
    · rename_i e hdone
      refine hstep.finish ?_ fun he => ?_
      · rw [show (stepReplicaMigration h.config.nodeId m (h.viewOf advanceClock v)).migration.groupId =
          m.groupId from congrArg MigrationIntent.groupId hkept]
        exact (AList.mem_insert _).mpr (Or.inl rfl)
      · rw [he] at hdone
        exact step_shuttingDown_iff.mp hdone (hc m hsel)
    · exact hstep

/-- A host over any directory that it accepts. -/
theorem Inv.create {config : HostConfig} {files : GroupMap Bytes}
    (hok : create crc32c config files = .ok h) : Inv crc32c h := by
  obtain ⟨recovered, hload, hok⟩ := bind_eq_ok.mp hok
  cases hok
  obtain ⟨hall, hfew, hlookup⟩ := loadAll_ok hload
  have hmem : ∀ g, g ∈ recovered ↔ g ∈ files := by
    intro g
    rw [← AList.lookup_isSome, ← AList.lookup_isSome, Option.isSome_iff_exists,
      Option.isSome_iff_exists]
    constructor
    · rintro ⟨i, hi⟩
      rcases (hlookup g i).mp hi with hi | ⟨bytes, hf, -⟩
      · rw [AList.lookup_empty] at hi
        cases hi
      · exact ⟨bytes, AList.mem_lookup_iff.mpr hf⟩
    · rintro ⟨bytes, hf⟩
      have hf := AList.mem_lookup_iff.mp hf
      obtain ⟨i, hl⟩ := hall _ hf
      exact ⟨i, (hlookup g i).mpr (Or.inr ⟨bytes, hf, hl⟩)⟩
  refine ⟨⟨fun g => ?_, fun g hg => absurd hg (AList.notMem_empty g), List.nodup_nil, fun g => ?_⟩,
    fun g i hsome => ?_, ?_⟩
  · dsimp only
    rw [hmem g]
    exact ⟨Or.inr, fun h => h.elim (fun h => absurd h (AList.notMem_empty g)) id⟩
  · exact ⟨fun h => (by cases h), fun h => absurd h (AList.notMem_empty g)⟩
  · rw [intent_recovered (AList.notMem_empty g)] at hsome
    rcases (hlookup g i).mp hsome with hi | ⟨bytes, hf, hl⟩
    · rw [AList.lookup_empty] at hi
      cases hi
    · exact ⟨bytes, AList.mem_lookup_iff.mpr hf, hl⟩
  · have hzero := hfew (Nat.zero_le _)
    show (∅ : GroupMap ReplicaMigration).keys.length + recovered.keys.length ≤ _
    rw [AList.keys_empty, List.length_nil, Nat.zero_add]
    exact hzero

end matching

/-! ### Runs -/

/-- The runs of a host, each turn of a migration meeting a condition.  The turns of one
`driveReplicaMigrations` are separate steps, so other calls may come between them. -/
inductive Steps (crc32c : Bytes → UInt32) (C : Host → ReplicaMigration → View → Prop)
    (h₀ : Host) : Host → Prop
  | start : Steps crc32c C h₀ h₀
  | request {h h' : Host} {group : GroupState} {request : ReplicaMigrationRequest}
      (hs : Steps crc32c C h₀ h) (hb : (migrationIntentView request).Bounded)
      (hok : requestReplicaMigration crc32c h group request = .ok h') : Steps crc32c C h₀ h'
  | resume {h h' : Host} {group : GroupState} {groupId : ℕ} (hs : Steps crc32c C h₀ h)
      (hok : resumeReplicaMigration crc32c h group groupId = .ok h') : Steps crc32c C h₀ h'
  | cancel {h h' : Host} {groupId : ℕ} (hs : Steps crc32c C h₀ h)
      (hok : cancelReplicaMigration h groupId = .ok h') : Steps crc32c C h₀ h'
  | clock {h : Host} {tickIterations : ℕ} (hs : Steps crc32c C h₀ h) :
      Steps crc32c C h₀ { h with tickIterations := tickIterations }
  | drive {h : Host} {offset : ℕ} {advanceClock : Bool} {v : View} (hs : Steps crc32c C h₀ h)
      (hc : ∀ m, h.selected offset = some m → C h m (h.viewOf advanceClock v)) :
      Steps crc32c C h₀ (h.driveOne offset advanceClock v)
  | advance {h : Host} {driveCount : ℕ} (hs : Steps crc32c C h₀ h) :
      Steps crc32c C h₀ (h.advanceCursor driveCount)

section runs
variable {crc32c : Bytes → UInt32} {C : Host → ReplicaMigration → View → Prop} {h₀ h : Host}

/-- The host after the first turns of a `driveReplicaMigrations`. -/
def turns (h : Host) (advanceClock : Bool) (views : ℕ → View) (n : ℕ) : Host :=
  (List.range n).foldl (fun h offset => h.driveOne offset advanceClock (views offset)) h

/-- A whole `driveReplicaMigrations` is a run. -/
theorem Steps.driveReplicaMigrations {advanceClock : Bool} {views : ℕ → View}
    (hs : Steps crc32c C h₀ h)
    (hc : ∀ k m, (h.turns advanceClock views k).selected k = some m →
      C (h.turns advanceClock views k) m
        ((h.turns advanceClock views k).viewOf advanceClock (views k))) :
    Steps crc32c C h₀ (h.driveReplicaMigrations advanceClock views) := by
  have hturns : ∀ n, Steps crc32c C h₀ (h.turns advanceClock views n) := by
    intro n
    induction n with
    | zero => exact hs
    | succ n ih =>
        have hnext : h.turns advanceClock views (n + 1) =
            (h.turns advanceClock views n).driveOne n advanceClock (views n) := by
          unfold turns
          rw [List.range_succ, List.foldl_append]
          rfl
        rw [hnext]
        exact ih.drive (hc n)
  unfold Host.driveReplicaMigrations
  split
  · exact hs
  · exact (hturns _).advance

/-- The step is not told of a shutdown of its group. -/
def Calm (h : Host) (m : ReplicaMigration) (v : View) : Prop := Undisturbed h.config.nodeId m v

/-- Files, maps and list stay together in every run without such steps. -/
theorem Steps.inv (hi : Inv crc32c h₀) (hs : Steps crc32c Calm h₀ h) : Inv crc32c h := by
  induction hs with
  | start => exact hi
  | request _ hb hok ih => exact ih.request (fun _ => hb) hok
  | resume _ hok ih => exact ih.resume hok
  | cancel _ hok ih => exact ih.cancel hok
  | clock _ ih => exact ⟨⟨ih.files, ih.disjoint, ih.ids, ih.listed⟩, ih.saved, ih.few⟩
  | drive _ hc ih => exact ih.driveOne hc
  | advance _ ih => exact ⟨⟨ih.files, ih.disjoint, ih.ids, ih.listed⟩, ih.saved, ih.few⟩

/-- The bound on the number of migrations is enough to end them all. -/
theorem failReplicaMigrations_ids {n : ℕ} : ∀ {h : Host}, h.replicaMigrationIds.Nodup →
    (∀ g, g ∈ h.replicaMigrationIds ↔ g ∈ h.replicaMigrations) →
    (∀ g m, h.replicaMigrations.lookup g = some m → m.groupId = g) →
    h.replicaMigrationIds.length ≤ n →
    (failReplicaMigrations .shuttingDown n h).replicaMigrationIds = [] := by
  induction n with
  | zero =>
      intro h _ _ _ hlen
      exact List.length_eq_zero_iff.mp (Nat.le_zero.mp hlen)
  | succ n ih =>
      intro h hids hlisted hkey hlen
      unfold failReplicaMigrations
      split
      · assumption
      · rename_i g rest hlist
        have hg : g ∈ h.replicaMigrationIds := by
          rw [hlist]
          exact List.mem_cons_self
        split
        · rename_i hnone
          exact absurd ((hlisted g).mp hg) (AList.lookup_eq_none.mp hnone)
        · rename_i m hm
          have hid := hkey g m hm
          have heq : h.finishReplicaMigration m (some .shuttingDown) =
              removeReplicaMigrationId { h with
                replicaMigrations := h.replicaMigrations.erase g } g := by
            unfold finishReplicaMigration
            rw [if_pos rfl, hid]
            exact if_pos (mem_of_lookup hm)
          rw [heq]
          refine ih ?_ (fun g' => ?_) (fun g' m' hm' => ?_) ?_
          · rw [removeReplicaMigrationId_ids]
            exact hids.erase _
          · simp only [removeReplicaMigrationId_ids, removeReplicaMigrationId_running,
              AList.mem_erase, hids.mem_erase_iff, hlisted g']
          · rw [removeReplicaMigrationId_running] at hm'
            dsimp only at hm'
            have hne : g' ≠ g := by
              rintro rfl
              rw [AList.lookup_erase] at hm'
              cases hm'
            rw [AList.lookup_erase_ne hne] at hm'
            exact hkey g' m' hm'
          · rw [removeReplicaMigrationId_ids]
            dsimp only
            rw [List.length_erase_of_mem hg]
            omega

/-- A host that stops has no migration left. -/
theorem stop_ids (hi : Inv crc32c h) (hrun : h.stopped = false) :
    h.stop.replicaMigrationIds = [] := by
  unfold stop
  rw [if_neg (by rw [hrun]; exact Bool.false_ne_true)]
  exact failReplicaMigrations_ids hi.ids hi.listed (fun _ _ => hi.groupId) (Nat.le_refl _)

end runs

end Host

end Migration

end Raftz
